import Mathlib
import Shading.Condition
import Shading.Preprocessor.Stream

/-!
# Every call returns

A call for a token is a chain of single steps, and the expansion of a condition is a tree of nested
expansions. Whatever macros there are and whatever files include each other, the chain is finite, the
tree exists, and after finitely many calls the end of the main source is delivered.
-/

namespace Shading

namespace Cursor

/-- Reading on reaches the end of the source, with at least one byte in each reading. -/
theorem reads_to_end (c : Cursor) : ∃ n ≤ c.rest.length, ((fun c => c.read.2)^[n] c).rest = [] := by
  induction h : c.rest.length using Nat.strong_induction_on generalizing c with
  | _ length ih =>
    subst h
    by_cases hc : c.rest = []
    · exact ⟨0, Nat.zero_le _, hc⟩
    · have hshorter := read_rest_length_lt hc
      obtain ⟨n, hn, hend⟩ := ih _ hshorter c.read.2 rfl
      exact ⟨n + 1, by omega, hend⟩

end Cursor

namespace Condition

/-- With these names disabled and at this depth of nested expansions the tokens become the result. A
macro's body is expanded one level deeper and with its name disabled, before the tokens behind it,
and the first call at the limit is the end of all of it. -/
inductive Expands (table : DefineTable) (limit : Nat) :
    List String → Nat → List Token → Except CompileError (List Token) → Prop
  | nil (disabled : List String) (depth : Nat) : Expands table limit disabled depth [] (.ok [])
  | word {disabled : List String} {depth : Nat} {t : Token} {ts : List Token}
      {result : Except CompileError (List Token)} (ht : calledMacro? table disabled t = none)
      (hts : Expands table limit disabled depth ts result) :
      Expands table limit disabled depth (t :: ts) (result.map (t :: ·))
  | tooDeep {disabled : List String} {depth : Nat} {t : Token} {d : Definition} (ts : List Token)
      (ht : calledMacro? table disabled t = some d) (hdepth : limit ≤ depth) :
      Expands table limit disabled depth (t :: ts) (.error (.expansionTooDeep d.name limit))
  | failed {disabled : List String} {depth : Nat} {t : Token} {d : Definition} (ts : List Token)
      {e : CompileError} (ht : calledMacro? table disabled t = some d) (hdepth : depth < limit)
      (hbody : Expands table limit (d.name :: disabled) (depth + 1) d.words (.error e)) :
      Expands table limit disabled depth (t :: ts) (.error e)
  | call {disabled : List String} {depth : Nat} {t : Token} {d : Definition} {ts out : List Token}
      {result : Except CompileError (List Token)} (ht : calledMacro? table disabled t = some d)
      (hdepth : depth < limit)
      (hbody : Expands table limit (d.name :: disabled) (depth + 1) d.words (.ok out))
      (hts : Expands table limit disabled depth ts result) :
      Expands table limit disabled depth (t :: ts) (result.map (out ++ ·))

variable (table : DefineTable) (limit : Nat)

lemma expands_each {room depth : Nat} (hroom : limit - depth = room)
    (hbody : ∀ room', room = room' + 1 → ∀ disabled ts,
      Expands table limit disabled (depth + 1) ts
        (replaceEach (expandToken table limit room' disabled) ts))
    (disabled : List String) (ts : List Token) :
    Expands table limit disabled depth ts
      (replaceEach (expandToken table limit room disabled) ts) := by
  induction ts with
  | nil => exact .nil disabled depth
  | cons t ts ih =>
    rw [replaceEach]
    cases hcall : calledMacro? table disabled t with
    | none =>
      have htoken : expandToken table limit room disabled t = .ok [t] := by
        rw [expandToken, hcall]
      rw [htoken]
      exact .word hcall ih
    | some d =>
      cases room with
      | zero =>
        have htoken : expandToken table limit 0 disabled t =
            .error (.expansionTooDeep d.name limit) := by
          rw [expandToken, hcall]
        rw [htoken]
        exact .tooDeep ts hcall (by omega)
      | succ room =>
        have htoken : expandToken table limit (room + 1) disabled t =
            replaceEach (expandToken table limit room (d.name :: disabled)) d.words := by
          rw [expandToken, hcall]
        have hinside := hbody room rfl (d.name :: disabled) d.words
        rw [htoken]
        cases hout : replaceEach (expandToken table limit room (d.name :: disabled)) d.words with
        | error e =>
          rw [hout] at hinside
          exact .failed ts hcall (by omega) hinside
        | ok out =>
          rw [hout] at hinside
          exact .call hcall (by omega) hinside ih

/-- Every list of tokens has an expansion at every depth: the levels that are left become fewer. -/
theorem expands_replaceEach (disabled : List String) (depth : Nat) (ts : List Token) :
    Expands table limit disabled depth ts
      (replaceEach (expandToken table limit (limit - depth) disabled) ts) := by
  induction hroom : limit - depth generalizing disabled depth ts with
  | zero => exact expands_each table limit hroom (by simp) disabled ts
  | succ room ih =>
    refine expands_each table limit hroom ?_ disabled ts
    rintro room' hroom' disabled ts
    obtain rfl := Nat.succ.inj hroom'
    exact ih disabled (depth + 1) ts (by omega)

end Condition

namespace Preprocessor

/-- Steps from the state lead to the delivery of the token. -/
inductive Produces (fs : FileSystem) : Preprocessor → LocatedToken → Preprocessor → Prop
  | deliver {p q : Preprocessor} {t : LocatedToken} (h : p.step fs = .deliver t q) :
      Produces fs p t q
  | proceed {p q r : Preprocessor} {t : LocatedToken} (h : p.step fs = .proceed q)
      (hq : Produces fs q t r) : Produces fs p t r

/-- A call for the next token: the one that was looked at, or else what steps deliver. -/
inductive Takes (fs : FileSystem) : Preprocessor → LocatedToken → Preprocessor → Prop
  | kept {p : Preprocessor} {t : LocatedToken} (h : p.lookahead = some t) :
      Takes fs p t { p with lookahead := none }
  | produced {p q : Preprocessor} {t : LocatedToken} (h : p.lookahead = none)
      (hq : Produces fs p t q) : Takes fs p t q

variable (fs : FileSystem) (p : Preprocessor)

lemma produces_produce : Produces fs p (p.produce fs).1 (p.produce fs).2 := by
  fun_induction produce fs p with
  | case1 p t q hstep => exact .deliver hstep
  | case2 p q hstep ih => exact .proceed hstep ih

lemma takes_next : Takes fs p (p.next fs).1 (p.next fs).2 := by
  unfold next
  cases hlookahead : p.lookahead with
  | some t => exact .kept hlookahead
  | none => exact .produced hlookahead (produces_produce fs p)

/-- The state behind this many calls. -/
def afterTokens (n : Nat) : Preprocessor :=
  (fun q => (q.next fs).2)^[n] p

/-- Each call that does not deliver the end makes the state smaller, so some call delivers it. -/
theorem delivers_eof : ∃ n, ((p.afterTokens fs n).next fs).1.token = .eof := by
  have hacc : Acc (Relation.TransGen Smaller) p := Smaller.wellFounded.transGen.apply p
  induction hacc with
  | intro p _ ih =>
    by_cases heof : (p.next fs).1.token = .eof
    · exact ⟨0, heof⟩
    · obtain ⟨n, hn⟩ := ih _ (next_smaller heof)
      exact ⟨n + 1, hn⟩

/-- In every state a call returns a token after finitely many steps, and finitely many calls lead to
the end of the main source, also if macros call themselves and files include themselves or each
other. The sources themselves are read to their ends, and conditions have expansions. -/
theorem preprocessing_ends :
    (∃ t q, Takes fs p t q ∧ p.next fs = (t, q)) ∧
    (∃ n, ((p.afterTokens fs n).next fs).1.token = .eof) ∧
    (∀ c : Cursor, ∃ n ≤ c.rest.length, ((fun c => c.read.2)^[n] c).rest = []) ∧
    ∀ table limit ts,
      (∀ disabled depth, ∃ result, Condition.Expands table limit disabled depth ts result) ∧
        Condition.Expands table limit [] 0 ts (Condition.expand table limit ts) :=
  ⟨⟨_, _, takes_next fs p, rfl⟩, delivers_eof fs p, Cursor.reads_to_end,
    fun table limit ts => ⟨fun disabled depth =>
      ⟨_, Condition.expands_replaceEach table limit disabled depth ts⟩,
      Condition.expands_replaceEach table limit [] 0 ts⟩⟩

end Preprocessor

end Shading
