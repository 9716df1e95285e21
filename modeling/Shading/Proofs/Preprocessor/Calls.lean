import Shading.Proofs.Preprocessor.Order

/-!
# Taking and looking

Tokens are taken, or looked at before they are taken, in any order. Whoever only takes tokens gets the
same ones, and leaves the same behind where as many tokens have been produced.
-/

namespace Shading

namespace Preprocessor

/-- The next token is taken, or looked at. -/
inductive Call
  | next
  | peek
  deriving DecidableEq, Repr

def call (fs : FileSystem) (p : Preprocessor) : Call → LocatedToken × Preprocessor
  | .next => p.next fs
  | .peek => p.peek fs

/-- What the calls return one after the other, and the state behind them. -/
def calls (fs : FileSystem) : Preprocessor → List Call → List LocatedToken × Preprocessor
  | p, [] => ([], p)
  | p, c :: cs =>
    let called := p.call fs c
    let following := calls fs called.2 cs
    (called.1 :: following.1, following.2)

/-- The number of tokens that are produced for calls. Only a token that is looked at by the last call has
not been taken yet. -/
def produced (cs : List Call) : Nat :=
  cs.count .next + if cs.getLast? = some .peek then 1 else 0

/-- The tokens that are taken, of all that are returned. -/
def taken (cs : List Call) (ts : List LocatedToken) : List LocatedToken :=
  ((cs.zip ts).filter (·.1 = .next)).map (·.2)

section Calls

variable (fs : FileSystem) (p : Preprocessor)

lemma calls_append (cs cs' : List Call) : p.calls fs (cs ++ cs') =
    ((p.calls fs cs).1 ++ ((p.calls fs cs).2.calls fs cs').1, ((p.calls fs cs).2.calls fs cs').2) := by
  induction cs generalizing p with
  | nil => rfl
  | cons c cs ih =>
    rw [List.cons_append, calls, calls, ih]
    rfl

lemma calls_concat (cs : List Call) (c : Call) : p.calls fs (cs ++ [c]) =
    ((p.calls fs cs).1 ++ [((p.calls fs cs).2.call fs c).1], ((p.calls fs cs).2.call fs c).2) :=
  p.calls_append fs cs [c]

lemma length_calls (cs : List Call) : (p.calls fs cs).1.length = cs.length := by
  induction cs generalizing p with
  | nil => rfl
  | cons c cs ih =>
    rw [calls, List.length_cons, List.length_cons]
    exact congrArg _ (ih _)

lemma produced_concat (cs : List Call) (c : Call) : produced (cs ++ [c]) = cs.count .next + 1 := by
  cases c <;> simp [produced]

lemma produced_le (cs : List Call) : produced cs ≤ cs.count .next + 1 := by
  unfold produced
  split <;> omega

lemma produced_mono (cs cs' : List Call) : produced cs ≤ produced (cs ++ cs') := by
  induction cs' using List.reverseRecOn with
  | nil => rw [List.append_nil]
  | append_singleton cs' c ih =>
    rw [← List.append_assoc, produced_concat]
    exact ih.trans (produced_le _)

/-- The state without a token that has been looked at. -/
def unlooked : Preprocessor :=
  { p with lookahead := none }

/-- The state in which the token behind this many others has been looked at. -/
def looking (n : Nat) : Preprocessor :=
  { p.afterTokens fs (n + 1) with lookahead := some (p.tokenAt fs n) }

variable {p}

lemma same_of_unlooked {q : Preprocessor} (h : p.unlooked = q.unlooked) :
    p.diagnostics = q.diagnostics ∧ p.hasFatalError = q.hasFatalError ∧ p.defines = q.defines :=
  ⟨(congrArg Preprocessor.diagnostics h :), (congrArg Preprocessor.hasFatalError h :),
    (congrArg Preprocessor.defines h :)⟩

lemma call_afterTokens (hp : p.lookahead = none) (n : Nat) (c : Call) :
    (p.afterTokens fs n).call fs c =
      (p.tokenAt fs n, if c = .peek then p.looking fs n else p.afterTokens fs (n + 1)) := by
  cases c with
  | next =>
    rw [if_neg (by simp), afterTokens_succ]
    rfl
  | peek =>
    have hnext : (p.afterTokens fs n).next fs = (p.afterTokens fs n).produce fs := by
      rw [next, lookahead_afterTokens fs hp]
    rw [if_pos rfl, looking, afterTokens_succ, tokenAt, hnext, call, peek, lookahead_afterTokens fs hp]

lemma call_looking (hp : p.lookahead = none) (n : Nat) (c : Call) :
    (p.looking fs n).call fs c =
      (p.tokenAt fs n, if c = .peek then p.looking fs n else p.afterTokens fs (n + 1)) := by
  cases c with
  | next =>
    have hstate : (p.afterTokens fs (n + 1)).unlooked = p.afterTokens fs (n + 1) := by
      rw [unlooked, ← lookahead_afterTokens fs hp (n + 1)]
    rw [if_neg (by simp), ← hstate]
    rfl
  | peek => rfl

/-- Each call returns the token behind those that were taken before it. -/
theorem calls_eq (hp : p.lookahead = none) (cs : List Call) :
    p.calls fs cs =
      ((List.range cs.length).map fun i => p.tokenAt fs ((cs.take i).count .next),
        if cs.getLast? = some .peek then p.looking fs (cs.count .next)
        else p.afterTokens fs (cs.count .next)) := by
  induction cs using List.reverseRecOn with
  | nil => rfl
  | append_singleton cs c ih =>
    have hcall : (p.calls fs cs).2.call fs c = (p.tokenAt fs (cs.count .next),
        if c = .peek then p.looking fs (cs.count .next) else p.afterTokens fs (cs.count .next + 1)) := by
      rw [ih]
      dsimp only
      split
      · exact call_looking fs hp _ c
      · exact call_afterTokens fs hp _ c
    have htokens : ((List.range cs.length).map fun i => p.tokenAt fs (((cs ++ [c]).take i).count .next)) =
        (List.range cs.length).map fun i => p.tokenAt fs ((cs.take i).count .next) := by
      refine List.map_congr_left fun i hi => ?_
      rw [List.take_append_of_le_length (List.mem_range.1 hi).le]
    rw [calls_concat, hcall, congrArg Prod.fst ih, List.length_append, List.length_singleton,
      List.range_succ, List.map_append, htokens, List.getLast?_concat, List.count_append]
    cases c <;> simp

lemma getElem_calls (hp : p.lookahead = none) {cs : List Call} {i : Nat}
    (hi : i < (p.calls fs cs).1.length) :
    (p.calls fs cs).1[i] = p.tokenAt fs ((cs.take i).count .next) := by
  simp only [calls_eq fs hp, List.getElem_map, List.getElem_range]

/-- But for a token that has been looked at, the state is one in which only tokens were taken. -/
theorem calls_behind (hp : p.lookahead = none) (cs : List Call) :
    (p.calls fs cs).2.unlooked = (p.afterTokens fs (produced cs)).unlooked := by
  rw [calls_eq fs hp, produced]
  dsimp only
  split <;> rfl

lemma calls_next (hp : p.lookahead = none) (n : Nat) :
    p.calls fs (List.replicate n .next) = ((List.range n).map (p.tokenAt fs), p.afterTokens fs n) := by
  have hlast : (List.replicate n Call.next).getLast? ≠ some .peek := by
    intro h
    cases List.eq_of_mem_replicate (List.mem_of_getLast? h)
  rw [calls_eq fs hp, if_neg hlast, List.count_replicate_self, List.length_replicate]
  congr 1
  refine List.map_congr_left fun i hi => ?_
  rw [List.take_replicate, List.count_replicate_self, Nat.min_eq_left (List.mem_range.1 hi).le]

/-- The tokens that are taken are those that whoever only takes tokens gets. -/
theorem taken_calls (hp : p.lookahead = none) (cs : List Call) :
    taken cs (p.calls fs cs).1 = (List.range (cs.count .next)).map (p.tokenAt fs) := by
  induction cs using List.reverseRecOn with
  | nil => rfl
  | append_singleton cs c ih =>
    have hlength := length_calls fs p cs
    have hcall : ((p.calls fs cs).2.call fs c).1 = p.tokenAt fs (cs.count .next) := by
      have hi : cs.length < (p.calls fs (cs ++ [c])).1.length := by simp [length_calls]
      have hlast := getElem_calls fs hp hi
      rw [List.take_left] at hlast
      rw [← hlast]
      simp [calls_concat, hlength]
    rw [calls_concat, taken, List.zip_append hlength.symm, List.filter_append, List.map_append]
    rw [taken] at ih
    rw [ih, hcall, List.count_append]
    cases c <;> simp [List.range_succ]

end Calls

/-- What calls return and leave behind. `alone` has produced as many tokens, without looking at any. -/
structure CallsAgree (fs : FileSystem) (source : Source) (p : Preprocessor) (cs : List Call)
    (answers : List LocatedToken) (q alone : Preprocessor) : Prop where
  length : answers.length = cs.length
  significant : ∀ t ∈ answers, t.token ≠ .newline ∧ t.token.isSkipped = false
  taken : taken cs answers = (p.calls fs (List.replicate (cs.count .next) .next)).1
  looked : ∀ i j (hij : i ≤ j) (hj : j < answers.length), .next ∉ (cs.take j).drop i →
    answers[i] = answers[j]
  diagnostics : q.diagnostics = alone.diagnostics
  hasFatalError : q.hasFatalError = alone.hasFatalError
  defines : q.defines = alone.defines
  /-- Behind the end nothing else is returned, reported or defined. -/
  ended : ∀ i (hi : i < answers.length), answers[i].token = .eof →
    (∀ j (hj : j < answers.length), i ≤ j → answers[j] = answers[i]) ∧
      q.diagnostics = (p.calls fs (cs.take (i + 1))).2.diagnostics ∧
      q.defines = (p.calls fs (cs.take (i + 1))).2.defines
  /-- The steps so far have reported an open group once for each end of a source that had one. If none of
  them has entered a source, the tokens stand in the order of the main one. -/
  steps : ∃ n, alone = p.steps fs n ∧
    q.diagnostics.filter (·.isUnterminated) =
      (List.range n).filterMap (fun m => (p.steps fs m).openEnd?) ∧
    (∀ m d, (p.steps fs m).openEnd? = some d →
      (p.steps fs (m + 1)).finished = true ∨ (p.steps fs (m + 1)).frames = (p.steps fs m).frames.tail) ∧
    ((∀ m ≤ n, (p.steps fs m).frames.length ≤ 1) →
      (answers.map (·.location)).Pairwise (fun l m => (compare l m).isLE = true) ∧
        ∀ t ∈ answers, t.location ∈ source.places fs)

section Agree

variable (fs : FileSystem) {p : Preprocessor} {cs : List Call}

lemma count_take_mono (cs : List Call) {i j : Nat} (h : i ≤ j) : (cs.take i).count .next ≤ (cs.take j).count .next :=
  (List.take_sublist_take_left h).count_le _

lemma count_take_eq {i j : Nat} (hij : i ≤ j) (h : .next ∉ (cs.take j).drop i) :
    (cs.take i).count .next = (cs.take j).count .next := by
  have hsplit : (cs.take i) ++ (cs.take j).drop i = cs.take j := by
    conv_rhs => rw [← List.take_append_drop i (cs.take j)]
    rw [List.take_take, Nat.min_eq_left hij]
  rw [← hsplit, List.count_append, List.count_eq_zero.2 h, Nat.add_zero]

lemma produced_take {i : Nat} (h : i < cs.length) :
    produced (cs.take (i + 1)) = (cs.take i).count .next + 1 := by
  rw [List.take_succ_eq_append_getElem h, produced_concat]

/-- The token of a call has been produced when all calls have been answered. -/
lemma count_take_lt {i : Nat} (h : i < cs.length) : (cs.take i).count .next < produced cs := by
  have hmono := produced_mono (cs.take (i + 1)) (cs.drop (i + 1))
  rw [produced_take h, List.take_append_drop] at hmono
  exact hmono

/-- Between two calls without a taken token in between, and behind the end, the answers are the same. -/
lemma getElem_calls_ended (hp : Significant p) (hlookahead : p.lookahead = none) {i : Nat}
    (hi : i < (p.calls fs cs).1.length) (heof : ((p.calls fs cs).1[i]).token = .eof) :
    (∀ j (hj : j < (p.calls fs cs).1.length), i ≤ j → (p.calls fs cs).1[j] = (p.calls fs cs).1[i]) ∧
      (p.calls fs cs).2.unlooked = (p.calls fs (cs.take (i + 1))).2.unlooked := by
  have hlength : i < cs.length := by rwa [length_calls] at hi
  rw [getElem_calls fs hlookahead] at heof
  refine ⟨?_, ?_⟩
  · intro j hj hij
    obtain ⟨k, hk⟩ := Nat.exists_eq_add_of_le (count_take_mono cs hij)
    rw [getElem_calls fs hlookahead, getElem_calls fs hlookahead, hk]
    exact (tokenAt_eof fs hp hlookahead heof k).1
  · obtain ⟨k, hk⟩ := Nat.exists_eq_add_of_le (Nat.succ_le_of_lt (count_take_lt hlength))
    rw [calls_behind fs hlookahead, calls_behind fs hlookahead, produced_take hlength, hk,
      Nat.succ_eq_add_one, Nat.add_right_comm, (tokenAt_eof fs hp hlookahead heof k).2]

/-- The answers stand in the order of the tokens that were produced. -/
theorem pairwise_calls (hlookahead : p.lookahead = none) {places : List Location}
    (hpairwise : (((List.range (produced cs)).map (p.tokenAt fs)).map (·.location)).Pairwise
      Location.Precedes)
    (hmem : ∀ t ∈ (List.range (produced cs)).map (p.tokenAt fs), t.location ∈ places) :
    ((p.calls fs cs).1.map (·.location)).Pairwise (fun l m => (compare l m).isLE = true) ∧
      ∀ t ∈ (p.calls fs cs).1, t.location ∈ places := by
  simp only [Location.isLE_compare]
  constructor
  · rw [List.pairwise_map, List.pairwise_iff_getElem]
    intro i j hi hj hij
    have hj' : j < cs.length := by rwa [length_calls] at hj
    rw [getElem_calls fs hlookahead, getElem_calls fs hlookahead]
    rcases (count_take_mono cs hij.le).eq_or_lt with heq | hlt
    · rw [heq]
      exact Location.precedes_refl _
    · rw [List.map_map, List.pairwise_map] at hpairwise
      have hranges := List.pairwise_iff_getElem.1 hpairwise _ _
        (by simpa using hlt.trans (count_take_lt hj')) (by simpa using count_take_lt hj') hlt
      simpa using hranges
  · intro t ht
    obtain ⟨i, hi, rfl⟩ := List.mem_iff_getElem.1 ht
    have hi' : i < cs.length := by rwa [length_calls] at hi
    rw [getElem_calls fs hlookahead]
    exact hmem _ (List.mem_map_of_mem (List.mem_range.2 (count_take_lt hi')))

end Agree

section Start

variable {c : Compiler}

lemma unterminated_start (c : Compiler) (fs : FileSystem) (source : Source) :
    (c.preprocessor fs source).diagnostics.filter (·.isUnterminated) = [] := by
  unfold Compiler.preprocessor start
  dsimp only
  split <;> rfl

/-- Whatever the order in which tokens are taken and looked at: the tokens are those that whoever only
takes them gets, a token that is looked at is taken next, and what is reported and defined depends only
on how many tokens have been produced. -/
theorem calls_agree (hc : c.Reachable) (fs : FileSystem) (source : Source) (cs : List Call) :
    CallsAgree fs source (c.preprocessor fs source) cs ((c.preprocessor fs source).calls fs cs).1
      ((c.preprocessor fs source).calls fs cs).2
      ((c.preprocessor fs source).calls fs (List.replicate (produced cs) .next)).2 := by
  obtain ⟨hlookahead, -, -⟩ := preprocessor_start c fs source
  have hnone := unterminated_start c fs source
  have hsignificant := significant_start hc fs source
  have halong := along_start fs c source
  generalize c.preprocessor fs source = p at *
  obtain ⟨hdiagnostics, hfatal, hdefines⟩ := same_of_unlooked (calls_behind fs hlookahead cs)
  have halone : (p.calls fs (List.replicate (produced cs) .next)).2 = p.afterTokens fs (produced cs) := by
    rw [calls_next fs hlookahead]
  obtain ⟨n, hsteps, hdeliveries⟩ := afterTokens_steps fs hlookahead (produced cs)
  rw [halone]
  exact {
    length := length_calls fs p cs
    significant := by
      intro t ht
      obtain ⟨i, hi, rfl⟩ := List.mem_iff_getElem.1 ht
      rw [getElem_calls fs hlookahead]
      exact tokenAt_significant fs hsignificant hlookahead _
    taken := by rw [taken_calls fs hlookahead, calls_next fs hlookahead]
    looked := by
      intro i j hij hj hnext
      rw [getElem_calls fs hlookahead, getElem_calls fs hlookahead, count_take_eq hij hnext]
    diagnostics := hdiagnostics
    hasFatalError := hfatal
    defines := hdefines
    ended := by
      intro i hi heof
      obtain ⟨hanswers, hstate⟩ := getElem_calls_ended fs hsignificant hlookahead hi heof
      obtain ⟨hreports, -, htable⟩ := same_of_unlooked hstate
      exact ⟨hanswers, hreports, htable⟩
    steps := by
      refine ⟨n, hsteps, ?_, ?_, ?_⟩
      · rw [hdiagnostics, hsteps, unterminated_steps, hnone, List.nil_append]
      · intro m d hd
        rw [steps_succ]
        exact openEnd_behind fs hd
      · intro hframes
        have hsorted := source.pairwise_places fs
        obtain ⟨hpairwise, hmem, -⟩ := along_steps hsorted halong n hframes
        rw [hdeliveries] at hpairwise hmem
        exact pairwise_calls fs hlookahead hpairwise hmem }

end Start

/-- A group that is still open at the end. -/
def openAtEnd : Preprocessor :=
  ({} : Compiler).preprocessor .empty (.ofBytes "" (Text.bytes "#if 1\na"))

theorem calls_agree_openAtEnd :
    Compiler.Reachable {} ∧
    (openAtEnd.calls .empty [.peek, .next, .next]).1 =
      [⟨⟨1, 0⟩, .identifier "a"⟩, ⟨⟨1, 0⟩, .identifier "a"⟩, ⟨⟨1, 1⟩, .eof⟩] ∧
    (openAtEnd.calls .empty [.peek, .next, .next]).2.diagnostics =
      [{ source := "", location := ⟨1, 1⟩, token := .eof, problem := .error (.directive .unterminatedIf) }] := by
  have hfirst : openAtEnd.next .empty = (⟨⟨1, 0⟩, .identifier "a"⟩, openAtEnd.steps .empty 2) :=
    next_of_steps .empty rfl (by decide +kernel) (by decide +kernel)
  have hsecond : (openAtEnd.steps .empty 2).next .empty = (⟨⟨1, 1⟩, .eof⟩, openAtEnd.steps .empty 3) :=
    next_of_steps .empty (n := 0) (lookahead_steps .empty rfl 2) rfl (by decide +kernel)
  have halone : openAtEnd.calls .empty [.next, .next] =
      ([⟨⟨1, 0⟩, .identifier "a"⟩, ⟨⟨1, 1⟩, .eof⟩], openAtEnd.steps .empty 3) := by
    simp only [calls, call, hfirst, hsecond]
  have hagree := calls_agree (.new {}) .empty (.ofBytes "" (Text.bytes "#if 1\na")) [.peek, .next, .next]
  obtain ⟨looked, first, second, hanswers⟩ := List.length_eq_three.1 hagree.length
  refine ⟨.new {}, hanswers.trans ?_, ?_⟩
  · have hlooked := hagree.looked 0 1 (by decide) (by simp [hanswers]) (by simp)
    have htaken := hagree.taken.trans (congrArg Prod.fst halone)
    simp only [hanswers, List.getElem_cons_zero, List.getElem_cons_succ] at hlooked
    rw [hanswers] at htaken
    obtain ⟨rfl, rfl⟩ : first = ⟨⟨1, 0⟩, .identifier "a"⟩ ∧ second = ⟨⟨1, 1⟩, .eof⟩ := by
      simpa [taken] using htaken
    rw [hlooked]
  · refine (hagree.diagnostics.trans (congrArg (·.2.diagnostics) halone)).trans ?_
    decide +kernel

end Preprocessor

end Shading
