import Mathlib
import Shading.Proofs.Condition.Operators

/-!
# Evaluating conditions

Conditions that the grammar derives are evaluated to the value of their tree, as long as they are
not nested too deep and never divide by zero. No other tokens are evaluated. A refusal names no
token but one of those given.
-/

namespace Shading.Condition

/-- A reader gave the value, with these tokens after it. -/
def Yields {P : List Token → Prop} (outcome : Except ConditionError (Int64 × Subtype P))
    (x : Int64) (rest : List Token) : Prop :=
  ∃ h : P rest, outcome = .ok (x, ⟨rest, h⟩)

section Readers

variable {P : List Token → Prop} {read : Reader} {x v : Int64} {ts rest : List Token}

lemma yields_ok {value : Int64 × Subtype P} :
    Yields (.ok value) v rest ↔ v = value.1 ∧ rest = value.2.1 := by
  constructor
  · rintro ⟨_, h⟩
    obtain rfl := Except.ok.inj h
    exact ⟨rfl, rfl⟩
  · rintro ⟨rfl, rfl⟩
    exact ⟨value.2.2, rfl⟩

lemma not_yields_error {e : ConditionError} :
    ¬Yields (.error e : Except ConditionError (Int64 × Subtype P)) v rest := by
  rintro ⟨_, h⟩
  cases h

lemma binary_cons (ops : List Punct) (tighter : List (List Punct)) :
    Yields (binary read (ops :: tighter) ts) v rest ↔
      ∃ x middle, Yields (binary read tighter ts) x middle ∧
        Yields (chain ops (binary read tighter) x middle) v rest := by
  rw [binary]
  cases hx : binary read tighter ts with
  | error e => simp [not_yields_error]
  | ok first =>
    obtain ⟨x, middle⟩ := first
    simp only [yields_ok]
    cases hv : chain ops (binary read tighter) x middle.1 with
    | error e =>
      simp only [not_yields_error, false_iff, not_exists, not_and]
      rintro _ _ ⟨rfl, rfl⟩
      simp [hv, not_yields_error]
    | ok final =>
      obtain ⟨value, last⟩ := final
      constructor
      · intro h
        obtain ⟨rfl, rfl⟩ := yields_ok.1 h
        exact ⟨x, middle.1, ⟨rfl, rfl⟩, _, hv⟩
      · rintro ⟨_, _, ⟨rfl, rfl⟩, h⟩
        rw [hv] at h
        obtain ⟨rfl, rfl⟩ := yields_ok.1 h
        exact ⟨_, rfl⟩

lemma chain_operator {ops : List Punct} {op : Punct} (hop : op ∈ ops) :
    Yields (chain ops read x (.punct op :: ts)) v rest ↔
      ∃ y middle z, Yields (read ts) y middle ∧ binaryValue op x y = .ok z ∧
        Yields (chain ops read z middle) v rest := by
  rw [chain, if_pos (List.contains_iff_mem.2 hop)]
  cases hy : read ts with
  | error e => simp [not_yields_error]
  | ok first =>
    obtain ⟨y, middle⟩ := first
    simp only [yields_ok]
    cases hz : binaryValue op x y with
    | error e =>
      simp only [not_yields_error, false_iff, not_exists, not_and]
      rintro _ _ z ⟨rfl, rfl⟩ h
      rw [hz] at h
      cases h
    | ok z =>
      simp only
      cases hv : chain ops read z middle.1 with
      | error e =>
        simp only [not_yields_error, false_iff, not_exists, not_and]
        rintro _ _ z' ⟨rfl, rfl⟩ h
        rw [hz] at h
        obtain rfl := Except.ok.inj h
        simp [hv, not_yields_error]
      | ok final =>
        obtain ⟨value, last⟩ := final
        constructor
        · intro h
          obtain ⟨rfl, rfl⟩ := yields_ok.1 h
          exact ⟨y, middle.1, z, ⟨rfl, rfl⟩, hz, _, hv⟩
        · rintro ⟨_, _, z', ⟨rfl, rfl⟩, h, hlast⟩
          rw [hz] at h
          obtain rfl := Except.ok.inj h
          rw [hv] at hlast
          obtain ⟨rfl, rfl⟩ := yields_ok.1 hlast
          exact ⟨_, rfl⟩

lemma chain_stop {ops : List Punct} (h : ∀ op ∈ ops, ts.head? ≠ some (.punct op)) :
    Yields (chain ops read x ts) v rest ↔ v = x ∧ rest = ts := by
  cases ts with
  | nil =>
    rw [chain]
    · exact yields_ok
    · simp
  | cons t following =>
    cases t with
    | punct op =>
      have hop : ¬ops.contains op := by
        intro hmem
        exact h op (List.contains_iff_mem.1 hmem) rfl
      rw [chain, if_neg hop]
      exact yields_ok
    | _ =>
      rw [chain]
      · exact yields_ok
      · simp

lemma operand_int (room : Nat) (value : Int32) :
    Yields (operand room (.int value :: ts)) v rest ↔ v = value.toInt64 ∧ rest = ts := by
  cases room <;> exact yields_ok

lemma operand_uint (room : Nat) (value : UInt32) :
    Yields (operand room (.uint value :: ts)) v rest ↔
      v = value.toUInt64.toInt64 ∧ rest = ts := by
  cases room <;> exact yields_ok

lemma operand_name (room : Nat) (name : String) :
    Yields (operand room (.identifier name :: ts)) v rest ↔ v = 0 ∧ rest = ts := by
  cases room <;> exact yields_ok

lemma operand_unary (room : Nat) {p : Punct} {f : Int64 → Int64} (hf : unary? p = some f) :
    Yields (operand (room + 1) (.punct p :: ts)) v rest ↔
      ∃ x, Yields (operand room ts) x rest ∧ v = f x := by
  rw [operand, operandAround, hf]
  simp only
  cases hx : operand room ts with
  | error e => simp [not_yields_error]
  | ok first =>
    obtain ⟨x, middle⟩ := first
    simp only [yields_ok]
    constructor
    · rintro ⟨rfl, rfl⟩
      exact ⟨x, ⟨rfl, rfl⟩, rfl⟩
    · rintro ⟨_, ⟨rfl, rfl⟩, rfl⟩
      exact ⟨rfl, rfl⟩

lemma operand_parens (room : Nat) :
    Yields (operand (room + 1) (.punct .leftParen :: ts)) v rest ↔
      Yields (binary (operand room) levels ts) v (.punct .rightParen :: rest) := by
  rw [operand, operandAround]
  simp only [unary?, if_true]
  cases hx : binary (operand room) levels ts with
  | error e => simp [not_yields_error]
  | ok first =>
    obtain ⟨x, middle, hlength⟩ := first
    rw [yields_ok]
    simp only
    split
    · next heq =>
      cases heq
    · next heq =>
      cases heq
      rw [yields_ok]
      simp
    · next hclose heq =>
      refine iff_of_false not_yields_error ?_
      rintro ⟨rfl, hmiddle⟩
      subst hmiddle
      exact hclose v rest _ (Except.ok.inj heq).symm

lemma operand_no_room {p : Punct} : ¬Yields (operand 0 (.punct p :: ts)) v rest := by
  rw [operand, operandAround]
  cases hf : unary? p with
  | none =>
    simp only
    split <;> exact not_yields_error
  | some f => exact not_yields_error

lemma operand_cases {room : Nat} (h : Yields (operand room ts) v rest) :
    (∃ value, ts = .int value :: rest ∧ v = value.toInt64) ∨
      (∃ value, ts = .uint value :: rest ∧ v = value.toUInt64.toInt64) ∨
      (∃ name, ts = .identifier name :: rest ∧ v = 0) ∨
      ∃ inner following, room = inner + 1 ∧
        ((∃ op : UnaryOp, ∃ x, ts = .punct op.punct :: following ∧
          Yields (operand inner following) x rest ∧ v.toInt = op.value x.toInt) ∨
          ts = .punct .leftParen :: following ∧
            Yields (binary (operand inner) levels following) v (.punct .rightParen :: rest)) := by
  cases ts with
  | nil => cases room <;> exact absurd h not_yields_error
  | cons t following =>
    cases t with
    | int value =>
      obtain ⟨rfl, rfl⟩ := (operand_int room value).1 h
      exact .inl ⟨value, rfl, rfl⟩
    | uint value =>
      obtain ⟨rfl, rfl⟩ := (operand_uint room value).1 h
      exact .inr (.inl ⟨value, rfl, rfl⟩)
    | identifier name =>
      obtain ⟨rfl, rfl⟩ := (operand_name room name).1 h
      exact .inr (.inr (.inl ⟨name, rfl, rfl⟩))
    | punct p =>
      cases room with
      | zero => exact absurd h operand_no_room
      | succ inner =>
        refine .inr (.inr (.inr ⟨inner, following, rfl, ?_⟩))
        cases hf : unary? p with
        | some f =>
          obtain ⟨op, rfl⟩ := unary?_eq_some hf
          obtain ⟨f', hf', hvalue⟩ := unary?_punct op
          obtain ⟨x, hx, rfl⟩ := (operand_unary inner hf').1 h
          exact .inl ⟨op, x, rfl, hx, hvalue x⟩
        | none =>
          by_cases hp : p = .leftParen
          · subst hp
            exact .inr ⟨rfl, (operand_parens inner).1 h⟩
          · rw [operand, operandAround, hf] at h
            simp only [if_neg hp] at h
            exact absurd h not_yields_error
    | _ => cases room <;> exact absurd h not_yields_error

end Readers

/-! ### Levels -/

def BinaryOp.all : List BinaryOp :=
  [or, and, bitOr, bitXor, bitAnd, equal, notEqual, less, greater, lessEqual, greaterEqual,
    shiftLeft, shiftRight, add, sub, mul, div, mod]

lemma BinaryOp.mem_all (op : BinaryOp) : op ∈ all := by
  cases op <;> simp [all]

def operators (level : Nat) : List Punct :=
  (BinaryOp.all.filter fun op => op.level == level).map BinaryOp.punct

lemma mem_operators {level : Nat} {p : Punct} :
    p ∈ operators level ↔ ∃ op : BinaryOp, op.level = level ∧ op.punct = p := by
  simp [operators, BinaryOp.mem_all]

lemma levels_eq : levels = (List.range operandLevel).map operators := by
  decide

def readLevel (room level : Nat) : Reader :=
  binary (operand room) (levels.drop level)

lemma readLevel_operand (room : Nat) : readLevel room operandLevel = operand room := by
  rfl

lemma readLevel_iff {room level : Nat} (hlevel : level < operandLevel) {ts rest : List Token}
    {v : Int64} :
    Yields (readLevel room level ts) v rest ↔
      ∃ x middle, Yields (readLevel room (level + 1) ts) x middle ∧
        Yields (chain (operators level) (readLevel room (level + 1)) x middle) v rest := by
  have hdrop : levels.drop level = operators level :: levels.drop (level + 1) := by
    have hlength : level < levels.length := hlevel
    rw [List.drop_eq_getElem_cons hlength]
    simp [levels_eq]
  unfold readLevel
  rw [hdrop]
  exact binary_cons (operators level) (levels.drop (level + 1))

/-! ### Derived expressions are evaluated -/

/-- From the tokens the value of the expression is read, up to `rest`. With `some x` the reader
stands behind an expression `x` of the level. -/
def ReadsValue (room level : Nat) (ts : List Token) (e : Expr) (rest : List Token) :
    Option Expr → Prop
  | none => ∃ v, Yields (readLevel room level ts) v rest ∧ v.toInt = e.value
  | some x => ∀ xv : Int64, xv.toInt = x.value →
    ∃ v, Yields (chain (operators level) (readLevel room (level + 1)) xv ts) v rest ∧
      v.toInt = e.value

lemma Reads.start_le {level : Nat} {x e : Expr} {ts : List Token}
    (h : Reads level (some x) ts e) :
    x.nesting ≤ e.nesting ∧ (e.DividesByNonzero → x.DividesByNonzero) := by
  generalize hstart : some x = start at h
  induction h generalizing x with
  | stop => cases hstart; exact ⟨Nat.le_refl _, id⟩
  | link op hop hy he _ ih =>
    cases hstart
    obtain ⟨hle, hsafe⟩ := ih rfl
    exact ⟨Nat.le_trans (Nat.le_max_left _ _) hle, fun h => (hsafe h).1⟩
  | _ => cases hstart

theorem Reads.readsValue {level : Nat} {start : Option Expr} {ts : List Token} {e : Expr}
    (h : Reads level start ts e) {room : Nat} (hnesting : e.nesting ≤ room)
    (hsafe : e.DividesByNonzero) {rest : List Token} (hrest : Stops level rest) :
    ReadsValue room level (ts ++ rest) e rest start := by
  induction h generalizing room rest with
  | int value =>
    exact ⟨_, (operand_int room value).2 ⟨rfl, rfl⟩, Int32.toInt_toInt64 value⟩
  | uint value =>
    exact ⟨_, (operand_uint room value).2 ⟨rfl, rfl⟩, toInt_uint value⟩
  | name name =>
    exact ⟨_, (operand_name room name).2 ⟨rfl, rfl⟩, rfl⟩
  | parens h ih =>
    obtain ⟨inner, rfl⟩ : ∃ inner, room = inner + 1 :=
      Nat.exists_eq_add_one.2 (Nat.lt_of_lt_of_le (Nat.succ_pos _) hnesting)
    obtain ⟨v, hv, hvalue⟩ := ih (Nat.le_of_succ_le_succ hnesting) hsafe
      (stops_rightParen 0 rest)
    refine ⟨v, ?_, hvalue⟩
    rw [readLevel_operand, List.cons_append, List.append_assoc, operand_parens]
    exact hv
  | unary op h ih =>
    obtain ⟨inner, rfl⟩ : ∃ inner, room = inner + 1 :=
      Nat.exists_eq_add_one.2 (Nat.lt_of_lt_of_le (Nat.succ_pos _) hnesting)
    obtain ⟨x, hx, hvalue⟩ := ih (Nat.le_of_succ_le_succ hnesting) hsafe hrest
    obtain ⟨f, hf, hfvalue⟩ := unary?_punct op
    refine ⟨f x, (operand_unary inner hf).2 ⟨x, hx, rfl⟩, ?_⟩
    rw [hfvalue, hvalue]
    rfl
  | first hlevel hx he ihx ihe =>
    obtain ⟨hle, hfirst⟩ := he.start_le
    obtain ⟨x, hxread, hxvalue⟩ :=
      ihx (Nat.le_trans hle hnesting) (hfirst hsafe) (he.stops hrest)
    obtain ⟨v, hv, hvalue⟩ := ihe hnesting hsafe hrest x hxvalue
    refine ⟨v, ?_, hvalue⟩
    rw [List.append_assoc]
    exact (readLevel_iff hlevel).2 ⟨x, _, hxread, hv⟩
  | stop level e =>
    intro x hx
    refine ⟨x, (chain_stop ?_).2 ⟨rfl, rfl⟩, hx⟩
    intro p hp hhead
    obtain ⟨op, hop, rfl⟩ := mem_operators.1 hp
    exact absurd (hrest op hhead) (by omega)
  | link op hop hy he ihy ihe =>
    intro x hx
    obtain ⟨hle, hfirst⟩ := he.start_le
    obtain ⟨-, hysafe, hdivides⟩ := hfirst hsafe
    have hynesting := Nat.le_trans (Nat.le_trans (Nat.le_max_right _ _) hle) hnesting
    obtain ⟨y, hyread, hyvalue⟩ := ihy hynesting hysafe (he.stops hrest)
    rw [← hyvalue] at hdivides
    obtain ⟨z, hz, hzvalue⟩ := binaryValue_punct op x y hdivides
    rw [hx, hyvalue] at hzvalue
    obtain ⟨v, hv, hvalue⟩ := ihe hnesting hsafe hrest z hzvalue
    refine ⟨v, ?_, hvalue⟩
    rw [List.cons_append, List.append_assoc]
    exact (chain_operator (mem_operators.2 ⟨op, hop, rfl⟩)).2 ⟨y, _, z, hyread, hz, hv⟩

/-! ### Evaluated tokens are derived -/

/-- The reader reads expressions of the level only, with at most `room` nestings. -/
def IsSound (room level : Nat) (read : Reader) : Prop :=
  ∀ ts v rest, Yields (read ts) v rest →
    ∃ us e, ts = us ++ rest ∧ Derives level us e ∧ e.nesting ≤ room ∧ e.DividesByNonzero ∧
      v.toInt = e.value

lemma chain_derives {room level : Nat} {read : Reader} (hread : IsSound room (level + 1) read)
    (ts : List Token) {front : List Token} {e₀ : Expr} {x v : Int64} {rest : List Token}
    (hfront : Derives level front e₀) (hnesting : e₀.nesting ≤ room)
    (hsafe : e₀.DividesByNonzero) (hx : x.toInt = e₀.value)
    (h : Yields (chain (operators level) read x ts) v rest) :
    ∃ us e, ts = us ++ rest ∧ Derives level (front ++ us) e ∧ e.nesting ≤ room ∧
      e.DividesByNonzero ∧ v.toInt = e.value := by
  by_cases hop : ∃ op ∈ operators level, ts.head? = some (.punct op)
  · obtain ⟨p, hp, hhead⟩ := hop
    obtain ⟨following, rfl⟩ := List.head?_eq_some_iff.1 hhead
    obtain ⟨y, middle, z, hy, hz, hlast⟩ := (chain_operator hp).1 h
    obtain ⟨op, hlevel, rfl⟩ := mem_operators.1 hp
    have hlength : middle.length < following.length := hy.1
    obtain ⟨us, e, rfl, he, henesting, hesafe, hevalue⟩ := hread _ _ _ hy
    obtain ⟨hdivides, hzvalue⟩ := binaryValue_ok hz
    rw [hevalue] at hdivides
    rw [hx, hevalue] at hzvalue
    have hbinary : Derives level (front ++ .punct op.punct :: us) (.binary op e₀ e) := by
      subst hlevel
      exact .binary op hfront he
    obtain ⟨vs, e', rfl, he', hrest⟩ := chain_derives hread middle hbinary
      (Nat.max_le.2 ⟨hnesting, henesting⟩) ⟨hsafe, hesafe, hdivides⟩ hzvalue hlast
    refine ⟨.punct op.punct :: (us ++ vs), e', by simp, ?_, hrest⟩
    simpa using he'
  · obtain ⟨rfl, rfl⟩ := (chain_stop (fun p hp hhead => hop ⟨p, hp, hhead⟩)).1 h
    exact ⟨[], e₀, rfl, by simpa using hfront, hnesting, hsafe, hx⟩
termination_by ts.length

lemma readLevel_sound {room : Nat} (hoperand : IsSound room operandLevel (operand room))
    (level : Nat) (hle : level ≤ operandLevel) : IsSound room level (readLevel room level) := by
  induction hle using Nat.decreasingInduction with
  | self => exact hoperand
  | of_succ level hlevel ih =>
    intro ts v rest h
    obtain ⟨x, middle, hx, hv⟩ := (readLevel_iff hlevel).1 h
    obtain ⟨us, e₀, rfl, he₀, hnesting, hsafe, hvalue⟩ := ih _ _ _ hx
    obtain ⟨vs, e, rfl, he, hrest⟩ :=
      chain_derives ih middle (.loosen hlevel he₀) hnesting hsafe hvalue hv
    exact ⟨us ++ vs, e, (List.append_assoc us vs rest).symm, he, hrest⟩

theorem operand_sound (room : Nat) : IsSound room operandLevel (operand room) := by
  induction room using Nat.strong_induction_on with
  | h room ih =>
    intro ts v rest h
    rcases operand_cases h with ⟨value, rfl, rfl⟩ | ⟨value, rfl, rfl⟩ | ⟨name, rfl, rfl⟩ | hinner
    · exact ⟨[_], _, rfl, .int value, Nat.zero_le _, trivial, Int32.toInt_toInt64 value⟩
    · exact ⟨[_], _, rfl, .uint value, Nat.zero_le _, trivial, toInt_uint value⟩
    · exact ⟨[_], _, rfl, .name name, Nat.zero_le _, trivial, rfl⟩
    · obtain ⟨inner, following, rfl, hcase⟩ := hinner
      have hinner := ih inner (Nat.lt_succ_self inner)
      rcases hcase with ⟨op, x, rfl, hx, hvalue⟩ | ⟨rfl, hx⟩
      · obtain ⟨us, e, rfl, he, hnesting, hsafe, hevalue⟩ := hinner _ _ _ hx
        rw [hevalue] at hvalue
        exact ⟨_ :: us, _, rfl, .unary op he, Nat.succ_le_succ hnesting, hsafe, hvalue⟩
      · obtain ⟨us, e, rfl, he, hnesting, hsafe, hvalue⟩ :=
          readLevel_sound hinner 0 (Nat.zero_le _) _ _ _ hx
        refine ⟨_, _, ?_, .parens he, Nat.succ_le_succ hnesting, hsafe, hvalue⟩
        simp

lemma evaluate_eq_ok_iff {ts : List Token} {v : Int64} :
    evaluate ts = .ok v ↔ Yields (readLevel maxNesting 0 ts) v [] := by
  have hread : readLevel maxNesting 0 ts = binary (operand maxNesting) levels ts := rfl
  rw [evaluate, hread]
  cases ts with
  | nil =>
    simp only [List.isEmpty_nil, if_true, reduceCtorEq, false_iff]
    rintro ⟨h, -⟩
    exact Nat.not_lt_zero _ h
  | cons t ts =>
    simp only [List.isEmpty_cons, Bool.false_eq_true, if_false]
    cases binary (operand maxNesting) levels (t :: ts) with
    | error e => simp [not_yields_error]
    | ok first =>
      obtain ⟨x, rest, hlength⟩ := first
      rw [yields_ok]
      cases rest with
      | nil => simp [eq_comm]
      | cons u us => simp

/-! ### What is refused -/

/-- Why a reading of the tokens fails: a token that is named is one of them, and there is no
operator that is not supported. -/
def RefusesWithin (ts : List Token) : ConditionError → Prop
  | .unexpectedToken text => ∃ t ∈ ts, text = t.text
  | .unsupportedOperator _ => False
  | _ => True

/-- A reading leaves tokens that it was given, and refuses none but these. -/
def StaysWithin {P : List Token → Prop} (ts : List Token) :
    Except ConditionError (Int64 × Subtype P) → Prop
  | .ok (_, rest) => rest.1 ⊆ ts
  | .error e => RefusesWithin ts e

lemma RefusesWithin.mono {ts us : List Token} {e : ConditionError} (h : RefusesWithin ts e)
    (hsub : ts ⊆ us) : RefusesWithin us e := by
  cases e with
  | unexpectedToken text =>
    obtain ⟨t, ht, htext⟩ := h
    exact ⟨t, hsub ht, htext⟩
  | _ => exact h

section Within

variable {P Q : List Token → Prop} {ts us : List Token} {read : Reader}

lemma StaysWithin.mono {outcome : Except ConditionError (Int64 × Subtype P)}
    (h : StaysWithin ts outcome) (hsub : ts ⊆ us) : StaysWithin us outcome := by
  cases outcome with
  | ok result => exact List.Subset.trans h hsub
  | error e => exact RefusesWithin.mono h hsub

lemma StaysWithin.error {outcome : Except ConditionError (Int64 × Subtype P)} {e : ConditionError}
    (h : StaysWithin ts outcome) (he : outcome = .error e) :
    StaysWithin ts (.error e : Except ConditionError (Int64 × Subtype Q)) := by
  rw [he] at h
  exact h

lemma StaysWithin.ok {outcome : Except ConditionError (Int64 × Subtype P)}
    {result : Int64 × Subtype P} (h : StaysWithin ts outcome) (hok : outcome = .ok result) :
    result.2.1 ⊆ ts := by
  rw [hok] at h
  exact h

lemma staysWithin_unexpected {t : Token} (h : t ∈ ts) :
    StaysWithin ts (.error (.unexpectedToken t.text) : Except ConditionError (Int64 × Subtype P)) :=
  ⟨t, h, rfl⟩

/-- An operator is refused for a zero divisor only. -/
def DividesOnly (op : Punct) : Prop :=
  ∀ x y e, binaryValue op x y = .error e → e = .divisionByZero

lemma dividesOnly_punct (op : BinaryOp) : DividesOnly op.punct := by
  intro x y e he
  by_cases hzero : (op = .div ∨ op = .mod) ∧ y.toInt = 0
  · rw [binaryValue_by_zero op x y hzero.1 hzero.2] at he
    exact (Except.error.inj he).symm
  · obtain ⟨z, hz, -⟩ := binaryValue_punct op x y fun hop hy => hzero ⟨hop, hy⟩
    rw [hz] at he
    cases he

lemma dividesOnly_levels : ∀ ops ∈ levels, ∀ op ∈ ops, DividesOnly op := by
  intro ops hops p hp
  rw [levels_eq] at hops
  obtain ⟨level, -, rfl⟩ := List.mem_map.1 hops
  obtain ⟨op, -, rfl⟩ := mem_operators.1 hp
  exact dividesOnly_punct op

lemma chain_within (hread : ∀ ts, StaysWithin ts (read ts)) {ops : List Punct}
    (hops : ∀ op ∈ ops, DividesOnly op) (x : Int64) (ts : List Token) :
    StaysWithin ts (chain ops read x ts) := by
  fun_induction chain ops read x ts with
  | case1 x op following hop e he =>
    exact ((hread following).error he).mono (List.subset_cons_self _ _)
  | case2 x op following hop y rest hrest e he =>
    obtain rfl := hops op (List.contains_iff_mem.1 hop) _ _ _ he
    trivial
  | case3 x op following hop y rest hrest z hz e he ih =>
    have hrest := (hread following).ok hrest
    exact (ih.error he).mono (List.Subset.trans hrest (List.subset_cons_self _ _))
  | case4 x op following hop y rest hrest z hz value last hlast ih =>
    have hrest := (hread following).ok hrest
    exact List.Subset.trans (ih.ok hlast) (List.Subset.trans hrest (List.subset_cons_self _ _))
  | case5 => exact List.Subset.refl _
  | case6 => exact List.Subset.refl _

lemma binary_within (hread : ∀ ts, StaysWithin ts (read ts)) {groups : List (List Punct)}
    (hgroups : ∀ ops ∈ groups, ∀ op ∈ ops, DividesOnly op) (ts : List Token) :
    StaysWithin ts (binary read groups ts) := by
  induction groups generalizing ts with
  | nil => exact hread ts
  | cons ops tighter ih =>
    obtain ⟨hops, htighter⟩ := List.forall_mem_cons.1 hgroups
    rw [binary]
    cases hx : binary read tighter ts with
    | error e => exact (ih htighter ts).error hx
    | ok first =>
      obtain ⟨x, middle⟩ := first
      have hmiddle := (ih htighter ts).ok hx
      have hchain := (chain_within (ih htighter) hops x middle.1).mono hmiddle
      simp only
      cases hv : chain ops (binary read tighter) x middle.1 with
      | error e => exact hchain.error hv
      | ok => exact hchain.ok hv

lemma operandAround_within {inner : Option Reader}
    (hinner : ∀ read, inner = some read → ∀ ts, StaysWithin ts (read ts)) (ts : List Token) :
    StaysWithin ts (operandAround inner ts) := by
  rcases ts with _ | ⟨t, following⟩
  · trivial
  have hfollowing : following ⊆ t :: following := List.subset_cons_self _ _
  cases t with
  | punct p =>
    unfold operandAround
    cases hf : unary? p with
    | some f =>
      simp only [hf]
      cases inner with
      | none => trivial
      | some read =>
        have hread := (hinner read rfl following).mono hfollowing
        simp only
        cases hx : read following with
        | error e => exact hread.error hx
        | ok => exact hread.ok hx
    | none =>
      by_cases hp : p = .leftParen
      · simp only [hf, if_pos hp]
        cases inner with
        | none => trivial
        | some read =>
          have hread :=
            (binary_within (hinner read rfl) dividesOnly_levels following).mono hfollowing
          simp only
          cases hx : binary read levels following with
          | error e => exact hread.error hx
          | ok first =>
            have hrest := hread.ok hx
            obtain ⟨x, rest, hlength⟩ := first
            rcases rest with _ | ⟨u, rest⟩
            · trivial
            cases u with
            | punct q =>
              cases q <;>
                first
                | exact List.Subset.trans (List.subset_cons_self _ _) hrest
                | trivial
            | _ => trivial
      · simp only [hf, if_neg hp]
        exact staysWithin_unexpected (t := .punct p) List.mem_cons_self
  | int => exact hfollowing
  | uint => exact hfollowing
  | identifier => exact hfollowing
  | _ => exact staysWithin_unexpected List.mem_cons_self

lemma operand_within (room : Nat) (ts : List Token) : StaysWithin ts (operand room ts) := by
  induction room generalizing ts with
  | zero =>
    refine operandAround_within ?_ ts
    intro read h
    cases h
  | succ room ih =>
    refine operandAround_within ?_ ts
    intro read h
    obtain rfl := Option.some.inj h
    exact ih

lemma evaluate_refused {e : ConditionError} (h : evaluate ts = .error e) : RefusesWithin ts e := by
  have hwithin := binary_within (operand_within maxNesting) dividesOnly_levels ts
  unfold evaluate at h
  split at h
  · obtain rfl := Except.error.inj h
    trivial
  · cases hread : binary (operand maxNesting) levels ts with
    | error e =>
      rw [hread] at h hwithin
      obtain rfl := Except.error.inj h
      exact hwithin
    | ok first =>
      rw [hread] at h hwithin
      obtain ⟨x, rest, hlength⟩ := first
      cases rest with
      | nil => cases h
      | cons t rest =>
        obtain rfl := Except.error.inj h
        exact ⟨t, hwithin List.mem_cons_self, rfl⟩

end Within

lemma evaluate_supported (ts : List Token) (op : Punct) :
    evaluate ts ≠ .error (.unsupportedOperator op) := by
  intro h
  exact evaluate_refused h

/-- Tokens are evaluated to the value of the expression that they spell. They are refused if there
is none, or if it is nested too deep or divides by zero. -/
theorem evaluate_iff_derives :
    (∀ ts v, evaluate ts = .ok v ↔
      ∃ e, Derives 0 ts e ∧ e.nesting ≤ 128 ∧ e.DividesByNonzero ∧ v.toInt = e.value) ∧
    (∀ ts e e', Derives 0 ts e → Derives 0 ts e' → e = e') ∧
    ∀ ts op, evaluate ts ≠ .error (.unsupportedOperator op) := by
  refine ⟨?_, fun _ _ _ => Derives.unique, ?_⟩
  · intro ts v
    rw [evaluate_eq_ok_iff]
    constructor
    · intro h
      obtain ⟨us, e, rfl, he⟩ :=
        readLevel_sound (operand_sound maxNesting) 0 (Nat.zero_le _) _ _ _ h
      rw [List.append_nil]
      exact ⟨e, he⟩
    · rintro ⟨e, he, hnesting, hsafe, hvalue⟩
      have hnil : Stops 0 [] := by
        intro op hop
        cases hop
      obtain ⟨w, hw, hwvalue⟩ := he.reads.readsValue hnesting hsafe hnil
      rw [List.append_nil] at hw
      obtain rfl := Int64.toInt_inj.1 (hvalue.trans hwvalue.symm)
      exact hw
  · exact evaluate_supported

end Shading.Condition
