import Mathlib
import Shading.Token

/-!
# The grammar of conditions

The trees of conditions, the tokens that spell them on each of the ten levels of operators and on
the level of operands, and their value in two's complement arithmetic of 64 bits.
-/

namespace Shading.Condition

inductive UnaryOp
  | not | complement | negate | plus

inductive BinaryOp
  | or | and | bitOr | bitXor | bitAnd
  | equal | notEqual | less | greater | lessEqual | greaterEqual
  | shiftLeft | shiftRight | add | sub | mul | div | mod

inductive Expr
  | int (value : Int32)
  | uint (value : UInt32)
  | name (name : String)
  | parens (e : Expr)
  | unary (op : UnaryOp) (e : Expr)
  | binary (op : BinaryOp) (x y : Expr)

def UnaryOp.punct : UnaryOp → Punct
  | not => .bang
  | complement => .tilde
  | negate => .dash
  | plus => .plus

def BinaryOp.punct : BinaryOp → Punct
  | or => .orElse
  | and => .andAlso
  | bitOr => .verticalBar
  | bitXor => .caret
  | bitAnd => .ampersand
  | equal => .equalTo
  | notEqual => .notEqualTo
  | less => .leftAngle
  | greater => .rightAngle
  | lessEqual => .lessEqual
  | greaterEqual => .greaterEqual
  | shiftLeft => .shiftLeft
  | shiftRight => .shiftRight
  | add => .plus
  | sub => .dash
  | mul => .star
  | div => .slash
  | mod => .percent

/-- The level of a binary operator; those on higher levels bind tighter. -/
def BinaryOp.level : BinaryOp → Nat
  | or => 0
  | and => 1
  | bitOr => 2
  | bitXor => 3
  | bitAnd => 4
  | equal | notEqual => 5
  | less | greater | lessEqual | greaterEqual => 6
  | shiftLeft | shiftRight => 7
  | add | sub => 8
  | mul | div | mod => 9

/-- The level of operands, above all binary operators. -/
def operandLevel : Nat := 10

/-- The tokens spell the expression on the level. Binary operators group to the left. -/
inductive Derives : (level : Nat) → List Token → Expr → Prop
  | int (value : Int32) : Derives operandLevel [.int value] (.int value)
  | uint (value : UInt32) : Derives operandLevel [.uint value] (.uint value)
  | name (name : String) : Derives operandLevel [.identifier name] (.name name)
  | parens {ts : List Token} {e : Expr} (h : Derives 0 ts e) :
      Derives operandLevel (.punct .leftParen :: (ts ++ [.punct .rightParen])) (.parens e)
  | unary (op : UnaryOp) {ts : List Token} {e : Expr} (h : Derives operandLevel ts e) :
      Derives operandLevel (.punct op.punct :: ts) (.unary op e)
  | loosen {level : Nat} {ts : List Token} {e : Expr} (hlevel : level < operandLevel)
      (h : Derives (level + 1) ts e) : Derives level ts e
  | binary (op : BinaryOp) {ts us : List Token} {x y : Expr} (hx : Derives op.level ts x)
      (hy : Derives (op.level + 1) us y) :
      Derives op.level (ts ++ .punct op.punct :: us) (.binary op x y)

/-- How many parentheses and unary operators stand around a primary, at most. -/
def Expr.nesting : Expr → Nat
  | int _ | uint _ | name _ => 0
  | parens e | unary _ e => e.nesting + 1
  | binary _ x y => max x.nesting y.nesting

/-! ### Values -/

/-- The number of 64 bits in two's complement that agrees with `x` in its lowest bits. -/
def wrap (x : Int) : Int :=
  x.bmod (2 ^ 64)

def bits (x : Int) : Nat :=
  (x % 2 ^ 64).toNat

def truth (p : Prop) [Decidable p] : Int :=
  if p then 1 else 0

def UnaryOp.value (op : UnaryOp) (x : Int) : Int :=
  match op with
  | not => truth (x = 0)
  | complement => -x - 1
  | negate => wrap (-x)
  | plus => x

/-- The value of a binary operator. Division truncates, and shifts go by the count modulo 64; to
the right they round down. -/
def BinaryOp.value (op : BinaryOp) (x y : Int) : Int :=
  match op with
  | or => truth (x ≠ 0 ∨ y ≠ 0)
  | and => truth (x ≠ 0 ∧ y ≠ 0)
  | bitOr => wrap (bits x ||| bits y : Nat)
  | bitXor => wrap (bits x ^^^ bits y : Nat)
  | bitAnd => wrap (bits x &&& bits y : Nat)
  | equal => truth (x = y)
  | notEqual => truth (x ≠ y)
  | less => truth (x < y)
  | greater => truth (x > y)
  | lessEqual => truth (x ≤ y)
  | greaterEqual => truth (x ≥ y)
  | shiftLeft => wrap (x * 2 ^ (y % 64).toNat)
  | shiftRight => x / 2 ^ (y % 64).toNat
  | add => wrap (x + y)
  | sub => wrap (x - y)
  | mul => wrap (x * y)
  | div => wrap (x.tdiv y)
  | mod => x.tmod y

def Expr.value : Expr → Int
  | int value => value.toInt
  | uint value => value.toNat
  | name _ => 0
  | parens e => e.value
  | unary op e => op.value e.value
  | binary op x y => op.value x.value y.value

/-- No division in the expression has zero on its right. -/
def Expr.DividesByNonzero : Expr → Prop
  | int _ | uint _ | name _ => True
  | parens e | unary _ e => e.DividesByNonzero
  | binary op x y =>
    x.DividesByNonzero ∧ y.DividesByNonzero ∧ (op = .div ∨ op = .mod → y.value ≠ 0)

example : Expr.value (.binary .div (.unary .negate (.int 7)) (.int 2)) = -3 := by decide

/-! ### Derivations are unique -/

/-- The tokens do not go on with a binary operator of the level or a higher one. -/
def Stops (level : Nat) (ts : List Token) : Prop :=
  ∀ op : BinaryOp, ts.head? = some (.punct op.punct) → op.level < level

/-- The same grammar read from left to right: an operand, and then operators of the level, each
with an operand. With `some x` the tokens continue the expression `x`. -/
inductive Reads : (level : Nat) → Option Expr → List Token → Expr → Prop
  | int (value : Int32) : Reads operandLevel none [.int value] (.int value)
  | uint (value : UInt32) : Reads operandLevel none [.uint value] (.uint value)
  | name (name : String) : Reads operandLevel none [.identifier name] (.name name)
  | parens {ts : List Token} {e : Expr} (h : Reads 0 none ts e) :
      Reads operandLevel none (.punct .leftParen :: (ts ++ [.punct .rightParen])) (.parens e)
  | unary (op : UnaryOp) {ts : List Token} {e : Expr} (h : Reads operandLevel none ts e) :
      Reads operandLevel none (.punct op.punct :: ts) (.unary op e)
  | first {level : Nat} {ts us : List Token} {x e : Expr} (hlevel : level < operandLevel)
      (hx : Reads (level + 1) none ts x) (he : Reads level (some x) us e) :
      Reads level none (ts ++ us) e
  | stop (level : Nat) (e : Expr) : Reads level (some e) [] e
  | link {level : Nat} (op : BinaryOp) (hop : op.level = level) {us ts : List Token}
      {x y e : Expr} (hy : Reads (level + 1) none us y)
      (he : Reads level (some (.binary op x y)) ts e) :
      Reads level (some x) (.punct op.punct :: (us ++ ts)) e

lemma level_lt_operandLevel (op : BinaryOp) : op.level < operandLevel := by
  cases op <;> decide

lemma Reads.append {op : BinaryOp} {level : Nat} {start : Option Expr} {ts us : List Token}
    {x y : Expr} (hx : Reads level start ts x) (hop : op.level = level)
    (hy : Reads (level + 1) none us y) :
    Reads level start (ts ++ .punct op.punct :: us) (.binary op x y) := by
  have hlt := level_lt_operandLevel op
  induction hx with
  | int | uint | name | parens | unary => exact absurd hop (Nat.ne_of_lt hlt)
  | first h hx he _ ih =>
    rw [List.append_assoc]
    exact .first h hx (ih hop hy)
  | stop level e =>
    have hlast := Reads.link op hop hy (.stop level (.binary op e y))
    rw [List.append_nil] at hlast
    exact hlast
  | link op' hop' hy' he _ ih =>
    rw [List.cons_append, List.append_assoc]
    exact .link op' hop' hy' (ih hop hy)

theorem Derives.reads {level : Nat} {ts : List Token} {e : Expr} (h : Derives level ts e) :
    Reads level none ts e := by
  induction h with
  | int value => exact .int value
  | uint value => exact .uint value
  | name name => exact .name name
  | parens _ ih => exact .parens ih
  | unary op _ ih => exact .unary op ih
  | loosen hlevel _ ih =>
    have hfirst := Reads.first hlevel ih (.stop _ _)
    rw [List.append_nil] at hfirst
    exact hfirst
  | binary op _ _ ihx ihy => exact ihx.append rfl ihy

lemma unaryPunct_inj {op op' : UnaryOp} (h : op.punct = op'.punct) : op = op' := by
  cases op <;> cases op' <;> first | rfl | cases h

lemma unaryPunct_ne_leftParen (op : UnaryOp) : op.punct ≠ .leftParen := by
  cases op <;> simp [UnaryOp.punct]

lemma binaryPunct_inj {op op' : BinaryOp} (h : op.punct = op'.punct) : op = op' := by
  cases op <;> cases op' <;> first | rfl | cases h

lemma stops_punct {p : Punct} (hp : ∀ op : BinaryOp, op.punct ≠ p) (level : Nat)
    (ts : List Token) : Stops level (.punct p :: ts) := by
  intro op h
  exact absurd (Token.punct.inj (Option.some.inj h)).symm (hp op)

lemma stops_rightParen (level : Nat) (ts : List Token) :
    Stops level (.punct .rightParen :: ts) :=
  stops_punct (by intro op; cases op <;> simp [BinaryOp.punct]) level ts

lemma stops_operator {op : BinaryOp} {level : Nat} (h : op.level < level) (ts : List Token) :
    Stops level (.punct op.punct :: ts) := by
  intro op' hop'
  obtain rfl := binaryPunct_inj (Token.punct.inj (Option.some.inj hop'))
  exact h

lemma Stops.mono {level higher : Nat} {ts : List Token} (h : Stops level ts)
    (hle : level ≤ higher) : Stops higher ts :=
  fun op hop => Nat.lt_of_lt_of_le (h op hop) hle

lemma Reads.stops {level : Nat} {x e : Expr} {ts rest : List Token}
    (h : Reads level (some x) ts e) (hrest : Stops level rest) :
    Stops (level + 1) (ts ++ rest) := by
  cases h with
  | stop => exact hrest.mono (Nat.le_succ level)
  | link op hop => exact stops_operator (by omega) _

/-- A list of tokens begins with at most one expression of a level that cannot go on. -/
theorem Reads.unique {level : Nat} {start : Option Expr} {ts : List Token} {e : Expr}
    (h : Reads level start ts e) {ts' rest rest' : List Token} {e' : Expr}
    (h' : Reads level start ts' e') (heq : ts ++ rest = ts' ++ rest')
    (hrest : Stops level rest) (hrest' : Stops level rest') : e = e' ∧ rest = rest' := by
  induction h generalizing ts' rest rest' e' with
  | int value =>
    cases h' <;> simp_all [operandLevel]
  | uint value =>
    cases h' <;> simp_all [operandLevel]
  | name name =>
    cases h' <;> simp_all [operandLevel]
  | parens h ih =>
    cases h' with
    | parens h' =>
      simp only [List.cons_append, List.append_assoc, List.cons.injEq, true_and] at heq
      obtain ⟨rfl, hrest⟩ := ih h' heq (stops_rightParen 0 _) (stops_rightParen 0 _)
      exact ⟨rfl, (List.cons.inj hrest).2⟩
    | unary op h' =>
      simp only [List.cons_append, List.cons.injEq, Token.punct.injEq] at heq
      exact absurd heq.1.symm (unaryPunct_ne_leftParen op)
    | first hlevel => exact absurd hlevel (Nat.lt_irrefl _)
    | _ => simp at heq
  | unary op h ih =>
    cases h' with
    | parens h' =>
      simp only [List.cons_append, List.cons.injEq, Token.punct.injEq] at heq
      exact absurd heq.1 (unaryPunct_ne_leftParen op)
    | unary op' h' =>
      simp only [List.cons_append, List.cons.injEq, Token.punct.injEq] at heq
      obtain rfl := unaryPunct_inj heq.1
      obtain ⟨rfl, hrest⟩ := ih h' heq.2 hrest hrest'
      exact ⟨rfl, hrest⟩
    | first hlevel => exact absurd hlevel (Nat.lt_irrefl _)
    | _ => simp at heq
  | first hlevel hx he ihx ihe =>
    cases h' with
    | first _ hx' he' =>
      rw [List.append_assoc, List.append_assoc] at heq
      obtain ⟨rfl, htail⟩ := ihx hx' heq (he.stops hrest) (he'.stops hrest')
      exact ihe he' htail hrest hrest'
    | _ => exact absurd hlevel (Nat.lt_irrefl _)
  | stop level e =>
    cases h' with
    | stop => exact ⟨rfl, heq⟩
    | link op hop =>
      rw [List.nil_append] at heq
      have hlt := hrest op (by rw [heq]; rfl)
      omega
  | link op hop hy he ihy ihe =>
    cases h' with
    | stop =>
      rw [List.nil_append] at heq
      have hlt := hrest' op (by rw [← heq]; rfl)
      omega
    | link op' hop' hy' he' =>
      simp only [List.cons_append, List.append_assoc, List.cons.injEq, Token.punct.injEq] at heq
      obtain rfl := binaryPunct_inj heq.1
      obtain ⟨rfl, htail⟩ := ihy hy' heq.2 (he.stops hrest) (he'.stops hrest')
      exact ihe he' htail hrest hrest'

theorem Derives.unique {level : Nat} {ts : List Token} {e e' : Expr} (h : Derives level ts e)
    (h' : Derives level ts e') : e = e' := by
  have hnil : Stops level [] := by
    intro op hop
    cases hop
  exact (h.reads.unique h'.reads rfl hnil hnil).1

end Shading.Condition
