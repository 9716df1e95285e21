import Shading.Error
import Shading.Token

/-!
# Arithmetic in conditions

Conditions are integer expressions in 64-bit two's complement arithmetic. Operators of one level
group to the left, and ten levels bind tighter one after the other. An operand may stand under
at most 128 unary operators and parentheses. Values are computed while the tokens are read, so
of two errors the one that is met first is reported.
-/
namespace Shading.Condition

/-- The binary operators, from those that bind loosest to those that bind tightest. -/
def levels : List (List Punct) :=
  [[.orElse], [.andAlso], [.verticalBar], [.caret], [.ampersand], [.equalTo, .notEqualTo],
    [.leftAngle, .rightAngle, .lessEqual, .greaterEqual], [.shiftLeft, .shiftRight],
    [.plus, .dash], [.star, .slash, .percent]]

/-- How many unary operators and parentheses an operand may stand under. -/
def maxNesting : Nat := 128

/-- The value of a truth. -/
def ofBool (b : Bool) : Int64 :=
  if b then 1 else 0

/-- The value of a binary operator. Both operands have been computed, also where one decides. -/
def binaryValue (op : Punct) (x y : Int64) : Except ConditionError Int64 :=
  match op with
  | .orElse => .ok (ofBool (x != 0 || y != 0))
  | .andAlso => .ok (ofBool (x != 0 && y != 0))
  | .verticalBar => .ok (x ||| y)
  | .caret => .ok (x ^^^ y)
  | .ampersand => .ok (x &&& y)
  | .equalTo => .ok (ofBool (x == y))
  | .notEqualTo => .ok (ofBool (x != y))
  | .leftAngle => .ok (ofBool (x < y))
  | .rightAngle => .ok (ofBool (y < x))
  | .lessEqual => .ok (ofBool (x ≤ y))
  | .greaterEqual => .ok (ofBool (y ≤ x))
  | .shiftLeft => .ok (x <<< y)
  | .shiftRight => .ok (x >>> y)
  | .plus => .ok (x + y)
  | .dash => .ok (x - y)
  | .star => .ok (x * y)
  | .slash => if y = 0 then .error .divisionByZero else .ok (x / y)
  | .percent => if y = 0 then .error .divisionByZero else .ok (x % y)
  | op => .error (.unsupportedOperator op)

/-- The value of a unary operator; `none` for any other punctuator. -/
def unary? : Punct → Option (Int64 → Int64)
  | .bang => some fun x => ofBool (x == 0)
  | .tilde => some fun x => ~~~x
  | .dash => some fun x => -x
  | .plus => some id
  | _ => none

/-- A value read from the front of `ts`, with what follows it. -/
abbrev Outcome (ts : List Token) :=
  Except ConditionError (Int64 × { rest : List Token // rest.length < ts.length })

/-- A way to read a value from the front of tokens. -/
abbrev Reader := (ts : List Token) → Outcome ts

/-- What follows a value on one level: operators of the level, each with an operand. -/
def chain (ops : List Punct) (operand : Reader) (x : Int64) (ts : List Token) :
    Except ConditionError (Int64 × { rest : List Token // rest.length ≤ ts.length }) :=
  match ts with
  | .punct op :: following =>
    if ops.contains op then
      match operand following with
      | .error e => .error e
      | .ok (y, rest) =>
        match binaryValue op x y with
        | .error e => .error e
        | .ok z =>
          match chain ops operand z rest.1 with
          | .error e => .error e
          | .ok (value, last) =>
            .ok (value, ⟨last.1, by
              have h1 := rest.2
              have h2 := last.2
              simp only [List.length_cons]
              omega⟩)
    else .ok (x, ⟨.punct op :: following, Nat.le_refl _⟩)
  | ts => .ok (x, ⟨ts, Nat.le_refl _⟩)
termination_by ts.length
decreasing_by
  have := rest.2
  simp only [List.length_cons]
  omega

/-- An expression of binary operators on these levels over the operands. -/
def binary (operand : Reader) : List (List Punct) → Reader
  | [], ts => operand ts
  | ops :: tighter, ts =>
    match binary operand tighter ts with
    | .error e => .error e
    | .ok (x, rest) =>
      match chain ops (binary operand tighter) x rest.1 with
      | .error e => .error e
      | .ok (value, last) => .ok (value, ⟨last.1, Nat.lt_of_le_of_lt last.2 rest.2⟩)

/-- An operand: a constant, a name, which counts as zero, or operators and parentheses around
operands read by `inner`. Without `inner` there is no room for another nesting. -/
def operandAround (inner : Option Reader) (ts : List Token) : Outcome ts :=
  match ts with
  | [] => .error .unexpectedEnd
  | .int value :: rest => .ok (value.toInt64, ⟨rest, Nat.lt_succ_self _⟩)
  | .uint value :: rest => .ok (value.toUInt64.toInt64, ⟨rest, Nat.lt_succ_self _⟩)
  | .identifier _ :: rest => .ok (0, ⟨rest, Nat.lt_succ_self _⟩)
  | .punct p :: following =>
    match unary? p with
    | some f =>
      match inner with
      | none => .error .tooDeep
      | some read =>
        match read following with
        | .error e => .error e
        | .ok (x, rest) => .ok (f x, ⟨rest.1, Nat.lt_succ_of_lt rest.2⟩)
    | none =>
      if p = .leftParen then
        match inner with
        | none => .error .tooDeep
        | some read =>
          match binary read levels following with
          | .error e => .error e
          | .ok (x, ⟨.punct .rightParen :: rest, h⟩) =>
            .ok (x, ⟨rest, by simp only [List.length_cons] at h ⊢; omega⟩)
          | .ok _ => .error .unclosedParenthesis
      else .error (.unexpectedToken p.spelling)
  | t :: _ => .error (.unexpectedToken t.text)

/-- An operand with room for this many nestings. -/
def operand : (room : Nat) → Reader
  | 0 => operandAround none
  | room + 1 => operandAround (some (operand room))

/-- The value of an expression that the tokens spell from the first to the last. -/
def evaluate (ts : List Token) : Except ConditionError Int64 :=
  if ts.isEmpty then .error .empty
  else
    match binary (operand maxNesting) levels ts with
    | .error e => .error e
    | .ok (_, ⟨t :: _, _⟩) => .error (.unexpectedToken t.text)
    | .ok (value, ⟨[], _⟩) => .ok value

end Shading.Condition
