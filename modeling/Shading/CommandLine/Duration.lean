import Shading.Binary.Arithmetic
import Shading.Decimal.Shortest

/-!
# Durations

A span of time by the clock. It is shown in the greatest unit that it fills, with all digits of the
rest behind a point, or as a binary number of milliseconds.
-/
namespace Shading.CommandLine

/-- A span of time: whole seconds, and the nanoseconds behind them. -/
structure Duration where
  seconds : UInt64 := 0
  nanoseconds : Fin 1000000000 := 0
  deriving DecidableEq, Repr

namespace Duration

/-- So many nanoseconds. -/
def ofNanoseconds (n : Nat) : Duration :=
  { seconds := .ofNat (n / 1000000000)
    nanoseconds := ⟨n % 1000000000, Nat.mod_lt n (by decide)⟩ }

/-- The digits of a fraction with at most so many places, up to the last one that is not zero. -/
def fraction : (places : Nat) → (rest : Nat) → List Char
  | 0, _ => []
  | places + 1, rest =>
    let unit := Nat.pow 10 places
    if rest = 0 then [] else Nat.digitChar (rest / unit) :: fraction places (rest % unit)

/-- A number of units with the digits of the rest behind a point, if there is a rest. -/
def inUnits (unit : String) (whole places rest : Nat) : String :=
  let digits := fraction places rest
  toString whole ++ (if digits.isEmpty then "" else "." ++ String.ofList digits) ++ unit

/-- The text of a span of time: seconds, milliseconds, microseconds or nanoseconds. -/
def text (d : Duration) : String :=
  let n := d.nanoseconds.val
  if 0 < d.seconds then inUnits "s" d.seconds.toNat 9 n
  else if 1000000 ≤ n then inUnits "ms" (n / 1000000) 6 (n % 1000000)
  else if 1000 ≤ n then inUnits "\u00b5s" (n / 1000) 3 (n % 1000)
  else inUnits "ns" n 0 0

/-- The seconds as a binary number: the sum of the whole ones and of the rest. -/
def inSeconds (d : Duration) : Binary.Value .double :=
  .add (.round d.seconds.toNat 1) (.round d.nanoseconds.val 1000000000)

/-- The milliseconds as the shortest decimal of a binary number. -/
def milliseconds (d : Duration) : Decimal :=
  .shortest (d.inSeconds.mul (.round 1000 1))

end Duration

end Shading.CommandLine
