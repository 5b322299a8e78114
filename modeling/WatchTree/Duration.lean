import WatchTree.Number.Binary64

/-!
# Durations

A duration is a whole number of nanoseconds. Scaling goes through seconds in double precision: the
product is rounded to the nearest nanosecond, of two equally near ones to the even one, and fails if
it is negative, not a number, or not below `2 ^ 64` seconds.
-/

namespace WatchTree

/-- A span of time. -/
structure Duration where
  nanos : Nat
  deriving DecidableEq

namespace Duration

def perSecond : Nat := 1000000000

def of (seconds nanos : Nat) : Duration := ⟨seconds * perSecond + nanos⟩

def seconds (d : Duration) : Nat := d.nanos / perSecond

def subsecond (d : Duration) : Nat := d.nanos % perSecond

instance : LE Duration := ⟨fun a b => a.nanos ≤ b.nanos⟩

instance (a b : Duration) : Decidable (a ≤ b) := inferInstanceAs (Decidable (a.nanos ≤ b.nanos))

instance : Min Duration := ⟨fun a b => if a ≤ b then a else b⟩

instance : Max Duration := ⟨fun a b => if a ≤ b then b else a⟩

def toSeconds (d : Duration) : Float :=
  (UInt64.ofNat d.seconds).toFloat + (UInt64.ofNat d.subsecond).toFloat / 1.0e9

/-- The quotient rounded to the nearest natural number, a half to the even one. -/
def roundDiv (num den : Nat) : Nat :=
  let down := num / den
  let rest := 2 * (num % den)
  if den < rest || (rest = den && down % 2 = 1) then down + 1 else down

/-- The duration nearest to a number of seconds. -/
def ofSeconds? (x : Binary64) : Option Duration :=
  if !x.isFinite || (x.negative && !x.isZero) then none
  else
    let n := roundDiv (x.significand * Nat.pow 2 x.power.toNat * perSecond)
      (Nat.pow 2 (-x.power).toNat)
    if n < Nat.pow 2 64 * perSecond then some ⟨n⟩ else none

def scale? (d : Duration) (factor : Binary64) : Option Duration :=
  ofSeconds? (.ofFloat (d.toSeconds * factor.toFloat))

/-! ## Text -/

/-- The decimals of `n` out of `10 ^ places`, without zeros at the end. -/
def decimals (n : Nat) : Nat → List Char
  | 0 => []
  | places + 1 =>
    if n = 0 then []
    else Nat.digitChar (n / Nat.pow 10 places % 10) :: decimals (n % Nat.pow 10 places) places

/-- A number with decimals and a unit. -/
def withUnit (whole rest places : Nat) (unit : String) : String :=
  let tail := decimals rest places
  toString whole ++ (if tail.isEmpty then "" else "." ++ String.ofList tail) ++ unit

/-- The text in the greatest of the units s, ms, µs and ns that gives a whole part, or in ns. -/
def describe (d : Duration) : String :=
  if 0 < d.seconds then withUnit d.seconds d.subsecond 9 "s"
  else if 1000000 ≤ d.nanos then withUnit (d.nanos / 1000000) (d.nanos % 1000000) 6 "ms"
  else if 1000 ≤ d.nanos then withUnit (d.nanos / 1000) (d.nanos % 1000) 3 "µs"
  else withUnit d.nanos 0 0 "ns"

end Duration

end WatchTree
