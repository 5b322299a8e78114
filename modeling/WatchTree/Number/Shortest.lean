import WatchTree.Number.Binary64

/-!
# Shortest decimals

A finite binary64 number is written with the fewest digits that read back as the same number; among
those the nearest to it is taken, and of two equally near the one with the even last digit. All
comparisons are made between natural numbers.
-/

namespace WatchTree

/-- The positive decimal `digits * 10 ^ scale`. -/
structure Decimal where
  digits : Nat
  scale : Int
  deriving DecidableEq

namespace Binary64

/-- The least `k` with `den ≤ num * 10 ^ k`, searched up to `fuel`. -/
def leadingZeros (num den : Nat) : Nat → Nat
  | 0 => 0
  | fuel + 1 => if den ≤ num then 0 else leadingZeros (num * 10) den fuel + 1

/-- The power of ten of the first digit of `num / den`. -/
def magnitude (num den : Nat) : Int :=
  if den ≤ num then ((Nat.toDigits 10 (num / den)).length : Int) - 1
  else -(leadingZeros num den 400 : Int)

/-- The decimal on the grid `10 ^ scale` that lies nearest to the magnitude of `x` among those that
read back as `x`. Bounds of the reading interval are in quarters of the significand's unit. -/
def onGrid? (x : Binary64) (scale : Int) : Option Nat :=
  let m := x.significand
  let twos (n : Nat) : Nat := n * Nat.pow 2 (x.power - 2).toNat * Nat.pow 10 (-scale).toNat
  let tens (d : Nat) : Nat := d * Nat.pow 10 scale.toNat * Nat.pow 2 (2 - x.power).toNat
  let value := twos (4 * m)
  let low := twos (if x.fraction = 0 && 1 < x.field then 4 * m - 1 else 4 * m - 2)
  let high := twos (4 * m + 2)
  let reads (d : Nat) : Bool :=
    if m % 2 = 0 then low ≤ tens d && tens d ≤ high else low < tens d && tens d < high
  let below := value / tens 1
  let above := below + 1
  match reads below, reads above with
  | false, false => none
  | true, false => some below
  | false, true => some above
  | true, true =>
    let down := value - tens below
    let up := tens above - value
    some (if down < up then below else if up < down then above
      else if below % 2 = 0 then below else above)

/-- The first of the grids with one digit, two digits and so on that has a hit. -/
def searchGrid (x : Binary64) (scale : Int) : Nat → Option Decimal
  | 0 => none
  | fuel + 1 =>
    match x.onGrid? scale with
    | some d => some ⟨d, scale⟩
    | none => searchGrid x (scale - 1) fuel

/-- The shortest decimal that reads back as the magnitude of a finite non-zero number. -/
def shortest (x : Binary64) : Decimal :=
  let num := x.significand * Nat.pow 2 x.power.toNat
  let den := Nat.pow 2 (-x.power).toNat
  (x.searchGrid (magnitude num den) 17).getD ⟨0, 0⟩

end Binary64

namespace Decimal

def trim : Nat → Decimal → Decimal
  | 0, d => d
  | fuel + 1, d => if d.digits % 10 = 0 then trim fuel ⟨d.digits / 10, d.scale + 1⟩ else d

/-- Where a layout changes between plain and scientific text. -/
structure Layout where
  /-- The first digit's power of ten is written plainly from here … -/
  plainFrom : Int
  /-- … to here. -/
  plainTo : Int

/-- The text of a decimal: plain with a point, or one digit before the point and an exponent, which
always has a sign. -/
def render (layout : Layout) (d : Decimal) : String :=
  let digits := Nat.toDigits 10 d.digits
  let lead : Int := d.scale + digits.length - 1
  String.ofList <|
    if layout.plainFrom ≤ lead && lead ≤ layout.plainTo then
      if 0 ≤ d.scale then digits ++ List.replicate d.scale.toNat '0' ++ ['.', '0']
      else if 0 ≤ lead then
        digits.take (lead.toNat + 1) ++ '.' :: digits.drop (lead.toNat + 1)
      else ['0', '.'] ++ List.replicate ((-lead).toNat - 1) '0' ++ digits
    else
      let mantissa := match digits with
        | first :: second :: rest => first :: '.' :: second :: rest
        | short => short
      mantissa ++ ['e', if lead < 0 then '-' else '+'] ++ Nat.toDigits 10 lead.natAbs

end Decimal

end WatchTree
