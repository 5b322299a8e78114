import WatchTree.Number.Binary64

/-!
# Reading decimal literals

A literal has a 64-bit significand and a power of ten. Digits that no longer fit the significand
are dropped, and the significand is then scaled by one power of ten, in double precision.
-/

namespace WatchTree.Literal

/-- The greatest significand. -/
def maxSignificand : Nat := Nat.pow 2 64 - 1

/-- Takes digits into the significand while it fits: the significand, how many digits were taken,
how many more digits stood there, and the rest of the text. -/
def takeDigits (significand taken : Nat) : List Char → Nat × Nat × Nat × List Char
  | [] => (significand, taken, 0, [])
  | c :: rest =>
    if c.isDigit then
      let next := significand * 10 + (c.toNat - '0'.toNat)
      if next ≤ maxSignificand then takeDigits next (taken + 1) rest
      else
        let more := (c :: rest).takeWhile Char.isDigit
        (significand, taken, more.length, (c :: rest).drop more.length)
    else (significand, taken, 0, c :: rest)

/-- The double nearest to ten to the power `n`, for `n` up to 308. -/
def powerOfTen (n : Nat) : Float := Float.ofScientific 1 false n

/-- Scales by a power of ten; an infinite result is none. Below the power -616 nothing is left of a
64-bit significand. -/
def scale (x : Float) (exponent : Int) : Option Float :=
  if x == 0.0 then some x
  else if 308 < exponent then none
  else if 0 ≤ exponent then
    let y := x * powerOfTen exponent.toNat
    if y.isInf then none else some y
  else if -308 ≤ exponent then some (x / powerOfTen (-exponent).toNat)
  else if -616 ≤ exponent then some (x / powerOfTen 308 / powerOfTen (-exponent - 308).toNat)
  else some 0.0

/-- The number `significand * 10 ^ exponent` with a sign. -/
def toBinary64 (negative : Bool) (significand : Nat) (exponent : Int) : Option Binary64 :=
  (scale (UInt64.ofNat significand).toFloat exponent).map fun x =>
    .ofFloat (if negative then -x else x)

end WatchTree.Literal
