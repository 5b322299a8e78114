import WatchTree.Text.Quoted

/-!
# Double-precision numbers

A number of the binary64 format is kept as its bits. Two of them are the same number if their bits
agree or both are zeros; on numbers other than NaN this is the format's own comparison. A finite
number is a significand times a power of two.
-/

namespace WatchTree

/-- A binary64 number by its bits. -/
structure Binary64 where
  bits : UInt64
  deriving DecidableEq

namespace Binary64

def toFloat (x : Binary64) : Float := Float.ofBits x.bits

def ofFloat (x : Float) : Binary64 := ⟨x.toBits⟩

def negative (x : Binary64) : Bool := Nat.pow 2 63 ≤ x.bits.toNat

def field (x : Binary64) : Nat := x.bits.toNat / Nat.pow 2 52 % Nat.pow 2 11

/-- The stored part of the significand. -/
def fraction (x : Binary64) : Nat := x.bits.toNat % Nat.pow 2 52

def isFinite (x : Binary64) : Bool := x.field ≠ 2047

/-- An infinite exponent with a non-zero fraction. -/
def isNaN (x : Binary64) : Bool := x.field = 2047 && x.fraction ≠ 0

def isZero (x : Binary64) : Bool := x.field = 0 && x.fraction = 0

/-- The significand `m` of a finite magnitude `m * 2 ^ q`. -/
def significand (x : Binary64) : Nat :=
  if x.field = 0 then x.fraction else Nat.pow 2 52 + x.fraction

/-- The power `q` of a finite magnitude `m * 2 ^ q`. -/
def power (x : Binary64) : Int := (max x.field 1 : Nat) - (1075 : Int)

/-- The same number: equal bits, or zeros of either sign. -/
def same (x y : Binary64) : Bool := x = y || (x.isZero && y.isZero)

/-- The bits as sixteen hexadecimal digits. -/
def hex (x : Binary64) : String := String.ofList (Text.hexPadded 16 x.bits.toNat)

end Binary64

end WatchTree
