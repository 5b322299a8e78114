/-!
# Reading integers

Decimal text of a signed 64-bit integer. The text is read from the left, and the first thing wrong
with it decides the fault.
-/

namespace WatchTree.Text

/-- Why a text is not a signed 64-bit integer. -/
inductive IntegerFault
  | empty
  | invalidDigit
  | tooLarge
  | tooSmall
  deriving DecidableEq

def IntegerFault.message : IntegerFault → String
  | .empty => "cannot parse integer from empty string"
  | .invalidDigit => "invalid digit found in string"
  | .tooLarge => "number too large to fit in target type"
  | .tooSmall => "number too small to fit in target type"

def minInt64 : Int := -9223372036854775808

def maxInt64 : Int := 9223372036854775807

def isInt64 (n : Int) : Bool := minInt64 ≤ n && n ≤ maxInt64

def digit? (c : Char) : Option Nat :=
  if c.isDigit then some (c.toNat - '0'.toNat) else none

/-- Appends digits to `n`, away from zero, and stops where the range is left. -/
def extend (negative : Bool) (n : Int) : List Char → Except IntegerFault Int
  | [] => .ok n
  | c :: rest =>
    match digit? c with
    | none => .error .invalidDigit
    | some d =>
      let next := if negative then n * 10 - d else n * 10 + d
      if next < minInt64 then .error .tooSmall
      else if maxInt64 < next then .error .tooLarge
      else extend negative next rest

/-- Reads an optional sign and at least one digit. -/
def readInt64 (s : String) : Except IntegerFault Int :=
  match s.toList with
  | [] => .error .empty
  | ['+'] | ['-'] => .error .invalidDigit
  | '+' :: digits => extend false 0 digits
  | '-' :: digits => extend true 0 digits
  | digits => extend false 0 digits

end WatchTree.Text
