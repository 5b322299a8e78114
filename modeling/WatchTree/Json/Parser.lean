import WatchTree.Json.Basic
import WatchTree.Number.Literal

/-!
# Reading JSON

A recursive-descent reader over the characters of a text. Each function returns the value it read
and the text after it, and nothing if the text is not JSON. Containers nest at most 127 deep, an
unpaired surrogate is no character, and a number too large for double precision is refused.
-/

namespace WatchTree.Json

/-- Drops spaces, tabs and line ends. -/
def skipBlank (cs : List Char) : List Char :=
  cs.dropWhile fun c => c = ' ' || c = '\t' || c = '\n' || c = '\r'

/-- Four hexadecimal digits. -/
def readUnit : List Char → Option (Nat × List Char)
  | a :: b :: c :: d :: rest => do
    let n := ((← Text.hexDigit? a) * 16 + (← Text.hexDigit? b)) * 256
      + ((← Text.hexDigit? c) * 16 + (← Text.hexDigit? d))
    some (n, rest)
  | _ => none

/-- The character after `\u`; a leading surrogate must be followed by an escaped trailing one. -/
def readEscapedUnit (cs : List Char) : Option (Char × List Char) := do
  let (n, rest) ← readUnit cs
  if 0xd800 ≤ n && n < 0xdc00 then
    match rest with
    | '\\' :: 'u' :: rest => do
      let (low, rest) ← readUnit rest
      if 0xdc00 ≤ low && low < 0xe000 then
        some (Char.ofNat (0x10000 + (n - 0xd800) * 0x400 + (low - 0xdc00)), rest)
      else none
    | _ => none
  else if 0xdc00 ≤ n && n < 0xe000 then none
  else some (Char.ofNat n, rest)

def readEscape : List Char → Option (Char × List Char)
  | '"' :: rest => some ('"', rest)
  | '\\' :: rest => some ('\\', rest)
  | '/' :: rest => some ('/', rest)
  | 'b' :: rest => some (Char.ofNat 8, rest)
  | 'f' :: rest => some (Char.ofNat 12, rest)
  | 'n' :: rest => some ('\n', rest)
  | 'r' :: rest => some ('\r', rest)
  | 't' :: rest => some ('\t', rest)
  | 'u' :: rest => readEscapedUnit rest
  | _ => none

/-- The rest of a string whose first characters are `acc`, the latest first. -/
def readString (acc : List Char) : Nat → List Char → Option (String × List Char)
  | 0, _ => none
  | fuel + 1, cs =>
    match cs with
    | [] => none
    | '"' :: rest => some (String.ofList acc.reverse, rest)
    | '\\' :: rest =>
      match readEscape rest with
      | some (c, rest) => readString (c :: acc) fuel rest
      | none => none
    | c :: rest => if c.toNat < 0x20 then none else readString (c :: acc) fuel rest

/-- The exponent after `e`: its value, if it has at least one digit. -/
def readExponent (cs : List Char) : Option (Int × List Char) :=
  let (negative, cs) := match cs with
    | '+' :: rest => (false, rest)
    | '-' :: rest => (true, rest)
    | rest => (false, rest)
  let digits := cs.takeWhile Char.isDigit
  if digits.isEmpty then none
  else
    let n : Int := digits.foldl (fun (n : Int) c => n * 10 + (c.toNat - '0'.toNat : Nat)) 0
    some (if negative then -n else n, cs.drop digits.length)

/-- The part of a literal after its decimals. -/
def finishReal (negative : Bool) (significand : Nat) (exponent : Int) (cs : List Char) :
    Option (Json × List Char) := do
  match cs with
  | 'e' :: rest | 'E' :: rest => do
    let (e, rest) ← readExponent rest
    let x ← Literal.toBinary64 negative significand (exponent + e)
    some (.real x, rest)
  | rest => do
    let x ← Literal.toBinary64 negative significand exponent
    some (.real x, rest)

/-- A literal without point and exponent: an integer if it fits 64 bits, and not minus zero. -/
def finishInt (negative : Bool) (significand : Nat) (cs : List Char) : Option (Json × List Char) :=
  if !negative then some (.int significand, cs)
  else if significand = 0 || Nat.pow 2 63 < significand then finishReal true significand 0 cs
  else some (.int (-(significand : Int)), cs)

/-- The literal after its sign. -/
def readMagnitude (negative : Bool) (cs : List Char) : Option (Json × List Char) := do
  let (significand, taken, more, rest) := Literal.takeDigits 0 0 cs
  if taken = 0 then none
  else if 1 < taken && cs.head? = some '0' then none
  else
    match rest with
    | '.' :: decimals =>
      let (significand, taken, dropped, rest) := Literal.takeDigits significand 0 decimals
      if taken + dropped = 0 then none
      else finishReal negative significand ((more : Int) - taken) rest
    | 'e' :: _ | 'E' :: _ => finishReal negative significand more rest
    | rest =>
      if more = 0 then finishInt negative significand rest
      else finishReal negative significand more rest

def readNumber : List Char → Option (Json × List Char)
  | '-' :: rest => readMagnitude true rest
  | cs => readMagnitude false cs

mutual

/-- A value, with at most `depth` containers around what it holds. -/
def readValue (depth : Nat) : Nat → List Char → Option (Json × List Char)
  | 0, _ => none
  | fuel + 1, cs =>
    match skipBlank cs with
    | 'n' :: 'u' :: 'l' :: 'l' :: rest => some (.null, rest)
    | 't' :: 'r' :: 'u' :: 'e' :: rest => some (.bool true, rest)
    | 'f' :: 'a' :: 'l' :: 's' :: 'e' :: rest => some (.bool false, rest)
    | '"' :: rest => (readString [] (rest.length + 1) rest).map fun (s, rest) => (.str s, rest)
    | '[' :: rest =>
      if depth = 0 then none
      else match skipBlank rest with
        | ']' :: rest => some (.arr [], rest)
        | rest => readItems (depth - 1) [] fuel rest
    | '\x7b' :: rest =>
      if depth = 0 then none
      else match skipBlank rest with
        | '\x7d' :: rest => some (.obj [], rest)
        | rest => readFields (depth - 1) [] fuel rest
    | rest => readNumber rest

/-- The items of an array up to its end, after those in `acc`, the latest first. -/
def readItems (depth : Nat) (acc : List Json) : Nat → List Char → Option (Json × List Char)
  | 0, _ => none
  | fuel + 1, cs =>
    match readValue depth fuel cs with
    | none => none
    | some (value, rest) =>
      match skipBlank rest with
      | ',' :: rest => readItems depth (value :: acc) fuel rest
      | ']' :: rest => some (.arr (value :: acc).reverse, rest)
      | _ => none

/-- The fields of an object up to its end, added to those in `acc`. -/
def readFields (depth : Nat) (acc : List (String × Json)) :
    Nat → List Char → Option (Json × List Char)
  | 0, _ => none
  | fuel + 1, cs =>
    match skipBlank cs with
    | '"' :: rest =>
      match readString [] (rest.length + 1) rest with
      | none => none
      | some (key, rest) =>
        match skipBlank rest with
        | ':' :: rest =>
          match readValue depth fuel rest with
          | none => none
          | some (value, rest) =>
            match skipBlank rest with
            | ',' :: rest => readFields depth (insertField key value acc) fuel rest
            | '\x7d' :: rest => some (.obj (insertField key value acc), rest)
            | _ => none
        | _ => none
    | _ => none

end

/-- How deep containers may nest. -/
def maxDepth : Nat := 127

/-- Reads a text that is one value with blanks around it. -/
def parse? (text : String) : Option Json :=
  let cs := text.toList
  match readValue maxDepth (2 * cs.length + 2) cs with
  | some (value, rest) => if (skipBlank rest).isEmpty then some value else none
  | none => none

end WatchTree.Json
