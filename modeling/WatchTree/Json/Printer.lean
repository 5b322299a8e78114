import WatchTree.Json.Basic
import WatchTree.Number.Shortest

/-!
# Writing JSON

`Json.compact` writes a value without blanks, a floating-point number by its bits. `Json.describe`
writes the form in which a value appears inside a description of a watcher.
-/

namespace WatchTree.Json

/-- One character of a string: quotes, backslashes and controls are escaped, all else is bare. -/
def escapeChar (c : Char) : List Char :=
  if c = '"' then ['\\', '"']
  else if c = '\\' then ['\\', '\\']
  else if c = '\n' then ['\\', 'n']
  else if c = '\r' then ['\\', 'r']
  else if c = '\t' then ['\\', 't']
  else if c.toNat = 8 then ['\\', 'b']
  else if c.toNat = 12 then ['\\', 'f']
  else if c.toNat < 0x20 then ['\\', 'u'] ++ Text.hexPadded 4 c.toNat
  else [c]

def quote (s : String) : String :=
  String.ofList ('"' :: s.toList.flatMap escapeChar ++ ['"'])

mutual

/-- The compact text of a value. -/
def compact : Json → String
  | .null => "null"
  | .bool true => "true"
  | .bool false => "false"
  | .int n => toString n
  | .real x => "0x" ++ x.hex
  | .str s => quote s
  | .arr items => "[" ++ ",".intercalate (compactItems items) ++ "]"
  | .obj fields => "\x7b" ++ ",".intercalate (compactFields fields) ++ "\x7d"

def compactItems : List Json → List String
  | [] => []
  | a :: rest => a.compact :: compactItems rest

def compactFields : List (String × Json) → List String
  | [] => []
  | (k, a) :: rest => (quote k ++ ":" ++ a.compact) :: compactFields rest

end

/-- Numbers from `0.00001` up to sixteen digits before the point are written plainly. -/
def numberLayout : Decimal.Layout := ⟨-5, 15⟩

/-- A floating-point number in a description. -/
def describeReal (x : Binary64) : String :=
  (if x.negative then "-" else "") ++
    if x.isZero then "0.0" else (Decimal.trim 17 x.shortest).render numberLayout

mutual

/-- The description of a value, named by its kind. -/
def describe : Json → String
  | .null => "Null"
  | .bool true => "Bool(true)"
  | .bool false => "Bool(false)"
  | .int n => "Number(" ++ toString n ++ ")"
  | .real x => "Number(" ++ describeReal x ++ ")"
  | .str s => "String(" ++ Text.Quoted.encode s ++ ")"
  | .arr items => "Array [" ++ ", ".intercalate (describeItems items) ++ "]"
  | .obj fields => "Object \x7b" ++ ", ".intercalate (describeFields fields) ++ "\x7d"

def describeItems : List Json → List String
  | [] => []
  | a :: rest => a.describe :: describeItems rest

def describeFields : List (String × Json) → List String
  | [] => []
  | (k, a) :: rest => (Text.Quoted.encode k ++ ": " ++ a.describe) :: describeFields rest

end

def describeNode : Node → String
  | none => "None"
  | some value => "Some(" ++ value.describe ++ ")"

end WatchTree.Json
