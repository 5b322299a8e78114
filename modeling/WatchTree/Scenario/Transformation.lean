import WatchTree.Scenario.Argument

/-!
# Transformations by name

The transformations a scenario can give to a child. Arithmetic is on signed 64-bit integers and
fails rather than leave them.
-/

namespace WatchTree.Scenario

/-- A result of integer arithmetic. -/
def integer (n : Int) : Outcome Node :=
  if Text.isInt64 n then .value (some (.int n)) else .failed "overflow"

def arithmetic (f : Int → Outcome Node) : Node → Outcome Node
  | some (.int n) => if Text.isInt64 n then f n else .failed "not an integer"
  | _ => .failed "not an integer"

/-- The remainder with the sign of the dividend. It fails for a zero divisor, and for the one
quotient that overflows. -/
def remainder (divisor dividend : Int) : Outcome Node :=
  if divisor = 0 || (divisor = -1 && dividend = Text.minInt64) then .failed "overflow"
  else integer (Int.tmod dividend divisor)

/-- The integer that a string spells. -/
def parsed : Node → Outcome Node
  | some (.str s) =>
    match Text.readInt64 s with
    | .ok n => .value (some (.int n))
    | .error fault => .failed fault.message
  | _ => .failed "not a string"

/-- The bytes of a string, or the items of a container. -/
def length : Node → Outcome Node
  | some (.str s) => .value (some (.int s.utf8ByteSize))
  | some (.arr items) => .value (some (.int items.length))
  | some (.obj fields) => .value (some (.int fields.length))
  | _ => .failed "no length"

def kindOf : Node → String
  | none => "missing"
  | some .null => "null"
  | some (.bool _) => "bool"
  | some (.int _) => "int"
  | some (.real _) => "float"
  | some (.str _) => "string"
  | some (.arr _) => "array"
  | some (.obj _) => "object"

def operand (f : Json) : Int :=
  match f.field? "n" with
  | some (.int n) => if Text.isInt64 n then n else 0
  | _ => 0

/-- Applies the transformation that a value describes; at most `depth` choices deep. -/
def transform : Nat → Option Json → Node → Outcome Node
  | _, none, node => .value node
  | depth, some f, node =>
    match (text? f "fn").getD "id" with
    | "id" => .value node
    | "const" => .value (f.field? "value")
    | "mod" => arithmetic (remainder (operand f)) node
    | "add" => arithmetic (fun n => integer (n + operand f)) node
    | "mul" => arithmetic (fun n => integer (n * operand f)) node
    | "parse" => parsed node
    | "len" => length node
    | "type" => .value (some (.str (kindOf node)))
    | "wrap" => .value (some (.obj [("w", node.getD .null)]))
    | "fail" => .failed (chain ((f.field? "chain").getD .null))
    | "panic" => .panicked (payload f)
    | "cases" =>
      match depth with
      | 0 => .failed "unknown fn"
      | depth + 1 =>
        let cases := ((f.field? "cases").bind Json.asArr?).getD []
        match cases.find? fun c => c.field? "when" == node with
        | some c => transform depth (c.field? "then") node
        | none => transform depth (f.field? "else") node
    | _ => .failed "unknown fn"

/-- A transformation that cannot return an error panics with its text instead. -/
def infallible (apply : Node → Outcome Node) (node : Node) : Outcome Node :=
  match apply node with
  | .failed error => .panicked (.text error)
  | outcome => outcome

end WatchTree.Scenario
