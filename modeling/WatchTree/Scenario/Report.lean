import WatchTree.Scenario.Operation
import WatchTree.Json.Printer

/-!
# Reports

Answers and events as JSON. Values appear as their compact text, a missing node as null.
-/

namespace WatchTree.Scenario

def node : Node → Json
  | none => .null
  | some v => .str v.compact

def state (s : Latest Node) : Json := .arr [.str s.revision.display, node s.value]

def stateOrNull : Option (Latest Node) → Json
  | none => .null
  | some s => state s

def value (v : Node) : Json := .ofFields [("value", node v)]

def bareError (kind : String) : Json := .ofFields [("error", .str kind)]

def error (kind message : String) : Json :=
  .ofFields [("error", .str kind), ("message", .str message)]

def summary (s : Summary Node) : Json :=
  .arr [.str s.name, .bool s.closed, stateOrNull s.initial, stateOrNull s.latest]

/-- The description of a watcher. A plain root's values are never missing, and described as such. -/
def description (face : Face) (name : String) (latest : Option (Latest Node)) : String :=
  let type := if face = .child then "TransformingWatcher" else "RootWatcher"
  let value := fun (v : Node) =>
    if face = .plainRoot then (v.getD .null).describe else Json.describeNode v
  type ++ " \x7b name: " ++ Text.Quoted.encode name ++ ", latest: "
    ++ Latest.describeOption value latest ++ " \x7d"

/-- A duration as seconds and nanoseconds. -/
def duration (d : Duration) : Json := .arr [.int d.seconds, .int d.subsecond]

def logged (name : String) (d : Diagnostic) : Json :=
  .arr [.str "log", .str d.level.display, .str d.message,
    .arr ((d.fields name).map fun f => .arr [.str f.1, .str f.2])]

def called (label : Name) (valueOnly : Bool) (s : Latest Node) (elsewhere : Bool) : Json :=
  .arr <| [.str "call", .str label, if valueOnly then .null else .str s.revision.display,
    node s.value] ++ if elsewhere then [.str "elsewhere"] else []

mutual

def answer (log : Bool) : Answer Node → Json
  | .invalid => bareError "bad_op"
  | .done | .noState => .null
  | .bool b => .bool b
  | .count n => .int n
  | .text s => .str s
  | .state s => state s
  | .value v => value v
  | .failed e => error e.kind e.message
  | .pending => .str "pending"
  | .blocked => .str "blocked"
  | .listener id => .str id.display
  | .ids sorted => .ofFields [("sorted", .arr (sorted.map fun id => .str id.describe)),
      ("distinct", .int sorted.length)]
  | .summary s => summary s
  | .summaries named => .arr (named.map fun n => .arr [.str n.1, summary n.2])
  | .description face name latest => .str (description face name latest)
  | .polled running es => .ofFields [("running", (running.map Json.bool).getD .null),
      ("events", .arr (events log es))]

/-- An event, as far as it shows. -/
def event (log : Bool) : Event Node → List Json
  | .did label a => [.arr [.str "do", .str label, answer log a]]
  | .woken waker => [.arr [.str "wake", .str waker]]
  | .fetched known =>
    [.arr [.str "fetch", (known.map fun r => Json.str r.display).getD .null]]
  | .logged _ name d => if log then [logged name d] else []
  | .called (.observer label valueOnly) task elsewhere =>
    [called label valueOnly task.state elsewhere]
  | _ => []

/-- The events that show. -/
def events (log : Bool) : List (Event Node) → List Json
  | [] => []
  | e :: rest => event log e ++ events log rest

end

def ending (log : Bool) : Ending Node → Json
  | .answered a => answer log a
  | .panicked (.text message) => error "panic" message
  | .panicked .other => error "panic" "?"
  | .outOfSteps => bareError "out_of_steps"

end WatchTree.Scenario
