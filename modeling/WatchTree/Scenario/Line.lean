import WatchTree.Scenario.Report
import WatchTree.Json.Parser

/-!
# Lines

A line asks one thing, from the texts of single values to the run of a whole scenario, and is
answered by one line.
-/

namespace WatchTree.Scenario

/-- Revisions: their texts, the order of neighbours, the ascending order, and how many differ. -/
def revisions (o : Json) : Option Json := do
  let revs ← ((← (o.field? "revs").bind Json.asArr?)).mapM revision?
  some <| .ofFields [
    ("shown", .arr (revs.map fun r =>
      .arr [.str r.display, .str r.describe, .str (toString r.major)])),
    ("order", .arr ((revs.zip revs.tail).map fun ab => .int (ab.1.order ab.2))),
    ("sorted", .arr ((Revision.sort revs).map fun r => .str r.display)),
    ("distinct", .int revs.eraseDups.length)]

/-- Two states: whether they are equal, and what the first looks like. -/
def latests (o : Json) : Option Json := do
  let (ra, va) ← (o.field? "a").bind state?
  let (rb, vb) ← (o.field? "b").bind state?
  let a : Latest Node := ⟨ra, va⟩
  let b : Latest Node := ⟨rb, vb⟩
  some <| .ofFields [("equal", .bool (a.same b)), ("debug", .str (a.describe Json.describeNode)),
    ("revision", .str ra.display), ("value", node va)]

def errorText (o : Json) : Option Json := do
  let e ← match text? o "kind" with
    | some "Timeout" => ((o.field? "timeout").bind duration?).map WatchError.timeout
    | some "Cancelled" => some .cancelled
    | some "NotInitialized" => some .notInitialized
    | some "InvalidJsonPointer" => (text? o "pointer").map WatchError.invalidPointer
    | _ => none
  some (.ofFields [("text", .str e.message), ("debug", .str e.describe)])

/-- A configuration and the pauses it leads to. -/
def backoff (o : Json) : Option Json := do
  let c := (← optional? o "config" config?).getD {}
  let previous ← optional? o "previous" duration?
  let count := (← optional? o "count" Json.asNat?).getD 1
  if 64 < count then none
  else
    some <| .ofFields [
      ("delay", duration c.delay), ("min", duration c.minBackoff), ("max", duration c.maxBackoff),
      ("multiplier", .str (if c.multiplier.isNaN then "NaN" else c.multiplier.hex)),
      ("is_default", .bool (c = {})),
      ("pauses", .arr ((c.pauses previous count).map duration))]

/-- More steps than the operations of a value of this size can take. -/
def stepBound (o : Json) : Nat := Nat.pow (o.size + 16) 4

/-- The values of children at pointers, after a document has been pushed to their root. -/
def pointers (o : Json) : Option Json := do
  let entries ← (o.field? "pointers").bind Json.asArr?
  let named := entries.zipIdx.map fun (p, i) => (toString i, p)
  let make := named.map fun (name, p) =>
    match p with
    | .str p => Op.pointer "root" ("child " ++ name) p
    | _ => .invalid
  let look := named.map fun (name, _) => Op.ask (.latestValue ("child " ++ name))
  let ops := .root "root" "root" false :: make ++
    .push "root" ⟨1⟩ (given (o.field? "doc")) :: look
  let answers := (World.runAll (stepBound o) {} ops).map fun step => step.1
  let made := (answers.drop 1).take named.length
  let seen := answers.drop (named.length + 2)
  let values := (made.zip seen).map fun ab =>
    match ab.1 with
    | .answered (.text _) => ending false ab.2
    | other => ending false other
  some (.ofFields [("values", .arr values)])

/-- The run of a scenario: each operation's answer and events. -/
def run (o : Json) : Option Json := do
  let ops ← (o.field? "ops").bind Json.asArr?
  let log := isSet o "log"
  let steps := World.runAll (stepBound o) {} (ops.map (operation (Json.maxDepth + 1)))
  some <| .ofFields [("steps", .arr (steps.map fun step =>
    .ofFields [("r", ending log step.1), ("ev", .arr (events log step.2))]))]

/-- The answer to what a line asks. -/
def reply? (o : Json) : Option Json := do
  match ← text? o "op" with
  | "constants" =>
    some (.ofFields [("recommended_await_timeout", duration recommendedAwaitTimeout)])
  | "revisions" => revisions o
  | "latests" => latests o
  | "error_text" => errorText o
  | "backoff" => backoff o
  | "pointers" => pointers o
  | "run" => run o
  | _ => none

def answerLine (line : String) : String :=
  match Json.parse? line with
  | none => (bareError "bad_json").compact
  | some o => ((reply? o).getD (bareError "bad_op")).compact

end WatchTree.Scenario
