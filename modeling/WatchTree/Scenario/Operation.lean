import WatchTree.Scenario.Transformation

/-!
# Operations by name

Reads operations from JSON objects. An object that makes no sense is read as `Op.invalid`, which
answers when its turn comes.
-/

namespace WatchTree.Scenario

/-- The operations of a callback's invocations, under their decimal numbers. -/
def actions? (read : Json → Op Node) (o : Json) : Option (Actions Node) :=
  match o.field? "do" with
  | none => some fun _ => []
  | some (.obj table) => some fun n =>
    (((table.lookup (toString n)).bind Json.asArr?).getD []).map read
  | some _ => none

/-- The executor of a listener: what becomes of a task, and what is done besides. -/
def executor? (o : Json) : Option (Disposal × Actions Node) :=
  match o.field? "exec" with
  | none | some (.str "inline") => some (.inline, fun _ => [])
  | some (.str "queue") => (text? o "q").map fun q => (.queue q, fun _ => [])
  | some (.str "drop") => some (.discard, fun _ => [])
  | some (.str "panic") => some (.discard, fun _ => [.panic (.text "executor panic")])
  | some (.str "spawn") | some (.str "tokio") =>
    if (o.field? "do").isSome then none else some (.thread, fun _ => [])
  | _ => none

def queueOrder? (o : Json) : Option QueueOrder :=
  match o.field? "order" with
  | some (.arr positions) => (positions.mapM Json.asNat?).map .picked
  | some _ => none
  | none => some (if isSet o "reverse" then .backward else .forward)

/-- A state: a revision, and a value that may be missing. -/
def state? : Json → Option (Revision × Node)
  | .arr [r] => (revision? r).map (·, none)
  | .arr [r, v] => (revision? r).map (·, some v)
  | _ => none

/-- One call of a fetcher. -/
def fetch? (read : Json → Op Node) (entry : Json) : Option (Fetch (Op Node) Node) := do
  let actions := (((entry.field? "do").bind Json.asArr?).getD []).map read
  match entry.field? "ok", entry.field? "err", entry.field? "panic" with
  | some s, _, _ => do
    let (revision, value) ← state? s
    some { actions, reply := .state revision (given value) }
  | none, some e, _ => some { actions, reply := .failed (chain e) }
  | none, none, some p => some { actions, reply := .panicked (payload p) }
  | none, none, none => some { actions, reply := .nothing }

/-- How a poller is ended; it is stopped unless something else is asked for. -/
def pollEnd (o : Json) : PollEnd :=
  match text? o "end" with
  | some "drop" => .drop
  | some "close" => .close
  | _ => .stop

/-- The bound of a wait. A scenario does not wait for the end of one of more than 50 ms. -/
def patience (length : Duration) : Bound := { length, ends := length ≤ .of 0 50000000 }

def query? (op : String) (o : Json) : Option (Query Node) :=
  match op with
  | "name" => (text? o "w").map .name
  | "is_closed" => (text? o "w").map .isClosed
  | "parent" => (text? o "w").map .parent
  | "latest" => (text? o "w").map .latest
  | "latest_value" => (text? o "w").map .latestValue
  | "latest_value_or" => (text? o "w").map (.latestValueOr · (given (o.field? "default")))
  | "wait" => do
    let limit ← optional? o "timeout" duration?
    let w ← text? o "w"
    some (.wait w (limit.map patience)
      (if isSet o "or" then some (given (o.field? "default")) else none))
  | "debug" => (text? o "w").map .describe
  | "ids" => some .ids
  | "future_done" => (text? o "f").map .futureDone
  | "future_get" => (text? o "f").map .futureGet
  | "queue_len" => (text? o "q").map .queueLength
  | "dump" => some .dump
  | _ => none

/-- The operation of a name, given how the operations inside it are read. -/
def op? (read : Json → Op Node) (op : String) (o : Json) : Option (Op Node) :=
  match op with
  | "root" => do
    let name ← text? o "as"
    let label ← optional? o "label" Json.asStr?
    some (.root name (label.getD name) (isSet o "plain"))
  | "push" => do
    some (.push (← text? o "w") (← (o.field? "rev").bind revision?) (given (o.field? "value")))
  | "child" => do
    let apply := transform 128 (o.field? "fn")
    some (.transform (← text? o "w") (← text? o "as")
      (if isSet o "try" then apply else infallible apply) (← actions? read o))
  | "pointer" => do some (.pointer (← text? o "w") (← text? o "as") (← text? o "pointer"))
  | "clone" => do some (.share (← text? o "w") (← text? o "as") false)
  | "dyn" => do some (.share (← text? o "w") (← text? o "as") true)
  | "drop" => (text? o "w").map .drop
  | "watch" => do
    let (disposal, onHandover) ← executor? o
    some (.watch (← text? o "w") (← text? o "as") (isSet o "value_only") disposal onHandover
      (← actions? read o))
  | "unwatch" => do some (.unwatch (← text? o "w") (← text? o "id"))
  | "close" => (text? o "w").map .close
  | "future" => do
    let name ← text? o "as"
    match text? o "w", text? o "f" with
    | some w, _ => some (.future name (.watcher w))
    | none, some f => some (.future name (.future f))
    | none, none => none
  | "future_poll" => do
    some (.futurePoll (← text? o "f") (← text? o "waker") (← actions? read o))
  | "waiter" => do
    let _ ← optional? o "timeout" duration?
    some (.waiter (← text? o "as") (← text? o "f"))
  | "join" => (text? o "as").map .join
  | "queue_run" => do some (.queueRun (← text? o "q") (← queueOrder? o))
  | "queue_drop" => (text? o "q").map .queueDrop
  | "poll" => do
    let config ← optional? o "config" config?
    let script ← (o.field? "script").bind Json.asArr?
    some (.poll (← text? o "w") (config.getD {}) (← script.mapM (fetch? read)) (pollEnd o))
  | "panic" => some (.panic (payload o))
  | _ => (query? op o).map .ask

/-- Reads an operation, with operations inside operations at most `depth` deep. -/
def operation : Nat → Json → Op Node
  | 0, _ => .invalid
  | depth + 1, o => ((text? o "op").bind fun op => op? (operation depth) op o).getD .invalid

end WatchTree.Scenario
