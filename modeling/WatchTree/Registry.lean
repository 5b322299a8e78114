import WatchTree.Operation

/-!
# Registries

The listeners of one watcher. Ids are issued in ascending order and never twice. A registration
that has left the registry is inactive from then on, also where an unfinished delivery or a queued
task still refers to it.
-/

namespace WatchTree

/-- The place of a watcher in the tree. -/
abbrev WatcherId := Nat

/-- Names one registration on one watcher. -/
structure ListenerId where
  number : Nat
  deriving DecidableEq

def ListenerId.display (id : ListenerId) : String := "#" ++ toString id.number

def ListenerId.describe (id : ListenerId) : String := "ListenerId(" ++ toString id.number ++ ")"

/-- Who is told about updates. -/
inductive Listener (α : Type)
  /-- A listener with a label, which may take no interest in revisions. -/
  | observer (label : Name) (valueOnly : Bool) (actions : Actions α)
  /-- The subscription of a derived watcher. -/
  | subscription (child : WatcherId)

/-- Who carries out the calls of a listener. -/
structure Executor (α : Type) where
  disposal : Disposal
  /-- What it does besides, each time a task is handed to it. -/
  actions : Actions α

/-- One listener on one watcher. -/
structure Registration (α : Type) where
  id : ListenerId
  listener : Listener α
  executor : Executor α
  active : Bool := true
  /-- The number of the newest update the listener was called with. -/
  delivered : Nat := 0
  /-- How often the listener was called. -/
  calls : Nat := 0
  /-- How often a task was handed to the executor. -/
  handovers : Nat := 0

/-- The listeners of a watcher. -/
structure Registry (α : Type) where
  /-- The id issued last. -/
  lastId : Nat := 0
  /-- The current listeners, in the order of their registration. -/
  entries : List ListenerId := []
  /-- Every registration ever made, in order. -/
  records : List (Registration α) := []

namespace Registry

variable {α : Type}

def find? (r : Registry α) (id : ListenerId) : Option (Registration α) :=
  r.records.find? fun e => e.id = id

def update (r : Registry α) (id : ListenerId) (f : Registration α → Registration α) : Registry α :=
  { r with records := r.records.map fun e => if e.id = id then f e else e }

def nextId (r : Registry α) : ListenerId := ⟨r.lastId + 1⟩

/-- Issues an id without a registration. -/
def reserve (r : Registry α) : Registry α := { r with lastId := r.lastId + 1 }

def insert (r : Registry α) (listener : Listener α) (executor : Executor α) : Registry α :=
  { r with
    lastId := r.lastId + 1
    entries := r.entries ++ [r.nextId]
    records := r.records ++ [{ id := r.nextId, listener, executor }] }

def remove (r : Registry α) (id : ListenerId) : Registry α :=
  { r with entries := r.entries.erase id }.update id fun e => { e with active := false }

def clear (r : Registry α) : Registry α :=
  { r with
    entries := []
    records := r.records.map fun e =>
      if r.entries.contains e.id then { e with active := false } else e }

end Registry

end WatchTree
