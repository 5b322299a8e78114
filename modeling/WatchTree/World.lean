import WatchTree.Event

/-!
# Worlds

Everything that outlives an operation: the watchers, numbered in the order of their creation, what
the names stand for, the queues, and the history, latest event first. A child has a greater number
than its parent.
-/

namespace WatchTree

/-- What a name stands for. -/
abbrev Bindings (β : Type) := List (Name × β)

namespace Bindings

variable {β : Type}

def unbind (bs : Bindings β) (name : Name) : Bindings β := bs.filter fun b => b.1 ≠ name

/-- Gives a name a meaning, in place of any it had. -/
def bind (bs : Bindings β) (name : Name) (value : β) : Bindings β := (name, value) :: bs.unbind name

end Bindings

/-- A handle of a watcher. -/
structure Handle where
  target : WatcherId
  face : Face

/-- A waker and how often it was woken. -/
structure Waker (α : Type) where
  actions : Actions α
  wakes : Nat := 0

/-- Everything that outlives an operation. -/
structure World (α : Type) where
  watchers : List (Watcher α) := []
  handles : Bindings Handle := []
  /-- The ids recorded under the labels of listeners. -/
  listeners : Bindings ListenerId := []
  /-- The watchers whose first value the futures stand for. -/
  futures : Bindings WatcherId := []
  wakers : Bindings (Waker α) := []
  /-- The watchers whose first value a thread is waiting for. -/
  waiters : Bindings WatcherId := []
  queues : Bindings (List (Task α)) := []
  /-- The stop signal of the poller at work has been set. -/
  stopped : Bool := false
  history : List (Entry α) := []

namespace World

variable {α : Type}

def watcher? (w : World α) (id : WatcherId) : Option (Watcher α) := w.watchers[id]?

def modify (w : World α) (id : WatcherId) (f : Watcher α → Watcher α) : World α :=
  { w with watchers := w.watchers.modify id f }

def handle? (w : World α) (name : Name) : Option Handle := w.handles.lookup name

/-- The watcher that a handle refers to, with the handle. -/
def resolve? (w : World α) (name : Name) : Option (Handle × Watcher α) := do
  let h ← w.handle? name
  let body ← w.watcher? h.target
  some (h, body)

/-- The slot that a future stands for. -/
def future? (w : World α) (name : Name) : Option (Slot α) := do
  let id ← w.futures.lookup name
  let body ← w.watcher? id
  some body.slot

def registration? (w : World α) (id : WatcherId) (listener : ListenerId) :
    Option (Registration α) :=
  (w.watcher? id).bind fun body => body.registry.find? listener

def modifyRegistration (w : World α) (id : WatcherId) (listener : ListenerId)
    (f : Registration α → Registration α) : World α :=
  w.modify id fun body => { body with registry := body.registry.update listener f }

def queue (w : World α) (name : Name) : List (Task α) := (w.queues.lookup name).getD []

def setQueue (w : World α) (name : Name) (tasks : List (Task α)) : World α :=
  { w with queues := w.queues.bind name tasks }

def isRegistered (w : World α) (id : WatcherId) (listener : ListenerId) : Bool :=
  (w.watcher? id).any fun body => body.registry.entries.contains listener

/-- Takes a registration out of its registry. -/
def unregister (w : World α) (id : WatcherId) (listener : ListenerId) : World α :=
  w.modify id fun body => { body with registry := body.registry.remove listener }

/-- The parent, the subscription there and the derivation of a child. -/
def parent? (w : World α) (id : WatcherId) :
    Option (WatcherId × ListenerId × Derivation α) :=
  match w.watcher? id with
  | some { origin := .child parent subscription derivation, .. } =>
    some (parent, subscription, derivation)
  | _ => none

/-- A child of it that has not been dropped exists. -/
def hasChild (w : World α) (id : WatcherId) : Bool :=
  w.watchers.any fun body =>
    match body.origin with
    | .child parent _ _ => parent = id && !body.dropped
    | .root => false

def hasHandle (w : World α) (id : WatcherId) : Bool := w.handles.any fun h => h.2.target = id

end World

end WatchTree
