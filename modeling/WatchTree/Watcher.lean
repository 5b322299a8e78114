import WatchTree.Registry

/-!
# Watchers

A watcher holds the latest state of one entry. A root is fed from outside and refuses a revision
older than its own; a child is fed by the subscription on its parent and refuses a value equal to
its own.
-/

namespace WatchTree

/-- How a child gets its values. -/
structure Derivation (α : Type) where
  /-- The name of the child's handle when it was made. -/
  label : Name
  apply : α → Outcome α
  actions : Actions α

/-- Where a watcher hangs in the tree. -/
inductive Origin (α : Type)
  | root
  | child (parent : WatcherId) (subscription : ListenerId) (derivation : Derivation α)

/-- One watcher. -/
structure Watcher (α : Type) where
  name : String
  origin : Origin α
  latest : Option (Latest α) := none
  /-- The number of accepted updates. -/
  updates : Nat := 0
  closed : Bool := false
  slot : Slot α := .pending []
  registry : Registry α := {}
  /-- The last reference to it is gone. -/
  dropped : Bool := false

/-- What can be seen of a watcher at once. -/
structure Summary (α : Type) where
  name : String
  closed : Bool
  initial : Option (Latest α)
  latest : Option (Latest α)

namespace Watcher

variable {α : Type}

/-- Why an open watcher refuses a state. -/
inductive Refusal
  | outOfOrder (current : Revision)
  | unchanged
  deriving DecidableEq

/-- The admission rule of a watcher. -/
def refusal [BEq α] (w : Watcher α) (next : Latest α) : Option Refusal :=
  match w.latest, w.origin with
  | none, _ => none
  | some current, .root =>
    if next.revision < current.revision then some (.outOfOrder current.revision) else none
  | some current, .child .. => if current.value == next.value then some .unchanged else none

/-- A watcher that has accepted one more state. -/
def accept (w : Watcher α) (next : Latest α) : Watcher α :=
  { w with updates := w.updates + 1, latest := some next, slot := w.slot.complete next }

def close (w : Watcher α) : Watcher α :=
  { w with closed := true, registry := w.registry.clear, slot := w.slot.abandon }

def summary (w : Watcher α) : Summary α := ⟨w.name, w.closed, w.slot.first?, w.latest⟩

end Watcher

end WatchTree
