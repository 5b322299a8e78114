import WatchTree.Latest
import WatchTree.WatchError

/-!
# The slot of the first value

Every watcher has one slot for its first value. It is pending until the first value is accepted or
the watcher is closed, whichever comes first, and never changes after that. While it is pending it
keeps the wakers to be woken at its end, each once, in the order in which they came.
-/

namespace WatchTree

/-- A name given by whoever uses the watchers. -/
abbrev Name := String

/-- The slot of a watcher's first value. -/
inductive Slot (α : Type)
  | pending (wakers : List Name)
  | set (first : Latest α)
  | abandoned

namespace Slot

variable {α : Type}

def isPending : Slot α → Bool
  | pending _ => true
  | _ => false

def wakers : Slot α → List Name
  | pending ws => ws
  | _ => []

def first? : Slot α → Option (Latest α)
  | set first => some first
  | _ => none

/-- What waiting for the first value gives, once it is decided. -/
def outcome? : Slot α → Option (Except WatchError (Latest α))
  | pending _ => none
  | set first => some (.ok first)
  | abandoned => some (.error .cancelled)

def complete (first : Latest α) : Slot α → Slot α
  | pending _ => set first
  | s => s

/-- Gives a pending slot up. -/
def abandon : Slot α → Slot α
  | pending _ => abandoned
  | s => s

/-- What a thread that waits for a slot finds when it wakes. -/
structure Wakeup (α : Type) where
  slot : Slot α
  /-- The bound of the wait has run out. -/
  timedOut : Bool

/-- What waiting for a slot gives, by what is found at each wakeup, and `none` while it lasts. A
thread whose bound has run out looks at the slot once more. -/
def await (limit : Option Duration) : Slot α → List (Wakeup α) →
    Option (Except WatchError (Latest α))
  | slot, [] => slot.outcome?
  | slot, found :: rest =>
    match slot.outcome?, limit with
    | some r, _ => some r
    | none, none => found.slot.await none rest
    | none, some d =>
      if found.timedOut then some (found.slot.outcome?.getD (.error (.timeout d)))
      else found.slot.await (some d) rest

/-- Adds a waker to a pending slot, unless it is there already. -/
def enlist (waker : Name) : Slot α → Slot α
  | pending ws => pending (if ws.contains waker then ws else ws ++ [waker])
  | s => s

end Slot

end WatchTree
