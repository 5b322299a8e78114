import WatchTree.Watcher

/-!
# Events and answers

What happens in a run, and what operations answer. Some events are what callbacks and the log show;
the others say what went on between them.
-/

namespace WatchTree

/-- The importance of a message in the log. -/
inductive Level
  | trace
  | debug
  | warn
  | error

def Level.display : Level → String
  | .trace => "trace"
  | .debug => "debug"
  | .warn => "warn"
  | .error => "error"

/-- A message in the log, about one watcher. -/
inductive Diagnostic
  | initialized (revision : Revision)
  | acceptedUpdate (revision : Revision) (listeners : Nat)
  | outOfOrder (current offered : Revision)
  | unchanged (revision : Revision)
  | transformationFailed (revision : Revision) (error : String)
  | registrationIgnored (listener : ListenerId)
  | staleDelivery (listener : ListenerId) (update : Nat)
  | listenerPanicked (listener : ListenerId) (revision : Revision) (message : String)
  | closed (listeners : Nat)
  | detached (parent : String)
  | droppedUnclosed (parent : String)
  | fetchFailed (error : String) (retryIn : Duration)
  | pollerFinished

namespace Diagnostic

def level : Diagnostic → Level
  | acceptedUpdate .. | unchanged .. | staleDelivery .. => .trace
  | transformationFailed .. | fetchFailed .. => .warn
  | listenerPanicked .. => .error
  | _ => .debug

def message : Diagnostic → String
  | initialized .. => "initialized"
  | acceptedUpdate .. => "accepted update"
  | outOfOrder .. => "rejecting an out-of-order revision"
  | unchanged .. => "transformed value unchanged"
  | transformationFailed .. => "transformation failed, keeping the previous value"
  | registrationIgnored .. => "ignoring registration on a closed watcher"
  | staleDelivery .. => "skipping stale delivery"
  | listenerPanicked .. => "listener panicked"
  | closed .. => "closed"
  | detached .. => "detached from parent"
  | droppedUnclosed .. => "dropped without close, detached from parent"
  | fetchFailed .. => "failed to fetch the latest value"
  | pollerFinished => "poller finished"

/-- The fields of a message about a watcher of this name. -/
def fields (watcher : String) : Diagnostic → List (String × String)
  | initialized r | unchanged r => [("watcher", watcher), ("revision", r.display)]
  | acceptedUpdate r n =>
    [("watcher", watcher), ("revision", r.display), ("listeners", toString n)]
  | outOfOrder current offered =>
    [("watcher", watcher), ("current", current.display), ("offered", offered.display)]
  | transformationFailed r error =>
    [("watcher", watcher), ("revision", r.display), ("error", error)]
  | registrationIgnored id => [("watcher", watcher), ("listener", id.display)]
  | staleDelivery id n => [("listener", id.display), ("seq", toString n)]
  | listenerPanicked id r message =>
    [("listener", id.display), ("revision", r.display), ("panic", message)]
  | closed n => [("watcher", watcher), ("listeners", toString n)]
  | detached parent | droppedUnclosed parent => [("watcher", watcher), ("parent", parent)]
  | fetchFailed error pause =>
    [("watcher", watcher), ("error", error), ("retry_in", pause.describe)]
  | pollerFinished => [("watcher", watcher)]

end Diagnostic

/-- An update to be handed to one listener. -/
structure Task (α : Type) where
  watcher : WatcherId
  listener : ListenerId
  /-- The number of the update on its watcher. -/
  update : Nat
  state : Latest α

/-- Who was called. -/
inductive Audience
  | observer (label : Name) (valueOnly : Bool)
  | child (child : WatcherId)

/-- What became of a state that was offered to a watcher. -/
inductive Reception
  | accepted
  | refused
  | watcherClosed
  deriving DecidableEq

mutual

/-- The answer of an operation. -/
inductive Answer (α : Type)
  | invalid
  | done
  | bool (b : Bool)
  | count (n : Nat)
  | text (s : String)
  | state (s : Latest α)
  | noState
  | value (v : α)
  | failed (e : WatchError)
  | pending
  | blocked
  | listener (id : ListenerId)
  | ids (sorted : List ListenerId)
  | summary (s : Summary α)
  | summaries (named : List (Name × Summary α))
  | description (face : Face) (name : String) (latest : Option (Latest α))
  | polled (running : Option Bool) (events : List (Event α))

/-- Something that happened. -/
inductive Event (α : Type)
  /-- A callback's operation has been carried out. -/
  | did (label : Name) (answer : Answer α)
  /-- A waker was woken. -/
  | woken (waker : Name)
  /-- A fetch was called with the revision known last. -/
  | fetched (lastKnown : Option Revision)
  /-- A message was logged. -/
  | logged (watcher : WatcherId) (name : String) (message : Diagnostic)
  /-- A listener was called. -/
  | called (audience : Audience) (task : Task α) (elsewhere : Bool)
  /-- A state was offered to a watcher. -/
  | offered (watcher : WatcherId) (state : Latest α) (reception : Reception)
  /-- A waker was left in the slot of a first value that was still pending. -/
  | enlisted (watcher : WatcherId) (waker : Name)
  /-- A listener was to be taken out of a registry, where it was found or not. -/
  | unwatched (watcher : WatcherId) (listener : ListenerId) (found : Bool)
  /-- A task was handed to its executor. -/
  | handedOver (task : Task α)
  /-- A task was run, for a registration that was active or not. -/
  | ran (task : Task α) (active : Bool)
  /-- An application of a child's transformation has ended. -/
  | applied (child : WatcherId) (revision : Revision) (outcome : Outcome α)
  /-- A poller began to pause. -/
  | paused (watcher : WatcherId) (pause : Duration)

end

/-- An event and whether it happened on a poller's thread. -/
structure Entry (α : Type) where
  onPoller : Bool
  event : Event α

end WatchTree
