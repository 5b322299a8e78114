import WatchTree.Slot
import WatchTree.Backoff

/-!
# Operations

What users of a tree of watchers can do, from outside or from inside a callback. Watchers,
listeners, futures, wakers, waiters and queues go by names. The behaviour of a callback is given as
data: a function from the number of the invocation, counted from one, to the operations that this
invocation carries out.
-/

namespace WatchTree

/-- What a panic carries. -/
inductive Payload
  | text (message : String)
  | other
  deriving DecidableEq

def Payload.message : Payload → String
  | .text message => message
  | .other => "<non-string panic payload>"

/-- How one application of a transformation ends. -/
inductive Outcome (α : Type)
  | value (v : α)
  | failed (error : String)
  | panicked (payload : Payload)

/-- What a handle refers to a watcher as. -/
inductive Face
  /-- A root whose nodes are never missing. -/
  | plainRoot
  | root
  | child
  /-- A watcher of which no more than that is known. -/
  | shared
  deriving DecidableEq

/-- An argument that may have been left out means a value of its own to a plain root. -/
structure Given (α : Type) where
  plain : α
  node : α

/-- The value of an argument for a handle. -/
def Given.on {α : Type} (g : Given α) : Face → α
  | .plainRoot => g.plain
  | _ => g.node

/-- What an executor does with a task. -/
inductive Disposal
  /-- Runs it at once. -/
  | inline
  /-- Runs it to its end on a thread of its own. -/
  | thread
  /-- Appends it to a queue. -/
  | queue (name : Name)
  /-- Forgets it. -/
  | discard

/-- The order in which queued tasks are run. -/
inductive QueueOrder
  /-- All of them, from the front. -/
  | forward
  /-- All of them, from the back. -/
  | backward
  /-- Those at these positions of what is in the queue each time. -/
  | picked (positions : List Nat)

/-- What a fetch returns. -/
inductive Reply (α : Type)
  | state (revision : Revision) (value : Given α)
  | nothing
  | failed (error : String)
  | panicked (payload : Payload)

/-- A fetch in the script of a poller. -/
structure Fetch (ω α : Type) where
  /-- What others do before it begins: while the poller pauses, or before it looks at its signal for
  the first time. -/
  before : List ω := []
  actions : List ω
  reply : Reply α

/-- How a poller is ended once its script has been played. -/
inductive PollEnd
  | stop
  | drop
  | close
  deriving DecidableEq

/-- Where a future is taken from. -/
inductive FutureSource
  | watcher (name : Name)
  | future (name : Name)

/-- How long a wait may last. -/
structure Bound where
  length : Duration
  /-- Whether it ever runs out. It does not if its end is too far in the future to be
  represented. -/
  ends : Bool := true

/-- The length of a bound that runs out. -/
def Bound.limit? (b : Bound) : Option Duration := if b.ends then some b.length else none

/-- Operations that only look. -/
inductive Query (α : Type)
  | name (watcher : Name)
  | isClosed (watcher : Name)
  | parent (watcher : Name)
  | latest (watcher : Name)
  | latestValue (watcher : Name)
  | latestValueOr (watcher : Name) (fallback : Given α)
  | wait (watcher : Name) (limit : Option Bound) (fallback : Option (Given α))
  | describe (watcher : Name)
  | ids
  | futureDone (future : Name)
  | futureGet (future : Name)
  | queueLength (queue : Name)
  | dump

/-- Operations on a tree of watchers. -/
inductive Op (α : Type)
  /-- An operation that makes no sense. -/
  | invalid
  | ask (query : Query α)
  | root (name label : Name) (plain : Bool)
  | push (watcher : Name) (revision : Revision) (value : Given α)
  | child (watcher name : Name) (label : Except WatchError String) (apply : α → Outcome α)
      (actions : Nat → List (Op α))
  /-- A further handle of the same watcher. -/
  | share (watcher name : Name) (bare : Bool)
  | drop (watcher : Name)
  | watch (watcher label : Name) (valueOnly : Bool) (disposal : Disposal)
      (onHandover actions : Nat → List (Op α))
  | unwatch (watcher label : Name)
  | close (watcher : Name)
  | future (name : Name) (source : FutureSource)
  | futurePoll (future waker : Name) (actions : Nat → List (Op α))
  | waiter (name future : Name)
  | join (waiter : Name)
  | queueRun (queue : Name) (order : QueueOrder)
  | queueDrop (queue : Name)
  | poll (watcher : Name) (config : PollConfig) (script : List (Fetch (Op α) α))
      (ending : PollEnd)
  /-- The stop signal of the poller at work is set. -/
  | stop
  | panic (payload : Payload)

/-- The operations of each invocation of a callback. -/
abbrev Actions (α : Type) := Nat → List (Op α)

/-- The fetches of a poller, one after the other. -/
abbrev Script (α : Type) := List (Fetch (Op α) α)

end WatchTree
