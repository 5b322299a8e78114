import WatchTree.World

/-!
# The machine

Operations call back into user code, and user code may carry out further operations at every such
point. The machine makes the unfinished work explicit: a stack of frames, innermost first, each
waiting for the work above it. The control says what the innermost frame is to do next. A panic
unwinds the frames up to the first that catches it.
-/

namespace WatchTree

/-- Whose operations a script carries out. -/
inductive Site
  | observer (label : Name)
  | derivation (label : Name)
  | waker (label : Name)
  | executor (watcher : WatcherId) (listener : ListenerId)
  | fetch
  /-- Others, while a poller waits. -/
  | elsewhere

/-- The label under which the answers of a script's operations are reported. -/
def Site.label : Site → Name
  | .observer label | .derivation label | .waker label => label
  | .executor _ id => id.display
  | .fetch => "fetch"
  | .elsewhere => "elsewhere"

/-- A poller at work on a root. -/
structure Polling (α : Type) where
  root : WatcherId
  face : Face
  config : PollConfig
  /-- The pause after the failure just before, if the latest fetch failed. -/
  backoff : Option Duration := none
  script : Script α
  ending : PollEnd
  /-- The length of the history when it started. -/
  since : Nat

/-- Unfinished work. -/
inductive Frame (α : Type)
  /-- An operation that keeps its watcher alive. -/
  | holding (watcher : WatcherId)
  /-- A callback with operations left to carry out. -/
  | script (site : Site) (todo : List (Op α))
  /-- Wakers left to wake. -/
  | waking (rest : List Name)
  /-- An accepted update, before it is handed out. -/
  | announcing (watcher : WatcherId) (update : Nat) (state : Latest α)
      (listeners : List ListenerId)
  /-- An accepted update, with listeners left to hand it to. -/
  | fanOut (watcher : WatcherId) (update : Nat) (state : Latest α) (rest : List ListenerId)
  /-- A listener at work; it catches panics. -/
  | calling (task : Task α)
  /-- A transformation at work on a state of the parent; it catches panics. -/
  | applying (child : WatcherId) (state : Latest α)
  /-- A registration whose replay is under way. -/
  | watching (label : Name) (id : ListenerId)
  /-- A child whose first delivery is under way. -/
  | constructing (name : Name) (child : WatcherId)
  /-- A close whose wakers are being woken. -/
  | closing (watcher : WatcherId) (listeners : Nat)
  /-- Tasks taken from a queue, left to run. -/
  | draining (rest : List (Task α)) (count : Nat)
  /-- Positions of a queue left to be run. -/
  | picking (queue : Name) (rest : List Nat) (count : Nat)
  /-- A poller between two fetches; panics of what others do meanwhile do not concern it. -/
  | polling (p : Polling α)
  /-- A poller during a fetch; it catches panics. -/
  | fetching (p : Polling α) (reply : Reply α)
  /-- A poller during a push; it catches panics. -/
  | pushing (p : Polling α)
  /-- A poller whose root is being closed from outside. -/
  | ending (p : Polling α)

namespace Frame

variable {α : Type}

/-- Work above it is done on a poller's thread. -/
def onPoller : Frame α → Bool
  | fetching .. | pushing _ => true
  | _ => false

/-- A poller exists while it is on the stack. -/
def hasPoller : Frame α → Bool
  | polling _ | fetching .. | pushing _ | ending _ => true
  | _ => false

/-- It keeps this watcher alive. -/
def holds (id : WatcherId) : Frame α → Bool
  | holding watcher => watcher = id
  | _ => false

end Frame

/-- What the innermost frame is to do. -/
inductive Control (α : Type)
  /-- Go on. -/
  | proceed
  /-- Take the answer of the work that was above. -/
  | answer (a : Answer α)
  /-- Let a panic pass, or catch it. -/
  | unwind (payload : Payload)

/-- A world with unfinished work. -/
structure Machine (α : Type) where
  world : World α
  stack : List (Frame α) := []
  control : Control α := .proceed

namespace Machine

variable {α : Type}

def proceed (m : Machine α) : Machine α := { m with control := .proceed }

def answer (m : Machine α) (a : Answer α) : Machine α := { m with control := .answer a }

def unwind (m : Machine α) (payload : Payload) : Machine α := { m with control := .unwind payload }

def push (m : Machine α) (frame : Frame α) : Machine α :=
  { m with stack := frame :: m.stack, control := .proceed }

def inWorld (m : Machine α) (f : World α → World α) : Machine α := { m with world := f m.world }

/-- Work is being done on a poller's thread. -/
def onPoller (m : Machine α) : Bool := m.stack.any Frame.onPoller

/-- Adds an event to the history, on the given thread. -/
def recordOn (m : Machine α) (onPoller : Bool) (event : Event α) : Machine α :=
  m.inWorld fun w => { w with history := ⟨onPoller, event⟩ :: w.history }

def record (m : Machine α) (event : Event α) : Machine α := m.recordOn m.onPoller event

def nameOf (m : Machine α) (id : WatcherId) : String :=
  match m.world.watcher? id with
  | some body => body.name
  | none => ""

def log (m : Machine α) (id : WatcherId) (message : Diagnostic) : Machine α :=
  m.record (.logged id (m.nameOf id) message)

end Machine

end WatchTree
