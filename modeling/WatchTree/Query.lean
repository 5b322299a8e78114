import WatchTree.World

/-!
# Queries

Operations that only look at a world. A state that is missing is an error where it was asked for,
and a fallback where one was given; a wait that would last is answered by saying so.
-/

namespace WatchTree

namespace Query

variable {α : Type}

def stateAnswer : Except WatchError (Latest α) → Answer α
  | .ok s => .state s
  | .error e => .failed e

def valueAnswer : Except WatchError (Latest α) → Answer α
  | .ok s => .value s.value
  | .error e => .failed e

def latestOf (body : Watcher α) : Except WatchError (Latest α) :=
  match body.latest with
  | some s => .ok s
  | none => .error .notInitialized

/-- Waiting for the first value where nothing else happens in the meantime: the thread wakes when
its bound runs out, or never. A bound that runs out gives the fallback, if there is one. -/
def waitFor (slot : Slot α) (limit : Option Bound) (fallback : Option α) : Answer α :=
  let limit? := limit.bind Bound.limit?
  let found := limit?.toList.map fun _ => { slot, timedOut := true }
  match slot.await limit? found, limit, fallback with
  | none, _, _ => .blocked
  | some (.error (.timeout _)), some _, some v => .value v
  | some r, some _, some _ => valueAnswer r
  | some r, _, _ => stateAnswer r

/-- The ids under any label, ascending, each once. -/
def sortedIds (ids : List ListenerId) : List ListenerId :=
  (ids.map ListenerId.number).eraseDups.mergeSort.map ListenerId.mk

/-- Named summaries in ascending order of the names. -/
def sortedSummaries (named : List (Name × Summary α)) : List (Name × Summary α) :=
  named.mergeSort fun a b => a.1 ≤ b.1

def answer (w : World α) : Query α → Answer α
  | name watcher => watching watcher fun _ body => .text body.name
  | isClosed watcher => watching watcher fun _ body => .bool body.closed
  | parent watcher => watching watcher fun h body =>
    match h.face, body.origin with
    | .child, .child p _ _ =>
      match w.watcher? p with
      | some body => .summary body.summary
      | none => .invalid
    | _, _ => .invalid
  | latest watcher => watching watcher fun _ body => stateAnswer (latestOf body)
  | latestValue watcher => watching watcher fun _ body => valueAnswer (latestOf body)
  | latestValueOr watcher fallback => watching watcher fun h body =>
    match body.slot.first?, body.latest with
    | some _, some s => .value s.value
    | _, _ => .value (fallback.on h.face)
  | wait watcher limit fallback => watching watcher fun h body =>
    waitFor body.slot limit (fallback.map (·.on h.face))
  | describe watcher => watching watcher fun h body =>
    if h.face = .shared then .invalid else .description h.face body.name body.latest
  | ids => .ids (sortedIds (w.listeners.map Prod.snd))
  | futureDone f => onFuture f fun slot => .bool slot.first?.isSome
  | futureGet f => onFuture f fun slot =>
    match slot.first? with
    | some s => .state s
    | none => .noState
  | queueLength q => .count (w.queue q).length
  | dump => .summaries <| sortedSummaries <| w.handles.filterMap fun h =>
    (w.watcher? h.2.target).map fun body => (h.1, body.summary)
where
  /-- Answers about the watcher with a name. -/
  watching (name : Name) (f : Handle → Watcher α → Answer α) : Answer α :=
    match w.resolve? name with
    | some (h, body) => f h body
    | none => .invalid
  /-- Answers about the future with a name. -/
  onFuture (name : Name) (f : Slot α → Answer α) : Answer α :=
    match w.future? name with
    | some slot => f slot
    | none => .invalid

end Query

end WatchTree
