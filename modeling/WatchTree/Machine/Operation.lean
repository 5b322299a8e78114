import WatchTree.Machine.Poller
import WatchTree.Query

/-!
# Beginning an operation

What an operation does before the first callback it leads to. One that names something unknown, or a
name that is taken, answers at once that it makes no sense.
-/

namespace WatchTree.Machine

variable {α : Type}

/-- Begins with the watcher that a handle refers to. -/
def withHandle (m : Machine α) (name : Name) (f : Handle → Watcher α → Machine α) : Machine α :=
  match m.world.resolve? name with
  | some (h, body) => f h body
  | none => m.answer .invalid

/-- A further handle of a watcher. -/
def share (m : Machine α) (watcher name : Name) (bare : Bool) : Machine α :=
  m.withHandle watcher fun h body =>
    if (m.world.handle? name).isSome || (bare && h.face = .plainRoot) then m.answer .invalid
    else
      (m.inWorld fun w =>
        { w with handles := w.handles.bind name (if bare then { h with face := .shared } else h) }
        ).answer (.text body.name)

def addRoot (m : Machine α) (name label : Name) (plain : Bool) : Machine α :=
  if (m.world.handle? name).isSome then m.answer .invalid
  else
    (m.inWorld fun w =>
      { w with
        watchers := w.watchers ++ [{ name := label, origin := .root }]
        handles := w.handles.bind name ⟨w.watchers.length, if plain then .plainRoot else .root⟩ }
      ).answer (.text label)

/-- A new child, fed by a subscription on its parent. -/
def addChild (m : Machine α) (watcher name : Name) (label : Except WatchError String)
    (apply : α → Outcome α) (actions : Actions α) : Machine α :=
  m.withHandle watcher fun h body =>
    if (m.world.handle? name).isSome then m.answer .invalid
    else
      match label with
      | .error e => m.answer (.failed e)
      | .ok label =>
        let child := m.world.watchers.length
        let m := m.inWorld fun w =>
          { w with
            watchers := w.watchers ++ [{
              name := body.name ++ " -> " ++ label
              origin := .child h.target body.registry.nextId ⟨name, apply, actions⟩ }] }
        ((m.push (.holding h.target)).push (.constructing name child)).register h.target body
          (.subscription child) ⟨.inline, fun _ => []⟩

def dropHandle (m : Machine α) (name : Name) : Machine α :=
  match m.world.handle? name with
  | none => m.answer .invalid
  | some h =>
    ((m.inWorld fun w => { w with handles := w.handles.unbind name }).release h.target).answer .done

/-- Polls a future on behalf of a waker. The actions of a waker are those it was first used with. -/
def pollFuture (m : Machine α) (future waker : Name) (actions : Actions α) : Machine α :=
  match m.world.futures.lookup future, m.world.future? future with
  | some id, some slot =>
    let m := m.inWorld fun w =>
      if (w.wakers.lookup waker).isSome then w
      else { w with wakers := w.wakers.bind waker { actions } }
    match slot.outcome? with
    | some r => m.answer (Query.stateAnswer r)
    | none =>
      ((m.record (.enlisted id waker)).inWorld
        (·.modify id fun b => { b with slot := b.slot.enlist waker })).answer .pending
  | _, _ => m.answer .invalid

/-- Takes a listener out of the registry of a watcher; the answer says whether it was there. -/
def unwatch (m : Machine α) (id : WatcherId) (listener : ListenerId) : Machine α :=
  let found := m.world.isRegistered id listener
  let m := m.record (.unwatched id listener found)
  (if found then m.inWorld (·.unregister id listener) else m).answer (.bool found)

def nameFuture (m : Machine α) (name : Name) (source : FutureSource) : Machine α :=
  let id? := match source with
    | .watcher watcher => (m.world.resolve? watcher).map (·.1.target)
    | .future future => m.world.futures.lookup future
  match id? with
  | some id => (m.inWorld fun w => { w with futures := w.futures.bind name id }).answer .done
  | none => m.answer .invalid

/-- Starts a thread that waits for a future. -/
def addWaiter (m : Machine α) (name future : Name) : Machine α :=
  match m.world.futures.lookup future, m.world.waiters.lookup name with
  | some id, none =>
    (m.inWorld fun w => { w with waiters := w.waiters.bind name id }).answer .done
  | _, _ => m.answer .invalid

/-- The result of a waiting thread, which is then gone. -/
def joinWaiter (m : Machine α) (name : Name) : Machine α :=
  match (m.world.waiters.lookup name).bind m.world.watcher? with
  | none => m.answer .invalid
  | some body =>
    match body.slot.outcome? with
    | none => m.answer .blocked
    | some r =>
      (m.inWorld fun w => { w with waiters := w.waiters.unbind name }).answer
        (Query.stateAnswer r)

/-- Runs queued tasks; the answer is how many were run. -/
def runQueue (m : Machine α) (queue : Name) : QueueOrder → Machine α
  | .forward => (m.inWorld (·.setQueue queue [])).push (.draining (m.world.queue queue) 0)
  | .backward =>
    (m.inWorld (·.setQueue queue [])).push (.draining (m.world.queue queue).reverse 0)
  | .picked positions => m.push (.picking queue positions 0)

/-- Starts a poller on a root, with a stop signal that is not set. A poller cannot be started while
there is one, and starting one panics if its thread cannot be named. -/
def startPoller (m : Machine α) (watcher : Name) (config : PollConfig) (script : Script α)
    (ending : PollEnd) : Machine α :=
  m.withHandle watcher fun h body =>
    if m.stack.any Frame.hasPoller then m.answer .invalid
    else
      match h.face, threadNamePanic? body.name with
      | .root, none | .plainRoot, none =>
        ((m.setStopped false).push (.holding h.target)).push (.polling
          { root := h.target, face := h.face, config, script, ending
            since := m.world.history.length })
      | .root, some payload | .plainRoot, some payload => m.unwind payload
      | _, _ => m.answer .invalid

/-- Sets the stop signal of the poller at work, if there is one. -/
def stopPoller (m : Machine α) : Machine α :=
  if m.stack.any Frame.hasPoller then (m.setStopped true).answer .done else m.answer .invalid

/-- Begins an operation. -/
def perform [BEq α] (m : Machine α) : Op α → Machine α
  | .invalid => m.answer .invalid
  | .ask query => m.answer (query.answer m.world)
  | .root name label plain => m.addRoot name label plain
  | .push watcher revision value => m.withHandle watcher fun h _ =>
    match h.face with
    | .root | .plainRoot =>
      (m.push (.holding h.target)).offer h.target ⟨revision, value.on h.face⟩
    | _ => m.answer .invalid
  | .child watcher name label apply actions => m.addChild watcher name label apply actions
  | .share watcher name bare => m.share watcher name bare
  | .drop watcher => m.dropHandle watcher
  | .watch watcher label valueOnly disposal onHandover actions =>
    m.withHandle watcher fun h body =>
      ((m.push (.holding h.target)).push (.watching label body.registry.nextId)).register
        h.target body (.observer label valueOnly actions) ⟨disposal, onHandover⟩
  | .unwatch watcher label => m.withHandle watcher fun h _ =>
    match m.world.listeners.lookup label with
    | none => m.answer .invalid
    | some id => m.unwatch h.target id
  | .close watcher => m.withHandle watcher fun h _ => (m.push (.holding h.target)).close h.target
  | .future name source => m.nameFuture name source
  | .futurePoll future waker actions => m.pollFuture future waker actions
  | .waiter name future => m.addWaiter name future
  | .join waiter => m.joinWaiter waiter
  | .queueRun queue order => m.runQueue queue order
  | .queueDrop queue =>
    (m.inWorld (·.setQueue queue [])).answer (.count (m.world.queue queue).length)
  | .poll watcher config script ending => m.startPoller watcher config script ending
  | .stop => m.stopPoller
  | .panic payload => m.unwind payload

end WatchTree.Machine
