import WatchTree.Machine.Basic

/-!
# Delivery

A state offered to a watcher is refused, or becomes its latest. An accepted one is handed, after the
wakers of the first value, to the listeners registered at that moment, in the order of their
registration. A task that reaches a listener calls it only if the registration is still active and
the update is newer than all it was called with before.
-/

namespace WatchTree.Machine

variable {α : Type}

/-- Calls the listener of a registration with an update. -/
def call (m : Machine α) (task : Task α) (r : Registration α) (elsewhere : Bool) : Machine α :=
  let m := m.inWorld (·.modifyRegistration task.watcher task.listener fun r =>
    { r with delivered := task.update, calls := r.calls + 1 })
  match r.listener with
  | .observer label valueOnly actions =>
    ((m.recordOn (m.onPoller && !elsewhere)
      (.called (.observer label valueOnly) task elsewhere)).push
      (.calling task)).push (.script (.observer label) (actions (r.calls + 1)))
  | .subscription child =>
    match m.world.parent? child with
    | none => m.proceed
    | some (_, _, derivation) =>
      (((m.recordOn (m.onPoller && !elsewhere) (.called (.child child) task elsewhere)).push
        (.calling task)).push (.applying child task.state)).push
        (.script (.derivation derivation.label) (derivation.actions (r.calls + 1)))

def run (m : Machine α) (task : Task α) (elsewhere : Bool) : Machine α :=
  match m.world.registration? task.watcher task.listener with
  | none => m.proceed
  | some r =>
    let m := m.record (.ran task r.active)
    if !r.active then m.proceed
    else if task.update ≤ r.delivered then
      (m.recordOn (m.onPoller && !elsewhere)
        (.logged task.watcher (m.nameOf task.watcher)
          (.staleDelivery task.listener task.update))).proceed
    else m.call task r elsewhere

/-- Hands a task to the executor of its registration, unless that is inactive. -/
def handOver (m : Machine α) (task : Task α) : Machine α :=
  match m.world.registration? task.watcher task.listener with
  | none => m.proceed
  | some r =>
    if !r.active then m.proceed
    else
      let m := (m.record (.handedOver task)).inWorld
        (·.modifyRegistration task.watcher task.listener fun r =>
          { r with handovers := r.handovers + 1 })
      let todo := r.executor.actions (r.handovers + 1)
      let m := m.push (.script (.executor task.watcher task.listener) todo)
      match r.executor.disposal with
      | .inline => m.run task false
      | .thread => m.run task true
      | .queue name => m.inWorld fun w => w.setQueue name (w.queue name ++ [task])
      | .discard => m

def refusalMessage (next : Latest α) : Watcher.Refusal → Diagnostic
  | .outOfOrder current => .outOfOrder current next.revision
  | .unchanged => .unchanged next.revision

/-- Offers a state to a watcher; the answer says whether it was accepted. -/
def offer [BEq α] (m : Machine α) (id : WatcherId) (next : Latest α) : Machine α :=
  match m.world.watcher? id with
  | none => m.answer (.bool false)
  | some body =>
    if body.closed then (m.record (.offered id next .watcherClosed)).answer (.bool false)
    else
      match body.refusal next with
      | some refusal =>
        ((m.record (.offered id next .refused)).log id (refusalMessage next refusal)).answer
          (.bool false)
      | none =>
        let m := (m.record (.offered id next .accepted)).inWorld (·.modify id (·.accept next))
        let m := if body.slot.isPending then m.log id (.initialized next.revision) else m
        (m.push (.announcing id (body.updates + 1) next body.registry.entries)).push
          (.waking body.slot.wakers)

/-- Registers a listener under the next id of a watcher and hands it the latest state; on a closed
watcher the id is used up and nothing else happens. -/
def register (m : Machine α) (id : WatcherId) (body : Watcher α) (listener : Listener α)
    (executor : Executor α) : Machine α :=
  if body.closed then
    ((m.inWorld (·.modify id fun b => { b with registry := b.registry.reserve })).log id
      (.registrationIgnored body.registry.nextId)).proceed
  else
    let m := m.inWorld (·.modify id fun b =>
      { b with registry := b.registry.insert listener executor })
    match body.latest with
    | none => m.proceed
    | some state => m.handOver ⟨id, body.registry.nextId, body.updates, state⟩

/-- Takes a child's subscription out of its parent's registry, if it is still there. -/
def detach (m : Machine α) (child : WatcherId) (message : String → Diagnostic) : Machine α :=
  match m.world.parent? child with
  | none => m
  | some (parent, subscription, _) =>
    if m.world.isRegistered parent subscription then
      (m.inWorld (·.unregister parent subscription)).log child (message (m.nameOf parent))
    else m

/-- Closes a watcher: its listeners and its pending slot are given up, and the wakers of the slot
are woken before a child is detached. -/
def close (m : Machine α) (id : WatcherId) : Machine α :=
  match m.world.watcher? id with
  | none => m.answer .done
  | some body =>
    if body.closed then m.answer .done
    else
      ((m.inWorld (·.modify id (·.close))).push
        (.closing id body.registry.entries.length)).push (.waking body.slot.wakers)

/-- A handle, an operation under way or an undropped child refers to the watcher. -/
def isReferenced (m : Machine α) (id : WatcherId) : Bool :=
  m.world.hasHandle id || m.stack.any (·.holds id) || m.world.hasChild id

/-- Drops a child to which nothing refers any more, and then, as far as that was the last reference
to its parent, the parent. -/
def release (m : Machine α) (id : WatcherId) : Machine α :=
  match m.world.watcher? id with
  | some { origin := .child parent _ _, dropped := false, .. } =>
    if m.isReferenced id then m
    else
      let m := (m.inWorld (·.modify id fun b => { b with dropped := true })).detach id
        .droppedUnclosed
      if parent < id then m.release parent else m
  | _ => m
termination_by id

end WatchTree.Machine
