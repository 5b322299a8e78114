import WatchTree.Machine.Operation

/-!
# Steps

How a frame goes on, and what a panic does to it. A step does one of the two with the innermost
frame, so every point at which user code takes over lies between two steps.
-/

namespace WatchTree.Machine

variable {α : Type}

def wake (m : Machine α) (name : Name) : Machine α :=
  let m := m.record (.woken name)
  match m.world.wakers.lookup name with
  | none => m.proceed
  | some waker =>
    (m.inWorld fun w =>
      { w with wakers := w.wakers.bind name { waker with wakes := waker.wakes + 1 } }).push
      (.script (.waker name) (waker.actions (waker.wakes + 1)))

/-- Ends an application of a child's transformation. -/
def settle [BEq α] (m : Machine α) (child : WatcherId) (revision : Revision) (outcome : Outcome α) :
    Machine α :=
  let m := m.record (.applied child revision outcome)
  match outcome with
  | .value v => m.offer child ⟨revision, v⟩
  | .failed error => (m.log child (.transformationFailed revision error)).proceed
  | .panicked payload =>
    (m.log child (.transformationFailed revision
      ("transformation panicked: " ++ payload.message))).proceed

/-- The outcome of a child's transformation. -/
def outcomeOf (m : Machine α) (child : WatcherId) (value : α) : Outcome α :=
  match m.world.parent? child with
  | some (_, _, derivation) => derivation.apply value
  | none => .failed ""

/-- Goes on with a frame that has been taken off the stack. -/
def resume [BEq α] (m : Machine α) : Frame α → Machine α
  | .holding id => m.release id
  | .script _ [] => m.proceed
  | .script site (op :: rest) => (m.push (.script site rest)).perform op
  | .waking [] => m.proceed
  | .waking (waker :: rest) => (m.push (.waking rest)).wake waker
  | .announcing id update state listeners =>
    (m.push (.fanOut id update state listeners)).log id
      (.acceptedUpdate state.revision listeners.length)
  | .fanOut _ _ _ [] => m.answer (.bool true)
  | .fanOut id update state (listener :: rest) =>
    (m.push (.fanOut id update state rest)).handOver ⟨id, listener, update, state⟩
  | .calling _ => m.proceed
  | .applying child state => m.settle child state.revision (m.outcomeOf child state.value)
  | .watching label id =>
    (m.inWorld fun w => { w with listeners := w.listeners.bind label id }).answer (.listener id)
  | .constructing name child =>
    let replaced := m.world.handle? name
    let m := m.inWorld fun w => { w with handles := w.handles.bind name ⟨child, .child⟩ }
    let m := match replaced with
      | some h => m.release h.target
      | none => m
    m.answer (.text (m.nameOf child))
  | .closing id listeners => ((m.log id (.closed listeners)).detach id .detached).answer .done
  | .draining [] count => m.answer (.count count)
  | .draining (task :: rest) count => (m.push (.draining rest (count + 1))).run task false
  | .picking _ [] count => m.answer (.count count)
  | .picking queue (position :: rest) count =>
    match (m.world.queue queue)[position]? with
    | none => m.push (.picking queue rest count)
    | some task =>
      ((m.inWorld fun w => w.setQueue queue ((w.queue queue).eraseIdx position)).push
        (.picking queue rest (count + 1))).run task false
  | .polling p => m.fetchNext p
  | .fetching p reply => m.takeReply p reply
  | .pushing p => m.succeed p
  | .ending p => m.finish p

/-- Lets a panic reach a frame that has been taken off the stack. -/
def unwound [BEq α] (m : Machine α) (payload : Payload) : Frame α → Machine α
  | .holding id => m.release id
  | .calling task =>
    (m.log task.watcher
      (.listenerPanicked task.listener task.state.revision payload.message)).proceed
  | .applying child state => m.settle child state.revision (.panicked payload)
  | .polling p => m.proceed.fetchNext p
  | .fetching p _ | .pushing p => m.fail p (pollPanic payload)
  | .ending p => m.recordOn true (.logged p.root (m.nameOf p.root) .pollerFinished)
  | _ => m

/-- One step. An answer is taken by a script, which reports it, and passed on by the operation that
held the watcher; to all other frames it only says that the work above is done. -/
def step [BEq α] (m : Machine α) : Machine α :=
  match m.stack with
  | [] => m
  | frame :: rest =>
    let popped := { m with stack := rest }
    match m.control, frame with
    | .unwind payload, frame => popped.unwound payload frame
    | .answer a, .script site _ => (m.record (.did site.label a)).proceed
    | .answer _, .holding id => popped.release id
    | _, frame => popped.resume frame

end WatchTree.Machine
