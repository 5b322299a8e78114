import WatchTree.Proofs.Turns

/-!
# Effects of functions, of operations and of frames

A function of the machine makes a number of small changes, and it may end in one that hands the
stack over: a state is accepted, a watcher is closed or a poller starts. `Machine.Change` and
`Machine.Finale` list them, each with its `Effect`. `Op.effects` and `Frame.effects` say which
effects an operation has and which ones a frame that goes on; `Walk.perform`, `Walk.resume` and
`Walk.unwound` go through the code, once, and show that there are no others. Whatever a change
without certain effects keeps is therefore kept by every function without them (`Changes.lift`).
Nothing is assumed of the machine here: the reasons that a well-formed one has for what it does are
in its moves.
-/

namespace WatchTree

variable {α : Type}

/-! ## Effects -/

/-- What a function may do beside passing the control on, putting on frames of callbacks and tasks,
telling of them, and changing queues and names that are not of handles. -/
inductive Effect
  /-- A panic is raised. -/
  | raises
  /-- Handles change. -/
  | renames
  /-- A watcher is held, or a child constructed. -/
  | holds
  /-- A poller works. -/
  | polls
  /-- A poller starts. -/
  | starts
  /-- A waker is woken. -/
  | wakes
  /-- A delivery goes on. -/
  | delivers
  /-- A transformation is applied. -/
  | applies (child : WatcherId)
  /-- An application ends. -/
  | settles
  /-- A state is offered. -/
  | offers
  /-- A call or a handover is counted. -/
  | counts
  /-- A waker is left in a slot. -/
  | enlists
  /-- A watcher comes to be. -/
  | grows
  /-- A registry issues an id. -/
  | registers
  /-- A listener is taken out of a registry. -/
  | unregisters
  /-- A child is dropped. -/
  | drops
  /-- A state is accepted. -/
  | accepts
  /-- A watcher is closed. -/
  | closes

/-- Watchers change, or there are more of them. -/
def Effect.alters : Effect → Bool
  | counts | enlists | grows | registers | unregisters | drops => true
  | _ => false

/-- What a task may do. -/
def Effect.ofTask : Effect → Prop
  | counts | applies _ => True
  | _ => False

def Frame.effect? : Frame α → Option Effect
  | holding _ | constructing .. => some .holds
  | polling _ | fetching .. | pushing _ | ending _ => some .polls
  | waking _ => some .wakes
  | announcing .. => some .accepts
  | fanOut .. => some .delivers
  | applying child _ => some (.applies child)
  | closing .. => some .closes
  | _ => none

def Event.effect? : Event α → Option Effect
  | .fetched _ | .paused .. | .logged _ _ (.fetchFailed ..) => some .polls
  | .woken _ => some .wakes
  | .applied .. => some .settles
  | .offered _ _ .accepted => some .accepts
  | .offered .. => some .offers
  | .enlisted .. => some .enlists
  | _ => none

def Op.effects : Op α → Effect → Prop
  | .root .., .renames | .root .., .grows => True
  | .push .., .holds | .push .., .offers | .push .., .accepts => True
  | .child .., .holds | .child .., .grows | .child .., .registers | .child .., .counts
  | .child .., .applies _ => True
  | .share .., .renames => True
  | .drop _, .renames | .drop _, .drops | .drop _, .unregisters => True
  | .watch .., .holds | .watch .., .registers | .watch .., .counts | .watch .., .applies _ => True
  | .unwatch .., .unregisters => True
  | .close _, .holds | .close _, .closes => True
  | .futurePoll .., .enlists => True
  | .poll .., .raises | .poll .., .starts => True
  | .panic _, .raises => True
  | _, _ => False

def Frame.effects : Frame α → Effect → Prop
  | holding _, .drops | holding _, .unregisters => True
  | script _ (op :: _), e => op.effects e
  | waking _, .wakes => True
  | announcing .., .delivers => True
  | fanOut .., .delivers | fanOut .., .counts | fanOut .., .applies _ => True
  | applying .., .settles | applying .., .offers | applying .., .accepts => True
  | constructing .., .renames | constructing .., .drops | constructing .., .unregisters => True
  | closing .., .unregisters => True
  | draining .., .counts | draining .., .applies _ => True
  | picking .., .counts | picking .., .applies _ => True
  | polling _, .polls | polling _, .closes => True
  | fetching .., .polls | fetching .., .offers | fetching .., .accepts => True
  | pushing _, .polls => True
  | _, _ => False

namespace Machine

/-! ## Changes -/

/-- A small change with one of the effects `E`, or without effects. -/
inductive Change (E : Effect → Prop) (m : Machine α) : Machine α → Prop
  | control {c : Control α} : c.Calm → Change E m { m with control := c }
  | raise (payload : Payload) : E .raises → Change E m (m.unwind payload)
  | enter {f : Frame α} : (∀ e ∈ f.effect?, E e) → Change E m (m.push f)
  | note (p : Bool) {e : Event α} : (∀ x ∈ e.effect?, E x ∧ x ≠ .accepts) →
      Change E m (m.recordOn p e)
  | beside {f : World α → World α} : (f m.world).watchers = m.world.watchers →
      (f m.world).handles = m.world.handles → (f m.world).history = m.world.history →
      (m.world.stopped = true → (f m.world).stopped = true) → Change E m (m.inWorld f)
  | rename {f : World α → World α} : E .renames → (f m.world).watchers = m.world.watchers →
      (f m.world).history = m.world.history → (f m.world).stopped = m.world.stopped →
      Change E m (m.inWorld f)
  | count (id : WatcherId) (l : ListenerId) (f : Registration α → Registration α) : E .counts →
      Change E m (m.inWorld (·.modifyRegistration id l f))
  | enlist (id : WatcherId) (waker : Name) : E .enlists →
      Change E m (m.inWorld (·.modify id fun b => { b with slot := b.slot.enlist waker }))
  | grow {f : World α → World α} (name : String) (origin : Origin α) : E .grows →
      (f m.world).watchers = m.world.watchers ++ [{ name := name, origin := origin }] →
      (f m.world).history = m.world.history → (f m.world).stopped = m.world.stopped →
      Change E m (m.inWorld f)
  | register (id : WatcherId) (f : Registry α → Registry α) : E .registers →
      Change E m (m.inWorld (·.mapRegistry id f))
  | unregister (id : WatcherId) (l : ListenerId) : E .unregisters →
      Change E m (m.inWorld (·.unregister id l))
  | drop (id : WatcherId) : E .drops →
      Change E m (m.inWorld (·.modify id fun b => { b with dropped := true }))

/-- A number of small changes. -/
def Changes (E : Effect → Prop) : Machine α → Machine α → Prop := Relation.ReflTransGen (Change E)

namespace Changes

variable {E : Effect → Prop} {m m' m'' : Machine α}

theorem refl (m : Machine α) : m.Changes E m := Relation.ReflTransGen.refl

theorem single (h : m.Change E m') : m.Changes E m' := Relation.ReflTransGen.single h

theorem trans (h : m.Changes E m') (h' : m'.Changes E m'') : m.Changes E m'' :=
  Relation.ReflTransGen.trans h h'

/-- What every change keeps, changes keep. -/
theorem lift {R : Machine α → Machine α → Prop} (h : m.Changes E m') (hrefl : ∀ x, R x x)
    (htrans : ∀ {x y z}, R x y → R y z → R x z) (hchange : ∀ {x y}, x.Change E y → R x y) :
    R m m' := by
  induction h with
  | refl => exact hrefl m
  | tail _ hlast ih => exact htrans ih (hchange hlast)

theorem mono {E' : Effect → Prop} (h : m.Changes E m') (hE : ∀ e, E e → E' e) :
    m.Changes E' m' := by
  refine h.lift (R := Changes E') refl trans fun hchange => single ?_
  cases hchange with
  | control hc => exact .control hc
  | raise payload he => exact .raise payload (hE _ he)
  | enter hf => exact .enter fun e he => hE e (hf e he)
  | note p he => exact .note p fun x hx => ⟨hE x (he x hx).1, (he x hx).2⟩
  | beside hw hh hx hs => exact .beside hw hh hx hs
  | rename he hw hx hs => exact .rename (hE _ he) hw hx hs
  | count id l f he => exact .count id l f (hE _ he)
  | enlist id waker he => exact .enlist id waker (hE _ he)
  | grow name origin he hw hx hs => exact .grow name origin (hE _ he) hw hx hs
  | register id f he => exact .register id f (hE _ he)
  | unregister id l he => exact .unregister id l (hE _ he)
  | drop id he => exact .drop id (hE _ he)

/-- Frames may have been put on, all of them with the effects. -/
theorem frames (h : m.Changes E m') :
    ∃ fs, m'.stack = fs ++ m.stack ∧ ∀ f ∈ fs, ∀ e ∈ f.effect?, E e := by
  refine h.lift (R := fun x y => ∃ fs, y.stack = fs ++ x.stack ∧ ∀ f ∈ fs, ∀ e ∈ f.effect?, E e)
    (fun x => ⟨[], rfl, by simp⟩) ?_ fun hchange => ?_
  · rintro x y z ⟨fs, hfs, hE⟩ ⟨fs', hfs', hE'⟩
    exact ⟨fs' ++ fs, by rw [hfs', hfs, List.append_assoc], fun f hf =>
      (List.mem_append.mp hf).elim (hE' f) (hE f)⟩
  · cases hchange with
    | enter hf => exact ⟨[_], rfl, by simpa using hf⟩
    | _ => exact ⟨[], rfl, by simp⟩

theorem stack (h : m.Changes E m') : m.stack <:+ m'.stack := by
  obtain ⟨fs, hfs, -⟩ := h.frames
  exact ⟨fs, hfs.symm⟩

/-- All that has happened has the effects, and nothing was accepted. -/
theorem events (h : m.Changes E m') :
    ∃ es, m'.world.events = m.world.events ++ es ∧
      ∀ e ∈ es, ∀ x ∈ e.effect?, E x ∧ x ≠ .accepts := by
  refine h.lift (R := fun x y => ∃ es, y.world.events = x.world.events ++ es ∧
    ∀ e ∈ es, ∀ x ∈ e.effect?, E x ∧ x ≠ .accepts)
    (fun x => ⟨[], (List.append_nil _).symm, by simp⟩) ?_ ?_
  · rintro x y z ⟨es, hes, hE⟩ ⟨es', hes', hE'⟩
    exact ⟨es ++ es', by rw [hes', hes, List.append_assoc], fun e he =>
      (List.mem_append.mp he).elim (hE e) (hE' e)⟩
  · intro x y hchange
    have hsame : y.world.history = x.world.history →
        ∃ es, y.world.events = x.world.events ++ es ∧
          ∀ e ∈ es, ∀ x ∈ e.effect?, E x ∧ x ≠ .accepts := fun h =>
      ⟨[], (World.events_eq_of_history h).trans (List.append_nil _).symm, by simp⟩
    cases hchange with
    | note p he => exact ⟨[_], World.events_note x.world p _, by simpa using he⟩
    | beside _ _ hhistory _ | rename _ _ hhistory _ | grow _ _ _ _ hhistory _ =>
      exact hsame hhistory
    | _ => exact hsame rfl

/-- A stop signal that is set stays set. -/
theorem stopped (h : m.Changes E m') (hs : m.world.stopped = true) : m'.world.stopped = true := by
  refine h.lift (R := fun x y => x.world.stopped = true → y.world.stopped = true)
    (fun _ => id) (fun h h' => h' ∘ h) ?_ hs
  intro x y hchange hs
  cases hchange with
  | beside _ _ _ hstopped => exact hstopped hs
  | rename _ _ _ hstopped | grow _ _ _ _ _ hstopped => exact hstopped.trans hs
  | _ => exact hs

theorem closed (h : m.Changes E m') (id : WatcherId) :
    m'.world.isClosed id = m.world.isClosed id := by
  refine h.lift (R := fun x y => y.world.isClosed id = x.world.isClosed id) (fun _ => rfl)
    (fun h h' => h'.trans h) ?_
  intro x y hchange
  have hsame : y.world.watchers = x.world.watchers →
      y.world.isClosed id = x.world.isClosed id := fun h => by
    unfold World.isClosed World.watcher?
    rw [h]
  have hmodify : ∀ j {f : Watcher α → Watcher α}, (∀ b, (f b).closed = b.closed) →
      (x.world.modify j f).isClosed id = x.world.isClosed id :=
    fun j _ => World.isClosed_modify _ j id
  cases hchange with
  | beside hwatchers | rename _ hwatchers => exact hsame hwatchers
  | grow name origin _ hwatchers =>
    refine Eq.trans ?_ (World.isClosed_addWatcher x.world { name, origin } id rfl)
    unfold World.isClosed World.watcher?
    rw [inWorld, hwatchers]
    rfl
  | count | enlist | register | unregister | drop => exact hmodify _ fun _ => rfl
  | _ => rfl

/-- What alters no watcher leaves them all as they are. -/
theorem watchers (h : m.Changes E m') (hE : ∀ e, E e → e.alters = false) :
    m'.world.watchers = m.world.watchers := by
  refine h.lift (R := fun x y => y.world.watchers = x.world.watchers) (fun _ => rfl)
    (fun h h' => h'.trans h) ?_
  intro x y hchange
  cases hchange with
  | beside hwatchers | rename _ hwatchers => exact hwatchers
  | count _ _ _ he | enlist _ _ he | grow _ _ he | register _ _ he | unregister _ _ he
  | drop _ he => exact nomatch hE _ he
  | _ => rfl

/-! ### Controls, frames and events -/

theorem proceed (m : Machine α) : m.Changes E m.proceed := single (.control Control.calm_proceed)

theorem answer (m : Machine α) (a : Answer α) : m.Changes E (m.answer a) :=
  single (.control (Control.calm_answer a))

theorem push (m : Machine α) {f : Frame α} (hf : ∀ e ∈ f.effect?, E e) : m.Changes E (m.push f) :=
  single (.enter hf)

theorem recordOn (m : Machine α) (p : Bool) {e : Event α}
    (he : ∀ x ∈ e.effect?, E x ∧ x ≠ .accepts) : m.Changes E (m.recordOn p e) :=
  single (.note p he)

theorem record (m : Machine α) {e : Event α} (he : ∀ x ∈ e.effect?, E x ∧ x ≠ .accepts) :
    m.Changes E (m.record e) := recordOn m _ he

/-- A frame whose effect is allowed. -/
theorem push_of (m : Machine α) (f : Frame α) {e : Effect} (hf : f.effect? = some e) (he : E e) :
    m.Changes E (m.push f) :=
  push m fun _ hx => Option.some.inj (hf.symm.trans hx) ▸ he

/-- An event whose effect is allowed. -/
theorem recordOn_of (m : Machine α) (p : Bool) (e : Event α) {x : Effect}
    (he : e.effect? = some x) (hx : E x ∧ x ≠ .accepts) : m.Changes E (m.recordOn p e) :=
  recordOn m p fun _ hy => Option.some.inj (he.symm.trans hy) ▸ hx

theorem record_of (m : Machine α) (e : Event α) {x : Effect} (he : e.effect? = some x)
    (hx : E x ∧ x ≠ .accepts) : m.Changes E (m.record e) := recordOn_of m _ e he hx

/-- Messages about the failures of a poller apart, nothing that is logged is an effect. -/
theorem log (m : Machine α) (id : WatcherId) {d : Diagnostic}
    (hd : (Event.logged id (m.nameOf id) d : Event α).effect? = none) :
    m.Changes E (m.log id d) :=
  record m fun _ hx => nomatch hd.symm.trans hx

theorem beside (m : Machine α) {f : World α → World α}
    (hwatchers : (f m.world).watchers = m.world.watchers)
    (hhandles : (f m.world).handles = m.world.handles)
    (hhistory : (f m.world).history = m.world.history)
    (hstopped : (f m.world).stopped = m.world.stopped) : m.Changes E (m.inWorld f) :=
  single (.beside hwatchers hhandles hhistory hstopped.trans)

theorem rename (m : Machine α) {f : World α → World α} (hE : E .renames)
    (hwatchers : (f m.world).watchers = m.world.watchers)
    (hhistory : (f m.world).history = m.world.history)
    (hstopped : (f m.world).stopped = m.world.stopped) : m.Changes E (m.inWorld f) :=
  single (.rename hE hwatchers hhistory hstopped)

/-! ### Deliveries -/

theorem call (m : Machine α) (t : Task α) {r : Registration α} (elsewhere : Bool)
    (hcounts : E .counts)
    (happlies : ∀ child, r.listener = .subscription child → E (.applies child)) :
    m.Changes E (m.call t r elsewhere) := by
  refine (single (.count t.watcher t.listener (fun r =>
    { r with delivered := t.update, calls := r.calls + 1 }) hcounts)).trans ?_
  unfold Machine.call
  simp only
  split
  · exact ((recordOn _ _ (by nofun)).trans (push _ nofun)).trans (push _ nofun)
  · rename_i child hl
    split
    · exact proceed _
    · have happly : ∀ e ∈ (Frame.applying child t.state).effect?, E e := by
        rintro _ ⟨⟩
        exact happlies child hl
      exact (((recordOn _ _ (by nofun)).trans (push _ nofun)).trans (push _ happly)).trans
        (push _ nofun)

theorem run (m : Machine α) (t : Task α) (elsewhere : Bool) (hcounts : E .counts)
    (happlies : ∀ r child, m.world.registration? t.watcher t.listener = some r →
      r.listener = .subscription child → E (.applies child)) :
    m.Changes E (m.run t elsewhere) := by
  unfold Machine.run
  split
  · exact proceed m
  · rename_i r hr
    simp only
    split
    · exact (record m (by nofun)).trans (proceed _)
    · split
      · exact ((record m (by nofun)).trans (recordOn _ _ (by nofun))).trans (proceed _)
      · exact (record m (by nofun)).trans (call _ t elsewhere hcounts (happlies r · hr))

theorem handOver (m : Machine α) (t : Task α) (hcounts : E .counts)
    (happlies : ∀ r child, m.world.registration? t.watcher t.listener = some r →
      r.listener = .subscription child → E (.applies child)) :
    m.Changes E (m.handOver t) := by
  cases hr : m.world.registration? t.watcher t.listener with
  | none =>
    unfold Machine.handOver
    rw [hr]
    exact proceed m
  | some r =>
    unfold Machine.handOver
    rw [hr]
    simp only
    split
    · exact proceed m
    · have hgiven : m.Changes E ((m.record (.handedOver t)).inWorld
          (·.modifyRegistration t.watcher t.listener fun r =>
            { r with handovers := r.handovers + 1 })) :=
        (record m (by nofun)).trans (single (.count _ _ _ hcounts))
      have happlies' : ∀ r' child, (m.world.handOver m.onPoller t).registration? t.watcher
          t.listener = some r' → r'.listener = .subscription child → E (.applies child) := by
        intro r' child hr' hl
        rw [World.registration?_handOver, if_pos ⟨rfl, rfl⟩, hr] at hr'
        obtain rfl := Option.some.inj hr'
        exact happlies r child hr hl
      refine (hgiven.trans (push _ (f := .script (.executor t.watcher t.listener)
        (r.executor.actions (r.handovers + 1))) nofun)).trans ?_
      split
      · exact run _ t false hcounts happlies'
      · exact run _ t true hcounts happlies'
      · exact beside _ rfl rfl rfl rfl
      · exact refl _

/-- A task is run, whosever it is. -/
theorem run_ofTask (m : Machine α) (t : Task α) (elsewhere : Bool) :
    m.Changes Effect.ofTask (m.run t elsewhere) :=
  run m t elsewhere trivial fun _ _ _ _ => trivial

theorem handOver_ofTask (m : Machine α) (t : Task α) : m.Changes Effect.ofTask (m.handOver t) :=
  handOver m t trivial fun _ _ _ _ => trivial

theorem register (m : Machine α) (id : WatcherId) (b : Watcher α) (listener : Listener α)
    (executor : Executor α) (hregisters : E .registers) (hcounts : E .counts)
    (happlies : ∀ child, E (.applies child)) :
    m.Changes E (m.register id b listener executor) := by
  unfold Machine.register
  split
  · exact ((single (.register id Registry.reserve hregisters)).trans (log _ _ rfl)).trans
      (proceed _)
  · have henrol : m.Changes E (m.inWorld (·.enrol id listener executor)) :=
      single (.register id (·.insert listener executor) hregisters)
    simp only
    split
    · exact henrol.trans (proceed _)
    · exact henrol.trans (handOver _ _ hcounts fun _ child _ _ => happlies child)

/-! ### Detaching and releasing -/

theorem detach (m : Machine α) (child : WatcherId) {message : String → Diagnostic}
    (hE : E .unregisters)
    (hmessage : ∀ id name parent,
      (Event.logged id name (message parent) : Event α).effect? = none) :
    m.Changes E (m.detach child message) := by
  unfold Machine.detach
  split
  · exact refl m
  · split
    · exact (single (.unregister _ _ hE)).trans (log _ _ (hmessage _ _ _))
    · exact refl m

theorem dropChild (m : Machine α) (id : WatcherId) (hdrops : E .drops) (hun : E .unregisters) :
    m.Changes E (m.dropChild id) :=
  (single (.drop id hdrops)).trans (detach _ id hun fun _ _ _ => rfl)

theorem release (id : WatcherId) (hdrops : E .drops) (hun : E .unregisters) :
    ∀ m : Machine α, m.Changes E (m.release id) :=
  release_induction (R := fun _ m m' => m.Changes E m') (fun {_ m} _ => refl m)
    (fun _ _ _ _ => dropChild _ _ hdrops hun)
    (fun _ _ _ _ hparent => (dropChild _ _ hdrops hun).trans hparent) id

/-! ### Operations -/

theorem withHandle {m : Machine α} (name : Name) {f : Handle → Watcher α → Machine α}
    (h : ∀ hd b, m.Changes E (f hd b)) : m.Changes E (m.withHandle name f) := by
  unfold Machine.withHandle
  split
  · exact h _ _
  · exact answer m _

theorem share (m : Machine α) (watcher name : Name) (bare : Bool) (hE : E .renames) :
    m.Changes E (m.share watcher name bare) :=
  withHandle watcher fun hd b => by
    split
    · exact answer m _
    · exact (rename m hE rfl rfl rfl).trans (answer _ _)

theorem addRoot (m : Machine α) (name label : Name) (plain : Bool) (hE : E .grows) :
    m.Changes E (m.addRoot name label plain) := by
  unfold Machine.addRoot
  split
  · exact answer m _
  · exact (single (.grow label .root hE rfl rfl rfl)).trans (answer _ _)

theorem addChild (m : Machine α) (watcher name : Name) (label : Except WatchError String)
    (apply : α → Outcome α) (actions : Actions α) (hholds : E .holds) (hgrows : E .grows)
    (hregisters : E .registers) (hcounts : E .counts) (happlies : ∀ child, E (.applies child)) :
    m.Changes E (m.addChild watcher name label apply actions) := by
  refine withHandle watcher fun hd b => ?_
  split
  · exact answer m _
  · split
    · exact answer m _
    · rename_i label
      have hgrown : m.Changes E (m.inWorld (·.addWatcher {
          name := b.name ++ " -> " ++ label
          origin := .child hd.target b.registry.nextId ⟨name, apply, actions⟩ })) :=
        single (.grow _ _ hgrows rfl rfl rfl)
      exact ((hgrown.trans (push_of _ (.holding hd.target) rfl hholds)).trans
        (push_of _ (.constructing name m.world.watchers.length) rfl hholds)).trans
        (register _ _ _ _ _ hregisters hcounts happlies)

theorem dropHandle (m : Machine α) (name : Name) (hrenames : E .renames) (hdrops : E .drops)
    (hun : E .unregisters) : m.Changes E (m.dropHandle name) := by
  unfold Machine.dropHandle
  split
  · exact answer m _
  · exact ((rename m hrenames rfl rfl rfl).trans (release _ hdrops hun _)).trans (answer _ _)

theorem unwatch (m : Machine α) (id : WatcherId) (l : ListenerId) (hE : E .unregisters) :
    m.Changes E (m.unwatch id l) := by
  unfold Machine.unwatch
  have hnoted : m.Changes E (m.record (.unwatched id l (m.world.isRegistered id l))) :=
    record m nofun
  simp only
  split
  · exact (hnoted.trans (single (.unregister id l hE))).trans (answer _ _)
  · exact hnoted.trans (answer _ _)

theorem pollFuture (m : Machine α) (future waker : Name) (actions : Actions α) (hE : E .enlists) :
    m.Changes E (m.pollFuture future waker actions) := by
  unfold Machine.pollFuture
  split
  · rename_i id slot _ _
    have hnamed : m.Changes E (m.inWorld fun w =>
        if (w.wakers.lookup waker).isSome then w
        else { w with wakers := w.wakers.bind waker { actions } }) := by
      refine beside m ?_ ?_ ?_ ?_ <;> split <;> rfl
    simp only
    split
    · exact hnamed.trans (answer _ _)
    · exact ((hnamed.trans (record_of _ (.enlisted id waker) rfl ⟨hE, nofun⟩)).trans
        (single (.enlist id waker hE))).trans (answer _ _)
  · exact answer m _

theorem nameFuture (m : Machine α) (name : Name) (source : FutureSource) :
    m.Changes E (m.nameFuture name source) := by
  unfold Machine.nameFuture
  simp only
  split
  · exact (beside m rfl rfl rfl rfl).trans (answer _ _)
  · exact answer m _

theorem addWaiter (m : Machine α) (name future : Name) :
    m.Changes E (m.addWaiter name future) := by
  unfold Machine.addWaiter
  split
  · exact (beside m rfl rfl rfl rfl).trans (answer _ _)
  · exact answer m _

theorem joinWaiter (m : Machine α) (name : Name) : m.Changes E (m.joinWaiter name) := by
  unfold Machine.joinWaiter
  split
  · exact answer m _
  · split
    · exact answer m _
    · exact (beside m rfl rfl rfl rfl).trans (answer _ _)

theorem runQueue (m : Machine α) (queue : Name) (order : QueueOrder) :
    m.Changes E (m.runQueue queue order) := by
  cases order with
  | picked positions => exact push m nofun
  | forward | backward => exact (beside m rfl rfl rfl rfl).trans (push _ nofun)

theorem stop (m : Machine α) : m.Changes E (m.setStopped true) :=
  single (.beside rfl rfl rfl fun _ => rfl)

theorem stopPoller (m : Machine α) : m.Changes E m.stopPoller := by
  unfold Machine.stopPoller
  split
  · exact (stop m).trans (answer _ _)
  · exact answer m _

theorem wake (m : Machine α) (name : Name) (hE : E .wakes) : m.Changes E (m.wake name) := by
  have hnoted : m.Changes E (m.record (.woken name)) := record_of m _ rfl ⟨hE, nofun⟩
  unfold Machine.wake
  simp only
  split
  · exact hnoted.trans (proceed _)
  · exact (hnoted.trans (beside _ rfl rfl rfl rfl)).trans (push _ nofun)

/-! ### Pollers -/

theorem finish (m : Machine α) (p : Polling α) : m.Changes E (m.finish p) :=
  (recordOn m true (by nofun)).trans (answer _ _)

theorem succeed (m : Machine α) (p : Polling α) (hE : E .polls) : m.Changes E (m.succeed p) :=
  (push_of m (.polling { p with backoff := none }) rfl hE).trans
    (recordOn_of _ true (.paused p.root p.config.delay) rfl ⟨hE, nofun⟩)

theorem fail (m : Machine α) (p : Polling α) (error : String) (hE : E .polls) :
    m.Changes E (m.fail p error) :=
  ((push_of m (.polling { p with backoff := some (p.config.nextBackoff p.backoff) }) rfl hE).trans
    (recordOn_of _ true (.logged p.root (m.nameOf p.root)
      (.fetchFailed error (p.config.nextBackoff p.backoff))) rfl ⟨hE, nofun⟩)).trans
    (recordOn_of _ true (.paused p.root (p.config.nextBackoff p.backoff)) rfl ⟨hE, nofun⟩)

end Changes

/-! ## What a function ends in -/

/-- The last thing that a function does, with one of the effects `E`. -/
inductive Finale [BEq α] (E : Effect → Prop) (m : Machine α) : Machine α → Prop
  | accept {id : WatcherId} {b : Watcher α} {s : Latest α} : E .accepts →
      m.world.watcher? id = some b → b.closed = false → b.refusal s = none →
      Finale E m ⟨m.world.adopt m.onPoller m.onPoller b.name id b s,
        .waking b.slot.wakers :: .announcing id (b.updates + 1) s b.registry.entries :: m.stack,
        .proceed⟩
  | close {id : WatcherId} {b : Watcher α} : E .closes → m.world.watcher? id = some b →
      b.closed = false →
      Finale E m ⟨m.world.modify id Watcher.close,
        .waking b.slot.wakers :: .closing id b.registry.entries.length :: m.stack, .proceed⟩
  | start {p : Polling α} : E .starts → m.stack.any Frame.hasPoller = false →
      Finale E m (((m.setStopped false).push (.holding p.root)).push (.polling p))

/-- A number of small changes, and then perhaps a last one that hands the stack over. -/
def Walk [BEq α] (E : Effect → Prop) (m m' : Machine α) : Prop :=
  ∃ x, m.Changes E x ∧ (m' = x ∨ x.Finale E m')

theorem Changes.walk [BEq α] {E : Effect → Prop} {m m' : Machine α} (h : m.Changes E m') :
    m.Walk E m' := ⟨m', h, .inl rfl⟩

theorem Changes.then_walk [BEq α] {E : Effect → Prop} {m m' m'' : Machine α} (h : m.Changes E m')
    (h' : m'.Walk E m'') : m.Walk E m'' := by
  obtain ⟨x, hx, hlast⟩ := h'
  exact ⟨x, h.trans hx, hlast⟩

namespace Walk

variable [BEq α] {E : Effect → Prop} {m m' : Machine α}

theorem mono {E' : Effect → Prop} (h : m.Walk E m') (hE : ∀ e, E e → E' e) : m.Walk E' m' := by
  obtain ⟨x, hx, hlast⟩ := h
  refine ⟨x, hx.mono hE, hlast.imp_right fun hlast => ?_⟩
  cases hlast with
  | accept he hb hcl hr => exact .accept (hE _ he) hb hcl hr
  | close he hb hcl => exact .close (hE _ he) hb hcl
  | start he hnone => exact .start (hE _ he) hnone

theorem answer (m : Machine α) (a : Answer α) : m.Walk E (m.answer a) := (Changes.answer m a).walk

theorem offer (m : Machine α) (id : WatcherId) (s : Latest α) (hoffers : E .offers)
    (haccepts : E .accepts) : m.Walk E (m.offer id s) := by
  cases hb : m.world.watcher? id with
  | none =>
    unfold Machine.offer
    rw [hb]
    exact answer m _
  | some b =>
    cases hcl : b.closed with
    | true =>
      unfold Machine.offer
      simp only [hb, if_pos hcl]
      exact ((Changes.record_of m (.offered id s .watcherClosed) rfl ⟨hoffers, nofun⟩).trans
        (.answer _ _)).walk
    | false =>
      cases hr : b.refusal s with
      | some refusal =>
        unfold Machine.offer
        simp only [hb, hcl, hr]
        exact (((Changes.record_of m (.offered id s .refused) rfl ⟨hoffers, nofun⟩).trans
          (.log _ _ (by cases refusal <;> rfl))).trans (.answer _ _)).walk
      | none =>
        rw [offer_adopted hb hcl hr]
        exact ⟨m, .refl m, .inr (.accept haccepts hb hcl hr)⟩

theorem settle (m : Machine α) (child : WatcherId) (r : Revision) (outcome : Outcome α)
    (hsettles : E .settles) (hoffers : E .offers) (haccepts : E .accepts) :
    m.Walk E (m.settle child r outcome) := by
  have hnoted : m.Changes E (m.record (.applied child r outcome)) :=
    .record_of m _ rfl ⟨hsettles, nofun⟩
  cases outcome with
  | value y => exact hnoted.then_walk (offer _ child ⟨r, y⟩ hoffers haccepts)
  | failed error => exact ((hnoted.trans (.log _ _ rfl)).trans (.proceed _)).walk
  | panicked payload => exact ((hnoted.trans (.log _ _ rfl)).trans (.proceed _)).walk

theorem close (m : Machine α) (id : WatcherId) (hE : E .closes) : m.Walk E (m.close id) := by
  unfold Machine.close
  split
  · exact answer m _
  · rename_i b hb
    split
    · exact answer m _
    · rename_i hcl
      exact ⟨m, .refl m, .inr (.close hE hb ((Bool.not_eq_true _).mp hcl))⟩

theorem withHandle {m : Machine α} (name : Name) {f : Handle → Watcher α → Machine α}
    (h : ∀ hd b, m.Walk E (f hd b)) : m.Walk E (m.withHandle name f) := by
  unfold Machine.withHandle
  split
  · exact h _ _
  · exact answer m _

theorem startPoller (m : Machine α) (watcher : Name) (config : PollConfig) (script : Script α)
    (ending : PollEnd) (hraises : E .raises) (hstarts : E .starts) :
    m.Walk E (m.startPoller watcher config script ending) := by
  refine withHandle watcher fun hd b => ?_
  split
  · exact answer m _
  · rename_i hnone
    have hstart : m.Walk E (((m.setStopped false).push (.holding hd.target)).push (.polling
        { root := hd.target, face := hd.face, config, script, ending
          since := m.world.history.length })) :=
      ⟨m, .refl m, .inr (.start hstarts ((Bool.not_eq_true _).mp hnone))⟩
    split
    · exact hstart
    · exact hstart
    · exact (Changes.single (.raise _ hraises)).walk
    · exact (Changes.single (.raise _ hraises)).walk
    · exact answer m _

/-- An operation that begins. -/
theorem perform (m : Machine α) {op : Op α} (hE : ∀ e, op.effects e → E e) :
    m.Walk E (m.perform op) := by
  cases op with
  | invalid | ask => exact answer m _
  | root name label plain => exact (Changes.addRoot m name label plain (hE .grows trivial)).walk
  | push watcher revision value =>
    have hoffer : ∀ id s, m.Walk E ((m.push (.holding id)).offer id s) := fun id s =>
      (Changes.push_of m (.holding id) rfl (hE .holds trivial)).then_walk
        (offer _ id s (hE .offers trivial) (hE .accepts trivial))
    refine withHandle watcher fun hd b => ?_
    split
    · exact hoffer _ _
    · exact hoffer _ _
    · exact answer m _
  | child watcher name label apply actions =>
    exact (Changes.addChild m watcher name label apply actions (hE .holds trivial)
      (hE .grows trivial) (hE .registers trivial) (hE .counts trivial)
      fun child => hE (.applies child) trivial).walk
  | share watcher name bare =>
    exact (Changes.share m watcher name bare (hE .renames trivial)).walk
  | drop watcher =>
    exact (Changes.dropHandle m watcher (hE .renames trivial) (hE .drops trivial)
      (hE .unregisters trivial)).walk
  | watch watcher label valueOnly disposal onHandover actions =>
    exact withHandle watcher fun hd b =>
      (((Changes.push_of m (.holding hd.target) rfl (hE .holds trivial)).trans
        (.push _ (f := .watching label b.registry.nextId) nofun)).trans
        (.register _ _ _ _ _ (hE .registers trivial) (hE .counts trivial)
          fun child => hE (.applies child) trivial)).walk
  | unwatch watcher label =>
    refine withHandle watcher fun hd b => ?_
    split
    · exact answer m _
    · exact (Changes.unwatch m _ _ (hE .unregisters trivial)).walk
  | close watcher =>
    exact withHandle watcher fun hd b =>
      (Changes.push_of m (.holding hd.target) rfl (hE .holds trivial)).then_walk
        (close _ _ (hE .closes trivial))
  | future name source => exact (Changes.nameFuture m name source).walk
  | futurePoll future waker actions =>
    exact (Changes.pollFuture m future waker actions (hE .enlists trivial)).walk
  | waiter name future => exact (Changes.addWaiter m name future).walk
  | join waiter => exact (Changes.joinWaiter m waiter).walk
  | queueRun queue order => exact (Changes.runQueue m queue order).walk
  | queueDrop queue => exact ((Changes.beside m rfl rfl rfl rfl).trans (.answer _ _)).walk
  | poll watcher config script ending =>
    exact startPoller m watcher config script ending (hE .raises trivial) (hE .starts trivial)
  | stop => exact (Changes.stopPoller m).walk
  | panic payload => exact (Changes.single (.raise payload (hE .raises trivial))).walk

theorem fetchNext (m : Machine α) (p : Polling α) (hpolls : E .polls) (hcloses : E .closes) :
    m.Walk E (m.fetchNext p) := by
  unfold Machine.fetchNext
  split
  · exact (Changes.finish m p).walk
  · split
    · exact (Changes.finish m p).walk
    · split
      · split
        · exact (Changes.push_of m (.ending p) rfl hpolls).then_walk (close _ _ hcloses)
        · exact ((Changes.stop m).trans (.finish _ p)).walk
      · rename_i actions reply rest _
        exact (((Changes.push_of m (.fetching { p with script := rest } reply) rfl hpolls).trans
          (.record_of _ (.fetched _) rfl ⟨hpolls, nofun⟩)).trans
          (.push _ (f := .script .fetch actions) nofun)).walk
      · rename_i before actions reply rest _ _
        exact ((Changes.push_of m (.polling { p with script := ⟨[], actions, reply⟩ :: rest }) rfl
          hpolls).trans (.push _ (f := .script .elsewhere before) nofun)).walk

theorem takeReply (m : Machine α) (p : Polling α) (reply : Reply α) (hpolls : E .polls)
    (hoffers : E .offers) (haccepts : E .accepts) : m.Walk E (m.takeReply p reply) := by
  cases reply with
  | state revision value =>
    exact (Changes.push_of m (.pushing p) rfl hpolls).then_walk (offer _ _ _ hoffers haccepts)
  | nothing => exact (Changes.succeed m p hpolls).walk
  | failed error => exact (Changes.fail m p error hpolls).walk
  | panicked payload => exact (Changes.fail m p _ hpolls).walk

/-- A frame that goes on. -/
theorem resume (m : Machine α) (f : Frame α) (hE : ∀ e, f.effects e → E e) :
    m.Walk E (m.resume f) := by
  cases f with
  | holding id => exact (Changes.release id (hE .drops trivial) (hE .unregisters trivial) m).walk
  | script site todo =>
    cases todo with
    | nil => exact (Changes.proceed m).walk
    | cons op rest => exact (Changes.push m (f := .script site rest) nofun).then_walk (perform _ hE)
  | waking names =>
    cases names with
    | nil => exact (Changes.proceed m).walk
    | cons waker rest =>
      exact ((Changes.push_of m (.waking rest) rfl (hE .wakes trivial)).trans
        (.wake _ waker (hE .wakes trivial))).walk
  | announcing id n s ls =>
    exact ((Changes.push_of m (.fanOut id n s ls) rfl (hE .delivers trivial)).trans
      (.log _ _ rfl)).walk
  | fanOut id n s ls =>
    cases ls with
    | nil => exact answer m _
    | cons l ls =>
      exact ((Changes.push_of m (.fanOut id n s ls) rfl (hE .delivers trivial)).trans
        (.handOver _ _ (hE .counts trivial) fun _ child _ _ => hE (.applies child) trivial)).walk
  | calling t => exact (Changes.proceed m).walk
  | applying child s =>
    exact settle m child s.revision _ (hE .settles trivial) (hE .offers trivial)
      (hE .accepts trivial)
  | watching label id => exact ((Changes.beside m rfl rfl rfl rfl).trans (.answer _ _)).walk
  | constructing name child =>
    have hbound : m.Changes E (m.inWorld fun w =>
        { w with handles := w.handles.bind name ⟨child, .child⟩ }) :=
      .rename m (hE .renames trivial) rfl rfl rfl
    unfold Machine.resume
    simp only
    split
    · exact ((hbound.trans (.release _ (hE .drops trivial) (hE .unregisters trivial) _)).trans
        (.answer _ _)).walk
    · exact (hbound.trans (.answer _ _)).walk
  | closing id n =>
    exact (((Changes.log m id rfl).trans
      (.detach _ id (hE .unregisters trivial) fun _ _ _ => rfl)).trans (.answer _ _)).walk
  | draining ts k =>
    cases ts with
    | nil => exact answer m _
    | cons t ts =>
      exact ((Changes.push m (f := .draining ts (k + 1)) nofun).trans
        (.run _ t false (hE .counts trivial) fun _ child _ _ => hE (.applies child) trivial)).walk
  | picking q is k =>
    cases is with
    | nil => exact answer m _
    | cons i is =>
      unfold Machine.resume
      simp only
      split
      · exact (Changes.push m nofun).walk
      · exact (((Changes.beside m rfl rfl rfl rfl).trans (.push _ nofun)).trans
          (.run _ _ false (hE .counts trivial) fun _ child _ _ => hE (.applies child) trivial)).walk
  | polling p => exact fetchNext m p (hE .polls trivial) (hE .closes trivial)
  | fetching p reply =>
    exact takeReply m p reply (hE .polls trivial) (hE .offers trivial) (hE .accepts trivial)
  | pushing p => exact (Changes.succeed m p (hE .polls trivial)).walk
  | ending p => exact (Changes.finish m p).walk

/-- A panic that reaches a frame. -/
theorem unwound (m : Machine α) (payload : Payload) (f : Frame α) (hE : ∀ e, f.effects e → E e) :
    m.Walk E (m.unwound payload f) := by
  cases f with
  | holding id => exact (Changes.release id (hE .drops trivial) (hE .unregisters trivial) m).walk
  | calling t => exact ((Changes.log m _ rfl).trans (.proceed _)).walk
  | applying child s =>
    exact settle m child s.revision (.panicked payload) (hE .settles trivial) (hE .offers trivial)
      (hE .accepts trivial)
  | polling p =>
    exact (Changes.proceed m).then_walk (fetchNext _ p (hE .polls trivial) (hE .closes trivial))
  | fetching p | pushing p => exact (Changes.fail m p _ (hE .polls trivial)).walk
  | ending p => exact (Changes.recordOn m true (by nofun)).walk
  | _ => exact (Changes.refl m).walk

end Walk

end Machine

end WatchTree
