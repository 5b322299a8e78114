import WatchTree.Proofs.FirstValue
import WatchTree.Proofs.Derivations
import WatchTree.Proofs.Effects

/-!
# What one step does

Whatever a step is part of, it does at most one thing that matters to first values, offers and
transformations: a push offers a state to a root, a watcher is closed, a future is polled, a waker
is woken, or an application of a transformation ends. `Machine.Does` says so, and names the function
that does it, with the frames that it finds (`Next.does`). All else is `Machine.KeepsSlots`. The
deeds of a history are the events of the former kind; for each function there is a lemma that tells
which ones it adds.
-/

namespace WatchTree

variable {α : Type}

/-- An offer, the end of an application, or something about a waker. -/
def Event.isDeed : Event α → Bool
  | .woken _ | .offered .. | .enlisted .. | .applied .. => true
  | _ => false

/-- A waker is left in a slot or woken. -/
def Event.isOfWaker : Event α → Bool
  | .woken _ | .enlisted .. => true
  | _ => false

/-! ## The deeds of a history -/

/-- What is done with a state that is offered to a watcher. -/
def Watcher.reception [BEq α] (b : Watcher α) (s : Latest α) : Reception :=
  if b.closed then .watcherClosed else if (b.refusal s).isNone then .accepted else .refused

theorem Watcher.reception_eq_accepted_iff [BEq α] {b : Watcher α} {s : Latest α} :
    b.reception s = .accepted ↔ b.closed = false ∧ b.refusal s = none := by
  unfold reception
  cases b.closed <;> cases b.refusal s <;> simp

theorem Watcher.reception_eq_watcherClosed_iff [BEq α] {b : Watcher α} {s : Latest α} :
    b.reception s = .watcherClosed ↔ b.closed = true := by
  unfold reception
  cases b.closed <;> cases b.refusal s <;> simp

theorem Watcher.closed_eq_false [BEq α] {b : Watcher α} {s : Latest α}
    (h : b.reception s ≠ .watcherClosed) : b.closed = false :=
  Bool.eq_false_iff.mpr (mt reception_eq_watcherClosed_iff.mpr h)

namespace World

/-- What was done, oldest first. -/
def deeds (w : World α) : List (Event α) := w.events.filter Event.isDeed

theorem deeds_note (w : World α) (p : Bool) (e : Event α) :
    (w.note p e).deeds = w.deeds ++ if e.isDeed then [e] else [] := by
  unfold deeds
  rw [events_note, List.filter_append]
  cases h : e.isDeed <;> simp [h]

theorem deeds_eq_of_events {w w' : World α} (h : w'.events = w.events) : w'.deeds = w.deeds := by
  unfold deeds
  rw [h]

/-- What can be read off a history without regard to other events can be read off the deeds. -/
theorem filterMap_deeds {β : Type} {g : Event α → Option β}
    (hg : ∀ e, e.isDeed = false → g e = none) (w : World α) :
    w.events.filterMap g = w.deeds.filterMap g := by
  unfold deeds
  induction w.events with
  | nil => rfl
  | cons e es ih =>
    rw [List.filter_cons]
    cases h : e.isDeed with
    | true => simp only [if_pos, List.filterMap_cons, ih]
    | false => simp [hg e h, ih]

theorem deeds_adopt (w : World α) (p q : Bool) (name : String) (id : WatcherId) (b : Watcher α)
    (s : Latest α) :
    (w.adopt p q name id b s).deeds = w.deeds ++ [.offered id s .accepted] := by
  have hoffer : ((w.note p (.offered id s .accepted)).modify id (·.accept s)).deeds =
      w.deeds ++ [.offered id s .accepted] :=
    (deeds_eq_of_events (events_modify ..)).trans (deeds_note w p _)
  unfold adopt
  simp only
  split
  · rw [deeds_note, hoffer]
    exact List.append_nil _
  · exact hoffer

theorem slot_adopt {w : World α} (p q : Bool) (name : String) {id : WatcherId} {b : Watcher α}
    (hb : w.watcher? id = some b) (s : Latest α) (j : WatcherId) :
    (w.adopt p q name id b s).slot j = if id = j then b.slot.complete s else w.slot j := by
  have hoffer : (w.adopt p q name id b s).slot j =
      ((w.note p (.offered id s .accepted)).modify id (·.accept s)).slot j := by
    unfold adopt
    simp only
    split <;> rfl
  rw [hoffer]
  by_cases hj : id = j
  · subst hj
    rw [if_pos rfl, slot_of_watcher? (watcher?_modify_self (w := w.note p _) hb _)]
    rfl
  · rw [if_neg hj]
    unfold slot
    rw [watcher?_modify_of_ne _ hj]
    rfl

end World

/-- It leaves a waker in a slot, wakes one, completes a slot, offers a state or ends an
application. -/
def Effect.isDeed : Effect → Bool
  | wakes | settles | offers | enlists | accepts | closes => true
  | _ => false

theorem Event.effect?_of_isDeed {e : Event α} (h : e.isDeed = true) :
    ∃ x ∈ e.effect?, x.isDeed = true := by
  cases e with
  | offered id s reception => cases reception <;> exact ⟨_, rfl, rfl⟩
  | woken | enlisted | applied => exact ⟨_, rfl, rfl⟩
  | _ => exact nomatch h

namespace Frame

/-- Wakers are left to be woken, or it waits for that. -/
def isCompletion : Frame α → Bool
  | waking _ | announcing .. | closing .. => true
  | _ => false

theorem isDeed_of_isCompletion {f : Frame α} (h : f.isCompletion = true) :
    ∃ e ∈ f.effect?, e.isDeed = true := by
  cases f with
  | waking | announcing | closing => exact ⟨_, rfl, rfl⟩
  | _ => exact nomatch h

/-- The work of a push on a root. -/
inductive Pushes (id : WatcherId) : Frame α → Prop
  | holding : Pushes id (.holding id)
  | pushing {p : Polling α} : p.root = id → Pushes id (.pushing p)

theorem Pushes.not_isCompletion {id : WatcherId} {f : Frame α} (h : f.Pushes id) :
    f.isCompletion = false := by cases h <;> rfl

end Frame

namespace Machine

variable {m m' m'' : Machine α}

/-! ## Slots that are kept -/

/-- Frames may have been put on that complete no slot. All slots are the same, the same watchers are
closed, and nothing that happened is a deed. -/
structure KeepsSlots (m m' : Machine α) : Prop where
  frames : ∃ fs, m'.stack = fs ++ m.stack ∧ ∀ f ∈ fs, f.isCompletion = false
  events : ∃ es, m'.world.events = m.world.events ++ es ∧ ∀ e ∈ es, e.isDeed = false
  slots : m.world.SameSlots m'.world

theorem KeepsSlots.deeds (h : m.KeepsSlots m') : m'.world.deeds = m.world.deeds := by
  obtain ⟨es, hes, hnone⟩ := h.events
  have hfilter : es.filter Event.isDeed = [] :=
    List.filter_eq_nil_iff.mpr fun e he => by simp [hnone e he]
  unfold World.deeds
  rw [hes, List.filter_append, hfilter, List.append_nil]

/-- A frame is put on, and then slots are kept. -/
theorem KeepsSlots.of_push {f : Frame α} (hf : f.isCompletion = false)
    (h : (m.push f).KeepsSlots m') : m.KeepsSlots m' := by
  obtain ⟨fs, hfs, hnone⟩ := h.frames
  refine ⟨⟨fs ++ [f], by rw [hfs, List.append_assoc]; rfl, fun g hg => ?_⟩, h.events, h.slots⟩
  rcases List.mem_append.mp hg with hg | hg
  · exact hnone g hg
  · rw [List.mem_singleton.mp hg]
    exact hf

section Walks

variable {E : Effect → Prop} (hE : ∀ e, E e → e.isDeed = false)

include hE

/-- Changes that are no deeds. -/
theorem Changes.keepsSlots (h : m.Changes E m') : m.KeepsSlots m' where
  frames := by
    obtain ⟨fs, hfs, hfs'⟩ := h.frames
    refine ⟨fs, hfs, fun f hf => ?_⟩
    by_contra hcompletion
    obtain ⟨e, he, hdeed⟩ := Frame.isDeed_of_isCompletion ((Bool.not_eq_false _).mp hcompletion)
    exact nomatch hdeed.symm.trans (hE e (hfs' f hf e he))
  events := by
    obtain ⟨es, hes, hes'⟩ := h.events
    refine ⟨es, hes, fun e he => ?_⟩
    by_contra hisdeed
    obtain ⟨x, hx, hdeed⟩ := Event.effect?_of_isDeed ((Bool.not_eq_false _).mp hisdeed)
    exact nomatch hdeed.symm.trans (hE x (hes' e he x hx).1)
  slots := by
    refine h.lift (R := fun x y => x.world.SameSlots y.world) (fun x => .refl _)
      (fun h h' => h.trans h') ?_
    intro x y hchange
    cases hchange with
    | beside hwatchers | rename _ hwatchers => exact .of_eq hwatchers
    | grow name origin _ hwatchers =>
      exact (World.SameSlots.addWatcher x.world name origin).trans (.of_eq hwatchers)
    | count | register | unregister | drop =>
      exact .modify x.world _ (fun _ => rfl) fun _ => rfl
    | enlist _ _ he => exact nomatch hE _ he
    | _ => exact .of_eq rfl

omit hE in
theorem KeepsSlots.of_changes (h : m.Changes (fun _ => False) m') : m.KeepsSlots m' :=
  h.keepsSlots fun _ he => he.elim

variable [BEq α]

theorem Walk.keepsSlots (h : m.Walk E m') : m.KeepsSlots m' := by
  obtain ⟨x, hx, rfl | hlast⟩ := h
  · exact hx.keepsSlots hE
  · cases hlast with
    | accept he | close he => exact nomatch hE _ he
    | @start p =>
      have hbefore := hx.keepsSlots hE
      obtain ⟨fs, hfs, hnone⟩ := hbefore.frames
      refine ⟨⟨.polling p :: .holding p.root :: fs,
        by rw [push, push, setStopped, inWorld, hfs]; rfl, ?_⟩, hbefore.events, hbefore.slots⟩
      simpa [Frame.isCompletion] using hnone

end Walks

/-! ## Offers and ends of applications -/

section Offers

variable [BEq α] {id : WatcherId} {b : Watcher α} {s : Latest α}

/-- An offer that is not accepted leaves traces in the history alone. -/
theorem offer_rebuffs (hb : m.world.watcher? id = some b) (h : b.reception s ≠ .accepted) :
    ∃ es : List (Entry α), m.offer id s =
        ⟨{ m.world with history := es ++ m.world.history }, m.stack, .answer (.bool false)⟩ ∧
      ∀ e ∈ es, e.event = .offered id s (b.reception s) ∨
        ∃ refusal, e.event = .logged id b.name (refusalMessage s refusal) := by
  by_cases hcl : b.closed = true
  · have hreception := Watcher.reception_eq_watcherClosed_iff (s := s).mpr hcl
    refine ⟨[⟨m.onPoller, .offered id s .watcherClosed⟩], offer_closed hb hcl s, fun e he => ?_⟩
    rw [List.mem_singleton.mp he, hreception]
    exact .inl rfl
  · rw [Bool.not_eq_true] at hcl
    cases hr : b.refusal s with
    | none => exact absurd (Watcher.reception_eq_accepted_iff.mpr ⟨hcl, hr⟩) h
    | some refusal =>
      have hreception : b.reception s = .refused := by simp [Watcher.reception, hcl, hr]
      refine ⟨[⟨m.onPoller, .logged id b.name (refusalMessage s refusal)⟩,
        ⟨m.onPoller, .offered id s .refused⟩], offer_refused hb hcl hr, fun e he => ?_⟩
      rcases List.mem_pair.mp he with rfl | rfl
      · exact .inr ⟨refusal, rfl⟩
      · exact .inl (by rw [hreception])

theorem isClosed_offer (m : Machine α) (id : WatcherId) (s : Latest α) (j : WatcherId) :
    (m.offer id s).world.isClosed j = m.world.isClosed j := by
  cases hb : m.world.watcher? id with
  | none =>
    unfold offer
    rw [hb]
    rfl
  | some b =>
    by_cases h : b.reception s = .accepted
    · obtain ⟨hcl, hr⟩ := Watcher.reception_eq_accepted_iff.mp h
      rw [offer_adopted hb hcl hr]
      exact World.isClosed_adopt ..
    · obtain ⟨es, heq, -⟩ := offer_rebuffs hb h
      rw [heq]
      rfl

theorem slot_offer (hb : m.world.watcher? id = some b) (s : Latest α) (j : WatcherId) :
    (m.offer id s).world.slot j =
      if id = j ∧ b.reception s = .accepted then b.slot.complete s else m.world.slot j := by
  by_cases h : b.reception s = .accepted
  · obtain ⟨hcl, hr⟩ := Watcher.reception_eq_accepted_iff.mp h
    rw [offer_adopted hb hcl hr]
    simp only [h, and_true]
    exact World.slot_adopt _ _ _ hb s j
  · obtain ⟨es, heq, -⟩ := offer_rebuffs hb h
    rw [heq, if_neg fun hj => h hj.2]
    rfl

theorem deeds_offer (hb : m.world.watcher? id = some b) (s : Latest α) :
    (m.offer id s).world.deeds = m.world.deeds ++ [.offered id s (b.reception s)] := by
  unfold Watcher.reception
  by_cases hcl : b.closed = true
  · rw [offer_closed hb hcl, if_pos hcl]
    exact World.deeds_note ..
  · rw [Bool.not_eq_true] at hcl
    cases hr : b.refusal s with
    | none =>
      rw [offer_adopted hb hcl hr, hcl]
      exact World.deeds_adopt ..
    | some refusal =>
      rw [offer_refused hb hcl hr, hcl]
      exact (World.deeds_note ..).trans ((List.append_nil _).trans (World.deeds_note ..))

/-- A failure is recorded and logged. -/
theorem settle_failure (m : Machine α) (c : WatcherId) (r : Revision) {outcome : Outcome α}
    (h : ∀ y, outcome ≠ .value y) :
    ∃ error, m.settle c r outcome =
      ⟨(m.world.note m.onPoller (.applied c r outcome)).note m.onPoller
          (.logged c (m.nameOf c) (.transformationFailed r error)), m.stack, .proceed⟩ := by
  cases outcome with
  | value y => exact absurd rfl (h y)
  | failed error => exact ⟨error, rfl⟩
  | panicked payload => exact ⟨_, rfl⟩

theorem settle_value (m : Machine α) (c : WatcherId) (r : Revision) (y : α) :
    m.settle c r (.value y) =
      offer ⟨m.world.note m.onPoller (.applied c r (.value y)), m.stack, m.control⟩ c ⟨r, y⟩ := rfl

theorem deeds_settle (hb : m.world.watcher? id = some b) (r : Revision) (outcome : Outcome α) :
    (m.settle id r outcome).world.deeds = m.world.deeds ++ .applied id r outcome ::
      (outcome.state? r).toList.map fun x => .offered id x (b.reception x) := by
  by_cases h : ∃ y, outcome = .value y
  · obtain ⟨y, rfl⟩ := h
    rw [settle_value, deeds_offer (m := ⟨m.world.note _ _, m.stack, m.control⟩) (b := b) hb,
      World.deeds_note, List.append_assoc]
    rfl
  · obtain ⟨error, heq⟩ := settle_failure m id r fun y hy => h ⟨y, hy⟩
    have hnone : outcome.state? r = none := by
      cases outcome with
      | value y => exact absurd ⟨y, rfl⟩ h
      | failed | panicked => rfl
    rw [heq, hnone]
    exact (World.deeds_note ..).trans ((List.append_nil _).trans (World.deeds_note ..))

end Offers

theorem deeds_close (m : Machine α) (id : WatcherId) :
    (m.close id).world.deeds = m.world.deeds := by
  unfold close
  split
  · rfl
  · split <;> rfl

theorem deeds_wake (m : Machine α) (name : Name) :
    (m.wake name).world.deeds = m.world.deeds ++ [.woken name] := by
  unfold wake
  simp only
  split
  · exact World.deeds_note ..
  · exact World.deeds_note ..

/-- A future is polled: the waker is left in a slot that is pending, and otherwise nothing happens
to the slots. -/
theorem pollFuture_or (m : Machine α) (future waker : Name) (actions : Actions α) :
    (∃ id b, m.world.futures.lookup future = some id ∧ m.world.watcher? id = some b ∧
      b.slot.isPending = true ∧ ∃ w : World α,
        w.watchers = m.world.watchers ∧ w.events = m.world.events ∧
        m.pollFuture future waker actions =
          ⟨(w.note m.onPoller (.enlisted id waker)).modify id fun b =>
            { b with slot := b.slot.enlist waker }, m.stack, .answer .pending⟩) ∨
      m.KeepsSlots (m.pollFuture future waker actions) ∧
        (m.pollFuture future waker actions).control ≠ .answer .pending := by
  unfold pollFuture
  cases hf : m.world.futures.lookup future with
  | none => exact .inr ⟨.of_changes (.answer m _), by simp [answer]⟩
  | some id =>
    cases hb : m.world.watcher? id with
    | none =>
      have hnone : m.world.future? future = none := by simp [World.future?, hf, hb]
      rw [hnone]
      exact .inr ⟨.of_changes (.answer m _), by simp [answer]⟩
    | some b =>
      rw [World.future?_of_lookup hb hf]
      have hwaker : m.Changes (fun _ => False) (m.inWorld fun w =>
          if (w.wakers.lookup waker).isSome then w
          else { w with wakers := w.wakers.bind waker { actions } }) := by
        refine .beside m ?_ ?_ ?_ ?_ <;> split <;> rfl
      simp only
      cases hs : b.slot with
      | pending ws =>
        refine .inl ⟨id, b, rfl, hb, by rw [hs]; rfl, ?_⟩
        refine ⟨if (m.world.wakers.lookup waker).isSome then m.world
          else { m.world with wakers := m.world.wakers.bind waker { actions } },
          by split <;> rfl, World.events_eq_of_history (by split <;> rfl), rfl⟩
      | set first =>
        exact .inr ⟨.of_changes (hwaker.trans (.answer _ _)),
          by simp [Slot.outcome?, answer, Query.stateAnswer]⟩
      | abandoned =>
        exact .inr ⟨.of_changes (hwaker.trans (.answer _ _)),
          by simp [Slot.outcome?, answer, Query.stateAnswer]⟩

theorem deeds_pollFuture (m : Machine α) (future waker : Name) (actions : Actions α) :
    ((m.pollFuture future waker actions).world.deeds = m.world.deeds ∧
        (m.pollFuture future waker actions).control ≠ .answer .pending) ∨
      ∃ id, m.world.futures.lookup future = some id ∧
        (m.pollFuture future waker actions).world.deeds =
          m.world.deeds ++ [.enlisted id waker] := by
  rcases m.pollFuture_or future waker actions with
    ⟨id, b, hf, -, -, w, -, hevents, heq⟩ | ⟨hkeeps, hne⟩
  · right
    refine ⟨id, hf, ?_⟩
    rw [heq, ← World.deeds_eq_of_events hevents]
    exact (World.deeds_eq_of_events (World.events_modify ..)).trans (World.deeds_note ..)
  · exact .inl ⟨hkeeps.deeds, hne⟩

/-! ## What operations and frames do -/

/-- What is done above frames that stay: a state is offered to a root, a watcher closed, a future
polled, or nothing of the kind. -/
inductive Acts [BEq α] (m : Machine α) : Machine α → Prop
  | aside {m' : Machine α} : m.KeepsSlots m' → Acts m m'
  | push {f : Frame α} (fs : List (Frame α)) {id : WatcherId} (s : Latest α) (c : Control α) :
      f.Pushes id → (∀ g ∈ fs, g.isCompletion = false) → m.world.IsRoot id →
      Acts m (offer ⟨m.world, f :: (fs ++ m.stack), c⟩ id s)
  | close (fs : List (Frame α)) (id : WatcherId) (c : Control α) :
      (∀ g ∈ fs, g.isCompletion = false) → Acts m (close ⟨m.world, fs ++ m.stack, c⟩ id)
  | poll (fs : List (Frame α)) (future waker : Name) (actions : Actions α) (c : Control α) :
      (∀ g ∈ fs, g.isCompletion = false) →
      Acts m (pollFuture ⟨m.world, fs ++ m.stack, c⟩ future waker actions)

namespace Acts

variable [BEq α]

theorem changes {E : Effect → Prop} (hE : ∀ e, E e → e.isDeed = false) (h : m.Changes E m') :
    m.Acts m' := .aside (h.keepsSlots hE)

theorem answer (m : Machine α) (a : Answer α) : m.Acts (m.answer a) :=
  .aside (.of_changes (.answer m a))

/-- A frame is put on, and then something is done. -/
theorem beneath {f : Frame α} (hf : f.isCompletion = false) (h : (m.push f).Acts m') :
    m.Acts m' := by
  have hfs : ∀ {fs : List (Frame α)}, (∀ g ∈ fs, g.isCompletion = false) →
      ∀ g ∈ fs ++ [f], g.isCompletion = false := by
    intro fs hfs g hg
    rcases List.mem_append.mp hg with hg | hg
    · exact hfs g hg
    · rw [List.mem_singleton.mp hg]
      exact hf
  have hstack : ∀ fs : List (Frame α), fs ++ (m.push f).stack = (fs ++ [f]) ++ m.stack :=
    fun fs => by rw [List.append_assoc]; rfl
  cases h with
  | aside h => exact .aside (h.of_push hf)
  | push fs s c hpush hnone hroot =>
    rw [hstack]
    exact .push _ s c hpush (hfs hnone) hroot
  | close fs id c hnone =>
    rw [hstack]
    exact .close _ id c (hfs hnone)
  | poll fs future waker actions c hnone =>
    rw [hstack]
    exact .poll _ future waker actions c (hfs hnone)

theorem of_eq {m₁ : Machine α} (h : m.Acts m') (hworld : m₁.world = m.world)
    (hstack : m₁.stack = m.stack) : m₁.Acts m' := by
  obtain ⟨w, stk, c⟩ := m
  obtain ⟨w₁, stk₁, c₁⟩ := m₁
  obtain rfl : w₁ = w := hworld
  obtain rfl : stk₁ = stk := hstack
  cases h with
  | aside h => exact .aside ⟨h.frames, h.events, h.slots⟩
  | push fs s c hpush hnone hroot => exact .push fs s c hpush hnone hroot
  | close fs id c hnone => exact .close fs id c hnone
  | poll fs future waker actions c hnone => exact .poll fs future waker actions c hnone

theorem withHandle {m : Machine α} (name : Name) {f : Handle → Watcher α → Machine α}
    (h : ∀ hd b, m.world.resolve? name = some (hd, b) → m.Acts (f hd b)) :
    m.Acts (m.withHandle name f) := by
  unfold Machine.withHandle
  split
  · rename_i hd b hresolve
    exact h hd b hresolve
  · exact answer m _

/-- An operation that begins. -/
theorem perform (m : Machine α) (hroots : m.world.RootHandles m.world.handles) (op : Op α) :
    m.Acts (m.perform op) := by
  cases op with
  | push watcher revision value =>
    refine withHandle watcher fun hd b hresolve => ?_
    have hmem := (World.resolve?_eq_some hresolve).1
    split
    · rename_i hface
      exact .push [] _ .proceed .holding (by simp) (hroots _ hmem (.inl hface))
    · rename_i hface
      exact .push [] _ .proceed .holding (by simp) (hroots _ hmem (.inr hface))
    · exact answer m _
  | close watcher =>
    exact withHandle watcher fun hd b _ =>
      .close [.holding hd.target] _ .proceed (by simp [Frame.isCompletion])
  | futurePoll future waker actions => exact .poll [] future waker actions _ (by simp)
  | _ =>
    refine .aside ((Walk.perform m fun _ he => he).keepsSlots fun e he => ?_)
    cases e <;> first | rfl | exact he.elim

theorem fetchNext (m : Machine α) (p : Polling α) : m.Acts (m.fetchNext p) := by
  have hpolls : ∀ {m' : Machine α}, m.Changes (· = .polls) m' → m.Acts m' :=
    changes fun _ he => by rw [he]; rfl
  unfold Machine.fetchNext
  split
  · exact hpolls (.finish m p)
  · split
    · exact hpolls (.finish m p)
    · split
      · split
        · exact .close [.ending p] _ .proceed (by simp [Frame.isCompletion])
        · exact hpolls ((Changes.stop m).trans (.finish _ p))
      · rename_i reply rest _
        have hfetching := Changes.push_of (E := (· = .polls)) m
          (.fetching { p with script := rest } reply) rfl rfl
        exact hpolls ((hfetching.trans (.record_of _ (.fetched _) rfl ⟨rfl, nofun⟩)).trans
          (.push _ nofun))
      · rename_i actions reply rest _ _
        have hpolling := Changes.push_of (E := (· = .polls)) m
          (.polling { p with script := ⟨[], actions, reply⟩ :: rest }) rfl rfl
        exact hpolls (hpolling.trans (.push _ nofun))

theorem takeReply (m : Machine α) {p : Polling α} (hroot : m.world.IsRoot p.root)
    (reply : Reply α) : m.Acts (m.takeReply p reply) := by
  cases reply with
  | state revision value =>
    exact .push [] ⟨revision, value.on p.face⟩ .proceed (.pushing rfl) (by simp) hroot
  | nothing => exact changes (fun _ he => by rw [he]; rfl) (.succeed (E := (· = .polls)) m p rfl)
  | failed error =>
    exact changes (fun _ he => by rw [he]; rfl) (.fail (E := (· = .polls)) m p error rfl)
  | panicked payload =>
    exact changes (fun _ he => by rw [he]; rfl) (.fail (E := (· = .polls)) m p _ rfl)

end Acts

/-! ## Steps -/

/-- What comes next does one of these things. -/
inductive Does [BEq α] (m : Machine α) : Machine α → Prop
  /-- Something is done above the frames below the innermost one. -/
  | acts {m' : Machine α} : (∀ names stk, m.stack ≠ .waking names :: stk) →
      Acts { m with stack := m.stack.tail } m' → Does m m'
  /-- A waker is woken. -/
  | wakes {name : Name} {names : List Name} {stk : List (Frame α)} :
      m.stack = .waking (name :: names) :: stk → m.control.Calm →
      Does m (wake ⟨m.world, .waking names :: stk, .proceed⟩ name)
  /-- All wakers have been woken, or a panic prevents it. -/
  | woke {names : List Name} {stk : List (Frame α)} {m' : Machine α} :
      m.stack = .waking names :: stk → (m.control.Calm → names = []) → m'.world = m.world →
      m'.stack = stk → Does m m'
  /-- An application of a child's transformation ends. -/
  | settles {c p : WatcherId} {l : ListenerId} {d : Derivation α} {s : Latest α}
      {stk : List (Frame α)} {outcome : Outcome α} :
      m.stack = .applying c s :: stk → m.world.origin? c = some (.child p l d) →
      (m.control.Calm ∧ outcome = d.apply s.value ∨
        ∃ payload, m.control = .unwind payload ∧ outcome = .panicked payload) →
      Does m (settle ⟨m.world, stk, m.control⟩ c s.revision outcome)

section Steps

variable [BEq α]

omit [BEq α] in
theorem outcomeOf_eq {c p : WatcherId} {l : ListenerId} {d : Derivation α}
    (ho : m.world.origin? c = some (.child p l d)) (v : α) : m.outcomeOf c v = d.apply v := by
  unfold outcomeOf
  rw [World.parent?_eq_some_iff.mpr ho]

/-- A frame goes on. -/
theorem resume_does {w : World α} {f : Frame α} {stk : List (Frame α)} {c : Control α}
    (hm : WellFormed ⟨w, f :: stk, c⟩) (hc : c.Calm) :
    Does ⟨w, f :: stk, c⟩ (resume ⟨w, stk, c⟩ f) := by
  have hacts : (∀ names, f ≠ .waking names) → Acts ⟨w, stk, c⟩ (resume ⟨w, stk, c⟩ f) →
      Does ⟨w, f :: stk, c⟩ (resume ⟨w, stk, c⟩ f) := by
    intro hf h
    refine .acts (fun names stk' heq => ?_) h
    exact hf names (List.cons.inj heq).1
  have hroots : w.RootHandles w.handles := hm.roots
  cases f with
  | script site todo =>
    cases todo with
    | nil => exact hacts nofun (.aside (.of_changes (.proceed _)))
    | cons op rest =>
      exact hacts nofun (.beneath (f := .script site rest) rfl (.perform _ hroots op))
  | waking names =>
    cases names with
    | nil => exact .woke rfl (fun _ => rfl) rfl rfl
    | cons name names => exact .wakes rfl hc
  | applying child s =>
    obtain ⟨t, rest, -, -, d, ho⟩ := hm.stacked.1
    exact .settles rfl ho (.inl ⟨hc, outcomeOf_eq ho s.value⟩)
  | polling p => exact hacts nofun (.fetchNext _ p)
  | fetching p reply =>
    have hroot : w.IsRoot p.root := hm.stacked.1.1
    exact hacts nofun (.takeReply _ hroot reply)
  | _ =>
    refine hacts nofun (.aside ((Walk.resume _ _ fun _ he => he).keepsSlots fun e he => ?_))
    cases e <;> first | rfl | exact he.elim

/-- A panic reaches a frame. -/
theorem unwound_does {w : World α} {f : Frame α} {stk : List (Frame α)} {payload : Payload}
    (hm : WellFormed ⟨w, f :: stk, .unwind payload⟩) :
    Does ⟨w, f :: stk, .unwind payload⟩ (unwound ⟨w, stk, .unwind payload⟩ payload f) := by
  cases f with
  | script => exact .acts nofun (.aside (.of_changes (.refl _)))
  | applying child s =>
    obtain ⟨t, rest, -, -, d, ho⟩ := hm.stacked.1
    exact .settles rfl ho (.inr ⟨payload, rfl, rfl⟩)
  | waking names => exact .woke rfl (fun hc => absurd rfl (hc payload)) rfl rfl
  | polling p =>
    exact .acts nofun ((Acts.fetchNext ⟨w, stk, .proceed⟩ p).of_eq rfl rfl)
  | fetching p =>
    exact .acts nofun (.changes (fun _ he => by rw [he]; rfl) (.fail (E := (· = .polls)) _ p _ rfl))
  | _ =>
    refine .acts nofun (.aside ((Walk.unwound _ payload _ fun _ he => he).keepsSlots
      fun e he => ?_))
    cases e <;> first | rfl | exact he.elim

theorem step_does (hm : m.WellFormed) (hs : m.stack ≠ []) : m.Does m.step := by
  obtain ⟨w, stk, c⟩ := m
  obtain ⟨f, stk, rfl⟩ := List.exists_cons_of_ne_nil hs
  cases c with
  | unwind payload => exact unwound_does hm
  | proceed => exact resume_does hm Control.calm_proceed
  | answer a =>
    cases f with
    | script site todo =>
      exact .acts nofun (.aside (.of_changes
        (((Changes.push _ (f := .script site todo) nofun).trans
          (.recordOn _ _ (e := .did site.label a) nofun)).trans (.proceed _))))
    | holding id => exact resume_does hm (Control.calm_answer a)
    | _ => exact resume_does hm (Control.calm_answer a)

/-- What comes next does one thing at most that matters to first values, offers and
transformations. -/
theorem Next.does (h : m.Next m') (hm : m.WellFormed) : m.Does m' := by
  cases h with
  | start op hs =>
    refine .acts (by simp [hs]) ?_
    have hroots : m.world.RootHandles m.world.handles := hm.roots
    have hacts := Acts.perform ⟨m.world, [], .proceed⟩ hroots op
    exact hacts.of_eq rfl (by rw [hs]; rfl)
  | step hs => exact step_does hm hs

/-- What comes next adds no deed but about a waker, unless a push offers a state to a root or an
application of a child's transformation ends. -/
theorem Does.deeds (h : m.Does m') :
    (∃ es, m'.world.deeds = m.world.deeds ++ es ∧ ∀ e ∈ es, e.isOfWaker = true) ∨
      (∃ f fs id s c, Frame.Pushes id f ∧ m.world.IsRoot id ∧
        m' = offer ⟨m.world, f :: (fs ++ m.stack.tail), c⟩ id s) ∨
      ∃ c p l d s rest outcome, m.world.origin? c = some (.child p l d) ∧
        m.stack = .applying c s :: rest ∧
        (m.control.Calm ∧ outcome = d.apply s.value ∨
          ∃ payload, m.control = .unwind payload ∧ outcome = .panicked payload) ∧
        m' = settle ⟨m.world, rest, m.control⟩ c s.revision outcome := by
  have hnone : m'.world.deeds = m.world.deeds →
      ∃ es, m'.world.deeds = m.world.deeds ++ es ∧ ∀ e ∈ es, e.isOfWaker = true :=
    fun heq => ⟨[], heq.trans (List.append_nil _).symm, by simp⟩
  cases h with
  | acts htop hacts =>
    cases hacts with
    | aside hkeeps => exact .inl (hnone hkeeps.deeds)
    | push fs s c hpush hfs hroot => exact .inr (.inl ⟨_, fs, _, s, c, hpush, hroot, rfl⟩)
    | close fs id c => exact .inl (hnone (deeds_close _ id))
    | poll fs future waker actions c =>
      rcases deeds_pollFuture (⟨m.world, _, c⟩ : Machine α) future waker actions with
        ⟨heq, -⟩ | ⟨id, -, heq⟩
      · exact .inl (hnone heq)
      · exact .inl ⟨_, heq, by simp [Event.isOfWaker]⟩
  | wakes hstk hcalm =>
    exact .inl ⟨_, deeds_wake (⟨m.world, _, .proceed⟩ : Machine α) _, by simp [Event.isOfWaker]⟩
  | woke hstk hnames hworld => exact .inl (hnone (by rw [hworld]))
  | settles hstk horigin hout => exact .inr (.inr ⟨_, _, _, _, _, _, _, horigin, hstk, hout, rfl⟩)

end Steps

end Machine

end WatchTree
