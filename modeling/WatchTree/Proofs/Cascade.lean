import WatchTree.Proofs.Acceptance

/-!
# What a delivery does to a tree

Where callbacks operate on no watcher, an update goes through a tree depth first, and what it does
can be told without a stack. `World.deliver` tells it: the wakers of a first value are woken, then
each listener is informed in turn, and a child that takes the value its transformation gives is
delivered to before the next listener is. The depth bounds how far down it looks.

`World.Flows` is what all that leaves as it was: the shape of the tree, who is registered where, and
every watcher outside of the part that the update can reach.
-/

namespace WatchTree

variable {α : Type}

/-! ## Passive operations -/

namespace Op

/-- It touches no watcher, nor a slot, and starts no work: it looks, it panics, or it is about
handles, futures, waiting threads or the tasks in a queue. -/
def isPassive : Op α → Bool
  | .invalid | .ask _ | .share .. | .future .. | .waiter .. | .join _ | .queueDrop _ | .panic _ =>
    true
  | _ => false

/-- What it panics with, whatever there is. -/
def panic? : Op α → Option Payload
  | .panic payload => some payload
  | _ => none

end Op

/-- The watchers and the wakers are the same. -/
structure World.SameCast (w w' : World α) : Prop where
  watchers : w'.watchers = w.watchers
  wakers : w'.wakers = w.wakers

namespace World.SameCast

theorem refl (w : World α) : w.SameCast w := ⟨rfl, rfl⟩

theorem trans {w w₁ w' : World α} (h : w.SameCast w₁) (h' : w₁.SameCast w') : w.SameCast w' :=
  ⟨h'.watchers.trans h.watchers, h'.wakers.trans h.wakers⟩

theorem note (w : World α) (p : Bool) (e : Event α) : w.SameCast (w.note p e) := ⟨rfl, rfl⟩

end World.SameCast

section Passive

variable [BEq α] {op : Op α} (h : op.isPassive = true) (w : World α)

include h

/-- A passive operation is carried out at once, whatever is under way. -/
theorem Machine.perform_passive (stk : List (Frame α)) (c : Control α) :
    Machine.perform ⟨w, stk, c⟩ op = ⟨(w.start op).world, stk, (w.start op).control⟩ := by
  unfold World.start
  cases op with
  | share | future | waiter | join =>
    simp only [Machine.perform, Machine.share, Machine.withHandle, Machine.nameFuture,
      Machine.addWaiter, Machine.joinWaiter]
    repeat' split
    all_goals rfl
  | _ => first | rfl | exact absurd h Bool.false_ne_true

/-- It changes neither watchers nor wakers, leaves no trace, and answers unless it is a panic. -/
theorem World.start_passive : w.SameCast (w.start op).world ∧
    (w.start op).world.history = w.history ∧
    ((∃ a, (w.start op).control = .answer a ∧ op.panic? = none) ∨
      ∃ payload, (w.start op).control = .unwind payload ∧ op.panic? = some payload) := by
  unfold World.start
  cases op with
  | share | future | waiter | join =>
    simp only [Machine.perform, Machine.share, Machine.withHandle, Machine.nameFuture,
      Machine.addWaiter, Machine.joinWaiter]
    repeat' split
    all_goals exact ⟨⟨rfl, rfl⟩, rfl, .inl ⟨_, rfl, rfl⟩⟩
  | panic => exact ⟨⟨rfl, rfl⟩, rfl, .inr ⟨_, rfl, rfl⟩⟩
  | invalid | ask | queueDrop => exact ⟨⟨rfl, rfl⟩, rfl, .inl ⟨_, rfl, rfl⟩⟩
  | _ => exact absurd h Bool.false_ne_true

end Passive

/-! ## The recursion -/

/-- What an application of a transformation comes to, once its operations have been carried out: a
panic of theirs, if there was one. -/
def Derivation.outcome (d : Derivation α) (panic : Option Payload) (v : α) : Outcome α :=
  match panic with
  | some payload => .panicked payload
  | none => d.apply v

namespace World

def log (w : World α) (p : Bool) (id : WatcherId) (message : Diagnostic) : World α :=
  w.note p (.logged id (((w.watcher? id).map Watcher.name).getD "") message)

/-- Hands a task to an executor that runs it at once. -/
def passOn (p : Bool) (w : World α) (t : Task α) : World α :=
  (w.handOver p t).note p (.ran t true)

/-- Counts that a waker is woken. -/
def countWake (w : World α) (name : Name) (waker : Waker α) : World α :=
  { w with wakers := w.wakers.bind name { waker with wakes := waker.wakes + 1 } }

section Recursion

variable [BEq α] (p : Bool)

/-- Carries out the operations of a callback, up to its panic if it panics. -/
def carryOut (label : Name) : World α → List (Op α) → World α × Option Payload
  | w, [] => (w, none)
  | w, op :: ops =>
    match w.start op with
    | ⟨w, _, .unwind payload⟩ => (w, some payload)
    | ⟨w, _, .answer a⟩ => carryOut label (w.note p (.did label a)) ops
    | ⟨w, _, .proceed⟩ => carryOut label w ops

def rouse (w : World α) (name : Name) : World α :=
  match w.wakers.lookup name with
  | none => w.note p (.woken name)
  | some waker =>
    (((w.note p (.woken name)).countWake name waker).carryOut p name
      (waker.actions (waker.wakes + 1))).1

-- What becomes of a state that a child accepts.
variable (take : World α → WatcherId → Latest α → World α)

def propose (w : World α) (c : WatcherId) (s : Latest α) : World α :=
  match w.watcher? c with
  | none => w
  | some b =>
    if b.closed then w.note p (.offered c s .watcherClosed)
    else
      match b.refusal s with
      | some refusal =>
        (w.note p (.offered c s .refused)).log p c (Machine.refusalMessage s refusal)
      | none => take w c s

/-- Takes what the transformation of a child has given. -/
def conclude (w : World α) (c : WatcherId) (revision : Revision) (outcome : Outcome α) : World α :=
  let w := w.note p (.applied c revision outcome)
  match outcome with
  | .value v => w.propose p take c ⟨revision, v⟩
  | .failed error => w.log p c (.transformationFailed revision error)
  | .panicked payload =>
    w.log p c (.transformationFailed revision ("transformation panicked: " ++ payload.message))

/-- Calls the listener of a registration with an update: a panic of its own goes no further, and a
child applies its transformation once. -/
def notify (w : World α) (t : Task α) (r : Registration α) : World α :=
  match r.listener with
  | .observer label valueOnly actions =>
    let done := ((w.tell t).note p (.called (.observer label valueOnly) t false)).carryOut p label
      (actions (r.calls + 1))
    match done.2 with
    | none => done.1
    | some payload =>
      done.1.log p t.watcher (.listenerPanicked t.listener t.state.revision payload.message)
  | .subscription c =>
    match w.parent? c with
    | none => w.tell t
    | some (_, _, d) =>
      let done := ((w.tell t).note p (.called (.child c) t false)).carryOut p d.label
        (d.actions (r.calls + 1))
      done.1.conclude p take c t.state.revision (d.outcome done.2 t.state.value)

def inform (w : World α) (t : Task α) : World α :=
  match (w.passOn p t).registration? t.watcher t.listener with
  | none => w.passOn p t
  | some r => (w.passOn p t).notify p take t r

/-- What comes before the listeners when a watcher accepts a state: the wakers of a first value, in
the order in which they came. -/
def announce (w : World α) (id : WatcherId) (b : Watcher α) (s : Latest α) : World α :=
  (b.slot.wakers.foldl (rouse p) (w.adopt p p b.name id b s)).log p id
    (.acceptedUpdate s.revision b.registry.entries.length)

/-- What the delivery of a state to a watcher that accepts it does to the tree, on a poller's thread
or not: its listeners are informed in the order of their ids. -/
def deliver : Nat → World α → WatcherId → Latest α → World α
  | 0, w, _, _ => w
  | depth + 1, w, id, s =>
    match w.watcher? id with
    | none => w
    | some b =>
      b.registry.entries.foldl (fun w l => w.inform p (deliver depth) ⟨id, l, b.updates + 1, s⟩)
        (w.announce p id b s)

end Recursion

/-! ## The tree -/

/-- A watcher's updates can reach another: that is the watcher itself, or a child subscribed to one
that they can reach. -/
inductive Reaches (w : World α) (top : WatcherId) : WatcherId → Prop
  | refl : Reaches w top top
  | step {p c : WatcherId} {l : ListenerId} {r : Registration α} : Reaches w top p →
      w.registration? p l = some r → r.active = true → r.listener = .subscription c →
      Reaches w top c

/-- The operations of a call of a listener: those of its callback, or of a child's
transformation. -/
def callback (w : World α) (r : Registration α) (n : Nat) : List (Op α) :=
  match r.listener with
  | .observer _ _ actions => actions n
  | .subscription c =>
    match w.parent? c with
    | some (_, _, d) => d.actions n
    | none => []

/-- The wakers with these names are passive and do not panic. -/
def Gentle (w : World α) (names : List Name) : Prop :=
  ∀ name ∈ names, ∀ waker, w.wakers.lookup name = some waker →
    ∀ n, ∀ op ∈ waker.actions n, op.isPassive = true ∧ op.panic? = none

/-- Where updates of a watcher can reach, all listeners are called at once by executors that do
nothing else, and all callbacks are passive. -/
structure PassiveFrom (w : World α) (top : WatcherId) : Prop where
  inline : ∀ {id l r}, w.Reaches top id → w.registration? id l = some r → r.active = true →
    r.executor.disposal = .inline ∧ ∀ n, r.executor.actions n = []
  callbacks : ∀ {id l r}, w.Reaches top id → w.registration? id l = some r → r.active = true →
    ∀ n, ∀ op ∈ w.callback r n, op.isPassive = true
  wakers : ∀ {id}, w.Reaches top id → w.Gentle (w.slot id).wakers

/-- Who was ever registered, with the executor. -/
def registrants (w : World α) : List (Listener α × Executor α) :=
  w.watchers.flatMap fun b => b.registry.records.map fun r => (r.listener, r.executor)

/-- All callbacks that there are, are passive, and no executor does anything but run tasks at
once. -/
theorem PassiveFrom.of_all {w : World α}
    (hlisteners : ∀ x ∈ w.registrants, x.2.disposal = .inline ∧ (∀ n, x.2.actions n = []) ∧
      ∀ label valueOnly actions, x.1 = .observer label valueOnly actions →
        ∀ n, ∀ op ∈ actions n, op.isPassive = true)
    (horigins : ∀ o ∈ w.watchers.map Watcher.origin, ∀ p l d, o = .child p l d →
      ∀ n, ∀ op ∈ d.actions n, op.isPassive = true)
    (hwakers : ∀ actions ∈ w.wakers.map (·.2.actions), ∀ n, ∀ op ∈ actions n,
      op.isPassive = true ∧ op.panic? = none) (top : WatcherId) : w.PassiveFrom top := by
  have hregistrant : ∀ {id l r}, w.registration? id l = some r →
      (r.listener, r.executor) ∈ w.registrants := by
    intro id l r hr
    obtain ⟨b, hb, hfind⟩ := Option.bind_eq_some_iff.mp hr
    exact List.mem_flatMap.mpr ⟨b, List.mem_of_getElem? hb,
      List.mem_map.mpr ⟨r, Registry.mem_records_of_find? hfind, rfl⟩⟩
  refine ⟨fun _ hr _ => ?_, fun {id l r} _ hr _ n op hop => ?_, fun _ name _ waker hw n => ?_⟩
  · obtain ⟨hinline, hidle, -⟩ := hlisteners _ (hregistrant hr)
    exact ⟨hinline, hidle⟩
  · unfold callback at hop
    cases hl : r.listener with
    | observer label valueOnly actions =>
      rw [hl] at hop
      exact (hlisteners _ (hregistrant hr)).2.2 label valueOnly actions hl n op hop
    | subscription c =>
      rw [hl] at hop
      cases hparent : w.parent? c with
      | none => simp [hparent] at hop
      | some x =>
        obtain ⟨p, k, d⟩ := x
        simp only [hparent] at hop
        obtain ⟨b, hb, ho⟩ := exists_watcher?_of_origin? (parent?_eq_some_iff.mp hparent)
        exact horigins _ (List.mem_map.mpr ⟨b, List.mem_of_getElem? hb, rfl⟩) p k d ho n op hop
  · exact hwakers _ (List.mem_map.mpr ⟨_, Bindings.mem_of_lookup hw, rfl⟩) n

end World

/-! ## What a delivery leaves alone -/

/-- A registration without what it counts. -/
def Registration.blank (r : Registration α) : Registration α :=
  { r with delivered := 0, calls := 0, handovers := 0 }

namespace Watcher

/-- A watcher without what was delivered to it. -/
def blank (b : Watcher α) : Watcher α :=
  { b with
    latest := none
    updates := 0
    slot := .abandoned
    registry := { b.registry with records := b.registry.records.map Registration.blank } }

theorem find?_blank (b : Watcher α) (l : ListenerId) :
    b.blank.registry.find? l = (b.registry.find? l).map Registration.blank := List.find?_map

theorem blank_update (b : Watcher α) (l : ListenerId) {f : Registration α → Registration α}
    (hf : ∀ r, (f r).blank = r.blank) :
    blank { b with registry := b.registry.update l f } = b.blank := by
  have hrecords : (b.registry.update l f).records.map Registration.blank =
      b.registry.records.map Registration.blank := by
    show (b.registry.records.map _).map _ = _
    rw [List.map_map]
    refine List.map_congr_left fun r _ => ?_
    show (if r.id = l then f r else r).blank = r.blank
    split
    · exact hf r
    · rfl
  unfold blank
  simp only [hrecords]
  rfl

/-- No registration was told an update that there has not been. -/
def Behind (b : Watcher α) : Prop := ∀ l r, b.registry.find? l = some r → r.delivered ≤ b.updates

end Watcher

namespace World

/-- The watchers, where they hang and who is registered there, are the same. -/
def SameTree (w w' : World α) : Prop :=
  ∀ j, (w'.watcher? j).map Watcher.blank = (w.watcher? j).map Watcher.blank

namespace SameTree

variable {w w' : World α} (h : w.SameTree w')

include h

theorem symm : w'.SameTree w := fun j => (h j).symm

theorem watcher {j : WatcherId} {b : Watcher α} (hb : w.watcher? j = some b) :
    ∃ b', w'.watcher? j = some b' ∧ b'.blank = b.blank :=
  Option.map_eq_some_iff.mp ((h j).trans (congrArg _ hb))

theorem origin?_eq (j : WatcherId) : w'.origin? j = w.origin? j := by
  have hmap := congrArg (Option.map Watcher.origin) (h j)
  rw [Option.map_map, Option.map_map] at hmap
  exact hmap

theorem parent?_eq (j : WatcherId) : w'.parent? j = w.parent? j := by
  refine Option.ext fun x => ?_
  obtain ⟨p, l, d⟩ := x
  rw [parent?_eq_some_iff, parent?_eq_some_iff, h.origin?_eq]

theorem registration {j : WatcherId} {l : ListenerId} {r : Registration α}
    (hr : w.registration? j l = some r) :
    ∃ r', w'.registration? j l = some r' ∧ r'.blank = r.blank := by
  obtain ⟨b, hb, hfind⟩ := Option.bind_eq_some_iff.mp hr
  obtain ⟨b', hb', hblank⟩ := h.watcher hb
  have hfind' : (b'.registry.find? l).map Registration.blank = some r.blank := by
    rw [← Watcher.find?_blank, hblank, Watcher.find?_blank, hfind]
    rfl
  obtain ⟨r', hr', heq⟩ := Option.map_eq_some_iff.mp hfind'
  exact ⟨r', by rw [registration?_of_watcher? hb', hr'], heq⟩

theorem reaches {top j : WatcherId} (hr : w.Reaches top j) : w'.Reaches top j := by
  induction hr with
  | refl => exact .refl
  | step _ hreg ha hl ih =>
    obtain ⟨r', hr', heq⟩ := h.registration hreg
    exact .step ih hr' ((congrArg Registration.active heq).trans ha)
      ((congrArg Registration.listener heq).trans hl)

theorem reaches_eq (top : WatcherId) : w'.Reaches top = w.Reaches top :=
  funext fun _ => propext ⟨h.symm.reaches, h.reaches⟩

theorem callback_eq {r r' : Registration α} (hr : r'.blank = r.blank) (n : Nat) :
    w'.callback r' n = w.callback r n := by
  have hl : r'.listener = r.listener := (congrArg Registration.listener hr :)
  unfold callback
  rw [hl]
  cases r.listener with
  | observer => rfl
  | subscription c => simp only [h.parent?_eq c]

end SameTree

/-- What goes through a part of a tree leaves the watchers outside of it alone, and everywhere the
shape of the tree and who is registered where. It takes wakers out of slots and puts none in. -/
structure Flows (part : WatcherId → Prop) (w w' : World α) : Prop where
  outside : ∀ j, ¬ part j → w'.watcher? j = w.watcher? j
  sameTree : w.SameTree w'
  length : w'.watchers.length = w.watchers.length
  slots : ∀ j, (w'.slot j).wakers ⊆ (w.slot j).wakers
  wakers : ∀ name, (w'.wakers.lookup name).map Waker.actions =
    (w.wakers.lookup name).map Waker.actions
  behind : (∀ j b, w.watcher? j = some b → b.Behind) → ∀ j b, w'.watcher? j = some b → b.Behind

namespace Flows

variable {part : WatcherId → Prop} {w w₁ w' : World α}

/-- Where the watchers are the same and the wakers do what they did. -/
theorem of_watchers (hw : w'.watchers = w.watchers)
    (hk : ∀ name, (w'.wakers.lookup name).map Waker.actions =
      (w.wakers.lookup name).map Waker.actions) : w.Flows part w' := by
  have hwatcher : ∀ j, w'.watcher? j = w.watcher? j := fun j => by unfold watcher?; rw [hw]
  refine ⟨fun j _ => hwatcher j, fun j => by rw [hwatcher], by rw [hw], fun j => ?_, hk,
    fun h j b hb => h j b (by rw [← hwatcher, hb])⟩
  unfold slot
  rw [hwatcher]
  exact List.Subset.refl _

theorem of_sameCast (h : w.SameCast w') : w.Flows part w' :=
  of_watchers h.watchers fun name => by rw [h.wakers]

theorem refl (w : World α) : w.Flows part w := of_sameCast (.refl w)

theorem note (w : World α) (p : Bool) (e : Event α) : w.Flows part (w.note p e) :=
  of_sameCast (.note w p e)

theorem trans (h : w.Flows part w₁) (h' : w₁.Flows part w') : w.Flows part w' where
  outside j hj := (h'.outside j hj).trans (h.outside j hj)
  sameTree j := (h'.sameTree j).trans (h.sameTree j)
  length := h'.length.trans h.length
  slots j := List.Subset.trans (h'.slots j) (h.slots j)
  wakers name := (h'.wakers name).trans (h.wakers name)
  behind hb := h'.behind (h.behind hb)

theorem mono {wider : WatcherId → Prop} (h : w.Flows part w') (hsub : ∀ j, part j → wider j) :
    w.Flows wider w' :=
  { h with outside := fun j hj => h.outside j fun hp => hj (hsub j hp) }

/-- A watcher has changed. -/
theorem modify {id : WatcherId} {f : Watcher α → Watcher α} (hid : part id)
    (hblank : ∀ b, (f b).blank = b.blank) (hslot : ∀ b, (f b).slot.wakers ⊆ b.slot.wakers)
    (hbehind : ∀ b, w.watcher? id = some b → b.Behind → (f b).Behind) :
    w.Flows part (w.modify id f) where
  outside j hj := by
    refine watcher?_modify_of_ne w ?_ f
    rintro rfl
    exact hj hid
  sameTree j := map_watcher?_modify hblank w id j
  length := List.length_modify ..
  slots j := by
    unfold slot
    rw [watcher?_modify]
    split
    · cases w.watcher? j with
      | none => exact List.Subset.refl _
      | some b => exact hslot b
    · exact List.Subset.refl _
  wakers _ := rfl
  behind h j b hb := by
    rw [watcher?_modify] at hb
    split at hb
    · rename_i hj
      subst hj
      obtain ⟨a, ha, rfl⟩ := Option.map_eq_some_iff.mp hb
      exact hbehind a ha (h id a ha)
    · exact h j b hb

/-- What a registration counts has changed. -/
theorem modifyRegistration {id : WatcherId} {l : ListenerId}
    {f : Registration α → Registration α} (hid : part id) (hblank : ∀ r, (f r).blank = r.blank)
    (hf : ∀ r, r.delivered ≤ w.updates id → (f r).delivered ≤ w.updates id) :
    w.Flows part (w.modifyRegistration id l f) := by
  refine modify hid (fun b => b.blank_update l hblank) (fun _ => List.Subset.refl _) ?_
  intro b hb hbehind k r hr
  rw [updates_of_watcher? hb] at hf
  have hfind := b.registry.find?_update l k f fun r => (congrArg Registration.id (hblank r) :)
  rw [hfind] at hr
  split at hr
  · obtain ⟨a, ha, rfl⟩ := Option.map_eq_some_iff.mp hr
    exact hf a (hbehind k a ha)
  · exact hbehind k r hr

theorem handOver (p : Bool) {t : Task α} (ht : part t.watcher) :
    w.Flows part (w.handOver p t) :=
  (note w p (.handedOver t)).trans (modifyRegistration ht (fun _ => rfl) fun _ h => h)

theorem tell {t : Task α} (ht : part t.watcher) (hle : t.update ≤ w.updates t.watcher) :
    w.Flows part (w.tell t) := modifyRegistration ht (fun _ => rfl) fun _ _ => hle

theorem adopt (p q : Bool) (name : String) {id : WatcherId} (b : Watcher α) (s : Latest α)
    (hid : part id) : w.Flows part (w.adopt p q name id b s) := by
  have hmodify : (w.note p (.offered id s .accepted)).Flows part
      ((w.note p (.offered id s .accepted)).modify id (·.accept s)) := by
    refine modify hid (fun _ => rfl) (fun a => ?_) fun a _ ha l r hr => ?_
    · show (a.slot.complete s).wakers ⊆ a.slot.wakers
      cases a.slot with
      | pending => exact List.nil_subset _
      | _ => exact List.Subset.refl _
    · exact Nat.le_succ_of_le (ha l r hr)
  unfold World.adopt
  refine ((note w p _).trans hmodify).trans ?_
  split
  · exact note _ q _
  · exact refl _

end Flows

/-! ## What a delivery needs -/

/-- What ties watchers and registrations together where updates are delivered. -/
structure Poised (w : World α) : Prop where
  entry : ∀ {id b l}, w.watcher? id = some b → l ∈ b.registry.entries →
    ∃ r, w.registration? id l = some r ∧ r.active = true
  nodup : ∀ {id b}, w.watcher? id = some b → b.registry.entries.Nodup
  fed : ∀ {p l r c}, w.registration? p l = some r → r.listener = .subscription c →
    ∃ d, w.origin? c = some (.child p l d)
  later : ∀ {c p l d}, w.origin? c = some (.child p l d) → p < c
  behind : ∀ {j b}, w.watcher? j = some b → b.Behind

/-- An update of the watcher can be delivered, and all callbacks it leads to are passive. -/
structure Primed (w : World α) (top : WatcherId) : Prop where
  poised : w.Poised
  passive : w.PassiveFrom top

theorem Poised.flows {part : WatcherId → Prop} {w w' : World α} (h : w.Poised)
    (hf : w.Flows part w') : w'.Poised where
  entry hb hl := by
    obtain ⟨a, ha, heq⟩ := hf.sameTree.symm.watcher hb
    have hentries : a.registry.entries = _ := congrArg (·.registry.entries) heq
    obtain ⟨r, hr, hactive⟩ := h.entry ha (hentries ▸ hl)
    obtain ⟨r', hr', hblank⟩ := hf.sameTree.registration hr
    exact ⟨r', hr', (congrArg Registration.active hblank).trans hactive⟩
  nodup hb := by
    obtain ⟨a, ha, heq⟩ := hf.sameTree.symm.watcher hb
    have hentries : a.registry.entries = _ := congrArg (·.registry.entries) heq
    exact hentries ▸ h.nodup ha
  fed hr hl := by
    obtain ⟨r', hr', hblank⟩ := hf.sameTree.symm.registration hr
    obtain ⟨d, hd⟩ := h.fed hr' ((congrArg Registration.listener hblank).trans hl)
    exact ⟨d, (hf.sameTree.origin?_eq _).trans hd⟩
  later ho := h.later ((hf.sameTree.origin?_eq _).symm.trans ho)
  behind hb := hf.behind (fun _ _ => h.behind) _ _ hb

theorem Gentle.cons {w : World α} {name : Name} {names : List Name}
    (h : w.Gentle (name :: names)) : w.Gentle [name] ∧ w.Gentle names :=
  ⟨fun j hj => h j (List.mem_cons.mpr (.inl (List.mem_singleton.mp hj))),
    fun j hj => h j (List.mem_cons_of_mem _ hj)⟩

theorem Gentle.flows {part : WatcherId → Prop} {w w' : World α} {names : List Name}
    (h : w.Gentle names) (hf : w.Flows part w') : w'.Gentle names := by
  intro name hname waker' hw'
  have hmap := hf.wakers name
  rw [hw'] at hmap
  obtain ⟨waker, hw, heq⟩ := Option.map_eq_some_iff.mp hmap.symm
  exact heq ▸ h name hname waker hw

theorem Primed.flows {part : WatcherId → Prop} {w w' : World α} {top : WatcherId}
    (h : w.Primed top) (hf : w.Flows part w') : w'.Primed top where
  poised := h.poised.flows hf
  passive := {
    inline := fun {id l r'} hreach hr' ha => by
      obtain ⟨r, hr, heq⟩ := hf.sameTree.symm.registration hr'
      have hinline := h.passive.inline (hf.sameTree.symm.reaches hreach) hr
        ((congrArg Registration.active heq).trans ha)
      have hexecutor : r.executor = r'.executor := (congrArg Registration.executor heq :)
      rwa [hexecutor] at hinline
    callbacks := fun {id l r'} hreach hr' ha n => by
      obtain ⟨r, hr, heq⟩ := hf.sameTree.symm.registration hr'
      rw [hf.sameTree.callback_eq heq.symm]
      exact h.passive.callbacks (hf.sameTree.symm.reaches hreach) hr
        ((congrArg Registration.active heq).trans ha) n
    wakers := fun hreach name hname => (h.passive.wakers (hf.sameTree.symm.reaches hreach)).flows hf
      name (hf.slots _ hname) }

/-- The wakers that are woken when a watcher accepts a state. -/
theorem Primed.gentle_adopt {w : World α} {id : WatcherId} {b : Watcher α} (h : w.Primed id)
    (hb : w.watcher? id = some b) (p : Bool) (s : Latest α) :
    (w.adopt p p b.name id b s).Gentle b.slot.wakers := by
  have hadopted : w.Flows (· = id) (w.adopt p p b.name id b s) := .adopt p p b.name b s rfl
  have hgentle : w.Gentle b.slot.wakers := slot_of_watcher? hb ▸ h.passive.wakers .refl
  exact hgentle.flows hadopted

theorem Reaches.trans {w : World α} {top mid x : WatcherId} (h : w.Reaches top mid)
    (h' : w.Reaches mid x) : w.Reaches top x := by
  induction h' with
  | refl => exact h
  | step _ hr ha hl ih => exact .step ih hr ha hl

theorem Primed.reached {w : World α} {top x : WatcherId} (h : w.Primed top)
    (hx : w.Reaches top x) : w.Primed x where
  poised := h.poised
  passive := {
    inline := fun hreach => h.passive.inline (hx.trans hreach)
    callbacks := fun hreach => h.passive.callbacks (hx.trans hreach)
    wakers := fun hreach => h.passive.wakers (hx.trans hreach) }

/-! ## The delivery leaves the tree alone -/

section Deliver

variable [BEq α] {p : Bool} {w : World α}

theorem sameCast_carryOut (label : Name) {ops : List (Op α)}
    (h : ∀ op ∈ ops, op.isPassive = true) : w.SameCast (w.carryOut p label ops).1 := by
  induction ops generalizing w with
  | nil => exact .refl w
  | cons op ops ih =>
    have hstart := (start_passive (h op (List.mem_cons_self ..)) w).1
    unfold carryOut
    rcases heq : w.start op with ⟨w₁, stk, c⟩
    rw [heq] at hstart
    have hrest := fun op hop => h op (List.mem_cons_of_mem _ hop)
    cases c with
    | proceed => exact hstart.trans (ih hrest)
    | answer a => exact (hstart.trans (.note w₁ p _)).trans (ih hrest)
    | unwind payload => exact hstart

/-- A callback panics with the first of its operations that does. -/
theorem panic_carryOut (label : Name) {ops : List (Op α)}
    (h : ∀ op ∈ ops, op.isPassive = true) :
    (w.carryOut p label ops).2 = ops.findSome? Op.panic? := by
  induction ops generalizing w with
  | nil => rfl
  | cons op ops ih =>
    obtain ⟨-, -, hcontrol⟩ := start_passive (h op (List.mem_cons_self ..)) w
    have hrest := fun op hop => h op (List.mem_cons_of_mem _ hop)
    unfold carryOut
    rw [List.findSome?_cons]
    rcases heq : w.start op with ⟨w₁, s₁, c⟩
    rw [heq] at hcontrol
    rcases hcontrol with ⟨a, rfl, hpanic⟩ | ⟨payload, rfl, hpanic⟩
    · rw [hpanic]
      exact ih hrest
    · rw [hpanic]

theorem Flows.rouse {part : WatcherId → Prop} {name : Name} (h : w.Gentle [name]) :
    w.Flows part (w.rouse p name) := by
  unfold World.rouse
  cases hwaker : w.wakers.lookup name with
  | none => exact .note w p _
  | some waker =>
    have hpassive := h name (List.mem_singleton_self _) waker hwaker (waker.wakes + 1)
    have hcount : w.Flows part ((w.note p (.woken name)).countWake name waker) := by
      refine .of_watchers rfl fun j => ?_
      unfold countWake
      rw [Bindings.lookup_bind]
      split
      · rename_i hj
        rw [hj, hwaker]
        rfl
      · rfl
    exact hcount.trans (.of_sameCast (sameCast_carryOut name fun op hop => (hpassive op hop).1))

theorem Flows.awaken {part : WatcherId → Prop} {names : List Name} (h : w.Gentle names) :
    w.Flows part (names.foldl (World.rouse p) w) := by
  induction names generalizing w with
  | nil => exact .refl w
  | cons name names ih =>
    have hfirst : w.Flows part (w.rouse p name) := .rouse h.cons.1
    exact hfirst.trans (ih (h.cons.2.flows hfirst))

/-- What becomes of a state that a watcher accepts stays where its updates can reach, as long as
there are only so many watchers after it. -/
def Confines (depth : Nat) (take : World α → WatcherId → Latest α → World α) : Prop :=
  ∀ {w : World α} {c : WatcherId} {b : Watcher α} {s : Latest α}, w.Primed c →
    w.watcher? c = some b → b.closed = false → b.refusal s = none →
    w.watchers.length ≤ c + depth → w.Flows (w.Reaches c) (take w c s)

variable {depth : Nat} {take : World α → WatcherId → Latest α → World α}
  (htake : Confines depth take)

include htake

theorem Flows.propose {c : WatcherId} (hp : w.Primed c) (hlen : w.watchers.length ≤ c + depth)
    (s : Latest α) : w.Flows (w.Reaches c) (w.propose p take c s) := by
  unfold World.propose
  cases hb : w.watcher? c with
  | none => exact .refl w
  | some b =>
    simp only
    split
    · exact .note w p _
    · rename_i hcl
      cases hr : b.refusal s with
      | some refusal => exact (Flows.note w p _).trans (.note _ p _)
      | none => exact htake hp hb (Bool.not_eq_true _ ▸ hcl) hr hlen

theorem Flows.conclude {c : WatcherId} (hp : w.Primed c) (hlen : w.watchers.length ≤ c + depth)
    (revision : Revision) (outcome : Outcome α) :
    w.Flows (w.Reaches c) (w.conclude p take c revision outcome) := by
  have hnote : w.Flows (w.Reaches c) (w.note p (.applied c revision outcome)) := .note w p _
  refine hnote.trans ?_
  cases outcome with
  | value v =>
    rw [← hnote.sameTree.reaches_eq]
    exact .propose htake (hp.flows hnote) hlen ⟨revision, v⟩
  | failed error => exact .note _ p _
  | panicked payload => exact .note _ p _

/-! ### One listener after the other -/

omit [BEq α] htake in
theorem Flows.registration?_eq {part : WatcherId → Prop} {w' : World α} (h : w.Flows part w')
    {j : WatcherId} (hj : ¬ part j) (l : ListenerId) :
    w'.registration? j l = w.registration? j l := by
  unfold registration?
  rw [h.outside j hj]

omit [BEq α] htake in
theorem Flows.updates_eq {part : WatcherId → Prop} {w' : World α} (h : w.Flows part w')
    {j : WatcherId} (hj : ¬ part j) : w'.updates j = w.updates j := by
  unfold updates
  rw [h.outside j hj]

omit [BEq α] htake in
theorem Reaches.le {top x : WatcherId} (hp : w.Poised) (h : w.Reaches top x) : top ≤ x := by
  induction h with
  | refl => exact Nat.le_refl _
  | step _ hr _ hl ih =>
    obtain ⟨d, hd⟩ := hp.fed hr hl
    exact Nat.le_trans ih (Nat.le_of_lt (hp.later hd))

omit [BEq α] htake in
/-- What the updates of a child can reach comes after its parent. -/
theorem Reaches.lt (hp : w.Poised) {id c j : WatcherId} {l : ListenerId} {r : Registration α}
    (h : w.Reaches c j) (hr : w.registration? id l = some r) (hl : r.listener = .subscription c) :
    id < j := by
  obtain ⟨d, hd⟩ := hp.fed hr hl
  exact Nat.lt_of_lt_of_le (hp.later hd) (h.le hp)

/-- The updates of the child that a listener belongs to, if it belongs to one, can reach the
watcher. -/
def Incites (w : World α) (r : Registration α) (j : WatcherId) : Prop :=
  ∃ c, r.listener = .subscription c ∧ w.Reaches c j

/-- What may change when a listener is informed: its watcher, and where the updates of the child
that it belongs to can reach. -/
def Touches (w : World α) (t : Task α) (j : WatcherId) : Prop :=
  j = t.watcher ∨ ∃ r, w.registration? t.watcher t.listener = some r ∧ w.Incites r j

omit htake in
/-- An observer is called, and a panic of it is logged. -/
theorem Primed.notify_observer {t : Task α} {r : Registration α} {label : Name} {valueOnly : Bool}
    {actions : Actions α} (hp : w.Primed t.watcher)
    (hr : w.registration? t.watcher t.listener = some r) (ha : r.active = true)
    (hl : r.listener = .observer label valueOnly actions) (p : Bool)
    (take : World α → WatcherId → Latest α → World α) :
    ∃ w₁ panic, (∀ op ∈ actions (r.calls + 1), op.isPassive = true) ∧
      ((w.tell t).note p (.called (.observer label valueOnly) t false)).carryOut p label
        (actions (r.calls + 1)) = (w₁, panic) ∧
      w.notify p take t r = (match panic with
        | none => w₁
        | some payload =>
          w₁.log p t.watcher (.listenerPanicked t.listener t.state.revision payload.message)) ∧
      (w.tell t).SameCast w₁ := by
  have hops := hp.passive.callbacks .refl hr ha (r.calls + 1)
  unfold World.callback at hops
  simp only [hl] at hops
  have hnoted := SameCast.note (w.tell t) p (.called (.observer label valueOnly) t false)
  refine ⟨_, _, hops, rfl, ?_, hnoted.trans (sameCast_carryOut label hops)⟩
  unfold World.notify
  simp only [hl]

omit htake in
/-- A child's transformation is at work, and then the child, which is ready for an update, takes
what has come of it. -/
theorem Primed.notify_subscription {t : Task α} {r : Registration α} {c : WatcherId}
    (hp : w.Primed t.watcher) (hr : w.registration? t.watcher t.listener = some r)
    (ha : r.active = true) (hl : r.listener = .subscription c)
    (hle : t.update ≤ w.updates t.watcher) (hlen : w.watchers.length ≤ t.watcher + (depth + 1))
    (p : Bool) (take : World α → WatcherId → Latest α → World α) :
    ∃ d w₁ panic, w.origin? c = some (.child t.watcher t.listener d) ∧
      (∀ op ∈ d.actions (r.calls + 1), op.isPassive = true) ∧
      ((w.tell t).note p (.called (.child c) t false)).carryOut p d.label
        (d.actions (r.calls + 1)) = (w₁, panic) ∧
      w.notify p take t r =
        w₁.conclude p take c t.state.revision (d.outcome panic t.state.value) ∧
      (w.tell t).SameCast w₁ ∧ w.SameTree w₁ ∧ w₁.Primed c ∧
      w₁.watchers.length ≤ c + depth := by
  have hops := hp.passive.callbacks .refl hr ha (r.calls + 1)
  obtain ⟨d, hd⟩ := hp.poised.fed hr hl
  have hparent := parent?_eq_some_iff.mpr hd
  unfold World.callback at hops
  simp only [hl, hparent] at hops
  have hsame := (SameCast.note (w.tell t) p (.called (.child c) t false)).trans
    (sameCast_carryOut (p := p) d.label hops)
  have htell : w.Flows (fun _ => True) (w.tell t) := .tell trivial hle
  have hall := htell.trans (.of_sameCast hsame)
  have hlt : Nat.succ t.watcher ≤ c := hp.poised.later hd
  refine ⟨d, _, _, hd, hops, rfl, ?_, hsame, hall.sameTree,
    (hp.reached (.step .refl hr ha hl)).flows hall, ?_⟩
  · unfold World.notify
    simp only [hl, hparent]
  · rw [hall.length]
    omega

theorem Flows.notify {t : Task α} {r : Registration α} (hp : w.Primed t.watcher)
    (hr : w.registration? t.watcher t.listener = some r) (ha : r.active = true)
    (hle : t.update ≤ w.updates t.watcher)
    (hlen : w.watchers.length ≤ t.watcher + (depth + 1)) :
    (w.tell t).Flows (w.Incites r) (w.notify p take t r) := by
  cases hl : r.listener with
  | observer label valueOnly actions =>
    obtain ⟨w₁, panic, -, -, hnotify, hsame⟩ := hp.notify_observer hr ha hl p take
    rw [hnotify]
    cases panic with
    | none => exact .of_sameCast hsame
    | some payload => exact .of_sameCast (hsame.trans (.note _ p _))
  | subscription c =>
    obtain ⟨d, w₁, panic, -, -, -, hnotify, hsame, htree, hprimed, hlen₁⟩ :=
      hp.notify_subscription hr ha hl hle hlen p take
    rw [hnotify]
    refine .trans (.of_sameCast hsame)
      ((Flows.conclude htake hprimed hlen₁ _ _).mono fun j hj => ⟨c, hl, ?_⟩)
    rwa [htree.reaches_eq] at hj

/-- An update of a watcher is on its way to these listeners, one after the other. -/
structure Handing (w : World α) (id : WatcherId) (n : Nat) (ls : List ListenerId) : Prop where
  primed : w.Primed id
  current : w.updates id = n
  due : ∀ l ∈ ls, ∃ r, w.registration? id l = some r ∧ r.active = true ∧ r.delivered < n
  nodup : ls.Nodup

omit [BEq α] htake in
theorem Flows.passOn {part : WatcherId → Prop} (p : Bool) {t : Task α} (ht : part t.watcher) :
    w.Flows part (w.passOn p t) := (Flows.handOver p ht).trans (.note _ p _)

omit [BEq α] htake in
theorem Handing.updates_passOn {t : Task α} {ls : List ListenerId}
    (h : w.Handing t.watcher t.update ls) (p : Bool) :
    t.update ≤ (w.passOn p t).updates t.watcher :=
  Nat.le_of_eq ((updates_handOver ..).trans h.current).symm

omit htake in
/-- The registration of a task, before and when its listener is called with it. -/
theorem Handing.registration {t : Task α} {ls : List ListenerId}
    (h : w.Handing t.watcher t.update (t.listener :: ls)) (p : Bool)
    (take : World α → WatcherId → Latest α → World α) :
    ∃ r, w.registration? t.watcher t.listener = some r ∧ r.active = true ∧
      r.delivered < t.update ∧ (w.passOn p t).registration? t.watcher t.listener =
        some { r with handovers := r.handovers + 1 } ∧
      w.inform p take t =
        (w.passOn p t).notify p take t { r with handovers := r.handovers + 1 } := by
  obtain ⟨r, hr, ha, hlt⟩ := h.due _ (List.mem_cons_self ..)
  have hr₁ : (w.passOn p t).registration? t.watcher t.listener =
      some { r with handovers := r.handovers + 1 } := by
    show (w.handOver p t).registration? t.watcher t.listener = _
    rw [registration?_handOver, if_pos ⟨rfl, rfl⟩, hr]
    rfl
  refine ⟨r, hr, ha, hlt, hr₁, ?_⟩
  unfold World.inform
  rw [hr₁]

/-- A listener has been informed: the others still wait for the update. -/
theorem Handing.inform {t : Task α} {ls : List ListenerId}
    (h : w.Handing t.watcher t.update (t.listener :: ls))
    (hlen : w.watchers.length ≤ t.watcher + (depth + 1)) :
    w.Flows (w.Touches t) (w.inform p take t) ∧
      (∀ l, l ≠ t.listener →
        (w.inform p take t).registration? t.watcher l = w.registration? t.watcher l) ∧
      (w.inform p take t).Handing t.watcher t.update ls := by
  obtain ⟨r, hr, ha, hlt, hr₁, hinform⟩ := h.registration p take
  obtain ⟨hnew, hnodup⟩ := List.nodup_cons.mp h.nodup
  generalize hcalled : { r with handovers := r.handovers + 1 } = r₁ at hr₁ hinform
  rw [hinform]
  have hpassed : w.Flows (w.Touches t) (w.passOn p t) := .passOn p (.inl rfl)
  have hcurrent := h.updates_passOn p
  have htold : (w.passOn p t).Flows (w.Touches t) ((w.passOn p t).tell t) :=
    .tell (.inl rfl) hcurrent
  have hprimed := h.primed.flows hpassed
  have hnotified := Flows.notify (p := p) htake hprimed hr₁ (hcalled ▸ ha) hcurrent
    (hpassed.length ▸ hlen)
  have hincites : ∀ j, (w.passOn p t).Incites r₁ j → w.Touches t j := by
    rintro j ⟨c, hsub, hreach⟩
    rw [hpassed.sameTree.reaches_eq] at hreach
    exact .inr ⟨r, hr, c, by rw [← hsub, ← hcalled], hreach⟩
  have hself : ¬ (w.passOn p t).Incites r₁ t.watcher := by
    rintro ⟨c, hsub, hreach⟩
    exact Nat.lt_irrefl _ (hreach.lt hprimed.poised hr₁ hsub)
  have hall := hpassed.trans (htold.trans (hnotified.mono hincites))
  have hothers : ∀ l, l ≠ t.listener →
      ((w.passOn p t).notify p take t r₁).registration? t.watcher l =
        w.registration? t.watcher l := by
    intro l hne
    rw [hnotified.registration?_eq hself, registration?_tell, if_neg fun heq => hne heq.2]
    exact (registration?_handOver ..).trans (if_neg fun heq => hne heq.2)
  refine ⟨hall, hothers, h.primed.flows hall, ?_, fun l hl => ?_, hnodup⟩
  · rw [hnotified.updates_eq hself, updates_tell]
    exact (updates_handOver ..).trans h.current
  · obtain ⟨a, ha, hdue⟩ := h.due l (List.mem_cons_of_mem _ hl)
    have hne : l ≠ t.listener := by
      rintro rfl
      exact hnew hl
    exact ⟨a, (hothers l hne).trans ha, hdue⟩

omit [BEq α] htake in
theorem Handing.reaches {t : Task α} {ls : List ListenerId}
    (h : w.Handing t.watcher t.update (t.listener :: ls)) {j : WatcherId} (hj : w.Touches t j) :
    w.Reaches t.watcher j := by
  rcases hj with rfl | ⟨r, hr, c, hl, hreach⟩
  · exact .refl
  · obtain ⟨r', hr', ha, -⟩ := h.due _ (List.mem_cons_self ..)
    obtain rfl := Option.some.inj (hr.symm.trans hr')
    exact (Reaches.step .refl hr ha hl).trans hreach

/-- All listeners have been informed. -/
theorem Handing.informAll {id : WatcherId} {n : Nat} {ls : List ListenerId}
    (h : w.Handing id n ls) (hlen : w.watchers.length ≤ id + (depth + 1)) (s : Latest α) :
    w.Flows (w.Reaches id) (ls.foldl (fun w l => w.inform p take ⟨id, l, n, s⟩) w) := by
  induction ls generalizing w with
  | nil => exact .refl w
  | cons l ls ih =>
    obtain ⟨hflows, -, hrest⟩ := Handing.inform (p := p) htake (t := ⟨id, l, n, s⟩) h hlen
    have hmore := ih hrest (hflows.length ▸ hlen)
    rw [hflows.sameTree.reaches_eq] at hmore
    exact (hflows.mono fun j hj => Handing.reaches (t := ⟨id, l, n, s⟩) h hj).trans hmore

omit htake in
/-- When a watcher has accepted a state, nothing but the watcher has changed, and the state is on
its way to all listeners. -/
theorem Primed.announce {id : WatcherId} {b : Watcher α} (h : w.Primed id)
    (hb : w.watcher? id = some b) (p : Bool) (s : Latest α) :
    w.Flows (· = id) (w.announce p id b s) ∧
      (∀ l, (w.announce p id b s).registration? id l = w.registration? id l) ∧
      (w.announce p id b s).Handing id (b.updates + 1) b.registry.entries := by
  have hadopted : w.Flows (· = id) (w.adopt p p b.name id b s) := .adopt p p b.name b s rfl
  have hwoken : (w.adopt p p b.name id b s).Flows (fun _ => False) (w.announce p id b s) :=
    (Flows.awaken (h.gentle_adopt hb p s)).trans (.note _ p _)
  have hall := hadopted.trans (hwoken.mono fun _ => False.elim)
  have hregistration : ∀ l, (w.announce p id b s).registration? id l = w.registration? id l :=
    fun l => (hwoken.registration?_eq not_false l).trans (registration?_adopt _ _ _ _ _ id l)
  refine ⟨hall, hregistration, h.flows hall, ?_, fun l hl => ?_, h.poised.nodup hb⟩
  · rw [hwoken.updates_eq not_false, updates_adopt hb, if_pos rfl, updates_of_watcher? hb]
  · obtain ⟨r, hr, ha⟩ := h.poised.entry hb hl
    have hfind := (registration?_of_watcher? hb l).symm.trans hr
    exact ⟨r, (hregistration l).trans hr, ha, Nat.lt_succ_of_le (h.poised.behind hb l r hfind)⟩

omit htake in
theorem confines_deliver (p : Bool) (depth : Nat) :
    Confines depth (deliver p depth : World α → WatcherId → Latest α → World α) := by
  induction depth with
  | zero =>
    intro w c b s _ hb _ _ hlen
    exact absurd (lt_length hb) (Nat.not_lt_of_le hlen)
  | succ depth ih =>
    intro w c b s hp hb _ _ hlen
    obtain ⟨hflows, -, hhanding⟩ := hp.announce hb p s
    have hmore := hhanding.informAll (p := p) ih (hflows.length ▸ hlen) s
    rw [hflows.sameTree.reaches_eq] at hmore
    have hself : ∀ j, j = c → w.Reaches c j := by
      rintro j rfl
      exact .refl
    unfold deliver
    rw [hb]
    exact (hflows.mono hself).trans hmore

end Deliver

end World

end WatchTree
