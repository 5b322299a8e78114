import WatchTree.Proofs.Applications

/-!
# Wakers, step by step

A waker is left in the slot of a watcher while that is pending, taken out of it when the slot is
decided, and woken later, while other code may poll, push and close. `Machine.WakerStep` lists what
a step can do about wakers (`Next.wakerStep`): nothing, the poll of a future whose slot is pending,
the decision of a slot, the waking of one waker, or a panic that takes off those left to be woken.
-/

namespace WatchTree

variable {α : Type}

/-! ## Wakers in a history -/

namespace Event

/-- The waker that was left in the slot of the watcher. -/
def enlisted? (id : WatcherId) : Event α → Option Name
  | .enlisted j waker => if j = id then some waker else none
  | _ => none

def woken? : Event α → Option Name
  | .woken waker => some waker
  | _ => none

end Event

namespace World

/-- The wakers that futures of the watcher were polled with while its slot was pending, in the order
of the polls. -/
def polled (w : World α) (id : WatcherId) : List Name := w.events.filterMap (Event.enlisted? id)

def woken (w : World α) : List Name := w.events.filterMap Event.woken?

/-- Between the two worlds nothing was recorded about wakers. -/
structure SameWakers (w w' : World α) : Prop where
  polled : ∀ id, w'.polled id = w.polled id
  woken : w'.woken = w.woken

theorem polled_of_deeds {w w' : World α} {es : List (Event α)} (h : w'.deeds = w.deeds ++ es)
    (id : WatcherId) : w'.polled id = w.polled id ++ es.filterMap (Event.enlisted? id) := by
  have hnone : ∀ e : Event α, e.isDeed = false → e.enlisted? id = none := by
    intro e he
    cases e <;> first | rfl | exact nomatch he
  unfold polled
  rw [filterMap_deeds hnone, filterMap_deeds hnone, h, List.filterMap_append]

theorem woken_of_deeds {w w' : World α} {es : List (Event α)} (h : w'.deeds = w.deeds ++ es) :
    w'.woken = w.woken ++ es.filterMap Event.woken? := by
  have hnone : ∀ e : Event α, e.isDeed = false → e.woken? = none := by
    intro e he
    cases e <;> first | rfl | exact nomatch he
  unfold woken
  rw [filterMap_deeds hnone, filterMap_deeds hnone, h, List.filterMap_append]

theorem SameWakers.of_deeds {w w' : World α} {es : List (Event α)} (h : w'.deeds = w.deeds ++ es)
    (hes : ∀ e ∈ es, (∀ id, e.enlisted? id = none) ∧ e.woken? = none) : w.SameWakers w' where
  polled id := by
    rw [polled_of_deeds h, List.filterMap_eq_nil_iff.mpr fun e he => (hes e he).1 id,
      List.append_nil]
  woken := by
    rw [woken_of_deeds h, List.filterMap_eq_nil_iff.mpr fun e he => (hes e he).2, List.append_nil]

theorem SameWakers.of_deeds_eq {w w' : World α} (h : w'.deeds = w.deeds) : w.SameWakers w' :=
  .of_deeds (h.trans (List.append_nil _).symm) fun _ he => absurd he List.not_mem_nil

end World

/-! ## Wakers in a slot -/

namespace Slot

/-- A further poll adds a waker if it is new. -/
theorem eraseDups_concat (names : List Name) (name : Name) :
    (names ++ [name]).eraseDups =
      if names.eraseDups.contains name then names.eraseDups else names.eraseDups ++ [name] := by
  rw [List.eraseDups_append]
  by_cases h : name ∈ names
  · simp [h, List.removeAll]
  · simp [h, List.removeAll, List.eraseDups_cons]

theorem wakers_of_not_pending {slot : Slot α} (h : slot.isPending = false) : slot.wakers = [] := by
  cases slot with
  | pending => exact nomatch h
  | set | abandoned => rfl

end Slot

/-- A slot is pending as long as it is open what the first value comes to. -/
theorem World.Decided.isPending_eq {w : World α} (hd : w.Decided) (hw : w.Ledger)
    (id : WatcherId) : (w.slot id).isPending = (w.initial? id).isNone := by
  cases hb : w.watcher? id with
  | none =>
    have hslot : w.slot id = .pending [] := by
      unfold World.slot
      rw [hb]
      rfl
    have hclosed : w.isClosed id = false := by
      unfold World.isClosed
      rw [hb]
      rfl
    unfold World.initial?
    rw [hslot, hw.accepted_of_watcher?_none hb, hclosed]
    rfl
  | some b =>
    rw [World.slot_of_watcher? hb, ← hd.outcome?_eq hb]
    cases b.slot <;> rfl

/-! ## Wakers on a stack -/

namespace Frame

/-- The watcher whose slot has been decided. -/
def completes? : Frame α → Option WatcherId
  | announcing id .. | closing id _ => some id
  | _ => none

/-- The wakers of the watcher that are about to be woken. -/
def summoned (id : WatcherId) : List (Frame α) → List Name
  | waking names :: f :: stk =>
    (if f.completes? = some id then names else []) ++ summoned id (f :: stk)
  | _ :: stk => summoned id stk
  | [] => []

theorem summoned_cons (id : WatcherId) {f : Frame α} (hf : ∀ names, f ≠ waking names)
    (stk : List (Frame α)) : summoned id (f :: stk) = summoned id stk := by
  cases f with
  | waking names => exact absurd rfl (hf names)
  | _ => rfl

theorem summoned_append (id : WatcherId) {fs : List (Frame α)}
    (hfs : ∀ f ∈ fs, f.isCompletion = false) (stk : List (Frame α)) :
    summoned id (fs ++ stk) = summoned id stk := by
  induction fs with
  | nil => rfl
  | cons f fs ih =>
    refine (summoned_cons id ?_ _).trans (ih fun g hg => hfs g (List.mem_cons_of_mem _ hg))
    rintro names rfl
    exact nomatch hfs _ List.mem_cons_self

theorem summoned_waking {f : Frame α} {id : WatcherId} (hf : f.completes? = some id)
    (j : WatcherId) (names : List Name) (stk : List (Frame α)) :
    summoned j (waking names :: f :: stk) =
      (if id = j then names else []) ++ summoned j stk := by
  have hcons : summoned j (f :: stk) = summoned j stk := by
    refine summoned_cons j ?_ stk
    rintro names rfl
    exact nomatch hf
  show (if f.completes? = some j then names else []) ++ summoned j (f :: stk) = _
  rw [hcons, hf]
  by_cases h : id = j <;> simp [h]

end Frame

namespace Machine

/-- No waker is about to be woken next. -/
def Still (m : Machine α) : Prop := ∀ name names stk, m.stack ≠ .waking (name :: names) :: stk

/-- The waker that is woken next, and the watcher whose first value it was waiting for. -/
def rousing? (m : Machine α) : Option (WatcherId × Name) :=
  match m.control, m.stack with
  | .unwind _, _ => none
  | _, .waking (name :: _) :: f :: _ => f.completes?.map fun id => (id, name)
  | _, _ => none

/-- The wakers that were woken along a run, the latest machine first, each with its watcher. -/
def roused (ms : List (Machine α)) : List (WatcherId × Name) := ms.reverse.filterMap rousing?

/-- The wakers of one watcher that were woken along a run. -/
def rousedFor (id : WatcherId) (ms : List (Machine α)) : List Name :=
  ((roused ms).filter fun x => x.1 = id).map Prod.snd

theorem Still.rousing? {m : Machine α} (h : m.Still) : m.rousing? = none := by
  unfold Machine.rousing?
  split
  · rfl
  · rename_i hstk _
    exact absurd hstk (h _ _ _)
  · rfl

theorem Still.summoned {m : Machine α} (h : m.Still) (id : WatcherId) :
    Frame.summoned id m.stack = Frame.summoned id m.stack.tail := by
  obtain ⟨w, stk, c⟩ := m
  cases stk with
  | nil => rfl
  | cons f stk =>
    cases f with
    | waking names =>
      cases names with
      | nil =>
        cases stk with
        | nil => rfl
        | cons g stk =>
          show (if g.completes? = some id then [] else []) ++ Frame.summoned id (g :: stk) = _
          rw [ite_self]
          rfl
      | cons name names => exact absurd rfl (h name names stk)
    | _ => rfl

theorem roused_cons (m : Machine α) (ms : List (Machine α)) :
    roused (m :: ms) = roused ms ++ m.rousing?.toList := by
  unfold roused
  rw [List.reverse_cons, List.filterMap_append]
  cases h : m.rousing? <;> simp [h]

theorem rousedFor_cons (id : WatcherId) (m : Machine α) (ms : List (Machine α)) :
    rousedFor id (m :: ms) =
      rousedFor id ms ++ ((m.rousing?.toList.filter fun x => x.1 = id).map Prod.snd) := by
  unfold rousedFor
  rw [roused_cons, List.filter_append, List.map_append]

/-! ## What a step does about wakers -/

/-- What decides the slot of a watcher: it accepts a state, which is to be handed out, or it is
closed. -/
inductive Decides (m m' : Machine α) (id : WatcherId) (b : Watcher α) : Frame α → Prop
  | accepts (s : Latest α) : m'.world.accepted id = m.world.accepted id ++ [s] →
      Decides m m' id b (.announcing id (b.updates + 1) s b.registry.entries)
  | closes (n : Nat) : m'.world.isClosed id = true → Decides m m' id b (.closing id n)

/-- Between the two machines a future of the watcher is polled on behalf of the waker, and answers
that it is pending. -/
def Polls (m m' : Machine α) (id : WatcherId) (waker : Name) : Prop :=
  ∃ (x : Machine α) (future : Name) (actions : Actions α), x.world = m.world ∧
    m.world.futures.lookup future = some id ∧ m' = x.pollFuture future waker actions ∧
    m'.control = .answer .pending

/-- What comes next does one of these things about wakers. -/
inductive WakerStep (m m' : Machine α) : Prop
  /-- Nothing. -/
  | rests (fs : List (Frame α)) : m.Still → m'.stack = fs ++ m.stack.tail →
      (∀ f ∈ fs, f.isCompletion = false) → m.world.SameSlots m'.world →
      m.world.SameWakers m'.world → WakerStep m m'
  /-- A future is polled while the slot is pending. -/
  | enlists (fs : List (Frame α)) {id : WatcherId} {waker : Name} : Polls m m' id waker → m.Still →
      m'.stack = fs ++ m.stack.tail → (∀ f ∈ fs, f.isCompletion = false) →
      (m.world.slot id).isPending = true →
      (∀ j, m'.world.slot j = if id = j then (m.world.slot id).enlist waker else m.world.slot j) →
      (∀ j, m'.world.polled j = m.world.polled j ++ if id = j then [waker] else []) →
      m'.world.woken = m.world.woken → WakerStep m m'
  /-- What is in the slot of a watcher is taken out, as the slot is decided if it was pending. -/
  | completes (fs : List (Frame α)) {id : WatcherId} {b : Watcher α} {g : Frame α} : m.Still →
      m.world.watcher? id = some b → Decides m m' id b g →
      m'.stack = .waking b.slot.wakers :: g :: (fs ++ m.stack.tail) →
      (∀ f ∈ fs, f.isCompletion = false) → (m'.world.slot id).isPending = false →
      (∀ j, id ≠ j → m'.world.slot j = m.world.slot j) → m.world.SameWakers m'.world →
      WakerStep m m'
  /-- A waker is woken. -/
  | wakes (fs : List (Frame α)) {id : WatcherId} {name : Name} {names : List Name} {g : Frame α}
      {stk : List (Frame α)} : m.stack = .waking (name :: names) :: g :: stk →
      g.completes? = some id → m.rousing? = some (id, name) →
      m'.stack = fs ++ .waking names :: g :: stk → (∀ f ∈ fs, f.isCompletion = false) →
      m.world.SameSlots m'.world → (∀ j, m'.world.polled j = m.world.polled j) →
      m'.world.woken = m.world.woken ++ [name] → WakerStep m m'
  /-- A panic takes off the wakers left to be woken. -/
  | drops {names : List Name} {stk : List (Frame α)} {payload : Payload} :
      m.control = .unwind payload → m.stack = .waking names :: stk → m'.world = m.world →
      m'.stack = stk → WakerStep m m'

theorem Decides.completes? {m m' : Machine α} {id : WatcherId} {b : Watcher α} {g : Frame α}
    (h : Decides m m' id b g) : g.completes? = some id := by
  cases h <;> rfl

namespace WakerStep

variable [BEq α] {m m' x : Machine α} {id : WatcherId}

omit [BEq α] in
theorem of_keepsSlots (fs : List (Frame α)) (hs : m.Still) (hstk : x.stack = fs ++ m.stack.tail)
    (hfs : ∀ f ∈ fs, f.isCompletion = false) (hslots : m.world.SameSlots x.world)
    (hwakers : m.world.SameWakers x.world) (h : x.KeepsSlots m') : m.WakerStep m' := by
  obtain ⟨gs, hgs, hnone⟩ := h.frames
  have hdeeds : x.world.SameWakers m'.world := .of_deeds_eq h.deeds
  refine .rests (gs ++ fs) hs (by rw [hgs, hstk, List.append_assoc]) (fun f hf => ?_)
    (hslots.trans h.slots)
    ⟨fun j => (hdeeds.polled j).trans (hwakers.polled j), hdeeds.woken.trans hwakers.woken⟩
  exact (List.mem_append.mp hf).elim (hnone f) (hfs f)

/-- A state is offered to a watcher. -/
theorem offer {b : Watcher α} (fs : List (Frame α)) (hs : m.Still)
    (hstk : x.stack = fs ++ m.stack.tail) (hfs : ∀ f ∈ fs, f.isCompletion = false)
    (hwatchers : x.world.watchers = m.world.watchers) (hwakers : m.world.SameWakers x.world)
    (haccepted : x.world.accepted id = m.world.accepted id)
    (hb : m.world.watcher? id = some b) (s : Latest α) : m.WakerStep (x.offer id s) := by
  have hbx : x.world.watcher? id = some b := by
    unfold World.watcher?
    rw [hwatchers]
    exact hb
  have hslots : m.world.SameSlots x.world := .of_eq hwatchers
  have hoffered : x.world.SameWakers (x.offer id s).world := by
    refine .of_deeds (deeds_offer hbx s) fun e he => ?_
    rw [List.mem_singleton.mp he]
    exact ⟨fun _ => rfl, rfl⟩
  have hsame : m.world.SameWakers (x.offer id s).world :=
    ⟨fun j => (hoffered.polled j).trans (hwakers.polled j), hoffered.woken.trans hwakers.woken⟩
  by_cases h : b.reception s = .accepted
  · obtain ⟨hcl, hr⟩ := Watcher.reception_eq_accepted_iff.mp h
    have hslot := slot_offer hbx s
    rw [offer_adopted hbx hcl hr] at hsame hslot ⊢
    refine .completes fs hs hb (.accepts s ?_) ?_ hfs ?_ (fun j hj => ?_) hsame
    · rw [← haccepted]
      exact (World.accepted_adopt ..).trans (by rw [if_pos rfl])
    · show _ :: _ :: x.stack = _
      rw [hstk]
    · rw [hslot id, if_pos ⟨rfl, h⟩]
      cases b.slot <;> rfl
    · rw [hslot j, if_neg fun hx => hj hx.1]
      exact (hslots j).1
  · obtain ⟨es, heq, -⟩ := offer_rebuffs hbx h
    rw [heq] at hsame ⊢
    exact .rests fs hs hstk hfs (hslots.trans (.of_eq rfl)) hsame

omit [BEq α] in
/-- A watcher is closed. -/
theorem close (fs : List (Frame α)) (hs : m.Still) (hstk : x.stack = fs ++ m.stack.tail)
    (hfs : ∀ f ∈ fs, f.isCompletion = false) (hw : x.world = m.world) (id : WatcherId) :
    m.WakerStep (x.close id) := by
  have hsame : m.world.SameWakers (x.close id).world :=
    .of_deeds_eq ((deeds_close x id).trans (by rw [hw]))
  have hrests : m.WakerStep (x.answer .done) :=
    .of_keepsSlots fs hs hstk hfs (.of_eq (by rw [hw])) (.of_deeds_eq (by rw [hw]))
      (.of_changes (.answer x _))
  cases hb : m.world.watcher? id with
  | none =>
    unfold Machine.close
    rw [hw, hb]
    exact hrests
  | some b =>
    have hbx : x.world.watcher? id = some b := by rw [hw, hb]
    cases hcl : b.closed with
    | true =>
      unfold Machine.close
      simp only [hbx, if_pos hcl]
      exact hrests
    | false =>
      have hclose : x.close id = ⟨x.world.modify id Watcher.close,
          .waking b.slot.wakers :: .closing id b.registry.entries.length :: x.stack, .proceed⟩ := by
        unfold Machine.close
        simp [hbx, hcl]
        rfl
      have hclosed := World.watcher?_modify_self hbx Watcher.close
      rw [hclose] at hsame ⊢
      refine .completes fs hs hb (.closes b.registry.entries.length ?_) ?_ hfs ?_
        (fun j hj => ?_) hsame
      · exact (World.isClosed_of_watcher? hclosed).trans rfl
      · show _ :: _ :: x.stack = _
        rw [hstk]
      · show ((x.world.modify id Watcher.close).slot id).isPending = false
        rw [World.slot_of_watcher? hclosed]
        show b.slot.abandon.isPending = false
        cases b.slot <;> rfl
      · show (x.world.modify id Watcher.close).slot j = _
        unfold World.slot
        rw [World.watcher?_modify_of_ne _ hj, hw]

omit [BEq α] in
/-- A future is polled. -/
theorem poll (fs : List (Frame α)) (hs : m.Still) (hstk : x.stack = fs ++ m.stack.tail)
    (hfs : ∀ f ∈ fs, f.isCompletion = false) (hw : x.world = m.world) (future waker : Name)
    (actions : Actions α) : m.WakerStep (x.pollFuture future waker actions) := by
  rcases x.pollFuture_or future waker actions with
    ⟨id, b, hf, hb, hp, w, hwatchers, hevents, heq⟩ | ⟨hkeeps, -⟩
  · have hpoll : Polls m (x.pollFuture future waker actions) id waker :=
      ⟨x, future, actions, hw, by rw [← hw]; exact hf, rfl, by rw [heq]⟩
    have hbw : (w.note x.onPoller (.enlisted id waker)).watcher? id = some b := by
      unfold World.watcher? at hb ⊢
      rw [← hb, ← hwatchers]
      rfl
    have hslot : ∀ j, w.slot j = m.world.slot j := by
      intro j
      unfold World.slot World.watcher?
      rw [hwatchers, hw]
    have hmb : m.world.slot id = b.slot := World.slot_of_watcher? (by rw [← hw]; exact hb)
    have hdeeds : (x.pollFuture future waker actions).world.deeds =
        m.world.deeds ++ [.enlisted id waker] := by
      rcases deeds_pollFuture x future waker actions with ⟨-, hne⟩ | ⟨j, hfj, hdeeds⟩
      · exact absurd (by rw [heq]) hne
      · obtain rfl := Option.some.inj (hf.symm.trans hfj)
        rw [hdeeds, hw]
    have hpolled := World.polled_of_deeds hdeeds
    have hwoken := World.woken_of_deeds hdeeds
    rw [heq] at hpoll hpolled hwoken ⊢
    refine .enlists fs hpoll hs hstk hfs (by rw [hmb]; exact hp) (fun j => ?_) (fun j => ?_)
      (hwoken.trans (List.append_nil _))
    · by_cases hj : id = j
      · subst hj
        rw [if_pos rfl, World.slot_of_watcher? (World.watcher?_modify_self hbw _), hmb]
      · rw [if_neg hj, ← hslot j]
        unfold World.slot
        rw [World.watcher?_modify_of_ne _ hj]
        rfl
    · rw [hpolled j]
      by_cases hj : id = j <;> simp [Event.enlisted?, hj]
  · exact .of_keepsSlots fs hs hstk hfs (.of_eq (by rw [hw])) (.of_deeds_eq (by rw [hw])) hkeeps

end WakerStep

section Steps

variable [BEq α] {m m' : Machine α}

omit [BEq α] in
/-- Wakers are woken above what decided a slot. -/
theorem exists_completes {w : World α} {names : List Name} {stk : List (Frame α)}
    (h : w.Stacked (.waking names :: stk)) :
    ∃ g stk' id, stk = g :: stk' ∧ g.completes? = some id := by
  have hon : Frame.OnCompleting stk := h.1
  match stk, hon with
  | .announcing id n s ls :: stk, _ => exact ⟨_, stk, id, rfl, rfl⟩
  | .closing id n :: stk, _ => exact ⟨_, stk, id, rfl, rfl⟩

omit [BEq α] in
theorem wake_frames (m : Machine α) (name : Name) :
    ∃ fs, (m.wake name).stack = fs ++ m.stack ∧ (∀ f ∈ fs, f.isCompletion = false) ∧
      m.world.SameSlots (m.wake name).world := by
  unfold wake
  simp only
  split
  · exact ⟨[], rfl, by simp, .of_eq rfl⟩
  · exact ⟨[_], rfl, by simp [Frame.isCompletion], .of_eq rfl⟩

omit [BEq α] in
theorem wake_wakerStep {name : Name} {names : List Name} {stk : List (Frame α)}
    (hm : m.WellFormed) (hstk : m.stack = .waking (name :: names) :: stk) (hc : m.control.Calm) :
    m.WakerStep (wake ⟨m.world, .waking names :: stk, .proceed⟩ name) := by
  obtain ⟨w, stk₀, c⟩ := m
  obtain rfl : stk₀ = .waking (name :: names) :: stk := hstk
  obtain ⟨g, stk, id, rfl, hg⟩ := exists_completes hm.stacked
  have hrousing : rousing? ⟨w, .waking (name :: names) :: g :: stk, c⟩ = some (id, name) := by
    unfold rousing?
    cases c with
    | unwind payload => exact absurd rfl (hc payload)
    | proceed | answer => simp [hg]
  have hdeeds := deeds_wake (⟨w, .waking names :: g :: stk, .proceed⟩ : Machine α) name
  obtain ⟨fs, hfs, hnone, hslots⟩ :=
    wake_frames (⟨w, .waking names :: g :: stk, .proceed⟩ : Machine α) name
  exact .wakes fs rfl hg hrousing hfs hnone hslots
    (fun j => (World.polled_of_deeds hdeeds j).trans (List.append_nil _))
    (World.woken_of_deeds hdeeds)

theorem settle_wakerStep {c p : WatcherId} {l : ListenerId} {d : Derivation α} {s : Latest α}
    {stk : List (Frame α)} (hstk : m.stack = .applying c s :: stk)
    (ho : m.world.origin? c = some (.child p l d)) (outcome : Outcome α) :
    m.WakerStep (settle ⟨m.world, stk, m.control⟩ c s.revision outcome) := by
  have hs : m.Still := fun name names stk' heq => by simp [hstk] at heq
  have htail : stk = [] ++ m.stack.tail := by rw [hstk]; rfl
  obtain ⟨b, hb, -⟩ := World.exists_watcher?_of_origin? ho
  have hnote : ∀ q outcome, m.world.SameWakers (m.world.note q (.applied c s.revision outcome)) :=
    fun q outcome => .of_deeds (World.deeds_note ..) fun e he => by
      rw [show (Event.applied c s.revision outcome).isDeed = true from rfl, if_pos rfl,
        List.mem_singleton] at he
      rw [he]
      exact ⟨fun _ => rfl, rfl⟩
  by_cases hv : ∃ y, outcome = .value y
  · obtain ⟨y, rfl⟩ := hv
    rw [settle_value]
    refine .offer (x := ⟨m.world.note _ _, stk, m.control⟩) [] hs htail (by simp) rfl
      (hnote _ _) ?_ hb _
    exact World.accepted_note _ _ (by rfl)
  · obtain ⟨error, heq⟩ := settle_failure ⟨m.world, stk, m.control⟩ c s.revision
      fun y hy => hv ⟨y, hy⟩
    rw [heq]
    let q := onPoller ⟨m.world, stk, m.control⟩
    refine .of_keepsSlots (x := ⟨m.world.note q (.applied c s.revision outcome), stk, .proceed⟩) []
      hs htail (by simp) (.of_eq rfl) (hnote q outcome) ?_
    exact .of_changes (.recordOn _ q nofun)

/-- What comes next does one thing at most about wakers. -/
theorem Next.wakerStep (h : m.Next m') (hm : m.WellFormed) : m.WakerStep m' := by
  cases h.does hm with
  | acts htop hacts =>
    have hs : m.Still := fun name names stk => htop (name :: names) stk
    cases hacts with
    | aside hkeeps =>
      exact .of_keepsSlots (x := { m with stack := m.stack.tail }) [] hs rfl (by simp) (.refl _)
        (.of_deeds_eq rfl) hkeeps
    | @push f fs id s c hpush hfs hroot =>
      obtain ⟨b, hb, -⟩ := World.exists_watcher?_of_origin? hroot
      refine .offer (x := ⟨m.world, f :: (fs ++ m.stack.tail), c⟩) (f :: fs) hs rfl
        (fun g hg => ?_) rfl (.of_deeds_eq rfl) rfl hb s
      rcases List.mem_cons.mp hg with rfl | hg
      · exact hpush.not_isCompletion
      · exact hfs g hg
    | close fs id c hfs =>
      exact .close (x := ⟨m.world, fs ++ m.stack.tail, c⟩) fs hs rfl hfs rfl id
    | poll fs future waker actions c hfs =>
      exact .poll (x := ⟨m.world, fs ++ m.stack.tail, c⟩) fs hs rfl hfs rfl future waker actions
  | wakes hstk hc => exact wake_wakerStep hm hstk hc
  | @woke names stk m' hstk hnone hworld hstack =>
    by_cases hc : m.control.Calm
    · obtain rfl := hnone hc
      refine .rests [] (fun name names stk' heq => ?_) (by rw [hstack, hstk]; rfl) (by simp)
        (.of_eq (by rw [hworld])) (.of_deeds_eq (by rw [hworld]))
      simp [hstk] at heq
    · unfold Control.Calm at hc
      push Not at hc
      obtain ⟨payload, hpayload⟩ := hc
      exact .drops hpayload hstk hworld hstack
  | settles hstk horigin hout => exact settle_wakerStep hstk horigin _

/-! ## What is in a pending slot -/

omit [BEq α] in
theorem WakerStep.left (h : m.WakerStep m') {id : WatcherId}
    (hm : (m.world.slot id).isPending = true →
      (m.world.slot id).wakers = (m.world.polled id).eraseDups)
    (hp : (m'.world.slot id).isPending = true) :
    (m'.world.slot id).wakers = (m'.world.polled id).eraseDups := by
  have hkeep : m'.world.slot id = m.world.slot id → m'.world.polled id = m.world.polled id →
      (m'.world.slot id).wakers = (m'.world.polled id).eraseDups := by
    intro hslot hpolled
    rw [hslot] at hp
    rw [hslot, hpolled]
    exact hm hp
  cases h with
  | rests fs hs hstk hfs hslots hwakers => exact hkeep (hslots id).1 (hwakers.polled id)
  | @enlists fs j waker hpoll hs hstk hfs hp' hslot hpolled hwoken =>
    by_cases hj : j = id
    · subst hj
      rw [hslot, if_pos rfl, hpolled, if_pos rfl, Slot.eraseDups_concat, ← hm hp']
      cases hs : m.world.slot j with
      | pending ws => rfl
      | set | abandoned =>
        rw [hs] at hp'
        exact nomatch hp'
    · refine hkeep ?_ ?_
      · rw [hslot, if_neg hj]
      · rw [hpolled, if_neg hj, List.append_nil]
  | @completes fs j b g hs hb hg hstk hfs hdecided hother hwakers =>
    by_cases hj : j = id
    · subst hj
      rw [hdecided] at hp
      exact nomatch hp
    · exact hkeep (hother id hj) (hwakers.polled id)
  | wakes fs hstk hg hrousing hstk' hfs hslots hpolled hwoken =>
    exact hkeep (hslots id).1 (hpolled id)
  | drops hc hstk hworld hstk' => exact hkeep (by rw [hworld]) (by rw [hworld])

/-- A pending slot holds the wakers that the futures of its watcher were polled with, in the order
of their first polls, also after a panic. -/
theorem Reached.left {P : Machine α → Prop} (h : m.Reached P) {id : WatcherId}
    (hp : (m.world.slot id).isPending = true) :
    (m.world.slot id).wakers = (m.world.polled id).eraseDups := by
  induction h with
  | initial => rfl
  | next hreach hP hn ih => exact (hn.wakerStep hreach.wellFormed).left ih hp

end Steps

end Machine

end WatchTree
