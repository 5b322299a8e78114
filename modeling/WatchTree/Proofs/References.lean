import WatchTree.Proofs.Removal

/-!
# Subscriptions and references

Who is subscribed where must agree with who is still referred to. `World.Tidy` says so of a world
and the marks on the stack, which are the frames that hold a watcher, close one or construct one.
A watcher that has just lost a reference may be loose, until it has been released; `Tidy.release`
shows that its release, and that of the watchers above it, puts things right.

1. `World.SameSubscriptions`: most of what a machine does leaves subscriptions alone.
2. The other changes, one lemma each: marks put on and taken off, handles bound and unbound, a
   further watcher, an id taken out, a watcher closed, detached or dropped.
-/

namespace WatchTree

variable {α : Type}

/-- The watchers that the frames of a stack hold, construct and close. -/
structure Marks where
  held : List WatcherId
  constructed : List WatcherId
  closing : List WatcherId

namespace Frame

/-- It holds a watcher, constructs one or closes one. -/
def isMark : Frame α → Bool
  | holding _ | constructing .. | closing .. => true
  | _ => false

def held? : Frame α → Option WatcherId
  | holding id => some id
  | _ => none

def constructed? : Frame α → Option WatcherId
  | constructing _ c => some c
  | _ => none

def closed? : Frame α → Option WatcherId
  | closing id _ => some id
  | _ => none

def marks (stk : List (Frame α)) : Marks :=
  ⟨stk.filterMap held?, stk.filterMap constructed?, stk.filterMap closed?⟩

theorem marks_of_unmarked {f : Frame α} (h : f.isMark = false) (stk : List (Frame α)) :
    marks (f :: stk) = marks stk := by
  cases f <;> first | rfl | exact nomatch h

theorem marks_append_of_unmarked {fs : List (Frame α)} (h : ∀ f ∈ fs, f.isMark = false)
    (stk : List (Frame α)) : marks (fs ++ stk) = marks stk := by
  induction fs with
  | nil => rfl
  | cons f fs ih =>
    rw [List.cons_append, marks_of_unmarked (h f (List.mem_cons_self ..)),
      ih fun g hg => h g (List.mem_cons_of_mem _ hg)]

theorem mem_held_iff {stk : List (Frame α)} {id : WatcherId} :
    id ∈ (marks stk).held ↔ .holding id ∈ stk := by
  show id ∈ stk.filterMap held? ↔ _
  rw [List.mem_filterMap]
  constructor
  · rintro ⟨f, hf, heq⟩
    cases f with
    | holding j =>
      obtain rfl := Option.some.inj heq
      exact hf
    | _ => exact nomatch heq
  · exact fun h => ⟨_, h, rfl⟩

end Frame

namespace World

/-! ## Children -/

/-- An undropped child hangs below it. -/
def HasChild (w : World α) (id : WatcherId) : Prop :=
  ∃ c l d, w.origin? c = some (.child id l d) ∧ w.isDropped c = false

theorem hasChild_iff (w : World α) (id : WatcherId) : w.hasChild id = true ↔ w.HasChild id := by
  unfold hasChild
  rw [List.any_eq_true]
  constructor
  · rintro ⟨b, hb, hcond⟩
    obtain ⟨c, hc⟩ := List.mem_iff_getElem?.mp hb
    have hw : w.watcher? c = some b := hc
    cases ho : b.origin with
    | root =>
      rw [ho] at hcond
      exact nomatch hcond
    | child p l d =>
      rw [ho] at hcond
      simp only [Bool.and_eq_true, decide_eq_true_eq, Bool.not_eq_true'] at hcond
      obtain ⟨rfl, hdrop⟩ := hcond
      exact ⟨c, l, d, by rw [origin?_of_watcher? hw, ho], by rw [isDropped_of_watcher? hw, hdrop]⟩
  · rintro ⟨c, l, d, ho, hdrop⟩
    obtain ⟨b, hw, hbo⟩ := exists_watcher?_of_origin? ho
    refine ⟨b, List.mem_of_getElem? hw, ?_⟩
    rw [isDropped_of_watcher? hw] at hdrop
    rw [hbo]
    simp [hdrop]

/-! ## What leaves subscriptions alone -/

/-- The same tree with the same subscriptions, and the same handles. No listener is taken out. -/
structure SameSubscriptions (w w' : World α) : Prop where
  origin : ∀ id, w'.origin? id = w.origin? id
  closed : ∀ id, w'.isClosed id = w.isClosed id
  dropped : ∀ id, w'.isDropped id = w.isDropped id
  registered : ∀ {c p l d}, w.origin? c = some (.child p l d) →
    w'.isRegistered p l = w.isRegistered p l
  listening : ∀ {id l}, w.isRegistered id l = true → w'.isRegistered id l = true
  handles : w'.handles = w.handles
  events : w.events ⊆ w'.events

namespace SameSubscriptions

variable {w w' w'' : World α}

theorem refl (w : World α) : w.SameSubscriptions w :=
  ⟨fun _ => rfl, fun _ => rfl, fun _ => rfl, fun _ => rfl, fun h => h, rfl, List.Subset.refl _⟩

theorem trans (h : w.SameSubscriptions w') (h' : w'.SameSubscriptions w'') :
    w.SameSubscriptions w'' where
  origin id := (h'.origin id).trans (h.origin id)
  closed id := (h'.closed id).trans (h.closed id)
  dropped id := (h'.dropped id).trans (h.dropped id)
  registered {c _ _ _} ho :=
    (h'.registered ((h.origin c).trans ho)).trans (h.registered ho)
  listening hr := h'.listening (h.listening hr)
  handles := h'.handles.trans h.handles
  events := List.Subset.trans h.events h'.events

theorem of_eq (hw : w'.watchers = w.watchers) (hh : w'.handles = w.handles)
    (hx : w'.history = w.history) : w.SameSubscriptions w' := by
  cases w
  cases w'
  cases hw
  cases hh
  cases hx
  exact ⟨fun _ => rfl, fun _ => rfl, fun _ => rfl, fun _ => rfl, fun h => h, rfl,
    List.Subset.refl _⟩

theorem note (w : World α) (p : Bool) (e : Event α) : w.SameSubscriptions (w.note p e) where
  origin _ := rfl
  closed _ := rfl
  dropped _ := rfl
  registered _ := rfl
  listening hr := hr
  handles := rfl
  events := by
    rw [events_note]
    exact List.subset_append_left _ _

theorem modify (w : World α) (id : WatcherId) {f : Watcher α → Watcher α}
    (horigin : ∀ b, (f b).origin = b.origin) (hclosed : ∀ b, (f b).closed = b.closed)
    (hdropped : ∀ b, (f b).dropped = b.dropped)
    (hentries : ∀ b, (f b).registry.entries = b.registry.entries) :
    w.SameSubscriptions (w.modify id f) where
  origin _ := origin?_modify _ _ _ horigin
  closed _ := isClosed_modify _ _ _ hclosed
  dropped _ := isDropped_modify _ _ _ hdropped
  registered _ := isRegistered_modify _ _ _ _ hentries
  listening hr := (isRegistered_modify _ _ _ _ hentries).trans hr
  handles := rfl
  events := List.Subset.refl _

/-- A listener that is no child's subscription. -/
theorem enrol (hw : w.Ledger) {id : WatcherId} {b : Watcher α} (hb : w.watcher? id = some b)
    (listener : Listener α) (executor : Executor α) :
    w.SameSubscriptions (w.enrol id listener executor) where
  origin _ := origin?_enrol ..
  closed _ := isClosed_enrol ..
  dropped _ := isDropped_modify _ _ _ fun _ => rfl
  registered ho := by
    rw [Bool.eq_iff_iff, isRegistered_iff (hw.sound.enrol id listener executor),
      isRegistered_iff hw.sound, registration?_enrol hw.sound hb,
      if_neg (Ledger.ne_nextId hb (hw.parent ho).2)]
  listening {j k} hr := by
    rw [isRegistered_iff (hw.sound.enrol id listener executor), registration?_enrol hw.sound hb]
    split
    · exact ⟨_, rfl, rfl⟩
    · exact (isRegistered_iff hw.sound j k).mp hr
  handles := rfl
  events := List.Subset.refl _

theorem reserve (w : World α) (id : WatcherId) : w.SameSubscriptions (w.reserve id) :=
  modify _ _ (fun _ => rfl) (fun _ => rfl) (fun _ => rfl) fun _ => rfl

theorem adopt (w : World α) (p q : Bool) (name : String) (id : WatcherId) (b : Watcher α)
    (s : Latest α) : w.SameSubscriptions (w.adopt p q name id b s) := by
  have haccept :
      w.SameSubscriptions ((w.note p (.offered id s .accepted)).modify id (·.accept s)) :=
    (note w p _).trans (modify _ id (fun _ => rfl) (fun _ => rfl) (fun _ => rfl) fun _ => rfl)
  unfold World.adopt
  simp only
  split
  · exact haccept.trans (note _ q _)
  · exact haccept

end SameSubscriptions

/-! ## Tidy worlds -/

/-- The subscriptions agree with the references, given the marks on the stack. The loose watcher
may have lost its last reference without having been dropped yet. -/
structure Tidy (w : World α) (ms : Marks) (loose : Option WatcherId) : Prop where
  known : ∀ {c}, w.hasHandle c = true ∨ c ∈ ms.held ∨ c ∈ ms.constructed →
    (w.origin? c).isSome = true
  closing : ∀ {c}, c ∈ ms.closing → w.isClosed c = true
  /-- A closed child is not subscribed, once its close has ended. -/
  closed : ∀ {c p l d}, w.origin? c = some (.child p l d) → w.isClosed c = true →
    c ∈ ms.closing ∨ w.isRegistered p l = false
  dropped : ∀ {c p l d}, w.origin? c = some (.child p l d) → w.isDropped c = true →
    w.isRegistered p l = false
  /-- Nothing refers to what was dropped. -/
  gone : ∀ {c}, w.isDropped c = true → w.hasHandle c = false ∧ c ∉ ms.held ∧ ¬ w.HasChild c
  /-- Something refers to a child that was not dropped. -/
  held : ∀ {c p l d}, w.origin? c = some (.child p l d) → w.isDropped c = false →
    loose = some c ∨ w.hasHandle c = true ∨ c ∈ ms.held ∨ w.HasChild c ∨ c ∈ ms.constructed
  /-- An open child of an open watcher is subscribed, unless it was dropped or taken out. -/
  bound : ∀ {c p l d}, w.origin? c = some (.child p l d) → w.isClosed p = false →
    w.isClosed c = false → w.isDropped c = false → .unwatched p l true ∉ w.events →
    w.isRegistered p l = true
  /-- Nothing refers to a child under construction but its construction. -/
  young : ∀ {c}, c ∈ ms.constructed → w.isDropped c = false ∧ w.hasHandle c = false ∧
    c ∉ ms.held ∧ ∀ {c' l d}, w.origin? c' ≠ some (.child c l d)
  distinct : ms.constructed.Nodup

theorem Tidy.initial : ({} : World α).Tidy ⟨[], [], []⟩ none where
  known h := by rcases h with h | h | h <;> exact nomatch h
  closing h := nomatch h
  closed ho := nomatch ho
  dropped ho := nomatch ho
  gone h := nomatch h
  held ho := nomatch ho
  bound ho := nomatch ho
  young h := nomatch h
  distinct := List.nodup_nil

/-- A child is dropped, and its subscription taken out. -/
structure Drops (w : World α) (id p : WatcherId) (l : ListenerId) (w' : World α) : Prop where
  origin : ∀ j, w'.origin? j = w.origin? j
  closed : ∀ j, w'.isClosed j = w.isClosed j
  dropped : ∀ j, w'.isDropped j = true ↔ j = id ∨ w.isDropped j = true
  handles : w'.handles = w.handles
  events : w.events ⊆ w'.events
  registered : ∀ j k, w'.isRegistered j k = true ↔
    w.isRegistered j k = true ∧ ¬ (j = p ∧ k = l)

/-- The subscription of a child is its own. -/
theorem Ledger.child_eq {w : World α} (hw : w.Ledger) {c c' p : WatcherId} {l : ListenerId}
    {d d' : Derivation α} (ho : w.origin? c = some (.child p l d))
    (ho' : w.origin? c' = some (.child p l d')) (hr : w.isRegistered p l = true) : c = c' := by
  obtain ⟨r, hr, -⟩ := (isRegistered_iff hw.sound p l).mp hr
  have heq := (hw.subscription ho hr).1.symm.trans (hw.subscription ho' hr).1
  exact Listener.subscription.inj heq

namespace Tidy

variable {w w' : World α} {ms : Marks} {loose : Option WatcherId}

/-- A change of nothing but the registrations, in which a child keeps its subscription unless it is
closed, or the subscription is taken out. -/
theorem fewer (h : w.Tidy ms loose) (horigin : ∀ c, w'.origin? c = w.origin? c)
    (hclosed : ∀ c, w'.isClosed c = w.isClosed c)
    (hdropped : ∀ c, w'.isDropped c = w.isDropped c) (hhandles : w'.handles = w.handles)
    (hevents : w.events ⊆ w'.events)
    (hless : ∀ {c p l d}, w.origin? c = some (.child p l d) → w'.isRegistered p l = true →
      w.isRegistered p l = true)
    (hkeep : ∀ {c p l d}, w.origin? c = some (.child p l d) → w.isClosed c = false →
      .unwatched p l true ∉ w'.events → w.isRegistered p l = true →
      w'.isRegistered p l = true) : w'.Tidy ms loose := by
  have hhandle : ∀ c, w'.hasHandle c = w.hasHandle c := hasHandle_congr hhandles
  have hchild : ∀ c, w'.HasChild c ↔ w.HasChild c := fun c => by
    unfold HasChild
    simp only [horigin, hdropped]
  have hnot : ∀ {c p l d}, w.origin? c = some (.child p l d) → w.isRegistered p l = false →
      w'.isRegistered p l = false := fun {c p l d} ho hno => by
    rw [← Bool.not_eq_true]
    intro hreg
    rw [hless ho hreg] at hno
    exact nomatch hno
  refine
    { known := ?known, closing := ?closing, closed := ?closed, dropped := ?dropped, gone := ?gone
      held := ?held, bound := ?bound, young := ?young, distinct := h.distinct }
  case known =>
    intro c
    rw [hhandle, horigin]
    exact h.known
  case closing =>
    intro c
    rw [hclosed]
    exact h.closing
  case closed =>
    intro c p l d ho
    rw [horigin] at ho
    rw [hclosed]
    exact fun hcl => (h.closed ho hcl).imp_right (hnot ho)
  case dropped =>
    intro c p l d ho
    rw [horigin] at ho
    rw [hdropped]
    exact fun hdr => hnot ho (h.dropped ho hdr)
  case gone =>
    intro c
    rw [hdropped, hhandle, hchild]
    exact h.gone
  case held =>
    intro c p l d ho
    rw [horigin] at ho
    rw [hdropped, hhandle, hchild]
    exact h.held ho
  case bound =>
    intro c p l d ho
    rw [horigin] at ho
    rw [hclosed, hclosed, hdropped]
    intro hp hc hdr hun
    exact hkeep ho hc hun (h.bound ho hp hc hdr fun hmem => hun (hevents hmem))
  case young =>
    intro c
    simp only [hdropped, hhandle, horigin]
    exact h.young

theorem sameSubscriptions (h : w.Tidy ms loose) (hs : w.SameSubscriptions w') : w'.Tidy ms loose :=
  h.fewer hs.origin hs.closed hs.dropped hs.handles hs.events
    (fun ho hreg => (hs.registered ho).symm.trans hreg)
    fun ho _ _ hreg => (hs.registered ho).trans hreg

/-! ### Marks -/

/-- An operation holds a watcher that has a handle. -/
theorem hold (h : w.Tidy ms loose) {id : WatcherId} (hh : w.hasHandle id = true) :
    w.Tidy { ms with held := id :: ms.held } loose := by
  have hnot : ∀ {c}, w.hasHandle c = false → c ∉ ms.held → c ∉ id :: ms.held := by
    intro c hno hc hmem
    rcases List.mem_cons.mp hmem with rfl | hmem
    · rw [hh] at hno
      exact nomatch hno
    · exact hc hmem
  refine { h with known := ?known, gone := ?gone, held := ?held, young := ?young }
  case known =>
    rintro c (hc | hc | hc)
    · exact h.known (.inl hc)
    · rcases List.mem_cons.mp hc with rfl | hc
      · exact h.known (.inl hh)
      · exact h.known (.inr (.inl hc))
    · exact h.known (.inr (.inr hc))
  case gone =>
    intro c hdr
    obtain ⟨hno, hc, hchild⟩ := h.gone hdr
    exact ⟨hno, hnot hno hc, hchild⟩
  case held =>
    intro c p l d ho hdr
    have hheld := h.held ho hdr
    grind
  case young =>
    intro c hc
    obtain ⟨hdr, hno, hc, hchild⟩ := h.young hc
    exact ⟨hdr, hno, hnot hno hc, hchild⟩

/-- An operation lets go of its watcher. -/
theorem unhold {id : WatcherId} (h : w.Tidy { ms with held := id :: ms.held } none) :
    w.Tidy ms (some id) ∧ id ∉ ms.constructed := by
  refine ⟨{ h with known := ?known, gone := ?gone, held := ?held, young := ?young }, ?_⟩
  case known =>
    rintro c (hc | hc | hc)
    · exact h.known (.inl hc)
    · exact h.known (.inr (.inl (List.mem_cons_of_mem _ hc)))
    · exact h.known (.inr (.inr hc))
  case gone =>
    intro c hdr
    obtain ⟨hno, hc, hchild⟩ := h.gone hdr
    exact ⟨hno, fun hmem => hc (List.mem_cons_of_mem _ hmem), hchild⟩
  case held =>
    intro c p l d ho hdr
    have hheld := h.held ho hdr
    grind
  case young =>
    intro c hc
    obtain ⟨hdr, hno, hc, hchild⟩ := h.young hc
    exact ⟨hdr, hno, fun hmem => hc (List.mem_cons_of_mem _ hmem), hchild⟩
  · exact fun hc => (h.young hc).2.2.1 (List.mem_cons_self ..)

/-! ### Handles -/

/-- A further handle of a watcher that is neither dropped nor under construction. -/
theorem enhandle (h : w.Tidy ms none) {t : WatcherId} (ht : (w.origin? t).isSome = true)
    (hdr : w.isDropped t = false) (hyoung : t ∉ ms.constructed) {hs : Bindings Handle}
    (hhas : ∀ j, World.hasHandle { w with handles := hs } j = true ↔
      j = t ∨ w.hasHandle j = true) :
    World.Tidy { w with handles := hs } ms none := by
  have hno : ∀ {j}, j ≠ t → w.hasHandle j = false →
      World.hasHandle { w with handles := hs } j = false := fun {j} hj hnone => by
    rw [← Bool.not_eq_true, hhas, hnone]
    simp [hj]
  refine { h with known := ?known, gone := ?gone, held := ?held, young := ?young }
  case known =>
    rintro c (hc | hc)
    · rcases (hhas c).mp hc with rfl | hc
      · exact ht
      · exact h.known (.inl hc)
    · exact h.known (.inr hc)
  case gone =>
    intro c hc
    obtain ⟨hnone, hrest⟩ := h.gone hc
    refine ⟨hno ?_ hnone, hrest⟩
    rintro rfl
    have hc' : w.isDropped c = true := hc
    rw [hdr] at hc'
    exact nomatch hc'
  case held =>
    intro c p l d ho hc
    rcases h.held ho hc with hl | hh | hrest
    · exact .inl hl
    · exact .inr (.inl ((hhas c).mpr (.inr hh)))
    · exact .inr (.inr hrest)
  case young =>
    intro c hc
    obtain ⟨hcdr, hnone, hrest⟩ := h.young hc
    refine ⟨hcdr, hno ?_ hnone, hrest⟩
    rintro rfl
    exact hyoung hc

/-- A handle is forgotten, and its watcher may have no other. -/
theorem unbind (h : w.Tidy ms none) {hs : Bindings Handle} {id : WatcherId}
    (hid : w.hasHandle id = true)
    (hless : ∀ c, World.hasHandle { w with handles := hs } c = true → w.hasHandle c = true)
    (hmore : ∀ c, w.hasHandle c = true →
      c = id ∨ World.hasHandle { w with handles := hs } c = true) :
    World.Tidy { w with handles := hs } ms (some id) ∧ id ∉ ms.constructed := by
  have hno : ∀ {c}, w.hasHandle c = false → World.hasHandle { w with handles := hs } c = false :=
    fun {c} hc => by
      rw [← Bool.not_eq_true]
      intro hhas
      rw [hless c hhas] at hc
      exact nomatch hc
  refine ⟨{ h with known := ?known, gone := ?gone, held := ?held, young := ?young }, ?_⟩
  case known =>
    rintro c (hc | hc)
    · exact h.known (.inl (hless c hc))
    · exact h.known (.inr hc)
  case gone =>
    intro c hdr
    obtain ⟨hc, hrest⟩ := h.gone hdr
    exact ⟨hno hc, hrest⟩
  case held =>
    intro c p l d ho hdr
    rcases h.held ho hdr with hl | hh | hrest
    · exact nomatch hl
    · rcases hmore c hh with rfl | hhas
      · exact .inl rfl
      · exact .inr (.inl hhas)
    · exact .inr (.inr hrest)
  case young =>
    intro c hc
    obtain ⟨hdr, hnone, hrest⟩ := h.young hc
    exact ⟨hdr, hno hnone, hrest⟩
  · intro hc
    have hnone := (h.young hc).2.1
    rw [hid] at hnone
    exact nomatch hnone

/-- A child that has been constructed gets its handle, which may replace another one. -/
theorem christen {c : WatcherId} (loose : Option WatcherId)
    (h : w.Tidy { ms with constructed := c :: ms.constructed } none) {hs : Bindings Handle}
    (hhas : ∀ j, World.hasHandle { w with handles := hs } j = true → j = c ∨ w.hasHandle j = true)
    (hc : World.hasHandle { w with handles := hs } c = true)
    (hmore : ∀ j, w.hasHandle j = true →
      loose = some j ∨ World.hasHandle { w with handles := hs } j = true) :
    World.Tidy { w with handles := hs } ms loose := by
  obtain ⟨hcdr, hcno, hcheld, hcchild⟩ := h.young (List.mem_cons_self ..)
  have hdistinct := List.nodup_cons.mp h.distinct
  refine
    { h with
      known := ?known, gone := ?gone, held := ?held, young := ?young, distinct := hdistinct.2 }
  case known =>
    rintro j (hj | hj | hj)
    · rcases hhas j hj with rfl | hj
      · exact h.known (.inr (.inr (List.mem_cons_self ..)))
      · exact h.known (.inl hj)
    · exact h.known (.inr (.inl hj))
    · exact h.known (.inr (.inr (List.mem_cons_of_mem _ hj)))
  case gone =>
    intro j hdr
    obtain ⟨hno, hrest⟩ := h.gone hdr
    refine ⟨?_, hrest⟩
    rw [← Bool.not_eq_true]
    intro hj
    rcases hhas j hj with rfl | hj
    · have hdr' : w.isDropped j = true := hdr
      rw [hcdr] at hdr'
      exact nomatch hdr'
    · rw [hno] at hj
      exact nomatch hj
  case held =>
    intro j p l d ho hdr
    rcases h.held ho hdr with hl | hh | hh | hh | hh
    · exact nomatch hl
    · exact (hmore j hh).imp_right .inl
    · exact .inr (.inr (.inl hh))
    · exact .inr (.inr (.inr (.inl hh)))
    · rcases List.mem_cons.mp hh with rfl | hh
      · exact .inr (.inl hc)
      · exact .inr (.inr (.inr (.inr hh)))
  case young =>
    intro j hj
    obtain ⟨hdr, hno, hrest⟩ := h.young (List.mem_cons_of_mem _ hj)
    refine ⟨hdr, ?_, hrest⟩
    rw [← Bool.not_eq_true]
    intro hjhas
    rcases hhas j hjhas with rfl | hjhas
    · exact hdistinct.1 hj
    · rw [hno] at hjhas
      exact nomatch hjhas

/-! ### Subscriptions taken out -/

/-- Whoever takes an id out that was found leaves a mark in the history. -/
theorem unwatch (h : w.Tidy ms none) (hw : w.Ledger) (p : Bool) (id : WatcherId)
    (l : ListenerId) : ((w.note p (.unwatched id l true)).unregister id l).Tidy ms none := by
  have hreg : ∀ j k, ((w.note p (.unwatched id l true)).unregister id l).isRegistered j k = true ↔
      w.isRegistered j k = true ∧ ¬ (j = id ∧ k = l) :=
    fun j k => isRegistered_unregister (w := w.note p (.unwatched id l true)) hw.sound id j l k
  have hevents : ((w.note p (.unwatched id l true)).unregister id l).events =
      w.events ++ [.unwatched id l true] := by
    rw [events_unregister, events_note]
  refine h.fewer (fun _ => origin?_unregister ..) (fun _ => isClosed_unregister ..)
    (fun _ => isDropped_unregister ..) rfl ?_ (fun _ hj => ((hreg _ _).mp hj).1) ?_
  · rw [hevents]
    exact List.subset_append_left _ _
  · intro c q k d ho hc hun hj
    refine (hreg q k).mpr ⟨hj, ?_⟩
    rintro ⟨rfl, rfl⟩
    rw [hevents] at hun
    exact hun (List.mem_append_right _ (List.mem_singleton_self _))

/-- The subscription of a closed child is taken out. -/
theorem detach (h : w.Tidy ms loose) (hw : w.Ledger) {c p : WatcherId} {l : ListenerId}
    {d : Derivation α} (ho : w.origin? c = some (.child p l d)) (hcl : w.isClosed c = true) :
    (w.unregister p l).Tidy ms loose := by
  have hreg := isRegistered_unregister hw.sound p (l := l)
  refine h.fewer (fun _ => origin?_unregister ..) (fun _ => isClosed_unregister ..)
    (fun _ => isDropped_unregister ..) rfl (List.Subset.refl _)
    (fun _ hj => ((hreg _ _).mp hj).1) ?_
  intro c' q k d' ho' hopen hun hj
  refine (hreg q k).mpr ⟨hj, ?_⟩
  rintro ⟨rfl, rfl⟩
  obtain rfl := hw.child_eq ho ho' hj
  rw [hcl] at hopen
  exact nomatch hopen

/-- A close has ended with the child's subscription out of the registry. -/
theorem unclose {c : WatcherId} (h : w.Tidy { ms with closing := c :: ms.closing } loose)
    (hout : ∀ {p l d}, w.origin? c = some (.child p l d) → w.isRegistered p l = false) :
    w.Tidy ms loose := by
  refine { h with closing := fun hc => h.closing (List.mem_cons_of_mem _ hc), closed := ?_ }
  intro c' p l d ho hcl
  rcases h.closed ho hcl with hmem | hno
  · rcases List.mem_cons.mp hmem with rfl | hmem
    · exact .inr (hout ho)
    · exact .inl hmem
  · exact .inr hno

/-- A watcher is closed, and its close has begun. -/
theorem close (h : w.Tidy ms loose) (hw : w.Ledger) {id : WatcherId} {b : Watcher α}
    (hb : w.watcher? id = some b) :
    (w.modify id Watcher.close).Tidy { ms with closing := id :: ms.closing } loose := by
  have hreg := isRegistered_close hw.sound id
  have hclosed : ∀ c, (w.modify id Watcher.close).isClosed c = true →
      c = id ∨ w.isClosed c = true := by
    intro c hc
    by_cases hid : c = id
    · exact .inl hid
    · refine .inr ?_
      unfold isClosed at hc ⊢
      rwa [watcher?_modify_of_ne _ (Ne.symm hid)] at hc
  have hopen : ∀ {c}, (w.modify id Watcher.close).isClosed c = false →
      c ≠ id ∧ w.isClosed c = false := by
    intro c hc
    refine ⟨?_, ?_⟩
    · rintro rfl
      rw [isClosed_of_watcher? (watcher?_modify_self hb _)] at hc
      exact nomatch hc
    · rw [← Bool.not_eq_true]
      intro hcl
      rw [isClosed_close w hcl] at hc
      exact nomatch hc
  have horigin : ∀ c, (w.modify id Watcher.close).origin? c = w.origin? c :=
    fun c => origin?_modify w id c Watcher.close_origin
  have hdropped : ∀ c, (w.modify id Watcher.close).isDropped c = w.isDropped c :=
    fun c => isDropped_modify w id c fun _ => rfl
  have hchild : ∀ c, (w.modify id Watcher.close).HasChild c ↔ w.HasChild c := fun c => by
    unfold HasChild
    simp only [horigin, hdropped]
  have hnot : ∀ {p l}, w.isRegistered p l = false →
      (w.modify id Watcher.close).isRegistered p l = false := by
    intro p l hno
    rw [← Bool.not_eq_true, hreg, hno]
    simp
  refine
    { known := ?known, closing := ?closing, closed := ?closed, dropped := ?dropped, gone := ?gone
      held := ?held, bound := ?bound, young := ?young, distinct := h.distinct }
  case known =>
    intro c
    rw [horigin]
    exact h.known
  case closing =>
    intro c hc
    rcases List.mem_cons.mp hc with rfl | hc
    · exact isClosed_of_watcher? (watcher?_modify_self hb _)
    · exact isClosed_close w (h.closing hc)
  case closed =>
    intro c p l d ho hcl
    rw [horigin] at ho
    rcases hclosed c hcl with rfl | hcl
    · exact .inl (List.mem_cons_self ..)
    · exact (h.closed ho hcl).imp (List.mem_cons_of_mem _) hnot
  case dropped =>
    intro c p l d ho hdr
    rw [horigin] at ho
    rw [hdropped] at hdr
    exact hnot (h.dropped ho hdr)
  case gone =>
    intro c
    rw [hdropped, hchild]
    exact h.gone
  case held =>
    intro c p l d ho
    rw [horigin] at ho
    rw [hdropped, hchild]
    exact h.held ho
  case bound =>
    intro c p l d ho hp hc hdr hun
    rw [horigin] at ho
    rw [hdropped] at hdr
    obtain ⟨hne, hp⟩ := hopen hp
    exact (hreg p l).mpr ⟨h.bound ho hp (hopen hc).2 hdr hun, hne⟩
  case young =>
    intro c
    simp only [hdropped, horigin]
    exact h.young

/-! ### Watchers that come and go -/

/-- A new root. -/
theorem plant (h : w.Tidy ms none) (name : String) :
    (w.addWatcher { name, origin := .root }).Tidy ms none := by
  have horigin : ∀ {c p l d},
      (w.addWatcher { name, origin := .root }).origin? c = some (.child p l d) →
      w.origin? c = some (.child p l d) := fun {c p l d} ho => by
    rw [origin?_addWatcher] at ho
    split at ho
    · exact nomatch Option.some.inj ho
    · exact ho
  have hclosed : ∀ c, (w.addWatcher { name, origin := .root }).isClosed c = w.isClosed c :=
    fun c => isClosed_addWatcher w _ c rfl
  have hdropped : ∀ c, (w.addWatcher { name, origin := .root }).isDropped c = w.isDropped c :=
    fun c => isDropped_addWatcher w _ c rfl
  have hreg : ∀ c l, (w.addWatcher { name, origin := .root }).isRegistered c l =
      w.isRegistered c l := fun c l => isRegistered_addWatcher w _ c l rfl
  have hchild : ∀ c, (w.addWatcher { name, origin := .root }).HasChild c ↔ w.HasChild c := by
    intro c
    constructor
    · rintro ⟨c', l, d, ho, hdr⟩
      exact ⟨c', l, d, horigin ho, by rwa [hdropped] at hdr⟩
    · rintro ⟨c', l, d, ho, hdr⟩
      refine ⟨c', l, d, ?_, by rwa [hdropped]⟩
      obtain ⟨b, hb, -⟩ := exists_watcher?_of_origin? ho
      rw [origin?_addWatcher, if_neg]
      · exact ho
      · rintro rfl
        rw [watcher?_length] at hb
        exact nomatch hb
  refine
    { known := ?known, closing := ?closing, closed := ?closed, dropped := ?dropped, gone := ?gone
      held := ?held, bound := ?bound, young := ?young, distinct := h.distinct }
  case known =>
    intro c hc
    rw [origin?_addWatcher]
    split
    · rfl
    · exact h.known hc
  case closing =>
    intro c
    rw [hclosed]
    exact h.closing
  case closed =>
    intro c p l d ho
    rw [hclosed, hreg]
    exact h.closed (horigin ho)
  case dropped =>
    intro c p l d ho
    rw [hdropped, hreg]
    exact h.dropped (horigin ho)
  case gone =>
    intro c
    rw [hdropped, hchild]
    exact h.gone
  case held =>
    intro c p l d ho
    rw [hdropped, hchild]
    exact h.held (horigin ho)
  case bound =>
    intro c p l d ho
    rw [hclosed, hclosed, hdropped, hreg]
    exact h.bound (horigin ho)
  case young =>
    intro c hc
    obtain ⟨hdr, hno, hheld, hnone⟩ := h.young hc
    exact ⟨by rw [hdropped]; exact hdr, hno, hheld, fun {c' l d} ho => hnone (horigin ho)⟩

/-- A new child of a watcher with a handle: it is under construction, and subscribed if the watcher
is open. -/
theorem conceive (h : w.Tidy ms none) (hw : w.Ledger) {p : WatcherId}
    (hp : w.hasHandle p = true) {l : ListenerId} {d : Derivation α}
    (horigin : ∀ j, w'.origin? j =
      if j = w.watchers.length then some (.child p l d) else w.origin? j)
    (hclosed : ∀ j, w'.isClosed j = w.isClosed j)
    (hdropped : ∀ j, w'.isDropped j = w.isDropped j) (hhandles : w'.handles = w.handles)
    (hevents : w'.events = w.events)
    (hold : ∀ {c q k d'}, w.origin? c = some (.child q k d') →
      w'.isRegistered q k = w.isRegistered q k)
    (hnew : w.isClosed p = false → w'.isRegistered p l = true) :
    w'.Tidy { ms with constructed := w.watchers.length :: ms.constructed } none := by
  have hunknown : w.origin? w.watchers.length = none := origin?_length w
  have hfresh : ¬ (w.hasHandle w.watchers.length = true ∨ w.watchers.length ∈ ms.held ∨
      w.watchers.length ∈ ms.constructed) := fun hc => by
    have hsome := h.known hc
    rw [hunknown] at hsome
    exact nomatch hsome
  have hhandle : ∀ c, w'.hasHandle c = w.hasHandle c := hasHandle_congr hhandles
  have hchild : ∀ {c q k d'}, w'.origin? c = some (.child q k d') →
      c = w.watchers.length ∧ q = p ∧ k = l ∨ w.origin? c = some (.child q k d') := by
    intro c q k d' ho
    rw [horigin] at ho
    split at ho
    · rename_i hc
      obtain ⟨rfl, rfl, -⟩ := Origin.child.inj (Option.some.inj ho)
      exact .inl ⟨hc, rfl, rfl⟩
    · exact .inr ho
  have hbirth : ∀ {c q k d'}, w.origin? c = some (.child q k d') →
      w'.origin? c = some (.child q k d') := by
    intro c q k d' ho
    rw [horigin, if_neg]
    · exact ho
    · rintro rfl
      rw [hunknown] at ho
      exact nomatch ho
  refine
    { known := ?known, closing := ?closing, closed := ?closed, dropped := ?dropped, gone := ?gone
      held := ?held, bound := ?bound, young := ?young, distinct := ?distinct }
  case known =>
    intro c hc
    rw [hhandle] at hc
    rw [horigin]
    split
    · rfl
    · rename_i hne
      rcases hc with hc | hc | hc
      · exact h.known (.inl hc)
      · exact h.known (.inr (.inl hc))
      · exact h.known (.inr (.inr ((List.mem_cons.mp hc).resolve_left hne)))
  case closing =>
    intro c
    rw [hclosed]
    exact h.closing
  case closed =>
    intro c q k d' ho hcl
    rw [hclosed] at hcl
    rcases hchild ho with ⟨rfl, -, -⟩ | ho
    · rw [isClosed_length] at hcl
      exact nomatch hcl
    · rw [hold ho]
      exact h.closed ho hcl
  case dropped =>
    intro c q k d' ho hdr
    rw [hdropped] at hdr
    rcases hchild ho with ⟨rfl, -, -⟩ | ho
    · rw [isDropped_length] at hdr
      exact nomatch hdr
    · rw [hold ho]
      exact h.dropped ho hdr
  case gone =>
    intro c hdr
    rw [hdropped] at hdr
    obtain ⟨hno, hheld, hnochild⟩ := h.gone hdr
    refine ⟨by rw [hhandle]; exact hno, hheld, ?_⟩
    rintro ⟨c', k, d', ho, hdr'⟩
    rw [hdropped] at hdr'
    rcases hchild ho with ⟨-, rfl, -⟩ | ho
    · rw [hp] at hno
      exact nomatch hno
    · exact hnochild ⟨c', k, d', ho, hdr'⟩
  case held =>
    intro c q k d' ho hdr
    rw [hdropped] at hdr
    rcases hchild ho with ⟨rfl, -, -⟩ | ho
    · exact .inr (.inr (.inr (.inr (List.mem_cons_self ..))))
    · rcases h.held ho hdr with hl | hh | hh | ⟨c', k', d'', ho', hdr'⟩ | hh
      · exact nomatch hl
      · exact .inr (.inl (by rw [hhandle]; exact hh))
      · exact .inr (.inr (.inl hh))
      · exact .inr (.inr (.inr (.inl ⟨c', k', d'', hbirth ho', by rw [hdropped]; exact hdr'⟩)))
      · exact .inr (.inr (.inr (.inr (List.mem_cons_of_mem _ hh))))
  case bound =>
    intro c q k d' ho hq hc hdr hun
    rw [hclosed] at hq hc
    rw [hdropped] at hdr
    rw [hevents] at hun
    rcases hchild ho with ⟨rfl, rfl, rfl⟩ | ho
    · exact hnew hq
    · rw [hold ho]
      exact h.bound ho hq hc hdr hun
  case young =>
    intro c hc
    rw [hdropped, hhandle]
    rcases List.mem_cons.mp hc with rfl | hc
    · refine ⟨isDropped_length w, ?_, fun hheld => hfresh (.inr (.inl hheld)), ?_⟩
      · rw [← Bool.not_eq_true]
        exact fun hh => hfresh (.inl hh)
      · intro c' k d' ho
        rcases hchild ho with ⟨-, hq, -⟩ | ho
        · exact hfresh (.inl (hq ▸ hp))
        · obtain ⟨b, hb, -⟩ := exists_watcher?_of_origin? ho
          have hlt := (hw.parent ho).1
          exact absurd (lt_length hb) (Nat.lt_asymm hlt)
    · obtain ⟨hdr, hno, hheld, hnochild⟩ := h.young hc
      refine ⟨hdr, hno, hheld, fun {c' k d'} ho => ?_⟩
      rcases hchild ho with ⟨-, rfl, -⟩ | ho
      · rw [hp] at hno
        exact nomatch hno
      · exact hnochild ho
  case distinct =>
    exact List.nodup_cons.mpr ⟨fun hc => hfresh (.inr (.inr hc)), h.distinct⟩

/-- Something refers to the loose watcher after all, or it is a root, or was dropped. -/
theorem tighten {id : WatcherId} (h : w.Tidy ms (some id))
    (hid : ∀ {p l d}, w.origin? id = some (.child p l d) → w.isDropped id = false →
      w.hasHandle id = true ∨ id ∈ ms.held ∨ w.HasChild id) : w.Tidy ms none := by
  refine { h with held := ?_ }
  intro c p l d ho hdr
  rcases h.held ho hdr with hl | hrest
  · obtain rfl := Option.some.inj hl
    rcases hid ho hdr with hh | hh | hh
    · exact .inr (.inl hh)
    · exact .inr (.inr (.inl hh))
    · exact .inr (.inr (.inr (.inl hh)))
  · exact .inr hrest

/-- A child to which nothing refers is dropped, with its subscription; its parent may then be the
next. -/
theorem drop {id p : WatcherId} {l : ListenerId} {d : Derivation α} (h : w.Tidy ms (some id))
    (hw : w.Ledger) (ho : w.origin? id = some (.child p l d)) (hno : w.hasHandle id = false)
    (hheld : id ∉ ms.held) (hnochild : ¬ w.HasChild id) (hyoung : id ∉ ms.constructed)
    (hd : w.Drops id p l w') : w'.Tidy ms (some p) ∧ p ∉ ms.constructed := by
  obtain ⟨horigin, hclosed, hdropped, hhandles, hevents, hreg⟩ := hd
  have hhandle : ∀ c, w'.hasHandle c = w.hasHandle c := hasHandle_congr hhandles
  have hnot : ∀ {q k}, w.isRegistered q k = false → w'.isRegistered q k = false := by
    intro q k hq
    rw [← Bool.not_eq_true, hreg, hq]
    simp
  have halive : ∀ {c}, w'.isDropped c = false → c ≠ id ∧ w.isDropped c = false := by
    intro c hc
    rw [← Bool.not_eq_true, hdropped, not_or, Bool.not_eq_true] at hc
    exact hc
  have hchild : ∀ {c}, w'.HasChild c → w.HasChild c := by
    rintro c ⟨c', k, d', ho', hdr⟩
    rw [horigin] at ho'
    exact ⟨c', k, d', ho', (halive hdr).2⟩
  refine ⟨
    { h with
      known := ?known, closing := ?closing, closed := ?closed, dropped := ?dropped, gone := ?gone
      held := ?held, bound := ?bound, young := ?young }, fun hp => (h.young hp).2.2.2 ho⟩
  case known =>
    intro c
    rw [hhandle, horigin]
    exact h.known
  case closing =>
    intro c
    rw [hclosed]
    exact h.closing
  case closed =>
    intro c q k d' ho' hcl
    rw [horigin] at ho'
    rw [hclosed] at hcl
    exact (h.closed ho' hcl).imp_right hnot
  case dropped =>
    intro c q k d' ho' hdr
    rw [horigin] at ho'
    rcases (hdropped c).mp hdr with rfl | hdr
    · obtain ⟨rfl, rfl, -⟩ := Origin.child.inj (Option.some.inj (ho'.symm.trans ho))
      rw [← Bool.not_eq_true, hreg]
      exact fun hq => hq.2 ⟨rfl, rfl⟩
    · exact hnot (h.dropped ho' hdr)
  case gone =>
    intro c hdr
    rw [hhandle]
    rcases (hdropped c).mp hdr with rfl | hdr
    · exact ⟨hno, hheld, fun hc => hnochild (hchild hc)⟩
    · obtain ⟨hnone, hmem, hc⟩ := h.gone hdr
      exact ⟨hnone, hmem, fun hc' => hc (hchild hc')⟩
  case held =>
    intro c q k d' ho' hdr
    rw [horigin] at ho'
    obtain ⟨hne, hdr⟩ := halive hdr
    rw [hhandle]
    rcases h.held ho' hdr with hl | hh | hh | ⟨c', k', d'', hc', hdr'⟩ | hh
    · exact absurd (Option.some.inj hl).symm hne
    · exact .inr (.inl hh)
    · exact .inr (.inr (.inl hh))
    · by_cases hid : c' = id
      · subst hid
        obtain ⟨rfl, -, -⟩ := Origin.child.inj (Option.some.inj (hc'.symm.trans ho))
        exact .inl rfl
      · refine .inr (.inr (.inr (.inl ⟨c', k', d'', (horigin c').trans hc', ?_⟩)))
        rw [← Bool.not_eq_true, hdropped, not_or, Bool.not_eq_true]
        exact ⟨hid, hdr'⟩
    · exact .inr (.inr (.inr (.inr hh)))
  case bound =>
    intro c q k d' ho' hq hc hdr hun
    rw [horigin] at ho'
    rw [hclosed] at hq hc
    obtain ⟨hne, hdr⟩ := halive hdr
    have hold := h.bound ho' hq hc hdr fun hmem => hun (hevents hmem)
    refine (hreg q k).mpr ⟨hold, ?_⟩
    rintro ⟨rfl, rfl⟩
    exact hne (hw.child_eq ho' ho hold)
  case young =>
    intro c hc
    obtain ⟨hdr, hnone, hmem, hnoc⟩ := h.young hc
    refine ⟨?_, by rw [hhandle]; exact hnone, hmem, fun {c' k d'} ho' => ?_⟩
    · rw [← Bool.not_eq_true, hdropped, not_or, Bool.not_eq_true]
      refine ⟨?_, hdr⟩
      rintro rfl
      exact hyoung hc
    · rw [horigin] at ho'
      exact hnoc ho'

end Tidy

end World

end WatchTree
