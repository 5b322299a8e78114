import WatchTree.Proofs.Postings

/-!
# Changes of entries

Who is entered in which registry, and why no longer. `World.ChangesEntries` is what an elementary
change comes to for entries: most changes leave all of them as they are (`World.SameEntries`); the
others bring a listener, or take one out and tell so in the history.
-/

namespace WatchTree

variable {α : Type}

/-- It tells that a listener was taken out, or that a close has ended. -/
def Event.isSevering : Event α → Bool
  | .unwatched _ _ found => found
  | .logged _ _ (.closed _) | .logged _ _ (.detached _) | .logged _ _ (.droppedUnclosed _) => true
  | _ => false

theorem Event.isSevering_of_isMute {e : Event α} (h : e.isMute = true) : e.isSevering = false := by
  cases e with
  | logged id name message => cases message <;> first | rfl | exact nomatch h
  | unwatched id l found => exact Bool.not_eq_true' found ▸ h
  | _ => rfl

namespace World

/-- A child has a subscription of its own. -/
theorem Ledger.eq_of_subscription {w : World α} (hw : w.Ledger) {c c' p : WatcherId}
    {l : ListenerId} {d d' : Derivation α} (hreg : w.isRegistered p l = true)
    (ho : w.origin? c = some (.child p l d)) (ho' : w.origin? c' = some (.child p l d')) :
    c = c' := by
  obtain ⟨r, hr, -⟩ := (isRegistered_iff hw.sound p l).mp hreg
  have heq := (hw.subscription ho hr).1.symm.trans (hw.subscription ho' hr).1
  exact Listener.subscription.inj heq

/-- The same tree with the same registrations, and nobody was taken out. -/
structure SameEntries (w w' : World α) : Prop where
  origin : ∀ id, w'.origin? id = w.origin? id
  closed : ∀ id, w'.isClosed id = w.isClosed id
  dropped : ∀ id, w'.isDropped id = w.isDropped id
  lastId : ∀ id, w'.lastId id = w.lastId id
  registered : ∀ id l, w'.isRegistered id l = w.isRegistered id l
  events : ∃ es, w'.events = w.events ++ es ∧ ∀ e ∈ es, e.isSevering = false

namespace SameEntries

variable {w w' w'' : World α}

theorem of_eq (hw : w'.watchers = w.watchers) (hh : w'.history = w.history) : w.SameEntries w' := by
  cases w
  cases w'
  cases hw
  cases hh
  exact ⟨fun _ => rfl, fun _ => rfl, fun _ => rfl, fun _ => rfl, fun _ _ => rfl, [],
    (List.append_nil _).symm, nofun⟩

theorem refl (w : World α) : w.SameEntries w := of_eq rfl rfl

theorem trans (h : w.SameEntries w') (h' : w'.SameEntries w'') : w.SameEntries w'' where
  origin id := (h'.origin id).trans (h.origin id)
  closed id := (h'.closed id).trans (h.closed id)
  dropped id := (h'.dropped id).trans (h.dropped id)
  lastId id := (h'.lastId id).trans (h.lastId id)
  registered id l := (h'.registered id l).trans (h.registered id l)
  events := by
    obtain ⟨es, hes, hnone⟩ := h.events
    obtain ⟨es', hes', hnone'⟩ := h'.events
    refine ⟨es ++ es', by rw [hes', hes, List.append_assoc], fun e he => ?_⟩
    exact (List.mem_append.mp he).elim (hnone e) (hnone' e)

theorem note (w : World α) (p : Bool) {e : Event α} (he : e.isSevering = false) :
    w.SameEntries (w.note p e) :=
  ⟨fun _ => rfl, fun _ => rfl, fun _ => rfl, fun _ => rfl, fun _ _ => rfl, [e], events_note w p e,
    by simpa using he⟩

theorem modify (w : World α) (id : WatcherId) {f : Watcher α → Watcher α}
    (horigin : ∀ b, (f b).origin = b.origin) (hclosed : ∀ b, (f b).closed = b.closed)
    (hdropped : ∀ b, (f b).dropped = b.dropped)
    (hentries : ∀ b, (f b).registry.entries = b.registry.entries)
    (hlast : ∀ b, (f b).registry.lastId = b.registry.lastId) : w.SameEntries (w.modify id f) where
  origin _ := origin?_modify _ _ _ horigin
  closed _ := isClosed_modify _ _ _ hclosed
  dropped _ := isDropped_modify _ _ _ hdropped
  lastId _ := lastId_modify _ _ _ hlast
  registered _ _ := isRegistered_modify _ _ _ _ hentries
  events := ⟨[], (List.append_nil _).symm, nofun⟩

theorem adopt (w : World α) (p q : Bool) (name : String) (id : WatcherId) (b : Watcher α)
    (s : Latest α) : w.SameEntries (w.adopt p q name id b s) := by
  have haccept : w.SameEntries ((w.note p (.offered id s .accepted)).modify id (·.accept s)) :=
    (note w p rfl).trans (modify _ id (fun b => Watcher.accept_origin b s)
      (fun b => Watcher.accept_closed b s) (fun _ => rfl) (fun _ => rfl) fun _ => rfl)
  unfold World.adopt
  simp only
  split
  · exact haccept.trans (note _ q rfl)
  · exact haccept

theorem ran {t : Task α} {frames : List (Frame α)} (h : w.Ran t w' frames) : w.SameEntries w' := by
  cases h with
  | inactive p => exact note w p rfl
  | stale p q name => exact (note w p rfl).trans (note _ q rfl)
  | called p q elsewhere =>
    have htold : (w.note p (.ran t true)).SameEntries ((w.note p (.ran t true)).tell t) :=
      modify _ t.watcher (fun _ => rfl) (fun _ => rfl) (fun _ => rfl) (fun _ => rfl) fun _ => rfl
    exact ((note w p rfl).trans htold).trans (note _ q rfl)

theorem refusalMessage (w : World α) (q : Bool) (id : WatcherId) (name : String) (s : Latest α)
    (refusal : Watcher.Refusal) :
    w.SameEntries (w.note q (.logged id name (Machine.refusalMessage s refusal))) :=
  note w q (by cases refusal <;> rfl)

end SameEntries

/-- What an elementary change comes to for registrations. -/
inductive ChangesEntries (w : World α) : World α → Prop
  | keep {w' : World α} : w.SameEntries w' → ChangesEntries w w'
  | plant (name : String) : ChangesEntries w (w.addWatcher { name, origin := .root })
  | enrol {w' : World α} {id : WatcherId} {b : Watcher α} {listener : Listener α}
      {executor : Executor α} :
      w.Ledger → w.watcher? id = some b → b.closed = false → w.Joins id b listener executor w' →
      ChangesEntries w (w'.enrol id listener executor)
  | reserve {w' : World α} {id : WatcherId} {b : Watcher α} {listener : Listener α}
      {executor : Executor α} :
      w.Ledger → w.watcher? id = some b → b.closed = true → w.Joins id b listener executor w' →
      ChangesEntries w (w'.reserve id)
  | unwatch (p : Bool) {id : WatcherId} {l : ListenerId} :
      w.Ledger → w.isRegistered id l = true →
      ChangesEntries w ((w.note p (.unwatched id l true)).unregister id l)
  | drop {w' : World α} {id p : WatcherId} {l : ListenerId} {d : Derivation α} :
      w.Ledger → w.origin? id = some (.child p l d) → w.isDropped id = false →
      (w.modify id fun b => { b with dropped := true }).Detaches id .droppedUnclosed w' →
      ChangesEntries w w'
  | close {id : WatcherId} {b : Watcher α} : w.Ledger → w.watcher? id = some b →
      b.closed = false → ChangesEntries w (w.modify id Watcher.close)
  | finish {w' : World α} {id : WatcherId} (q : Bool) (name : String) (n : Nat) : w.Ledger →
      (w.note q (.logged id name (.closed n))).Detaches id .detached w' → ChangesEntries w w'

end World

/-- An elementary change of a machine changes registrations in one of these ways. -/
theorem Machine.Posting.changesEntries [BEq α] {P : Machine α → Prop} {m m' : Machine α}
    (h : Posting P m m') : m.world.ChangesEntries m'.world := by
  cases h with
  | pass hw hh => exact .keep (.of_eq hw hh)
  | lose => exact .keep (.refl _)
  | note p he => exact .keep (.note _ p (Event.isSevering_of_isMute he))
  | touch id horigin hclosed hdropped _ hentries hlast =>
    exact .keep (.modify _ id horigin hclosed hdropped hentries hlast)
  | plant name => exact .plant name
  | enrol hw hb hcl hj => exact .enrol hw hb hcl hj
  | reserve hw hb hcl hj => exact .reserve hw hb hcl hj
  | unwatch p hw hreg => exact .unwatch p hw hreg
  | drop hw ho hdr hdet => exact .drop hw ho hdr hdet
  | close hw hb hcl => exact .close hw hb hcl
  | finish q name hw hdet => exact .finish q name _ hw hdet
  | refuse p q name =>
    exact .keep ((World.SameEntries.note _ p rfl).trans (.refusalMessage _ q _ _ _ _))
  | accept p q name => exact .keep (.adopt _ p q name _ _ _)
  | announce q name => exact .keep (.note _ q rfl)
  | fail p q name => exact .keep ((World.SameEntries.note _ p rfl).trans (.note _ q rfl))
  | run hran => exact .keep (.ran hran)

/-! ## Registrations after a change -/

namespace World

variable {w w' : World α}

/-! ### Listeners that come -/

section Joining

variable {id : WatcherId} {b : Watcher α} {listener : Listener α} {executor : Executor α}

theorem isDropped_enrol (w : World α) (id j : WatcherId) (listener : Listener α)
    (executor : Executor α) : (w.enrol id listener executor).isDropped j = w.isDropped j :=
  isDropped_modify _ _ _ fun _ => rfl

theorem isDropped_reserve (w : World α) (id j : WatcherId) :
    (w.reserve id).isDropped j = w.isDropped j := isDropped_modify _ _ _ fun _ => rfl

theorem isRegistered_reserve (w : World α) (id j : WatcherId) (k : ListenerId) :
    (w.reserve id).isRegistered j k = w.isRegistered j k := isRegistered_modify _ _ _ _ fun _ => rfl

variable (hj : w.Joins id b listener executor w')

include hj

theorem Joins.isDropped_eq (j : WatcherId) : w'.isDropped j = w.isDropped j := by
  cases hj with
  | observer => rfl
  | child => exact isDropped_addWatcher _ _ _ rfl

theorem Joins.isRegistered_eq (j : WatcherId) (k : ListenerId) :
    w'.isRegistered j k = w.isRegistered j k := by
  cases hj with
  | observer => rfl
  | child => exact isRegistered_addWatcher _ _ _ _ rfl

variable (hw : w.Ledger) (hb : w.watcher? id = some b)

include hw hb

theorem Joins.isRegistered_enrol (j : WatcherId) (k : ListenerId) :
    (w'.enrol id listener executor).isRegistered j k = true ↔
      w.isRegistered j k = true ∨ j = id ∧ k = b.registry.nextId := by
  have hsound : (w'.enrol id listener executor).SoundRegistries :=
    (hj.sound hw.sound).enrol id listener executor
  rw [isRegistered_iff hsound, isRegistered_iff hw.sound, registration?_joined hw.sound hb hj]
  by_cases h : id = j ∧ k = b.registry.nextId
  · obtain ⟨rfl, rfl⟩ := h
    simp
  · have hne : ¬ (j = id ∧ k = b.registry.nextId) := fun hjk => h ⟨hjk.1.symm, hjk.2⟩
    simp [h, hne]

/-- A child that joins was not there before, and its subscription was not issued. -/
theorem Joins.origin?_or {c p : WatcherId} {l : ListenerId} {d : Derivation α}
    (ho : w'.origin? c = some (.child p l d)) :
    (w.origin? c = some (.child p l d) ∧ ¬ (p = id ∧ l = b.registry.nextId)) ∨
      w.watcher? c = none ∧ p = id ∧ l = b.registry.nextId := by
  rcases hj.origin?_eq_or ho with hold | ⟨-, -, rfl, d', heq⟩
  · refine .inl ⟨hold, fun hpl => ?_⟩
    exact Ledger.ne_nextId hb (hw.parent hold).2 ⟨hpl.1.symm, hpl.2⟩
  · obtain ⟨rfl, rfl, -⟩ := Origin.child.inj heq
    exact .inr ⟨watcher?_length w, rfl, rfl⟩

omit hj hw in
/-- The next id is not registered. -/
theorem isRegistered_nextId (hs : w.SoundRegistries) :
    w.isRegistered id b.registry.nextId = false := by
  rw [← Bool.not_eq_true, isRegistered_iff hs, registration?_nextId hs hb]
  exact fun ⟨_, hr, _⟩ => nomatch hr

end Joining

/-! ### Listeners that go -/

namespace Detaches

variable {id : WatcherId} {message : String → Diagnostic} (h : w.Detaches id message w')

include h

theorem origin?_eq (j : WatcherId) : w'.origin? j = w.origin? j := by
  cases h with
  | found q name parent => exact origin?_unregister w _ j _
  | missing => rfl

theorem isClosed_eq (j : WatcherId) : w'.isClosed j = w.isClosed j := by
  cases h with
  | found q name parent => exact isClosed_unregister w _ j _
  | missing => rfl

theorem isDropped_eq (j : WatcherId) : w'.isDropped j = w.isDropped j := by
  cases h with
  | found q name parent => exact isDropped_unregister w _ j _
  | missing => rfl

theorem lastId_eq (j : WatcherId) : w'.lastId j = w.lastId j := by
  cases h with
  | found q name parent => exact lastId_modify _ _ _ fun _ => rfl
  | missing => rfl

/-- Exactly the watcher's own subscription is taken out. -/
theorem isRegistered_iff (hs : w.SoundRegistries) (j : WatcherId) (k : ListenerId) :
    w'.isRegistered j k = true ↔
      w.isRegistered j k = true ∧ ∀ d, w.origin? id ≠ some (.child j k d) := by
  cases h with
  | @found p l d q name parent ho hreg =>
    show (w.unregister p l).isRegistered j k = true ↔ _
    rw [isRegistered_unregister hs]
    refine and_congr_right fun _ => ?_
    rw [ho]
    constructor
    · intro hne d' heq
      obtain ⟨rfl, rfl, -⟩ := Origin.child.inj (Option.some.inj heq)
      exact hne ⟨rfl, rfl⟩
    · rintro hne ⟨rfl, rfl⟩
      exact hne d rfl
  | missing hnone =>
    refine ⟨fun hreg => ⟨hreg, fun d ho => ?_⟩, And.left⟩
    rw [hnone j k d ho] at hreg
    exact nomatch hreg

end Detaches

end World

end WatchTree
