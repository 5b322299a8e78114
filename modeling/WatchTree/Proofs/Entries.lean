import WatchTree.Proofs.Issuing

/-!
# Entries of registries

What a registry shows of the listeners of a watcher:

1. its entries are the ids of the active registrations, in the order in which they were issued
   (`SoundRegistries.mem_entries_iff`, `SoundRegistries.entries_ascending`),
2. taking a listener out takes out that one alone (`World.Without`), and
3. an id that was issued and is no entry never becomes one again (`Later.not_mem_entries`), so
   nothing happens where it is taken out once more.
-/

namespace WatchTree

variable {α : Type}

namespace World

def entries (w : World α) (id : WatcherId) : List ListenerId :=
  ((w.watcher? id).map fun b => b.registry.entries).getD []

variable {w w' : World α} {id : WatcherId} {l : ListenerId}

theorem entries_of_watcher? {b : Watcher α} (h : w.watcher? id = some b) :
    w.entries id = b.registry.entries := by
  unfold entries
  rw [h]
  rfl

theorem isRegistered_eq_decide (w : World α) (id : WatcherId) (l : ListenerId) :
    w.isRegistered id l = decide (l ∈ w.entries id) := by
  unfold isRegistered entries
  cases w.watcher? id with
  | none => simp
  | some b => exact List.contains_eq_mem ..

theorem mem_entries : l ∈ w.entries id ↔ w.isRegistered id l = true := by
  rw [isRegistered_eq_decide, decide_eq_true_iff]

namespace SoundRegistries

variable (hs : w.SoundRegistries)

include hs

theorem mem_entries_iff : l ∈ w.entries id ↔
    ∃ r, w.registration? id l = some r ∧ r.active = true :=
  mem_entries.trans (isRegistered_iff hs id l)

theorem entries_ascending (id : WatcherId) :
    (w.entries id).Pairwise fun k l => k.number < l.number := by
  cases hb : w.watcher? id with
  | none =>
    unfold entries
    rw [hb]
    exact .nil
  | some b =>
    rw [entries_of_watcher? hb, (hs id b hb).entries_eq]
    exact List.pairwise_map.mpr ((hs id b hb).ascending.filter _)

theorem entries_nodup (id : WatcherId) : (w.entries id).Nodup :=
  (hs.entries_ascending id).imp fun hlt heq => Nat.ne_of_lt hlt (congrArg ListenerId.number heq)

end SoundRegistries

/-! ## Taking a listener out -/

/-- A listener is out: the others are left in order, its registration is inactive, and nothing
else has changed in the registries. -/
structure Without (w : World α) (id : WatcherId) (l : ListenerId) (w' : World α) : Prop where
  entries : ∀ j, w'.entries j = (w.entries j).filter fun k => ¬ (j = id ∧ k = l)
  registration : ∀ j k, w'.registration? j k =
    if j = id ∧ k = l then (w.registration? j k).map Registration.retire else w.registration? j k
  lastId : ∀ j, w'.lastId j = w.lastId j

theorem Without.of_not_mem (hs : w.SoundRegistries) (h : l ∉ w.entries id) : w.Without id l w where
  entries j := by
    refine (List.filter_eq_self.mpr fun k hk => ?_).symm
    rw [decide_eq_true_iff]
    rintro ⟨rfl, rfl⟩
    exact h hk
  registration j k := by
    split
    · rename_i hjk
      obtain ⟨rfl, rfl⟩ := hjk
      cases hr : w.registration? j k with
      | none => rfl
      | some r =>
        have ha : r.active = false := by
          rw [← Bool.not_eq_true]
          exact fun ha => h (hs.mem_entries_iff.mpr ⟨r, hr, ha⟩)
        exact congrArg some (Registration.retire_of_inactive ha).symm
    · rfl
  lastId _ := rfl

theorem Without.unregister (hs : w.SoundRegistries) (id : WatcherId) (l : ListenerId) :
    w.Without id l (w.unregister id l) where
  entries j := by
    by_cases hj : j = id
    · subst hj
      have hfilter : (w.unregister j l).entries j = (w.entries j).erase l := by
        unfold World.entries World.unregister
        rw [watcher?_modify, if_pos rfl]
        cases w.watcher? j <;> rfl
      rw [hfilter, (hs.entries_nodup j).erase_eq_filter]
      refine List.filter_congr fun k _ => ?_
      by_cases hk : k = l <;> simp [hk]
    · have hsame : (w.unregister id l).entries j = w.entries j := by
        unfold World.entries World.unregister
        rw [watcher?_modify_of_ne _ (Ne.symm hj)]
      rw [hsame, List.filter_eq_self.mpr]
      intro k _
      simp [hj]
  registration j k := by
    rw [registration?_unregister]
    simp only [eq_comm]
  lastId _ := lastId_unregister ..

theorem Without.of_note {p : Bool} {e : Event α} (h : (w.note p e).Without id l w') :
    w.Without id l w' := ⟨h.entries, h.registration, h.lastId⟩

theorem Without.note (h : w.Without id l w') (p : Bool) (e : Event α) :
    w.Without id l (w'.note p e) := ⟨h.entries, h.registration, h.lastId⟩

end World

namespace Machine

section Removing

variable {m : Machine α} {c p id : WatcherId} {l : ListenerId} {d : Derivation α}

theorem unwatch_of_not_mem (h : l ∉ m.world.entries id) :
    m.unwatch id l = (m.record (.unwatched id l false)).answer (.bool false) := by
  have hreg : m.world.isRegistered id l = false := by
    rw [World.isRegistered_eq_decide, decide_eq_false_iff_not]
    exact h
  unfold unwatch
  simp only
  rw [hreg]
  rfl

theorem detach_of_not_mem (ho : m.world.origin? c = some (.child p l d))
    (h : l ∉ m.world.entries p) (message : String → Diagnostic) : m.detach c message = m := by
  rw [detach_eq (World.parent?_eq_some_iff.mpr ho), if_neg]
  exact fun hreg => h (World.mem_entries.mpr hreg)

variable (hs : m.world.SoundRegistries)

include hs

/-- The answer is whether the listener is an entry, which it is no more. -/
theorem unwatch_without (id : WatcherId) (l : ListenerId) :
    ∃ w, m.unwatch id l = ⟨w, m.stack, .answer (.bool (decide (l ∈ m.world.entries id)))⟩ ∧
      m.world.Without id l w := by
  by_cases h : l ∈ m.world.entries id
  · have hnoted : (m.world.note m.onPoller (.unwatched id l true)).SoundRegistries := hs
    rw [decide_eq_true h]
    unfold unwatch
    simp only
    rw [World.mem_entries.mp h]
    exact ⟨_, rfl, .of_note (.unregister hnoted id l)⟩
  · rw [decide_eq_false h, unwatch_of_not_mem h]
    exact ⟨_, rfl, (World.Without.of_not_mem hs h).note _ _⟩

/-- A child takes out its own subscription. -/
theorem detach_without (ho : m.world.origin? c = some (.child p l d))
    (message : String → Diagnostic) :
    ∃ w, m.detach c message = { m with world := w } ∧ m.world.Without p l w := by
  by_cases h : l ∈ m.world.entries p
  · rw [detach_eq (World.parent?_eq_some_iff.mpr ho), if_pos (World.mem_entries.mp h)]
    exact ⟨_, rfl, (World.Without.unregister hs p l).note _ _⟩
  · exact ⟨m.world, detach_of_not_mem ho h message, .of_not_mem hs h⟩

end Removing

end Machine

/-- The listener is out for good: it cannot be taken out any more, and a child whose subscription
it was is not detached once more. -/
structure World.Spent (w : World α) (id : WatcherId) (l : ListenerId) : Prop where
  absent : l ∉ w.entries id
  unwatch : ∀ stk c, ∃ p, Machine.unwatch ⟨w, stk, c⟩ id l =
    ⟨w.note p (.unwatched id l false), stk, .answer (.bool false)⟩
  detach : ∀ {child d}, w.origin? child = some (.child id l d) → ∀ stk c message,
    Machine.detach ⟨w, stk, c⟩ child message = ⟨w, stk, c⟩

theorem World.Spent.of_not_mem {w : World α} {id : WatcherId} {l : ListenerId}
    (h : l ∉ w.entries id) : w.Spent id l where
  absent := h
  unwatch stk c := ⟨_, Machine.unwatch_of_not_mem (m := ⟨w, stk, c⟩) h⟩
  detach ho stk c message := Machine.detach_of_not_mem (m := ⟨w, stk, c⟩) ho h message

/-! ## What an elementary change brings and takes -/

namespace World

variable {w w' : World α} {id : WatcherId} {l : ListenerId}

/-- Ids are counted upwards. -/
theorem ChangesEntries.lastId_le (h : w.ChangesEntries w') (id : WatcherId) :
    w.lastId id ≤ w'.lastId id := by
  cases h with
  | keep ht => exact Nat.le_of_eq (ht.lastId id).symm
  | plant name => exact Nat.le_of_eq (lastId_addWatcher _ _ _ rfl).symm
  | @enrol w₁ j b listener executor hw hb hcl hj =>
    exact lastId_joined hj id (f := fun r => r.insert listener executor) fun r => Nat.le_succ _
  | reserve hw hb hcl hj => exact lastId_joined hj id fun r => Nat.le_succ _
  | unwatch => exact Nat.le_of_eq (lastId_unregister ..).symm
  | drop hw ho hdr hdet =>
    rw [hdet.lastId_eq]
    exact Nat.le_of_eq ((Parts.drop hw ho).lastId id).symm
  | @close j b hw hb hcl => exact Nat.le_of_eq (lastId_modify w j id fun _ => by rfl).symm
  | finish q name n hw hdet => exact Nat.le_of_eq (hdet.lastId_eq id).symm

/-- A new entry has a new id. -/
theorem ChangesEntries.mem_entries (h : w.ChangesEntries w') (hmem : l ∈ w'.entries id) :
    l ∈ w.entries id ∨ w.lastId id < l.number := by
  rw [World.mem_entries] at hmem ⊢
  cases h with
  | keep ht => exact .inl ((ht.registered id l).symm.trans hmem)
  | plant name => exact .inl ((isRegistered_addWatcher _ _ _ _ rfl).symm.trans hmem)
  | enrol hw hb hcl hj =>
    rcases (hj.isRegistered_enrol hw hb id l).mp hmem with hold | ⟨rfl, rfl⟩
    · exact .inl hold
    · refine .inr ?_
      rw [Ledger.nextId_number hb]
      exact Nat.lt_succ_self _
  | reserve hw hb hcl hj =>
    rw [isRegistered_reserve, hj.isRegistered_eq] at hmem
    exact .inl hmem
  | @unwatch p j k hw hreg =>
    have hsound : (w.note p (.unwatched j k true)).SoundRegistries := hw.sound
    exact .inl ((isRegistered_unregister hsound ..).mp hmem).1
  | drop hw ho hdr hdet =>
    have hparts := Parts.drop hw ho
    have hold := ((hdet.isRegistered_iff hparts.sound id l).mp hmem).1
    exact .inl ((hparts.registered id l).symm.trans hold)
  | close hw hb hcl => exact .inl ((isRegistered_close hw.sound ..).mp hmem).1
  | finish q name n hw hdet => exact .inl ((hdet.isRegistered_iff hw.sound ..).mp hmem).1

end World

/-! ## Runs -/

namespace Machine

variable [BEq α] {P : Machine α → Prop} {m m' : Machine α} {id : WatcherId} {l : ListenerId}

/-- What was issued and is no entry stays out. -/
theorem Later.not_mem_entries (h : m.Later P m') (hm : m.WellFormed)
    (hl : l.number ≤ m.world.lastId id) (hnot : l ∉ m.world.entries id) :
    l ∉ m'.world.entries id := by
  have hout : l.number ≤ m'.world.lastId id ∧ l ∉ m'.world.entries id := by
    induction h with
    | refl => exact ⟨hl, hnot⟩
    | @next x x' hx _ hn ih =>
      refine hn.keeps (P := fun _ => True)
        (I := fun x => l.number ≤ x.world.lastId id ∧ l ∉ x.world.entries id)
        (hx.wellFormed hm) (fun _ _ _ _ _ => trivial) ?_ ih
      rintro x x' ⟨hle, hout⟩ hpost
      refine ⟨Nat.le_trans hle (hpost.changesEntries.lastId_le id), fun hmem => ?_⟩
      rcases hpost.changesEntries.mem_entries hmem with hold | hnew
      · exact hout hold
      · exact Nat.not_lt_of_le hle hnew
  exact hout.2

theorem Reached.entries_pos (h : m.Reached P) : ∀ id, ∀ l ∈ m.world.entries id, 0 < l.number := by
  induction h with
  | initial => exact fun id l hmem => nomatch hmem
  | @next x x' hx _ hn ih =>
    refine hn.keeps (P := fun _ => True)
      (I := fun x => ∀ id, ∀ l ∈ x.world.entries id, 0 < l.number)
      hx.wellFormed (fun _ _ _ _ _ => trivial) ?_ ih
    intro x x' hall hpost id l hmem
    rcases hpost.changesEntries.mem_entries hmem with hold | hnew
    · exact hall id l hold
    · exact Nat.zero_lt_of_lt hnew

/-- A closed watcher has no entries. -/
theorem Reached.entries_eq_nil (h : m.Reached P) (hcl : m.world.isClosed id = true) :
    m.world.entries id = [] := by
  rw [List.eq_nil_iff_forall_not_mem]
  intro l hmem
  obtain ⟨r, hr, ha⟩ := h.wellFormed.ledger.sound.mem_entries_iff.mp hmem
  rw [h.shut id l r hcl hr] at ha
  exact nomatch ha

/-- Why a child is not subscribed. -/
theorem Reached.why_unsubscribed (h : m.Reached P) {c : WatcherId} {d : Derivation α}
    (ho : m.world.origin? c = some (.child id l d)) (hnot : l ∉ m.world.entries id) :
    m.world.isClosed id = true ∨ .unwatched id l true ∈ m.world.events ∨
      m.world.isDropped c = true ∨ m.world.isClosed c = true := by
  obtain ⟨ms, hrun, -⟩ := h.run
  obtain ⟨hcloses, hbonds⟩ := hrun.bonds m rfl
  rw [World.mem_entries, hbonds.tied ho] at hnot
  by_contra hnone
  simp only [not_or, Bool.not_eq_true] at hnone
  obtain ⟨hopen, hun, hdropped, hclosed⟩ := hnone
  exact hnot ⟨hopen, hdropped, hun, hcloses.eq_zero hclosed⟩

/-- An entry that is no child's is there until its watcher is closed or it is taken out. -/
theorem Reached.lingers (h : m.Reached P) (hmem : l ∈ m.world.entries id)
    (hfree : ∀ c d, m.world.origin? c ≠ some (.child id l d)) : m.world.Lingers id l := by
  have hw := h.wellFormed.ledger
  have hreg := World.mem_entries.mp hmem
  obtain ⟨r, hr, ha⟩ := hw.sound.mem_entries_iff.mp hmem
  refine ⟨World.lastId_of_registered hw.sound hreg, hfree, iff_of_true hreg ⟨?_, fun he => ?_⟩⟩
  · rw [← Bool.not_eq_true]
    intro hcl
    rw [h.shut id l r hcl hr] at ha
    exact nomatch ha
  · obtain ⟨r', hr', ha'⟩ : ∃ r, m.world.registration? id l = some r ∧ r.active = false :=
      h.attested _ he
    obtain rfl := Option.some.inj (hr'.symm.trans hr)
    exact nomatch ha'.symm.trans ha

/-- Why an entry is no more: its watcher was closed, somebody took it out on request, or it is the
subscription of a child that was dropped or closed. -/
theorem Reached.why_not_entry (h : m.Reached fun _ => True) (hl : m.Later (fun _ => True) m')
    (hmem : l ∈ m.world.entries id) (hnot : l ∉ m'.world.entries id) :
    m'.world.isClosed id = true ∨ .unwatched id l true ∈ m'.world.events ∨
      ∃ c d, m'.world.origin? c = some (.child id l d) ∧
        (m'.world.isDropped c = true ∨ m'.world.isClosed c = true) := by
  by_cases hchild : ∃ c d, m'.world.origin? c = some (.child id l d)
  · obtain ⟨c, d, ho⟩ := hchild
    exact ((h.later hl).why_unsubscribed ho hnot).imp_right (Or.imp_right fun hc => ⟨c, d, ho, hc⟩)
  · have hx := hl.extends_world h.wellFormed
    have hlingers := h.lingers hmem fun c d ho => hchild ⟨c, d, hx.origin ho⟩
    rw [World.mem_entries, (hl.lingers h.wellFormed hlingers).registered] at hnot
    by_contra hnone
    simp only [not_or, Bool.not_eq_true] at hnone
    exact hnot ⟨hnone.1, hnone.2.1⟩

/-- What is out of a registry stays out, and what went out went for a reason. -/
structure Thinned (m m' : Machine α) (id : WatcherId) : Prop where
  closed : m.world.isClosed id = true →
    m'.world.entries id = [] ∧ ∀ l, m'.world.Spent id l
  spent : ∀ l, l.number ≤ m.world.lastId id → l ∉ m.world.entries id → m'.world.Spent id l
  reason : ∀ l ∈ m.world.entries id, l ∉ m'.world.entries id →
    m'.world.isClosed id = true ∨ .unwatched id l true ∈ m'.world.events ∨
      ∃ c d, m'.world.origin? c = some (.child id l d) ∧
        (m'.world.isDropped c = true ∨ m'.world.isClosed c = true)

theorem Reached.thinned (h : m.Reached fun _ => True) (hl : m.Later (fun _ => True) m')
    (id : WatcherId) : m.Thinned m' id where
  closed hcl := by
    have hnil := (h.later hl).entries_eq_nil ((hl.extends_world h.wellFormed).closed hcl)
    exact ⟨hnil, fun l => .of_not_mem (by rw [hnil]; exact List.not_mem_nil)⟩
  spent _ hle hnot := .of_not_mem (hl.not_mem_entries h.wellFormed hle hnot)
  reason _ := h.why_not_entry hl

/-- What a registry holds at the end of a run that began with the machines `ms`, and what can be
taken out of it. -/
structure HoldsActive (m : Machine α) (ms : List (Machine α)) (id : WatcherId) : Prop where
  ascending : (m.world.entries id).Pairwise fun k l => k.number < l.number
  bounded : ∀ l ∈ m.world.entries id, 0 < l.number ∧ l.number ≤ m.world.lastId id
  issued : ∀ ls, IssuedIds id (m :: ms) ls ↔ ls = ListenerId.upTo (m.world.lastId id)
  active : ∀ l, l ∈ m.world.entries id ↔
    ∃ r, m.world.registration? id l = some r ∧ r.active = true
  unwatched : ∀ l stk c, ∃ w, unwatch ⟨m.world, stk, c⟩ id l =
    ⟨w, stk, .answer (.bool (decide (l ∈ m.world.entries id)))⟩ ∧ m.world.Without id l w
  detached : ∀ p l d, m.world.origin? id = some (.child p l d) →
    (∀ r, m.world.registration? p l = some r → r.listener = .subscription id) ∧
    ∀ stk c message, ∃ w, detach ⟨m.world, stk, c⟩ id message = ⟨w, stk, c⟩ ∧
      m.world.Without p l w
  later : ∀ m', m.Later (fun _ => True) m' → m.Thinned m' id

/-- In every run, at every nesting depth, the entries of a registry are the ids of its active
registrations, in the order in which the watcher issued them, which are 1, 2, 3 and so on, each
issued once. A closed watcher goes on counting and has no entries. An id can be taken out if and
only if it is an entry, and the others are left in order; a child takes out its own subscription
alone. What is out stays out and cannot be taken out again. -/
theorem registries_hold_active_listeners {ms : List (Machine α)} (h : Run (m :: ms))
    (id : WatcherId) : m.HoldsActive ms id := by
  have hreach : m.Reached fun _ => True := h.reached (fun _ _ => trivial) m rfl
  have hm := hreach.wellFormed
  have hs := hm.ledger.sound
  exact
    { ascending := hs.entries_ascending id
      bounded := fun l hmem => ⟨hreach.entries_pos id l hmem,
        World.lastId_of_registered hs (World.mem_entries.mp hmem)⟩
      issued := h.issuedIds_iff id m rfl
      active := fun l => hs.mem_entries_iff
      unwatched := fun l stk c => unwatch_without (m := ⟨m.world, stk, c⟩) hs id l
      detached := fun p l d ho =>
        ⟨fun r hr => (hm.ledger.subscription ho hr).1,
          fun stk c message => detach_without (m := ⟨m.world, stk, c⟩) hs ho message⟩
      later := fun m' hl => hreach.thinned hl id }

/-! ### A child that is closed and then dropped -/

def plainWatch (label : Name) : Op Nat := .watch "r" label false .inline (fun _ => []) fun _ => []

def crowdedRoot : Machine Nat :=
  ({ world := {} } : Machine Nat).carry 12
    [.root "r" "r" false, plainWatch "a", .child "r" "c" (.ok "c") .value fun _ => [],
      plainWatch "b"]

def thinnedRoot : Machine Nat := crowdedRoot.carry 12 [.unwatch "r" "a", .close "c", .drop "c"]

def closedRoot : Machine Nat :=
  thinnedRoot.carry 12 [plainWatch "d", .close "r", plainWatch "e"]

theorem reached_crowdedRoot : crowdedRoot.Reached fun _ => True :=
  Reached.initial.carry_any (by decide +kernel)

theorem later_thinnedRoot : crowdedRoot.Later (fun _ => True) thinnedRoot :=
  Later.refl.carry_any (by decide +kernel)

theorem later_closedRoot : thinnedRoot.Later (fun _ => True) closedRoot :=
  Later.refl.carry_any (by decide +kernel)

theorem registries_hold_active_listeners_thinned :
    crowdedRoot.world.entries 0 = [⟨1⟩, ⟨2⟩, ⟨3⟩] ∧
      (∃ w, unwatch ⟨crowdedRoot.world, [], .proceed⟩ 0 ⟨1⟩ = ⟨w, [], .answer (.bool true)⟩ ∧
        w.entries 0 = [⟨2⟩, ⟨3⟩]) ∧
      (∃ w, detach ⟨crowdedRoot.world, [], .proceed⟩ 1 .detached = ⟨w, [], .proceed⟩ ∧
        w.entries 0 = [⟨1⟩, ⟨3⟩]) ∧
      thinnedRoot.world.entries 0 = [⟨3⟩] ∧ thinnedRoot.world.Spent 0 ⟨2⟩ ∧
      closedRoot.world.Spent 0 ⟨1⟩ ∧ closedRoot.world.Spent 0 ⟨5⟩ ∧
      ∃ ms, Run (closedRoot :: ms) ∧
        IssuedIds 0 (closedRoot :: ms) [⟨1⟩, ⟨2⟩, ⟨3⟩, ⟨4⟩, ⟨5⟩] := by
  have hcrowded : crowdedRoot.world.entries 0 = [⟨1⟩, ⟨2⟩, ⟨3⟩] := by decide +kernel
  have hthinned : thinnedRoot.world.entries 0 = [⟨3⟩] := by decide +kernel
  obtain ⟨d, ho⟩ : ∃ d, crowdedRoot.world.origin? 1 = some (.child 0 ⟨2⟩ d) :=
    ⟨_, by with_unfolding_all rfl⟩
  have hreach : thinnedRoot.Reached fun _ => True := reached_crowdedRoot.later later_thinnedRoot
  obtain ⟨ms₀, hrun₀, -⟩ := reached_crowdedRoot.run
  obtain ⟨ms₁, hrun₁, -⟩ := hreach.run
  obtain ⟨ms₂, hrun₂, -⟩ := (hreach.later later_closedRoot).run
  have hcrowdedHolds := registries_hold_active_listeners hrun₀ 0
  have hchildHolds := registries_hold_active_listeners hrun₀ 1
  have hthinnedHolds := registries_hold_active_listeners hrun₁ 0
  have hclosedHolds := registries_hold_active_listeners hrun₂ 0
  obtain ⟨w, hw, hwithout⟩ := hcrowdedHolds.unwatched ⟨1⟩ [] .proceed
  obtain ⟨w', hw', hwithout'⟩ := (hchildHolds.detached 0 ⟨2⟩ d ho).2 [] .proceed .detached
  refine ⟨hcrowded, ⟨w, ?_, ?_⟩, ⟨w', hw', ?_⟩, hthinned,
    (hthinnedHolds.later _ .refl).spent ⟨2⟩ (by decide +kernel) (by decide +kernel),
    (hthinnedHolds.later _ later_closedRoot).spent ⟨1⟩ (by decide +kernel) (by decide +kernel),
    ((hclosedHolds.later _ .refl).closed (by decide +kernel)).2 ⟨5⟩,
    ms₂, hrun₂, (hclosedHolds.issued _).mpr (by decide +kernel)⟩
  · rw [hw, hcrowded]
    rfl
  · rw [hwithout.entries, hcrowded]
    rfl
  · rw [hwithout'.entries, hcrowded]
    rfl

end Machine

end WatchTree
