import WatchTree.Proofs.EntryChanges
import WatchTree.Proofs.Subscriptions

/-!
# Closed children are detached

A close empties the watcher's own registry at once; its subscription on the parent is taken out at
the end of the close, after the wakers of the first value. A panic of a waker takes the unfinished
close off the stack (`Machine.interrupts`), and closing again does nothing. Every close has ended,
is under way, or was interrupted (`Machine.Closes`), and a subscription is registered as long as the
parent is open, the child not dropped, nobody has taken it out and no close of the child has ended
(`World.Bonds`).
-/

namespace WatchTree

variable {α : Type}

/-- It tells that the close of a watcher has ended. -/
def Event.endsClose (c : WatcherId) : Event α → Bool
  | .logged id _ (.closed _) => decide (id = c)
  | _ => false

theorem Event.endsClose_of_not_severing {e : Event α} (h : e.isSevering = false)
    (c : WatcherId) : e.endsClose c = false := by
  cases e with
  | logged id name message => cases message <;> first | rfl | exact nomatch h
  | _ => rfl

/-- The close of a watcher is under way. -/
def Frame.closes (c : WatcherId) : Frame α → Bool
  | .closing id _ => decide (id = c)
  | _ => false

theorem Frame.countP_closes_pledges (c : WatcherId) (stk : List (Frame α)) :
    (pledges stk).countP (closes c) = stk.countP (closes c) := by
  unfold pledges
  rw [List.countP_filter]
  refine List.countP_congr fun f _ => ?_
  cases f <;> simp [closes, isPledge]

/-- How often a close of the watcher has ended. -/
def World.closes (w : World α) (c : WatcherId) : Nat := w.events.countP (Event.endsClose c)

namespace World

variable {w w' : World α}

theorem closes_of_events {es : List (Event α)} (h : w'.events = w.events ++ es)
    (c : WatcherId) : w'.closes c = w.closes c + es.countP (Event.endsClose c) := by
  unfold closes
  rw [h, List.countP_append]

theorem closes_of_eq (h : w'.events = w.events) (c : WatcherId) : w'.closes c = w.closes c := by
  unfold closes
  rw [h]

theorem closes_note (w : World α) (p : Bool) (e : Event α) (c : WatcherId) :
    (w.note p e).closes c = w.closes c + if e.endsClose c then 1 else 0 := by
  rw [closes_of_events (events_note w p e), List.countP_cons, List.countP_nil, Nat.zero_add]

theorem SameEntries.closes (h : w.SameEntries w') (c : WatcherId) : w'.closes c = w.closes c := by
  obtain ⟨es, hes, hnone⟩ := h.events
  rw [closes_of_events hes, List.countP_eq_zero.mpr fun e he => ?_]
  · rfl
  · rw [Event.endsClose_of_not_severing (hnone e he)]
    exact Bool.false_ne_true

theorem Detaches.closes {id : WatcherId} {message : String → Diagnostic}
    (h : w.Detaches id message w') (hmessage : ∀ parent n, message parent ≠ .closed n)
    (c : WatcherId) : w'.closes c = w.closes c := by
  cases h with
  | @found p l d q name parent =>
    have hnot : (Event.logged (α := α) id name (message parent)).endsClose c = false := by
      unfold Event.endsClose
      split
      · rename_i heq
        exact absurd (Event.logged.inj heq).2.2 (hmessage _ _)
      · rfl
    refine (closes_note _ q _ c).trans ?_
    rw [hnot]
    rfl
  | missing => rfl

theorem isClosed_of_none {c : WatcherId} (h : w.watcher? c = none) : w.isClosed c = false := by
  unfold isClosed
  rw [h]
  rfl

theorem isClosed_close_iff {w : World α} {id : WatcherId} {b : Watcher α}
    (hb : w.watcher? id = some b) (c : WatcherId) :
    (w.modify id Watcher.close).isClosed c = true ↔ c = id ∨ w.isClosed c = true := by
  by_cases hc : id = c
  · subst hc
    simp [isClosed_of_watcher? (watcher?_modify_self hb Watcher.close)]
  · unfold isClosed
    rw [watcher?_modify_of_ne _ hc]
    simp [Ne.symm hc]

theorem isClosed_close_eq_false_iff {w : World α} {id : WatcherId} {b : Watcher α}
    (hb : w.watcher? id = some b) (c : WatcherId) :
    (w.modify id Watcher.close).isClosed c = false ↔ c ≠ id ∧ w.isClosed c = false := by
  rw [← Bool.not_eq_true, isClosed_close_iff hb c, not_or, Bool.not_eq_true]

end World

/-! ## Closes end once, unless a panic takes them off -/

namespace Machine

/-- A panic is about to take the unfinished close of a watcher off. -/
def interrupts (m : Machine α) (c : WatcherId) : Bool :=
  match m.control, m.stack with
  | .unwind _, .closing id _ :: _ => decide (id = c)
  | _, _ => false

/-- The close of each closed watcher has ended, is under way, or was lost so many times. -/
def Closes (m : Machine α) (lost : WatcherId → Nat) : Prop :=
  ∀ c, m.world.closes c + m.stack.countP (Frame.closes c) + lost c =
    if m.world.isClosed c then 1 else 0

variable {m m' : Machine α} {lost : WatcherId → Nat}

namespace Closes

theorem initial : Closes ({ world := {} } : Machine α) fun _ => 0 := fun _ => rfl

theorem keep (h : m.Closes lost) (hcloses : ∀ c, m'.world.closes c = m.world.closes c)
    (hframes : ∀ c, m'.stack.countP (Frame.closes c) = m.stack.countP (Frame.closes c))
    (hclosed : ∀ c, m'.world.isClosed c = m.world.isClosed c) : m'.Closes lost := by
  intro c
  rw [hcloses, hframes, hclosed]
  exact h c

/-- As long as a watcher is open no close of it has ended. -/
theorem eq_zero (h : m.Closes lost) {c : WatcherId} (hcl : m.world.isClosed c = false) :
    m.world.closes c = 0 := by
  have heq := h c
  rw [hcl, if_neg Bool.false_ne_true] at heq
  omega

theorem posting [BEq α] {P : Machine α → Prop} (h : m.Closes lost) (hpost : Posting P m m')
    (hP : ∀ x, P x → ∀ c, x.interrupts c = false) : m'.Closes lost := by
  cases hpost with
  | pass hw hh hpledges =>
    refine h.keep (World.SameEntries.of_eq hw hh).closes (fun c => ?_)
      (World.SameEntries.of_eq hw hh).closed
    rw [← Frame.countP_closes_pledges, hpledges, Frame.countP_closes_pledges]
  | @lose w f stk payload hf hlost =>
    cases f with
    | announcing => exact h.keep (fun _ => rfl) (fun _ => rfl) fun _ => rfl
    | closing id n =>
      have hnone : decide (id = id) = false := hP _ hlost id
      exact absurd rfl (of_decide_eq_false hnone)
    | _ => exact nomatch hf
  | @note w stk c p e he =>
    have hsame : w.SameEntries (w.note p e) := .note w p (Event.isSevering_of_isMute he)
    exact h.keep hsame.closes (fun _ => rfl) hsame.closed
  | @touch w stk c id f horigin hclosed hdropped hfirst hentries hlast =>
    exact h.keep (fun _ => rfl) (fun _ => rfl) fun _ => World.isClosed_modify _ _ _ hclosed
  | plant name =>
    exact h.keep (fun _ => rfl) (fun _ => rfl) fun _ => World.isClosed_addWatcher _ _ _ rfl
  | @enrol w w' stk c id b listener executor hw hb hcl hj =>
    refine h.keep (fun c => ?_) (fun _ => rfl) fun c => ?_
    · exact World.closes_of_eq ((World.events_enrol ..).trans hj.events_eq) c
    · exact (World.isClosed_enrol ..).trans (hj.isClosed_eq c)
  | @reserve w w' stk c id b listener executor hw hb hcl hj =>
    refine h.keep (fun c => ?_) (fun _ => rfl) fun c => ?_
    · exact World.closes_of_eq ((World.events_reserve ..).trans hj.events_eq) c
    · exact (World.isClosed_reserve ..).trans (hj.isClosed_eq c)
  | @unwatch w stk c p id l hw hreg =>
    exact h.keep (fun c => World.closes_note w p _ c) (fun _ => rfl)
      fun c => World.isClosed_unregister ..
  | @drop w w' stk c id p l d hw ho hdr hdet =>
    refine h.keep (fun c => hdet.closes (by simp) c) (fun _ => rfl) fun c => ?_
    exact (hdet.isClosed_eq c).trans (World.isClosed_modify _ _ _ fun _ => rfl)
  | @close w stk c id b hw hb hcl =>
    -- The sum goes from none to one at the watcher that closes, and nowhere else.
    intro j
    have heq : w.closes j + stk.countP (Frame.closes j) + lost j =
      if w.isClosed j then 1 else 0 := h j
    show w.closes j + (_ :: Frame.closing id _ :: stk).countP (Frame.closes j) + lost j =
      if (w.modify id Watcher.close).isClosed j then 1 else 0
    rw [List.countP_cons_of_neg (by simp [Frame.closes])]
    by_cases hj : j = id
    · subst hj
      rw [World.isClosed_of_watcher? hb, hcl, if_neg Bool.false_ne_true] at heq
      rw [(World.isClosed_close_iff hb j).mpr (.inl rfl), if_pos rfl,
        List.countP_cons_of_pos (by simp [Frame.closes])]
      omega
    · have hsame : (w.modify id Watcher.close).isClosed j = w.isClosed j := by
        rw [Bool.eq_iff_iff, World.isClosed_close_iff hb j, or_iff_right hj]
      rw [hsame, List.countP_cons_of_neg (by simp [Frame.closes, Ne.symm hj])]
      exact heq
  | @finish w w' stk c c' id n q name hw hdet =>
    -- The close that was under way counts as one that has ended.
    intro j
    have heq := h j
    have hcloses : w'.closes j = w.closes j + if decide (id = j) then 1 else 0 :=
      (hdet.closes (by simp) j).trans (World.closes_note ..)
    have hclosed : w'.isClosed j = w.isClosed j := hdet.isClosed_eq j
    rw [List.countP_cons] at heq
    show w'.closes j + stk.countP _ + lost j = if w'.isClosed j then 1 else 0
    rw [hcloses, hclosed, ← heq]
    show _ = w.closes j + (stk.countP _ + if decide (id = j) then 1 else 0) + lost j
    omega
  | @refuse w stk c p q name id b s refusal =>
    have hsame := (World.SameEntries.note w p (e := .offered id s .refused) rfl).trans
      (.refusalMessage _ q id name s refusal)
    exact h.keep hsame.closes (fun _ => rfl) hsame.closed
  | @accept w stk c p q name id b s =>
    have hsame := World.SameEntries.adopt w p q name id b s
    refine h.keep hsame.closes (fun c => ?_) hsame.closed
    rw [List.countP_cons_of_neg (by simp [Frame.closes]),
      List.countP_cons_of_neg (by simp [Frame.closes])]
  | @announce w stk c q name id n s ls =>
    have hsame :
        w.SameEntries (w.note q (.logged id name (.acceptedUpdate s.revision ls.length))) :=
      .note w q rfl
    exact h.keep hsame.closes (fun _ => rfl) hsame.closed
  | @fail w stk c p q name id parent l d r outcome error =>
    have hsame := (World.SameEntries.note w p (e := .applied id r outcome) rfl).trans
      (.note _ q (e := .logged id name (.transformationFailed r error)) rfl)
    exact h.keep hsame.closes (fun _ => rfl) hsame.closed
  | @run w w' stk frames c t hran =>
    have hsame := World.SameEntries.ran hran
    refine h.keep hsame.closes (fun c => ?_) hsame.closed
    have hnone : frames.countP (Frame.closes c) = 0 := by
      cases hran with
      | inactive | stale => rfl
      | called p q elsewhere hr ha hn hcalls => cases hcalls <;> rfl
    rw [List.countP_append, hnone, Nat.zero_add]

end Closes

end Machine

/-! ## Why a subscription is registered -/

namespace World

/-- A subscription is registered unless something took it out. -/
structure Bonds (w : World α) : Prop where
  issued : ∀ {p l}, .unwatched p l true ∈ w.events → l.number ≤ w.lastId p
  tied : ∀ {c p l d}, w.origin? c = some (.child p l d) →
    (w.isRegistered p l = true ↔ w.isClosed p = false ∧ w.isDropped c = false ∧
      .unwatched p l true ∉ w.events ∧ w.closes c = 0)

variable {w w' : World α}

theorem lastId_of_registered (hs : w.SoundRegistries) {p : WatcherId} {l : ListenerId}
    (h : w.isRegistered p l = true) : l.number ≤ w.lastId p := by
  obtain ⟨r, hr, -⟩ := (isRegistered_iff hs p l).mp h
  cases hb : w.watcher? p with
  | none => simp [registration?, hb] at hr
  | some b =>
    rw [registration?_of_watcher? hb] at hr
    rw [lastId_of_watcher? hb, ← Registry.id_of_find? hr]
    exact (hs p b hb).issued r (Registry.mem_records_of_find? hr)

theorem SameEntries.unwatched_iff (h : w.SameEntries w') (p : WatcherId) (l : ListenerId) :
    .unwatched p l true ∈ w'.events ↔ .unwatched p l true ∈ w.events := by
  obtain ⟨es, hes, hnone⟩ := h.events
  rw [hes, List.mem_append]
  exact or_iff_left fun hmem => nomatch hnone _ hmem

theorem Detaches.unwatched_iff {id : WatcherId} {message : String → Diagnostic}
    (h : w.Detaches id message w') (p : WatcherId) (l : ListenerId) :
    .unwatched p l true ∈ w'.events ↔ .unwatched p l true ∈ w.events := by
  cases h with
  | found q name parent =>
    show _ ∈ (note _ q _).events ↔ _
    rw [events_note, List.mem_append]
    exact or_iff_left (by simp)
  | missing => exact Iff.rfl

theorem unwatched_unregister_iff (w : World α) (q : Bool) (id p : WatcherId)
    (k l : ListenerId) :
    .unwatched p l true ∈ ((w.note q (.unwatched id k true)).unregister id k).events ↔
      .unwatched p l true ∈ w.events ∨ p = id ∧ l = k := by
  show _ ∈ (note _ q _).events ↔ _
  rw [events_note, List.mem_append, List.mem_singleton]
  simp

/-- A further id has been issued, whether it was registered or not. -/
theorem lastId_joined {id : WatcherId} {b : Watcher α} {listener : Listener α}
    {executor : Executor α} (hj : w.Joins id b listener executor w') (j : WatcherId)
    {f : Registry α → Registry α} (hf : ∀ r, r.lastId ≤ (f r).lastId) :
    w.lastId j ≤ (w'.mapRegistry id f).lastId j := by
  rw [← hj.lastId_eq j]
  unfold lastId mapRegistry
  rw [watcher?_modify]
  split
  · cases w'.watcher? j with
    | none => exact Nat.le_refl _
    | some b => exact hf _
  · exact Nat.le_refl _

/-- A child is marked before its subscription is taken out: it is dropped, or its close ends. -/
structure Parts (w : World α) (id : WatcherId) (w' : World α) : Prop where
  sound : w'.SoundRegistries
  origin : ∀ j, w'.origin? j = w.origin? j
  closed : ∀ j, w'.isClosed j = w.isClosed j
  lastId : ∀ j, w'.lastId j = w.lastId j
  registered : ∀ j k, w'.isRegistered j k = w.isRegistered j k
  unwatched : ∀ j k, .unwatched j k true ∈ w'.events ↔ .unwatched j k true ∈ w.events
  others : ∀ c, c ≠ id → w'.isDropped c = w.isDropped c ∧ w'.closes c = w.closes c
  own : w'.isDropped id = true ∨ w'.closes id ≠ 0

theorem Parts.drop (hw : w.Ledger) {id p : WatcherId} {l : ListenerId} {d : Derivation α}
    (ho : w.origin? id = some (.child p l d)) :
    w.Parts id (w.modify id fun b => { b with dropped := true }) where
  sound := hw.sound.modify id fun _ hb => hb
  origin _ := origin?_modify _ _ _ fun _ => rfl
  closed _ := isClosed_modify _ _ _ fun _ => rfl
  lastId _ := lastId_modify _ _ _ fun _ => rfl
  registered _ _ := isRegistered_modify _ _ _ _ fun _ => rfl
  unwatched _ _ := Iff.rfl
  others c hc := by
    refine ⟨?_, rfl⟩
    unfold isDropped
    rw [watcher?_modify_of_ne _ (Ne.symm hc)]
  own := by
    obtain ⟨b, hb, -⟩ := exists_watcher?_of_origin? ho
    exact .inl (isDropped_of_watcher? (watcher?_modify_self hb _))

theorem Parts.finish (hw : w.Ledger) (q : Bool) (id : WatcherId) (name : String) (n : Nat) :
    w.Parts id (w.note q (.logged id name (.closed n))) where
  sound := hw.sound
  origin _ := rfl
  closed _ := rfl
  lastId _ := rfl
  registered _ _ := rfl
  unwatched j k := by
    rw [events_note, List.mem_append]
    exact or_iff_left (by simp)
  others c hc := by
    refine ⟨rfl, ?_⟩
    rw [closes_note, Event.endsClose, if_neg (by simp [Ne.symm hc])]
    rfl
  own := by
    refine .inr ?_
    rw [closes_note, Event.endsClose, if_pos (by simp)]
    exact Nat.succ_ne_zero _

namespace Bonds

theorem initial : ({} : World α).Bonds := ⟨nofun, nofun⟩

theorem keep (h : w.Bonds) (ht : w.SameEntries w') : w'.Bonds where
  issued hmem := by
    rw [ht.lastId]
    exact h.issued ((ht.unwatched_iff _ _).mp hmem)
  tied ho := by
    rw [ht.origin] at ho
    rw [ht.registered, ht.closed, ht.dropped, ht.unwatched_iff, ht.closes]
    exact h.tied ho

section Joining

variable {id : WatcherId} {b : Watcher α} {listener : Listener α} {executor : Executor α}

/-- A child that joins an open watcher is registered there. -/
theorem enrol (h : w.Bonds) (hw : w.Ledger) (hb : w.watcher? id = some b) (hcl : b.closed = false)
    (hj : w.Joins id b listener executor w') (hcloses : ∀ c, w.watcher? c = none → w.closes c = 0) :
    (w'.enrol id listener executor).Bonds where
  issued {p l} hmem := by
    rw [events_enrol, hj.events_eq] at hmem
    exact Nat.le_trans (h.issued hmem)
      (lastId_joined hj p (f := fun r => r.insert listener executor) fun r => Nat.le_succ _)
  tied {c p l d} ho := by
    have hevents : (w'.enrol id listener executor).events = w.events :=
      (events_enrol ..).trans hj.events_eq
    rw [origin?_enrol] at ho
    rw [hj.isRegistered_enrol hw hb, isClosed_enrol, hj.isClosed_eq, isDropped_enrol,
      hj.isDropped_eq, hevents, closes_of_eq hevents]
    rcases hj.origin?_or hw hb ho with ⟨hold, hne⟩ | ⟨hnew, rfl, rfl⟩
    · rw [or_iff_left hne]
      exact h.tied hold
    · refine iff_of_true (.inr ⟨rfl, rfl⟩) ⟨(isClosed_of_watcher? hb).trans hcl, ?_, ?_, ?_⟩
      · unfold isDropped
        rw [hnew]
        rfl
      · intro hmem
        have hle := h.issued hmem
        rw [Ledger.nextId_number hb] at hle
        omega
      · exact hcloses c hnew

/-- A child that joins a closed watcher is not. -/
theorem reserve (h : w.Bonds) (hw : w.Ledger) (hb : w.watcher? id = some b) (hcl : b.closed = true)
    (hj : w.Joins id b listener executor w') : (w'.reserve id).Bonds where
  issued {p l} hmem := by
    rw [events_reserve, hj.events_eq] at hmem
    exact Nat.le_trans (h.issued hmem) (lastId_joined hj p fun r => Nat.le_succ _)
  tied {c p l d} ho := by
    have hevents : (w'.reserve id).events = w.events := (events_reserve ..).trans hj.events_eq
    rw [origin?_reserve] at ho
    rw [isRegistered_reserve, hj.isRegistered_eq, isClosed_reserve, hj.isClosed_eq,
      isDropped_reserve, hj.isDropped_eq, hevents, closes_of_eq hevents]
    rcases hj.origin?_or hw hb ho with ⟨hold, -⟩ | ⟨-, rfl, rfl⟩
    · exact h.tied hold
    · refine iff_of_false ?_ fun hopen => ?_
      · rw [isRegistered_nextId hb hw.sound]
        exact Bool.false_ne_true
      · rw [isClosed_of_watcher? hb, hcl] at hopen
        exact nomatch hopen.1

end Joining

/-- A listener is taken out on request. -/
theorem unwatch (h : w.Bonds) (hw : w.Ledger) (q : Bool) {id : WatcherId} {k : ListenerId}
    (hreg : w.isRegistered id k = true) :
    ((w.note q (.unwatched id k true)).unregister id k).Bonds where
  issued {p l} hmem := by
    have hlast : ((w.note q (.unwatched id k true)).unregister id k).lastId p = w.lastId p :=
      lastId_modify _ _ _ fun _ => rfl
    rw [hlast]
    rcases (unwatched_unregister_iff w q id p k l).mp hmem with hmem | ⟨rfl, rfl⟩
    · exact h.issued hmem
    · exact lastId_of_registered hw.sound hreg
  tied {c p l d} ho := by
    rw [origin?_unregister] at ho
    have hsound : (w.note q (.unwatched id k true)).SoundRegistries := hw.sound
    have hcloses : ((w.note q (.unwatched id k true)).unregister id k).closes c = w.closes c :=
      closes_note w q _ c
    rw [isRegistered_unregister hsound, isClosed_unregister, isDropped_unregister,
      unwatched_unregister_iff, hcloses, not_or]
    show w.isRegistered p l = true ∧ _ ↔ w.isClosed p = false ∧ w.isDropped c = false ∧ _
    rw [h.tied ho]
    tauto

/-- The subscription of a child that parts is taken out. -/
theorem detach (h : w.Bonds) (hw : w.Ledger) {id : WatcherId} {message : String → Diagnostic}
    {w₁ : World α} (hp : w.Parts id w₁) (hmessage : ∀ parent n, message parent ≠ .closed n)
    (hdet : w₁.Detaches id message w') : w'.Bonds where
  issued {p l} hmem := by
    rw [hdet.lastId_eq, hp.lastId]
    exact h.issued ((hp.unwatched p l).mp ((hdet.unwatched_iff p l).mp hmem))
  tied {c p l d} ho := by
    rw [hdet.origin?_eq, hp.origin] at ho
    rw [hdet.isRegistered_iff hp.sound, hdet.isClosed_eq, hdet.isDropped_eq, hdet.unwatched_iff,
      hdet.closes hmessage, hp.registered, hp.closed, hp.unwatched, hp.origin]
    by_cases hc : c = id
    · subst hc
      refine iff_of_false (fun hreg => hreg.2 d ho) ?_
      rintro ⟨-, hdr, -, hcl⟩
      rcases hp.own with hown | hown
      · exact nomatch hown.symm.trans hdr
      · exact hown hcl
    · obtain ⟨hdr, hcl⟩ := hp.others c hc
      rw [hdr, hcl, ← h.tied ho]
      exact and_iff_left_of_imp fun hreg d' ho' => hc (hw.eq_of_subscription hreg ho ho')

theorem changesEntries (h : w.Bonds) (hr : w.ChangesEntries w')
    (hcloses : ∀ c, w.watcher? c = none → w.closes c = 0) : w'.Bonds := by
  cases hr with
  | keep ht => exact h.keep ht
  | plant name =>
    refine ⟨fun {p l} hmem => ?_, fun {c p l d} ho => ?_⟩
    · rw [lastId_addWatcher _ _ _ rfl]
      exact h.issued hmem
    · rw [origin?_addWatcher] at ho
      split at ho
      · exact nomatch Option.some.inj ho
      · rw [isRegistered_addWatcher _ _ _ _ rfl, isClosed_addWatcher _ _ _ rfl,
          isDropped_addWatcher _ _ _ rfl]
        exact h.tied ho
  | enrol hw hb hcl hj => exact h.enrol hw hb hcl hj hcloses
  | reserve hw hb hcl hj => exact h.reserve hw hb hcl hj
  | unwatch p hw hreg => exact h.unwatch hw p hreg
  | drop hw ho hdr hdet => exact h.detach hw (.drop hw ho) (by simp) hdet
  | @close id b hw hb hcl =>
    refine ⟨fun {p l} hmem => ?_, fun {c p l d} ho => ?_⟩
    · have hlast : (w.modify id Watcher.close).lastId p = w.lastId p :=
        lastId_modify _ _ _ fun _ => rfl
      rw [hlast]
      exact h.issued hmem
    · rw [origin?_modify _ _ _ Watcher.close_origin] at ho
      have hdropped : (w.modify id Watcher.close).isDropped c = w.isDropped c :=
        isDropped_modify _ _ _ fun _ => rfl
      rw [isRegistered_close hw.sound, hdropped, isClosed_close_eq_false_iff hb, h.tied ho]
      show (_ ∧ _ ∧ _ ∉ w.events ∧ w.closes c = 0) ∧ _ ↔
        (_ ∧ _) ∧ _ ∧ _ ∉ w.events ∧ w.closes c = 0
      tauto
  | finish q name n hw hdet => exact h.detach hw (.finish hw q _ name n) (by simp) hdet

end Bonds

end World

/-! ## Runs -/

namespace Machine

variable [BEq α] {P : Machine α → Prop} {m m' : Machine α}

omit [BEq α] in
theorem interrupts_eq_true_iff {c : WatcherId} : m.interrupts c = true ↔
    ∃ payload n stk, m.control = .unwind payload ∧ m.stack = .closing c n :: stk := by
  unfold interrupts
  constructor
  · intro h
    split at h
    · rename_i payload id n stk hc hs
      obtain rfl := of_decide_eq_true h
      exact ⟨payload, n, stk, hc, hs⟩
    · exact nomatch h
  · rintro ⟨payload, n, stk, hc, hs⟩
    rw [hc, hs]
    exact decide_eq_true rfl

/-- Every close has ended, is under way or was interrupted once, and a subscription is registered
unless something took it out. -/
theorem Run.bonds {ms : List (Machine α)} (h : Run ms) : ∀ m ∈ ms.head?,
    m.Closes (fun c => ms.tail.countP (·.interrupts c)) ∧ m.world.Bonds := by
  induction h with
  | initial =>
    rintro m ⟨⟩
    exact ⟨.initial, .initial⟩
  | @next m m' ms hrun hn ih =>
    rintro _ ⟨⟩
    obtain ⟨hcloses, hbonds⟩ := ih m rfl
    have hm : m.WellFormed :=
      (hrun.reached (P := fun _ => True) (fun _ _ => trivial) m rfl).wellFormed
    by_cases hint : ∃ c, m.interrupts c = true
    · obtain ⟨c, hc⟩ := hint
      obtain ⟨payload, n, stk, hcontrol, hstk⟩ := interrupts_eq_true_iff.mp hc
      obtain ⟨w, _, _⟩ := m
      obtain rfl : _ = Frame.closing c n :: stk := hstk
      obtain rfl : _ = Control.unwind payload := hcontrol
      obtain rfl : m' = ⟨w, stk, .unwind payload⟩ := by
        cases hn with
        | start op hs => exact nomatch hs
        | step => rfl
      refine ⟨fun j => ?_, hbonds⟩
      have heq := hcloses j
      rw [List.countP_cons] at heq
      show _ + _ + (_ :: ms).countP _ = _
      rw [List.countP_cons]
      show w.closes j + stk.countP (Frame.closes j) +
        (ms.countP (·.interrupts j) + if decide (c = j) then 1 else 0) = _
      rw [← heq]
      show _ = w.closes j + (stk.countP (Frame.closes j) + if decide (c = j) then 1 else 0) +
        ms.countP (·.interrupts j)
      omega
    · have hnone : ∀ c, m.interrupts c = false := fun c => by
        rw [← Bool.not_eq_true]
        exact fun hc => hint ⟨c, hc⟩
      have hsame : (fun c => (m :: ms).countP (·.interrupts c)) = fun c =>
          ms.countP (·.interrupts c) := by
        funext c
        rw [List.countP_cons_of_neg (by rw [hnone c]; exact Bool.false_ne_true)]
      show m'.Closes (fun c => (m :: ms).countP (·.interrupts c)) ∧ _
      rw [hsame]
      refine hn.keeps (P := fun x => ∀ c, x.interrupts c = false)
        (I := fun x => x.Closes (fun c => ms.countP (·.interrupts c)) ∧ x.world.Bonds) hm
        (fun _ _ _ _ _ => hnone) ?_ ⟨hcloses, hbonds⟩
      rintro x x' ⟨hcl, hb⟩ hpost
      refine ⟨hcl.posting hpost fun _ hx => hx,
        hb.changesEntries hpost.changesEntries fun c hc => ?_⟩
      exact hcl.eq_zero (World.isClosed_of_none hc)

omit [BEq α] in
/-- Where no waker panics no close is interrupted. -/
theorem Orderly.not_interrupts (h : m.Orderly) (c : WatcherId) : m.interrupts c = false := by
  rw [← Bool.not_eq_true, interrupts_eq_true_iff]
  rintro ⟨payload, n, stk, hcontrol, hstk⟩
  exact ((h.guarded payload hcontrol).2 (.closing c n) (by rw [hstk]; rfl)).2 c n rfl

/-- What was taken out of a registry, or never came into it, is not registered later, and the child
does not apply its transformation again. -/
theorem Reached.not_applied_again (h : m.Reached P) {c p : WatcherId} {l : ListenerId}
    {d : Derivation α} (ho : m.world.origin? c = some (.child p l d))
    (hreg : m.world.isRegistered p l = false) (hl : m.Later P m') :
    m'.world.isRegistered p l = false ∧ m'.world.applications c = m.world.applications c := by
  have hm := h.wellFormed
  have hx := hl.extends_world hm
  have hgone : m.world.Gone p l := h.issued.gone hm.ledger ho hreg
  have hcalls := hl.callsTo_eq hm h.shut hgone
  exact ⟨(hgone.of_extends hx).not_registered (h.later hl).shut (hl.wellFormed hm).ledger,
    World.applications_eq_of_callsTo_eq hx (h.later hl).attested (hx.origin ho) hcalls⟩

/-- In every machine of every run a closed child is still subscribed if and only if its parent is
open, it has not been dropped, nobody has taken its subscription out, and its close has not come to
its end: it is under way, or a panic took it off, and no panic does where no waker panics. Once the
child is not subscribed, its transformation is never applied again. -/
theorem closed_child_subscribed_iff {ms : List (Machine α)} (h : Run (m :: ms))
    {c p : WatcherId} {l : ListenerId} {d : Derivation α}
    (ho : m.world.origin? c = some (.child p l d)) (hcl : m.world.isClosed c = true) :
    (m.world.isRegistered p l = true ↔
      m.world.isClosed p = false ∧ m.world.isDropped c = false ∧
        .unwatched p l true ∉ m.world.events ∧
        ((∃ n, .closing c n ∈ m.stack) ∨ ∃ x ∈ ms, x.interrupts c = true)) ∧
    (m.world.isRegistered p l = false → ∀ m', m.Later (fun _ => True) m' →
      m'.world.isRegistered p l = false ∧ m'.world.applications c = m.world.applications c) ∧
    ((∀ x ∈ ms, x.wakersCalm = true) → ∀ x ∈ ms, x.interrupts c = false) := by
  obtain ⟨hcloses, hbonds⟩ := h.bonds m rfl
  refine ⟨?_, ?_, ?_⟩
  · rw [hbonds.tied ho]
    refine and_congr_right fun _ => and_congr_right fun _ => and_congr_right fun _ => ?_
    have heq : m.world.closes c + m.stack.countP (Frame.closes c) + ms.countP (·.interrupts c) =
        if m.world.isClosed c then 1 else 0 := hcloses c
    rw [hcl, if_pos rfl] at heq
    have hframe : 0 < m.stack.countP (Frame.closes c) ↔ ∃ n, .closing c n ∈ m.stack := by
      rw [List.countP_pos_iff]
      constructor
      · rintro ⟨f, hf, hc⟩
        cases f with
        | closing id n =>
          obtain rfl := of_decide_eq_true hc
          exact ⟨n, hf⟩
        | _ => exact nomatch hc
      · rintro ⟨n, hn⟩
        exact ⟨_, hn, decide_eq_true rfl⟩
    have hlost : 0 < ms.countP (·.interrupts c) ↔ ∃ x ∈ ms, x.interrupts c = true :=
      List.countP_pos_iff
    rw [← hframe, ← hlost]
    omega
  · have hreach := h.reached (P := fun _ => True) (fun _ _ => trivial) m rfl
    exact fun hreg m' hl => hreach.not_applied_again ho hreg hl
  · intro hcalm x hx
    have hreach := h.reached_of_mem hcalm x (List.mem_cons_of_mem m hx)
    exact (hreach.orderly fun _ hP => hP).not_interrupts c

/-! ### A waker that panics while a child is closed -/

/-- A child whose first value a waker waits for, which panics. -/
def awaitedChild : Machine Nat :=
  ({ world := {} } : Machine Nat).carry 12
    [.root "r" "r" false, .child "r" "c" (.ok "c") (fun n => .value (n / 2)) fun _ => [],
      .future "f" (.watcher "c"), .futurePoll "f" "k" fun _ => [.panic .other]]

/-- The child is being closed, and the panic has reached the close. -/
def interruptedClose : Machine Nat := (awaitedChild.world.start (.close "c")).steps 4

def strandedChild : Machine Nat := interruptedClose.step.step

def pushAfterClose : Machine Nat :=
  (strandedChild.world.start (.push "r" ⟨1⟩ ⟨8, 8⟩)).steps 12

def pushAfterDrop : Machine Nat :=
  pushAfterClose.carry 12 [.drop "c", .push "r" ⟨2⟩ ⟨9, 9⟩]

theorem reached_interruptedClose : interruptedClose.Reached fun _ => True :=
  (Reached.initial.carry_any (by decide +kernel)).begin_any (by decide +kernel)

theorem reached_strandedChild : strandedChild.Reached fun _ => True :=
  (reached_interruptedClose.next trivial (Next.of_stack (by decide +kernel))).next trivial
    (Next.of_stack (by decide +kernel))

theorem later_pushAfterClose : strandedChild.Later (fun _ => True) pushAfterClose :=
  Later.refl.begin_any (by decide +kernel)

theorem later_pushAfterDrop : pushAfterClose.Later (fun _ => True) pushAfterDrop :=
  Later.refl.carry_any (by decide +kernel)

theorem closed_child_subscribed_iff_interrupted :
    interruptedClose.interrupts 1 = true ∧
      strandedChild.world.isRegistered 0 ⟨1⟩ = true ∧
      pushAfterDrop.world.isRegistered 0 ⟨1⟩ = false := by
  obtain ⟨d, ho⟩ : ∃ d, strandedChild.world.origin? 1 = some (.child 0 ⟨1⟩ d) :=
    ⟨_, by with_unfolding_all rfl⟩
  have hint : interruptedClose.interrupts 1 = true := by decide +kernel
  have hplain : (strandedChild.world.events.any fun
      | .unwatched .. => true
      | _ => false) = false := by decide +kernel
  obtain ⟨ms, hrun, -⟩ := reached_interruptedClose.run
  have hlast : Run (strandedChild :: interruptedClose.step :: interruptedClose :: ms) :=
    (hrun.next (Next.of_stack (by decide +kernel))).next (Next.of_stack (by decide +kernel))
  have hiff := (closed_child_subscribed_iff hlast ho (by decide +kernel)).1
  refine ⟨hint, hiff.mpr ⟨by decide +kernel, by decide +kernel, ?_, .inr ⟨_, by simp, hint⟩⟩, ?_⟩
  · exact fun hmem => List.any_eq_false.mp hplain _ hmem rfl
  · have hlater := later_pushAfterClose.trans later_pushAfterDrop
    have hreach := reached_strandedChild.later hlater
    obtain ⟨ms', hrun', -⟩ := hreach.run
    have ho' := (hlater.extends_world reached_strandedChild.wellFormed).origin ho
    have hdropped : pushAfterDrop.world.isDropped 1 = true := by decide +kernel
    have hiff' := (closed_child_subscribed_iff hrun' ho' (by decide +kernel)).1
    rw [← Bool.not_eq_true, hiff', hdropped]
    exact fun h => nomatch h.2.1

/-- A waker that panics keeps a closed child subscribed: the next push applies its transformation,
although nothing is under way. -/
theorem interrupted_close_keeps_subscription :
    strandedChild.Reached (fun _ => True) ∧ strandedChild.stack = [] ∧
      strandedChild.world.isClosed 1 = true ∧
      strandedChild.world.isRegistered 0 ⟨1⟩ = true ∧
      strandedChild.Later (fun _ => True) pushAfterClose ∧ pushAfterClose.stack = [] ∧
      strandedChild.world.applications 1 = [] ∧
      pushAfterClose.world.applications 1 = [⟨0, ⟨1⟩, 1, ⟨⟨1⟩, 8⟩⟩] :=
  ⟨reached_strandedChild, List.isEmpty_iff.mp (by decide +kernel), by decide +kernel,
    by decide +kernel, later_pushAfterClose, List.isEmpty_iff.mp (by decide +kernel),
    List.isEmpty_iff.mp (by decide +kernel), by with_unfolding_all rfl⟩

end Machine

end WatchTree
