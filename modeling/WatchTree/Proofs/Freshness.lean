import WatchTree.Proofs.Deliveries

/-!
# Freshness

A push made by a callback is carried out inside the delivery of an older update, which then goes on
with listeners that already know better. What keeps such a delivery harmless is `Machine.Fresh`:
of two unfinished deliveries of one watcher the inner one is of the newer update, and a listener
that is called at once knows the newest update or an unfinished delivery of it will still reach it.
Only a panic of an executor or a waker could lose such a delivery.
-/

namespace WatchTree

variable {α : Type}

/-! ## Unfinished deliveries -/

/-- An update that listeners are still waiting for. -/
structure Due where
  watcher : WatcherId
  update : Nat
  waiting : List ListenerId

namespace Frame

/-- The update that a frame is delivering. -/
def due? : Frame α → Option Due
  | announcing id n _ ls | fanOut id n _ ls => some ⟨id, n, ls⟩
  | _ => none

/-- The unfinished deliveries of a stack, innermost first. -/
def dues (stk : List (Frame α)) : List Due := stk.filterMap due?

/-- Part of a delivery. -/
def isDelivery : Frame α → Bool
  | waking _ | announcing .. | fanOut .. => true
  | _ => false

theorem dues_cons_of_none {f : Frame α} (h : f.due? = none) (stk : List (Frame α)) :
    dues (f :: stk) = dues stk := List.filterMap_cons_none h

theorem due?_of_isPlain {f : Frame α} (h : f.isPlain = true) : f.due? = none := by
  cases f <;> first | rfl | exact nomatch h

theorem due?_of_not_isDelivery {f : Frame α} (h : f.isDelivery = false) : f.due? = none := by
  cases f <;> first | rfl | exact nomatch h

/-- A frame that is done keeps nobody waiting. -/
theorem waiting_of_isDone {f : Frame α} (h : f.isDone = true) {d : Due} (hd : f.due? = some d) :
    d.waiting = [] := by
  cases f with
  | announcing => exact nomatch h
  | fanOut id n s ls =>
    cases ls with
    | nil =>
      rw [← Option.some.inj hd]
    | cons l ls => exact nomatch h
  | _ => exact nomatch hd

/-- No part of a delivery is on top. -/
def Clear (stk : List (Frame α)) : Prop := ∀ f ∈ stk.head?, f.isDelivery = false

theorem clear_cons {f : Frame α} {stk : List (Frame α)} (h : f.isDelivery = false) :
    Clear (f :: stk) := by
  rintro g ⟨⟩
  exact h

theorem clear_of_onHolding : ∀ {stk : List (Frame α)}, OnHolding stk → Clear stk
  | holding _ :: _, _ => clear_cons rfl

theorem clear_of_onRunning : ∀ {stk : List (Frame α)}, OnRunning stk → Clear stk
  | script (.executor ..) _ :: _, _ | draining .. :: _, _ | picking .. :: _, _ => clear_cons rfl

theorem clear_of_onClosing : ∀ {stk : List (Frame α)}, OnClosing stk → Clear stk
  | holding _ :: _, _ | ending _ :: _, _ => clear_cons rfl

theorem clear_of_operable {w : World α} : ∀ {stk : List (Frame α)}, w.Operable stk → Clear stk
  | [], _ => fun _ h => nomatch h
  | script .. :: _, _ => clear_cons rfl

/-- Only executors, wakers and parts of a delivery stand on a part of a delivery. -/
theorem clear_of_stands {w : World α} {f : Frame α} {stk : List (Frame α)} (h : f.Stands w stk)
    (hf : f.isDelivery = false) (hexec : ∀ id l todo, f ≠ .script (.executor id l) todo)
    (hwaker : ∀ name todo, f ≠ .script (.waker name) todo) : Clear stk := by
  cases f with
  | script site todo =>
    cases site with
    | executor id l => exact absurd rfl (hexec id l todo)
    | waker name => exact absurd rfl (hwaker name todo)
    | observer label =>
      obtain ⟨t, rest, rfl⟩ := h
      exact clear_cons rfl
    | derivation label =>
      obtain ⟨⟨c, s, rest, rfl⟩, -⟩ := h
      exact clear_cons rfl
    | fetch =>
      obtain ⟨p, reply, rest, rfl⟩ := h
      exact clear_cons rfl
    | elsewhere =>
      obtain ⟨p, rest, rfl⟩ := h
      exact clear_cons rfl
  | applying c s =>
    obtain ⟨t, rest, rfl, -⟩ := h
    exact clear_cons rfl
  | waking => exact nomatch hf
  | announcing => exact nomatch hf
  | fanOut => exact nomatch hf
  | holding id => exact clear_of_operable h
  | calling t => exact clear_of_onRunning h.2
  | watching label id => exact clear_of_onHolding h
  | constructing name c => exact clear_of_onHolding h
  | closing id n => exact clear_of_onClosing h
  | draining ts k => exact clear_of_operable h.1
  | picking q is k => exact clear_of_operable h
  | polling p => exact clear_of_onHolding h.2
  | fetching p reply => exact clear_of_onHolding h.2
  | pushing p => exact clear_of_onHolding h.2
  | ending p => exact clear_of_onHolding h.2

end Frame

/-! ## The invariant -/

/-- Of two deliveries of one watcher the former is of the newer update. -/
abbrev Due.Ordered (ds : List Due) : Prop :=
  ds.Pairwise fun a b => a.watcher = b.watcher → b.update < a.update

/-- A listener that is called at once knows the newest update, or is waiting for it. -/
def World.UpToDate (w : World α) (ds : List Due) (id : WatcherId) (l : ListenerId) : Prop :=
  ∀ r, w.registration? id l = some r → r.active = true → r.executor.disposal.isImmediate = true →
    r.delivered = w.updates id ∨
      ∃ d ∈ ds, d.watcher = id ∧ d.update = w.updates id ∧ l ∈ d.waiting

/-- No delivery that someone is waiting for can be lost. -/
structure Machine.Fresh (m : Machine α) : Prop where
  /-- An inner delivery is of a newer update than an outer one. -/
  ordered : Due.Ordered (Frame.dues m.stack)
  current : ∀ id l, m.world.UpToDate (Frame.dues m.stack) id l
  /-- A panic never takes off a part of a delivery. -/
  guarded : ∀ payload, m.control = .unwind payload → Frame.Clear m.stack

namespace World

variable {w w' : World α}

theorem UpToDate.keep {ds ds' : List Due} {id : WatcherId} {l : ListenerId}
    (h : w.UpToDate ds id l) (hupd : w'.updates id = w.updates id)
    (hreg : ∀ r', w'.registration? id l = some r' → r'.active = true →
      r'.executor.disposal.isImmediate = true → ∃ r, w.registration? id l = some r ∧
        r.active = true ∧ r.executor = r'.executor ∧ r.delivered = r'.delivered)
    (hds : ∀ d ∈ ds, d.watcher = id → l ∈ d.waiting →
      ∃ d' ∈ ds', d'.watcher = d.watcher ∧ d'.update = d.update ∧ l ∈ d'.waiting) :
    w'.UpToDate ds' id l := by
  intro r' hr' ha' hi'
  obtain ⟨r, hr, ha, he, hd⟩ := hreg r' hr' ha' hi'
  rw [← hd, hupd]
  rcases h r hr ha (by rw [he]; exact hi') with hcur | ⟨d, hd, hw, hn, hl⟩
  · exact .inl hcur
  · obtain ⟨d', hd', hw', hn', hl'⟩ := hds d hd hw hl
    exact .inr ⟨d', hd', hw'.trans hw, hn'.trans hn, hl'⟩

theorem UpToDate.alike {ds : List Due} {id : WatcherId} {l : ListenerId} (h : w.UpToDate ds id l)
    (ha : w.Alike w') : w'.UpToDate ds id l :=
  h.keep (ha.updates id)
    (fun r hr hact _ => ⟨r, by rw [← ha.registration]; exact hr, hact, rfl, rfl⟩)
    fun d hd _ hl => ⟨d, hd, rfl, rfl, hl⟩

/-- Every unfinished delivery is of an update that there has been. -/
theorem due_le_updates (hw : w.Ledger) {stk : List (Frame α)} (hs : w.Stacked stk) {d : Due}
    (hd : d ∈ Frame.dues stk) : d.update ≤ w.updates d.watcher := by
  induction stk with
  | nil => exact absurd hd List.not_mem_nil
  | cons f stk ih =>
    cases f with
    | announcing id n s ls =>
      rcases List.mem_cons.mp hd with rfl | hd
      · exact (hw.genuine_bounds hs.1.1).2
      · exact ih hs.2 hd
    | fanOut id n s ls =>
      rcases List.mem_cons.mp hd with rfl | hd
      · exact (hw.genuine_bounds hs.1.1).2
      · exact ih hs.2 hd
    | _ => exact ih hs.2 hd

/-- A registration was told no update that there has not been. -/
theorem Deliveries.delivered_le_updates (hd : w.Deliveries) (hw : w.Ledger) {id : WatcherId}
    {l : ListenerId} {r : Registration α} (hr : w.registration? id l = some r) :
    r.delivered ≤ w.updates id := by
  rw [hd.delivered hr]
  rcases Nat.eq_zero_or_pos (Task.lastUpdate (w.callsTo id l)) with hzero | hpos
  · rw [hzero]
    exact Nat.zero_le _
  · obtain ⟨t, ht, heq⟩ := Task.exists_of_lastUpdate_pos hpos
    rw [← heq]
    exact (hw.genuine_bounds (hd.genuine_of_called hw (List.mem_of_getLast? ht))).2

end World

/-! ## Moves -/

section Serve

variable {id : WatcherId} {n : Nat} {l : ListenerId} {ls : List ListenerId} {ds : List Due}

theorem Due.Ordered.serve (h : Due.Ordered (⟨id, n, l :: ls⟩ :: ds)) :
    Due.Ordered (⟨id, n, ls⟩ :: ds) := by
  obtain ⟨hhead, htail⟩ := List.pairwise_cons.mp h
  exact .cons hhead htail

/-- Serving one listener keeps all others waiting. -/
theorem Due.exists_serve {j : WatcherId} {k : ListenerId} (hjk : ¬ (id = j ∧ k = l)) (d : Due)
    (hd : d ∈ (⟨id, n, l :: ls⟩ :: ds : List Due)) (hw : d.watcher = j) (hk : k ∈ d.waiting) :
    ∃ d' ∈ (⟨id, n, ls⟩ :: ds : List Due), d'.watcher = d.watcher ∧ d'.update = d.update ∧
      k ∈ d'.waiting := by
  rcases List.mem_cons.mp hd with rfl | hd
  · rcases List.mem_cons.mp hk with rfl | hk
    · exact absurd ⟨hw, rfl⟩ hjk
    · exact ⟨_, List.mem_cons_self, rfl, rfl, hk⟩
  · exact ⟨d, List.mem_cons_of_mem _ hd, rfl, rfl, hk⟩

end Serve

namespace Machine

variable {w w' : World α} {stk stk' : List (Frame α)} {c c' : Control α}

namespace Fresh

theorem initial : Fresh ({ world := {} } : Machine α) where
  ordered := .nil
  current id l r hr := by simp [World.registration?, World.watcher?] at hr
  guarded payload h := nomatch h

theorem alike (h : Fresh ⟨w, stk, c⟩) (ha : w.Alike w')
    (hds : Frame.dues stk' = Frame.dues stk)
    (hc : ∀ payload, c' = .unwind payload → Frame.Clear stk') : Fresh ⟨w', stk', c'⟩ where
  ordered := by
    show Due.Ordered (Frame.dues stk')
    rw [hds]
    exact h.ordered
  current id l := by
    show w'.UpToDate (Frame.dues stk') id l
    rw [hds]
    exact (h.current id l).alike ha
  guarded := hc

/-- A change of registrations that tells nobody anything. -/
theorem of_registrations (h : Fresh ⟨w, stk, c⟩) (hupd : ∀ id, w'.updates id = w.updates id)
    (hreg : ∀ id l r', w'.registration? id l = some r' → r'.active = true →
      r'.executor.disposal.isImmediate = true →
      r'.delivered = w.updates id ∨ ∃ r, w.registration? id l = some r ∧ r.active = true ∧
        r.executor = r'.executor ∧ r.delivered = r'.delivered) : Fresh ⟨w', stk, c⟩ where
  ordered := h.ordered
  current id l r' hr' ha' hi' := by
    rw [hupd]
    rcases hreg id l r' hr' ha' hi' with hnew | ⟨r, hr, ha, he, hd⟩
    · exact .inl hnew
    · rw [← hd]
      exact h.current id l r hr ha (by rw [he]; exact hi')
  guarded := h.guarded

theorem retire (h : Fresh ⟨w, stk, c⟩) {P : WatcherId → ListenerId → Prop}
    [∀ id l, Decidable (P id l)] (hupd : ∀ id, w'.updates id = w.updates id)
    (hreg : ∀ id l, w'.registration? id l = if P id l then
      (w.registration? id l).map Registration.retire else w.registration? id l) :
    Fresh ⟨w', stk, c⟩ := by
  refine h.of_registrations hupd fun id l r' hr' ha' _ => .inr ?_
  rw [hreg] at hr'
  split at hr'
  · obtain ⟨r, -, rfl⟩ := Option.map_eq_some_iff.mp hr'
    exact nomatch ha'
  · exact ⟨r', hr', ha', rfl, rfl⟩

theorem detaches (h : Fresh ⟨w, stk, c⟩) {id : WatcherId} {message : String → Diagnostic}
    (hdet : w.Detaches id message w') : Fresh ⟨w', stk, c⟩ := by
  cases hdet with
  | @found p l d q name parent ho hr =>
    have hretired : Fresh ⟨w.unregister p l, stk, c⟩ :=
      h.retire (fun j => World.updates_unregister _ p j l)
        (World.registration?_unregister _ p · l ·)
    exact hretired.alike (.note _ q rfl) rfl h.guarded
  | missing hr => exact h

/-- A new registration that is not to be told anything. -/
theorem join (h : Fresh ⟨w, stk, c⟩) (hw : w.Ledger) {id : WatcherId} {b : Watcher α}
    {listener : Listener α} {executor : Executor α} (hb : w.watcher? id = some b)
    (hj : w.Joins id b listener executor w')
    (hquiet : executor.disposal.isImmediate = true → w.updates id = 0) :
    Fresh ⟨w'.enrol id listener executor, stk, c⟩ := by
  refine h.of_registrations (fun j => ?_) fun j k r' hr' ha' hi' => ?_
  · rw [World.updates_enrol, hj.updates_eq]
  · rw [World.registration?_joined hw.sound hb hj] at hr'
    split at hr'
    · rename_i heq
      obtain ⟨rfl, rfl⟩ := heq
      obtain rfl := Option.some.inj hr'
      exact .inl (hquiet hi').symm
    · exact .inr ⟨r', hr', ha', rfl, rfl⟩

theorem handOver (h : Fresh ⟨w, stk, c⟩) (p : Bool) (t : Task α) :
    Fresh ⟨w.handOver p t, stk, c⟩ := by
  refine h.of_registrations (World.updates_handOver w p t) fun j k r' hr' ha' hi' => .inr ?_
  rw [World.registration?_handOver] at hr'
  split at hr'
  · obtain ⟨r, hr, rfl⟩ := Option.map_eq_some_iff.mp hr'
    exact ⟨r, hr, ha', rfl, rfl⟩
  · exact ⟨r', hr', ha', rfl, rfl⟩

/-- A listener that is not to be called at once is passed over in a delivery. -/
theorem serve {id : WatcherId} {n : Nat} {s : Latest α} {l : ListenerId} {ls : List ListenerId}
    (h : Fresh ⟨w, .fanOut id n s (l :: ls) :: stk, c⟩)
    (hquiet : ∀ r, w.registration? id l = some r → r.active = true →
      r.executor.disposal.isImmediate = false) :
    Fresh ⟨w, .fanOut id n s ls :: stk, c⟩ where
  ordered := Due.Ordered.serve h.ordered
  current j k := by
    by_cases hjk : id = j ∧ k = l
    · obtain ⟨rfl, rfl⟩ := hjk
      intro r hr ha hi
      rw [hquiet r hr ha] at hi
      exact nomatch hi
    · exact (h.current j k).keep rfl (fun r hr ha _ => ⟨r, hr, ha, rfl, rfl⟩)
        (Due.exists_serve hjk)
  guarded payload hc := absurd (h.guarded payload hc _ rfl) (by simp [Frame.isDelivery])

/-- An accepted update is still due to every active listener. -/
theorem adopt (h : Fresh ⟨w, stk, c⟩) (hw : w.Ledger) (hs : w.Stacked stk) (p q : Bool)
    (name : String) {id : WatcherId} {b : Watcher α} (s : Latest α) (hb : w.watcher? id = some b) :
    Fresh ⟨w.adopt p q name id b s, .waking b.slot.wakers ::
      .announcing id (b.updates + 1) s b.registry.entries :: stk, .proceed⟩ where
  ordered := by
    -- All deliveries under way are of updates that there have been before.
    refine List.pairwise_cons.mpr ⟨?_, h.ordered⟩
    intro d hd heq
    have hle := World.due_le_updates hw hs hd
    obtain rfl : id = d.watcher := heq
    rw [World.updates_of_watcher? hb] at hle
    show d.update < b.updates + 1
    omega
  current j k := by
    show World.UpToDate _ (⟨id, b.updates + 1, b.registry.entries⟩ :: Frame.dues stk) j k
    by_cases hj : id = j
    · subst hj
      intro r hr ha _
      rw [World.registration?_adopt, World.registration?_of_watcher? hb] at hr
      have hmem : k ∈ b.registry.entries := ((hw.sound id b hb).mem_entries_iff k).mpr ⟨r, hr, ha⟩
      refine .inr ⟨_, List.mem_cons_self, rfl, ?_, hmem⟩
      rw [World.updates_adopt hb, if_pos rfl, World.updates_of_watcher? hb]
    · refine (h.current j k).keep ?_ ?_ fun d hd _ hk =>
        ⟨d, List.mem_cons_of_mem _ hd, rfl, rfl, hk⟩
      · rw [World.updates_adopt hb, if_neg hj]
        rfl
      · intro r hr ha _
        rw [World.registration?_adopt] at hr
        exact ⟨r, hr, ha, rfl, rfl⟩
  guarded payload hc := nomatch hc

/-- Frames that no one waits for come and go. -/
theorem leave {f : Frame α} (h : Fresh ⟨w, f :: stk, c⟩) (hf : f.isDone = true)
    (hc : ∀ payload, c' = .unwind payload → Frame.Clear stk) : Fresh ⟨w, stk, c'⟩ := by
  cases hd : f.due? with
  | none => exact h.alike (.refl w) (Frame.dues_cons_of_none hd stk).symm hc
  | some d =>
    have hwait := Frame.waiting_of_isDone hf hd
    have hds : Frame.dues (f :: stk) = d :: Frame.dues stk := List.filterMap_cons_some hd
    refine ⟨?_, ?_, hc⟩
    · have hord : Due.Ordered (d :: Frame.dues stk) := hds ▸ h.ordered
      exact (List.pairwise_cons.mp hord).2
    · intro id l
      have hcur : w.UpToDate (d :: Frame.dues stk) id l := hds ▸ h.current id l
      refine hcur.keep rfl (fun r hr ha _ => ⟨r, hr, ha, rfl, rfl⟩) ?_
      intro d' hd' _ hl
      rcases List.mem_cons.mp hd' with rfl | hd'
      · rw [hwait] at hl
        exact absurd hl List.not_mem_nil
      · exact ⟨d', hd', rfl, rfl, hl⟩

/-- A panic takes off a frame that is not part of a delivery. -/
theorem unwind {f : Frame α} {payload : Payload} (hs : f.Stands w stk)
    (h : Fresh ⟨w, f :: stk, .unwind payload⟩)
    (hcalm : calm ⟨w, f :: stk, .unwind payload⟩ = true) : Fresh ⟨w, stk, .unwind payload⟩ := by
  have hf : f.isDelivery = false := h.guarded payload rfl f rfl
  have hds := Frame.dues_cons_of_none (Frame.due?_of_not_isDelivery hf) stk
  refine h.alike (.refl w) hds.symm fun _ _ => Frame.clear_of_stands hs hf ?_ ?_
  · rintro id l todo rfl
    exact nomatch hcalm
  · rintro name todo rfl
    exact nomatch hcalm

section Move

variable [BEq α] {m m' : Machine α}

theorem move (hm : m.WellFormed) (h : m.Fresh) (hmove : Move (fun m => m.calm = true) m m') :
    m'.Fresh := by
  cases hmove with
  | steer hc => exact h.alike (.refl _) rfl fun p hp => absurd hp (hc p)
  | raise payload hop => exact h.alike (.refl _) rfl fun _ _ => Frame.clear_of_operable hop
  | unwind hok => exact h.unwind hm.stacked.1 hok
  | leave hc hf => exact h.leave hf fun p hp => absurd hp (hc p)
  | enter hc hf hs =>
    exact h.alike (.refl _) (Frame.dues_cons_of_none (Frame.due?_of_isPlain hf) _)
      fun p hp => absurd hp (hc p)
  | remark p he => exact h.alike (.note _ p (Event.isQuiet_of_isIdle he)) rfl h.guarded
  | rename hw hq hh hr => exact h.alike (.of_eq hw hh) rfl h.guarded
  | enqueue name ht => exact h.alike (.of_eq rfl rfl) rfl h.guarded
  | dequeue name ht => exact h.alike (.of_eq rfl rfl) rfl h.guarded
  | enlist p waker hb hp =>
    exact h.alike ((World.Alike.note _ p rfl).trans (.enlist _ _ waker)) rfl h.guarded
  | drop ho hdr hdet => exact (h.alike (.drop _ _) rfl h.guarded).detaches hdet
  | plant name => exact h.alike (.addRoot _ name) rfl h.guarded
  | enrol hb hcl hl hj =>
    have hzero := hm.ledger.updates_eq_zero ((World.latest?_of_watcher? hb).trans hl)
    exact h.join hm.ledger hb hj fun _ => hzero
  | reserve hb hcl hj =>
    refine h.of_registrations (fun j => ?_) fun j k r' hr' ha' _ => .inr ⟨r', ?_, ha', rfl, rfl⟩
    · rw [World.updates_reserve, hj.updates_eq]
    · rw [World.registration?_reserve, hj.registration?_eq] at hr'
      exact hr'
  | @unwatch w stk c p id l hr =>
    have hnote : Fresh ⟨w.note p (.unwatched id l true), stk, c⟩ :=
      h.alike (.note _ p rfl) rfl h.guarded
    exact hnote.retire (fun j => World.updates_unregister _ id j l)
      (World.registration?_unregister _ id · l ·)
  | miss p hr => exact h.alike (.note _ p rfl) rfl h.guarded
  | @close w stk c id b hc hb hcl hs =>
    have hclose : Fresh ⟨w.modify id Watcher.close, stk, c⟩ :=
      h.retire (fun j => World.updates_modify _ id j Watcher.close_updates)
        (World.registration?_close hm.ledger.sound id)
    exact hclose.alike (.refl _) rfl fun p hp => nomatch hp
  | @finish w w' stk c id n q name hc hdet =>
    have hnote : Fresh ⟨w.note q (.logged id name (.closed n)), stk, c⟩ :=
      h.alike (.note _ q rfl) rfl fun p hp => absurd hp (hc p)
    exact hnote.detaches hdet
  | wake p hc => exact h.alike (.note _ p rfl) rfl fun p hp => absurd hp (hc p)
  | rebuff hb ho hr => exact h.alike hr.alike rfl h.guarded
  | accept p q name hc hb ho hcl hr hs => exact h.adopt hm.ledger hm.stacked p q name _ hb
  | fail p q name ho hout hy =>
    exact h.alike ((World.Alike.note _ p rfl).trans (.note _ q rfl)) rfl fun p hp => nomatch hp
  | suppress p hc hb ho hy hr =>
    exact h.alike ((World.Alike.note _ p rfl).trans hr.alike) rfl fun p hp => nomatch hp
  | @derive w stk c o p q name id parent b s l d y hok hc hb ho hy hcl hr =>
    have hnote := World.Alike.note w o (e := .applied id s.revision (.value y)) rfl
    have hpopped : Fresh ⟨w.note o (.applied id s.revision (.value y)), stk, .proceed⟩ :=
      h.alike hnote rfl fun p hp => nomatch hp
    exact hpopped.adopt (hm.ledger.alike hnote) (hnote.resembles.to_extends.stacked hm.stacked.2)
      p q name _ hb
  | announce q name hc => exact h.alike (.note _ q rfl) rfl fun p hp => absurd hp (hc p)
  | skip hc hin =>
    refine h.serve ?_
    intro r hr ha
    rw [hin r hr] at ha
    exact nomatch ha
  | defer hc hd hr hi =>
    cases hd with
    | @spread id n s l ls stk r₀ p todo hr₀ ha =>
      refine Fresh.alike ((h.serve fun a har haa => ?_).handOver p ⟨id, l, n, s⟩) (.refl _) rfl
        fun p hp => nomatch hp
      rw [World.registration?_handOver, if_pos ⟨rfl, rfl⟩] at hr
      obtain ⟨r₁, hr₁, rfl⟩ := Option.map_eq_some_iff.mp hr
      obtain rfl := Option.some.inj (hr₁.symm.trans har)
      exact hi
    | @replay id b s listener executor w' stk p todo hb hcl hl hj hreg =>
      refine Fresh.alike ((h.join hm.ledger hb hj fun himm => ?_).handOver p _) (.refl _) rfl
        fun p hp => nomatch hp
      rw [World.registration?_handOver, if_pos ⟨rfl, rfl⟩,
        World.registration?_joined hm.ledger.sound hb hj, if_pos ⟨rfl, rfl⟩] at hr
      obtain rfl := Option.some.inj hr
      rw [himm] at hi
      exact nomatch hi

end Move

/-! ## Runs -/

section Run

variable {t : Task α}

/-- In a delivery the listener whose turn it is knows the newest update, or is about to be told. -/
theorem current_of_spread {id : WatcherId} {n : Nat} {s : Latest α} {l : ListenerId}
    {ls : List ListenerId} {r : Registration α} (hw : w.Ledger)
    (hs : w.Stacked (.fanOut id n s (l :: ls) :: stk))
    (h : Fresh ⟨w, .fanOut id n s (l :: ls) :: stk, c⟩) (hr : w.registration? id l = some r)
    (ha : r.active = true) (hi : r.executor.disposal.isImmediate = true) :
    r.delivered = w.updates id ∨ n = w.updates id := by
  rcases h.current id l r hr ha hi with hcur | ⟨d, hd, hwd, hnd, -⟩
  · exact .inl hcur
  · refine .inr ?_
    rcases List.mem_cons.mp hd with rfl | hd
    · exact hnd
    · have hlt := (List.pairwise_cons.mp h.ordered).1 d hd hwd.symm
      have hle := (hw.genuine_bounds hs.1.1).2
      change d.update < n at hlt
      change d.update = w.updates id at hnd
      omega

/-- A registration whose task has been taken knows the newest update, or is about to be told. -/
theorem current_of_takes {r : Registration α} (hm : WellFormed ⟨w, stk, c⟩)
    (h : Fresh ⟨w, stk, c⟩) (ht : w.Takes stk t w' stk')
    (hr : w'.registration? t.watcher t.listener = some r) (ha : r.active = true)
    (hi : r.executor.disposal.isImmediate = true) :
    r.delivered = w'.updates t.watcher ∨ t.update = w'.updates t.watcher := by
  have hqueued : w.Queued t → w' = w → False := by
    rintro ⟨-, a, q, hq, hdisp⟩ rfl
    obtain rfl := Option.some.inj (hr.symm.trans hq)
    rw [hdisp] at hi
    exact nomatch hi
  cases ht with
  | dispatched hd =>
    cases hd with
    | @spread id n s l ls stk r₀ p todo hr₀ ha₀ =>
      rw [World.registration?_handOver, if_pos ⟨rfl, rfl⟩] at hr
      obtain ⟨r₁, hr₁, rfl⟩ := Option.map_eq_some_iff.mp hr
      rw [World.updates_handOver]
      exact h.current_of_spread (r := r₁) hm.ledger hm.stacked hr₁ ha hi
    | @replay id b s listener executor w' stk p todo hb hcl hl hj hreg =>
      refine .inr ?_
      rw [World.updates_handOver, World.updates_enrol, hj.updates_eq, World.updates_of_watcher? hb]
  | drained hq => exact (hqueued hq rfl).elim
  | picked hq => exact (hqueued hq rfl).elim

/-- Taking a task matters to no other registration. -/
theorem takes (hm : WellFormed ⟨w, stk, c⟩) (h : Fresh ⟨w, stk, c⟩) (ht : w.Takes stk t w' stk') :
    Due.Ordered (Frame.dues stk') ∧
      ∀ id l, ¬ t.isFor id l → w'.UpToDate (Frame.dues stk') id l := by
  have hother : ∀ {v : World α} (p : Bool) {ds : List Due} {j : WatcherId} {k : ListenerId},
      ¬ t.isFor j k → v.UpToDate ds j k → (v.handOver p t).UpToDate ds j k := by
    intro v p ds j k hjk hv
    refine hv.keep (World.updates_handOver v p t j) (fun r hr ha _ => ⟨r, ?_, ha, rfl, rfl⟩)
      fun d hd _ hk => ⟨d, hd, rfl, rfl, hk⟩
    rw [World.registration?_handOver, if_neg fun hx => hjk ⟨hx.1, hx.2.symm⟩] at hr
    exact hr
  cases ht with
  | dispatched hd =>
    cases hd with
    | @spread id n s l ls stk r₀ p todo hr₀ ha₀ =>
      refine ⟨Due.Ordered.serve h.ordered, fun j k hjk => hother p hjk ?_⟩
      exact (h.current j k).keep rfl (fun r hr ha _ => ⟨r, hr, ha, rfl, rfl⟩)
        (Due.exists_serve fun hx => hjk ⟨hx.1, hx.2.symm⟩)
    | @replay id b s listener executor w' stk p todo hb hcl hl hj hreg =>
      refine ⟨h.ordered, fun j k hjk => hother p hjk ?_⟩
      refine (h.current j k).keep ?_ (fun r hr ha _ => ⟨r, ?_, ha, rfl, rfl⟩)
        fun d hd _ hk => ⟨d, hd, rfl, rfl, hk⟩
      · rw [World.updates_enrol, hj.updates_eq]
      · rw [World.registration?_joined hm.ledger.sound hb hj,
          if_neg fun hx => hjk ⟨hx.1, hx.2.symm⟩] at hr
        exact hr
  | drained hq => exact ⟨h.ordered, fun j k _ => h.current j k⟩
  | picked hq => exact ⟨h.ordered, fun j k _ => h.current j k⟩

theorem dues_of_ran {frames : List (Frame α)} (hr : w.Ran t w' frames) :
    Frame.dues (frames ++ stk) = Frame.dues stk := by
  cases hr with
  | inactive => rfl
  | stale => rfl
  | called p q elsewhere hr ha hn hc => cases hc <;> rfl

theorem updates_of_ran {frames : List (Frame α)} (hr : w.Ran t w' frames) (id : WatcherId) :
    w'.updates id = w.updates id := by
  cases hr with
  | inactive => rfl
  | stale => rfl
  | called p q elsewhere hr ha hn hc =>
    rw [World.updates_note, World.updates_tell, World.updates_note]

/-- A listener that is called at once is called with the newest update. -/
theorem newest_of_called {w'' : World α} {r : Registration α} (hm : WellFormed ⟨w, stk, c⟩)
    (h : Fresh ⟨w, stk, c⟩) (ht : w.Takes stk t w' stk') (hw : w'.Ledger)
    (htried : w'.Tried t r true w'') (hi : r.executor.disposal.isImmediate = true) :
    t.update = w'.updates t.watcher := by
  obtain ⟨hactive, hlt⟩ := htried.called_iff.mp rfl
  have hcur := h.current_of_takes hm ht htried.found hactive hi
  have hle := (hw.genuine_bounds (hw.handedOver t htried.handed).1).2
  omega

theorem runs [BEq α] {m m' : Machine α} (hm : m.WellFormed) (h : m.Fresh) (hd : m.world.Deliveries)
    (hr : Runs m t m') : m'.Fresh := by
  cases hr with
  | @mk w w' w'' stk stk' frames c t hc ht hr =>
    obtain ⟨hchanges, hmem⟩ := ht.rearranges hm.ledger hm.stacked
    obtain ⟨hledger, -⟩ := hm.ledger.rearranges hchanges
    have hd' : w'.Deliveries := hd.rearranges hm.ledger hchanges
    obtain ⟨hordered, hother⟩ := h.takes hm ht
    obtain ⟨w₁, htries, halike⟩ := hr.tries hmem
    obtain ⟨r, called, htried⟩ := htries.tried
    refine ⟨?_, ?_, fun payload hx => nomatch hx⟩
    · show Due.Ordered (Frame.dues (frames ++ stk'))
      rw [dues_of_ran hr]
      exact hordered
    · intro id l a har ha hi
      show a.delivered = w''.updates id ∨ ∃ d ∈ Frame.dues (frames ++ stk'), _
      rw [updates_of_ran hr, dues_of_ran hr]
      rw [halike.registration] at har
      rcases htried.registration_or har with ⟨rfl, ⟨rfl, rfl⟩, rfl⟩ | ⟨hnot, har⟩
      · exact .inl (h.newest_of_called hm ht hledger htried hi)
      · by_cases hfor : t.isFor id l
        · -- The task was stale, so that its listener knows the newest update already.
          obtain ⟨rfl, rfl⟩ := hfor
          obtain rfl := Option.some.inj (htried.found.symm.trans har)
          have hstale : t.update ≤ r.delivered := by
            by_contra hlt
            exact hnot ⟨htried.called_iff.mpr ⟨ha, Nat.lt_of_not_le hlt⟩, t.isFor_self⟩
          have hcur := h.current_of_takes hm ht har ha hi
          have hle := hd'.delivered_le_updates hledger har
          left
          omega
        · exact hother id l hfor a har ha hi

end Run

end Fresh

/-! ## What listeners are called with -/

section Calls

/-- When nothing is under way, a listener that is called at once knows the newest update. -/
theorem Fresh.told_newest {m : Machine α} (h : m.Fresh) (hs : m.stack = []) {id : WatcherId}
    {l : ListenerId} {r : Registration α} (hr : m.world.registration? id l = some r)
    (ha : r.active = true) (hi : r.executor.disposal.isImmediate = true) :
    r.delivered = m.world.updates id := by
  rcases h.current id l r hr ha hi with hcur | ⟨d, hd, -⟩
  · exact hcur
  · rw [hs] at hd
    exact absurd hd List.not_mem_nil

variable [BEq α] {m m' : Machine α}

/-- A call is made with the newest update, if the listener is one that is called at once. -/
theorem Fresh.call_newest (hm : m.WellFormed) (h : m.Fresh) {t₀ t : Task α} (hr : Runs m t₀ m')
    (ht : m.Invokes m' t) {r : Registration α}
    (hreg : m'.world.registration? t.watcher t.listener = some r)
    (hi : r.executor.disposal.isImmediate = true) :
    t.update = m'.world.updates t.watcher ∧ m'.world.Genuine t.watcher t.update t.state := by
  obtain ⟨hledger', -⟩ := hr.ledger hm
  cases hr with
  | @mk w w' w'' stk stk' frames c t₀ hc htakes hran =>
    obtain ⟨hchanges, hmem⟩ := htakes.rearranges hm.ledger hm.stacked
    obtain ⟨hledger, -⟩ := hm.ledger.rearranges hchanges
    obtain ⟨w₁, htries, halike⟩ := hran.tries hmem
    obtain ⟨r₀, called, htried⟩ := htries.tried
    obtain ⟨ts, hts, hmem'⟩ := ht
    have hinv : Event.invocations w''.events =
        Event.invocations w.events ++ if called then [t₀] else [] := by
      rw [halike.invocations, htried.invocations, hchanges.untried.invocations]
    rw [← List.append_cancel_left (hinv.symm.trans hts)] at hmem'
    cases called with
    | false => exact absurd hmem' List.not_mem_nil
    | true =>
      obtain rfl := List.mem_singleton.mp hmem'
      have hhanded : t ∈ Event.handovers w''.events := by
        rw [halike.handovers, htried.handovers]
        exact htried.handed
      have hi₀ : r₀.executor.disposal.isImmediate = true := by
        rw [halike.registration] at hreg
        rcases htried.registration_or hreg with ⟨-, -, rfl⟩ | ⟨hnot, -⟩
        · exact hi
        · exact absurd ⟨rfl, t.isFor_self⟩ hnot
      refine ⟨?_, (hledger'.handedOver t hhanded).1⟩
      show t.update = w''.updates t.watcher
      rw [Fresh.updates_of_ran hran]
      exact h.newest_of_called hm htakes hledger htried hi₀

theorem Reached.fresh (h : m.Reached fun m => m.calm = true) :
    m.world.Deliveries ∧ m.Fresh :=
  h.invariant_of_deliveries .initial (fun hm _ h hstep => h.move hm hstep)
    fun hm hd h hr => h.runs hm hd hr

/-- As long as no executor and no waker panics, a listener that is called at once is called with
what is then the latest state of its watcher; and when nothing is under way, it was last called with
the latest state. -/
theorem inline_listeners_are_fresh (h : m.Reached fun m => m.calm = true) :
    (∀ m' t r, m.calm = true → m.Next m' → m.Invokes m' t →
      m'.world.registration? t.watcher t.listener = some r → r.executor.disposal = .inline →
      m'.world.latest? t.watcher = some t.state) ∧
    ∀ id l r s, m.stack = [] → m.world.registration? id l = some r → r.active = true →
      r.executor.disposal = .inline → m.world.latest? id = some s →
      r.delivered = m.world.updates id ∧
        ∃ t, (m.world.callsTo id l).getLast? = some t ∧ t.update = m.world.updates id ∧
          t.state = s := by
  obtain ⟨hd, hfresh⟩ := h.fresh
  have hm := h.wellFormed
  constructor
  · intro m' t r hcalm hn ht hreg hi
    have himm : r.executor.disposal.isImmediate = true := by rw [hi]; rfl
    obtain ⟨m₁, hmoves, hlast⟩ := hn.turn (P := fun m => m.calm = true) hm hcalm
    obtain ⟨hm₁, hfresh₁, hfirst⟩ :=
      moves_invariant (I := Fresh) (fun hm h hstep => h.move hm hstep) hmoves hm hfresh
    obtain ⟨ts, hts, hmem⟩ := ht
    rw [← hfirst.untried.invocations] at hts
    rcases hlast with rfl | ⟨t₀, hr⟩
    · rw [List.self_eq_append_right.mp hts] at hmem
      exact absurd hmem List.not_mem_nil
    · obtain ⟨hnew, hgen⟩ := hfresh₁.call_newest hm₁ hr ⟨ts, hts, hmem⟩ hreg himm
      exact (hm₁.runs hr).1.ledger.latest?_of_genuine hgen hnew
  · intro id l r s hs hr ha hi hl
    have hcur := hfresh.told_newest hs hr ha (by rw [hi]; rfl)
    have hpos : 0 < Task.lastUpdate (m.world.callsTo id l) := by
      rw [← hd.delivered hr, hcur]
      exact hm.ledger.updates_pos hl
    obtain ⟨t, ht, heq⟩ := Task.exists_of_lastUpdate_pos hpos
    have hupdate : t.update = m.world.updates id := by rw [heq, ← hd.delivered hr, hcur]
    have hgen := hd.genuine_of_called hm.ledger (List.mem_of_getLast? ht)
    refine ⟨hcur, t, ht, hupdate, ?_⟩
    exact Option.some.inj ((hm.ledger.latest?_of_genuine hgen hupdate).symm.trans hl)

end Calls

def pushOnce : Actions Nat := fun n => if n = 1 then [.push "r" ⟨2⟩ ⟨20, 20⟩] else []

def eager : Machine Nat :=
  ({ world := {} } : Machine Nat).carry 12
    [.root "r" "r" false, .watch "r" "l" false .inline (fun _ => []) pushOnce]

def calledTwice : Registration Nat where
  id := ⟨1⟩
  listener := .observer "l" false pushOnce
  executor := ⟨.inline, fun _ => []⟩
  delivered := 2
  calls := 2
  handovers := 2

def nested (n : Nat) : Machine Nat := (eager.world.start (.push "r" ⟨1⟩ ⟨10, 10⟩)).steps n

theorem reached_nested {n : Nat} (hn : n ≤ 18) : (nested n).Reached fun m => m.calm = true := by
  have heager : eager.Reached fun m => m.calm = true := Reached.carry .initial (by decide +kernel)
  have hcalm : ∀ k < 18, (nested k).calm = true := by decide +kernel
  exact heager.begin (by decide +kernel) (by decide +kernel)
    fun k hk => hcalm k (by omega)

theorem inline_listeners_are_fresh_nested :
    (nested 6).step.world.latest? 0 = some ⟨⟨2⟩, 20⟩ ∧
      ∃ t, ((nested 18).world.callsTo 0 ⟨1⟩).getLast? = some t ∧
        t.update = (nested 18).world.updates 0 ∧ t.state = ⟨⟨2⟩, 20⟩ := by
  have hnext : (nested 6).Next (nested 6).step := .of_stack (by decide +kernel)
  have hinv : (nested 6).Invokes (nested 6).step ⟨0, ⟨1⟩, 2, ⟨⟨2⟩, 20⟩⟩ :=
    ⟨[⟨0, ⟨1⟩, 2, ⟨⟨2⟩, 20⟩⟩], by with_unfolding_all rfl, List.mem_singleton_self _⟩
  have hlast : (nested 18).stack.isEmpty = true := by decide +kernel
  obtain ⟨hcall, -⟩ := inline_listeners_are_fresh (reached_nested (n := 6) (by decide))
  obtain ⟨-, hquiet⟩ := inline_listeners_are_fresh (reached_nested (Nat.le_refl 18))
  refine ⟨hcall _ _ calledTwice (by decide +kernel) hnext hinv (by with_unfolding_all rfl) rfl, ?_⟩
  exact (hquiet 0 ⟨1⟩ calledTwice ⟨⟨2⟩, 20⟩ (List.isEmpty_iff.mp hlast)
    (by with_unfolding_all rfl) rfl rfl (by with_unfolding_all rfl)).2

end Machine

end WatchTree
