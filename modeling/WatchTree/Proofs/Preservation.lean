import WatchTree.Proofs.Changes

/-!
# Changes keep the ledger

`Ledger.rearranges` shows it for any number of changes in which no task is run, and `Ledger.tries`
for the running of a task.
-/

namespace WatchTree

variable {α : Type}

namespace World

variable {w w' : World α}

theorem Tries.resembles {t : Task α} (h : w.Tries t w') : w.Resembles w' := by
  cases h with
  | pass p ht hr ha => exact resembles_note w p fun _ => rfl
  | stale p ht hr ha hn => exact resembles_note w p fun _ => rfl
  | call p q elsewhere audience ht hr ha hn => exact resembles_call hr hn p q elsewhere audience

/-! ## The ledger -/

namespace Ledger

/-- A watcher that does not exist has accepted nothing. -/
theorem accepted_of_watcher?_none (hw : w.Ledger) {id : WatcherId} (h : w.watcher? id = none) :
    w.accepted id = [] := by
  have hlen := hw.updates_eq id
  unfold updates at hlen
  rw [h] at hlen
  exact List.length_eq_zero_iff.mp hlen.symm

/-- A watcher without a state has accepted nothing. -/
theorem updates_eq_zero (hw : w.Ledger) {id : WatcherId} (h : w.latest? id = none) :
    w.updates id = 0 := by
  rw [hw.latest_eq] at h
  rw [hw.updates_eq, List.getLast?_eq_none_iff.mp h]
  rfl

theorem updates_pos (hw : w.Ledger) {id : WatcherId} {s : Latest α} (h : w.latest? id = some s) :
    0 < w.updates id := by
  rw [hw.latest_eq] at h
  rw [hw.updates_eq]
  exact List.length_pos_of_mem (List.mem_of_getLast? h)

section Genuine

variable {id : WatcherId} {n : Nat} {s : Latest α} (hw : w.Ledger) (h : w.Genuine id n s)

include hw h

/-- An accepted state is one of the updates. -/
theorem genuine_bounds : 0 < n ∧ n ≤ w.updates id := by
  obtain ⟨k, rfl, hk⟩ := h
  rw [hw.updates_eq]
  exact ⟨Nat.succ_pos k, (List.getElem?_eq_some_iff.mp hk).1⟩

/-- The newest update is the latest state. -/
theorem latest?_of_genuine (hn : n = w.updates id) : w.latest? id = some s := by
  obtain ⟨k, rfl, hk⟩ := h
  rw [hw.updates_eq] at hn
  rw [hw.latest_eq, List.getLast?_eq_getElem?, ← hn]
  exact hk

end Genuine

/-- The latest state of a watcher is its last update. -/
theorem genuine_latest (hw : w.Ledger) {id : WatcherId} {b : Watcher α}
    (hb : w.watcher? id = some b) {s : Latest α} (hs : b.latest = some s) :
    w.Genuine id b.updates s := by
  have hlast : (w.accepted id).getLast? = some s := by
    rw [← hw.latest_eq, latest?_of_watcher? hb, hs]
  have hlen : b.updates = (w.accepted id).length := by
    rw [← hw.updates_eq, updates_of_watcher? hb]
  have hpos : 0 < (w.accepted id).length := by
    refine List.length_pos_iff.mpr ?_
    intro hnil
    rw [hnil] at hlast
    exact nomatch hlast
  refine ⟨(w.accepted id).length - 1, ?_, ?_⟩
  · rw [hlen, Nat.sub_add_cancel hpos]
  · rw [← List.getLast?_eq_getElem?, hlast]

theorem resembles (hw : w.Ledger) (h : w.Resembles w')
    (hh : ∀ t ∈ Event.handovers w'.events, t ∈ Event.handovers w.events ∨
      w.Genuine t.watcher t.update t.state ∧ ∃ r, w.registration? t.watcher t.listener = some r) :
    w'.Ledger where
  sound := h.sound hw.sound
  updates_eq id := by rw [h.updates, h.accepted, hw.updates_eq]
  latest_eq id := by rw [h.latest, h.accepted, hw.latest_eq]
  parent {c p l d} ho := by
    rw [h.lastId]
    exact hw.parent (h.child ho)
  fed {p l r c} hr hl := by
    obtain ⟨a, ha, hp⟩ := (h.registration p l).backward hr
    obtain ⟨d, ho⟩ := hw.fed ha (hp.listener.symm.trans hl)
    exact ⟨d, h.origin ho⟩
  subscription {c p l d r} ho hr := by
    obtain ⟨a, ha, hp⟩ := (h.registration p l).backward hr
    rw [hp.listener, hp.executor]
    exact hw.subscription (h.child ho) ha
  handedOver t ht := by
    obtain ⟨hg, r, hr⟩ : w.Genuine t.watcher t.update t.state ∧
        ∃ r, w.registration? t.watcher t.listener = some r :=
      (hh t ht).elim (hw.handedOver t) id
    obtain ⟨r', hr', -⟩ := h.to_extends.registration hr
    exact ⟨h.to_extends.genuine hg, r', hr'⟩

theorem alike (hw : w.Ledger) (h : w.Alike w') : w'.Ledger :=
  hw.resembles h.resembles fun t ht => .inl (by rw [← h.handovers]; exact ht)

section Joined

variable {id : WatcherId} {b : Watcher α} {listener : Listener α} {executor : Executor α}
  (hw : w.Ledger) (hb : w.watcher? id = some b) (h : w.Joins id b listener executor w')

include hw hb h

/-- The child that a new subscription belongs to comes after its parent. -/
theorem parent_joined {c p : WatcherId} {l : ListenerId} {d : Derivation α}
    (ho : w'.origin? c = some (.child p l d)) :
    w.origin? c = some (.child p l d) ∧ p < c ∧ l.number ≤ w.lastId p ∨
      p = id ∧ l = b.registry.nextId ∧ listener = .subscription c ∧
        executor.disposal = .inline ∧ p < c := by
  rcases h.origin?_eq_or ho with ho | ⟨hl, he, rfl, d', hd⟩
  · exact .inl ⟨ho, hw.parent ho⟩
  · obtain ⟨rfl, rfl, -⟩ := Origin.child.inj hd
    exact .inr ⟨rfl, rfl, hl, he, lt_length hb⟩

omit hw h in
theorem nextId_number : b.registry.nextId.number = w.lastId id + 1 := by
  rw [lastId_of_watcher? hb]
  rfl

omit hw h in
/-- An id that was issued is not the next one. -/
theorem ne_nextId {p : WatcherId} {l : ListenerId} (hl : l.number ≤ w.lastId p) :
    ¬ (id = p ∧ l = b.registry.nextId) := by
  rintro ⟨rfl, rfl⟩
  rw [nextId_number hb] at hl
  omega

/-- The next id of the watcher is used up, for a registration or for none. -/
theorem joined {f : Registry α → Registry α} {x : Option (Registration α)}
    (hsound : ∀ r, r.Sound → (f r).Sound) (hid : ∀ r, (f r).lastId = r.lastId + 1)
    (hreg : ∀ j k, (w'.mapRegistry id f).registration? j k =
      if id = j ∧ k = b.registry.nextId then x else w.registration? j k)
    (hx : ∀ r ∈ x, r.listener = listener ∧ r.executor = executor)
    (hextends : w.Extends (w'.mapRegistry id f)) : (w'.mapRegistry id f).Ledger where
  sound := (h.sound hw.sound).modify id fun _ hs => hsound _ hs
  updates_eq j := by
    rw [updates_mapRegistry, h.updates_eq, hw.updates_eq]
    unfold World.accepted
    rw [events_mapRegistry, h.events_eq]
  latest_eq j := by
    rw [latest?_mapRegistry, h.latest?_eq, hw.latest_eq]
    unfold World.accepted
    rw [events_mapRegistry, h.events_eq]
  parent {c p l d} ho := by
    have hlast : (w'.mapRegistry id f).lastId id = w.lastId id + 1 := by
      have hb' : (w'.mapRegistry id f).watcher? id = some { b with registry := f b.registry } :=
        watcher?_modify_self (h.watcher?_eq hb) _
      rw [lastId_of_watcher? hb', lastId_of_watcher? hb]
      exact hid b.registry
    rw [origin?_mapRegistry] at ho
    rcases parent_joined hw hb h ho with ⟨-, hlt, hl⟩ | ⟨rfl, rfl, -, -, hlt⟩
    · refine ⟨hlt, Nat.le_trans hl ?_⟩
      by_cases hp : id = p
      · subst hp
        omega
      · unfold mapRegistry World.lastId
        rw [watcher?_modify_of_ne _ hp]
        exact Nat.le_of_eq (h.lastId_eq p).symm
    · exact ⟨hlt, Nat.le_of_eq ((nextId_number hb).trans hlast.symm)⟩
  fed {p l r c} hr hl := by
    rw [hreg] at hr
    rw [origin?_mapRegistry]
    split at hr
    · rename_i heq
      obtain ⟨rfl, rfl⟩ := heq
      exact h.origin?_subscription ((hx r hr).1.symm.trans hl)
    · obtain ⟨d, ho⟩ := hw.fed hr hl
      exact ⟨d, h.origin?_mono ho⟩
  subscription {c p l d r} ho hr := by
    rw [origin?_mapRegistry] at ho
    rw [hreg] at hr
    rcases parent_joined hw hb h ho with ⟨ho, -, hl⟩ | ⟨rfl, rfl, hl, he, -⟩
    · rw [if_neg (ne_nextId hb hl)] at hr
      exact hw.subscription ho hr
    · rw [if_pos ⟨rfl, rfl⟩] at hr
      obtain ⟨hlistener, hexecutor⟩ := hx r hr
      exact ⟨hlistener.trans hl, by rw [hexecutor]; exact he⟩
  handedOver t ht := by
    rw [events_mapRegistry, h.events_eq] at ht
    obtain ⟨hg, r, hr⟩ := hw.handedOver t ht
    obtain ⟨r', hr', -⟩ := hextends.registration hr
    exact ⟨hextends.genuine hg, r', hr'⟩

theorem enrol : (w'.enrol id listener executor).Ledger := by
  refine joined hw hb h (fun _ hs => hs.insert listener executor) (fun _ => rfl)
    (registration?_joined hw.sound hb h) (fun r hr => ?_) (extends_enrol hw.sound hb h)
  obtain rfl := Option.some.inj hr
  exact ⟨rfl, rfl⟩

theorem reserve : (w'.reserve id).Ledger := by
  refine joined (x := none) hw hb h (fun _ hs => hs.reserve) (fun _ => rfl) (fun j k => ?_) nofun
    (extends_reserve h)
  show (w'.reserve id).registration? j k = _
  rw [World.registration?_reserve, h.registration?_eq]
  split
  · rename_i heq
    obtain ⟨rfl, rfl⟩ := heq
    exact registration?_nextId hw.sound hb
  · rfl

end Joined

theorem accept (hw : w.Ledger) {id : WatcherId} {b : Watcher α} (hb : w.watcher? id = some b)
    (p : Bool) (s : Latest α) :
    ((w.note p (.offered id s .accepted)).modify id (·.accept s)).Ledger where
  sound := SoundRegistries.modify (w := w.note p _) hw.sound id fun _ hs => hs
  updates_eq j := by
    rw [updates_accept hb, accepted_accept, List.length_append, hw.updates_eq]
    by_cases hj : id = j <;> simp [hj]
  latest_eq j := by
    rw [latest?_accept hb, accepted_accept, hw.latest_eq]
    by_cases hj : id = j <;> simp [hj]
  parent {c p l d} ho := by
    rw [origin?_modify _ _ _ fun b => Watcher.accept_origin b s] at ho
    rw [lastId_modify _ _ _ fun b => by rw [Watcher.accept_registry]]
    exact hw.parent ho
  fed {p l r c} hr hl := by
    rw [registration?_modify _ _ _ _ fun b => Watcher.accept_registry b s] at hr
    rw [origin?_modify _ _ _ fun b => Watcher.accept_origin b s]
    exact hw.fed hr hl
  subscription {c p l d r} ho hr := by
    rw [origin?_modify _ _ _ fun b => Watcher.accept_origin b s] at ho
    rw [registration?_modify _ _ _ _ fun b => Watcher.accept_registry b s] at hr
    exact hw.subscription ho hr
  handedOver t ht := by
    have hx : w.Extends ((w.note p (.offered id s .accepted)).modify id (·.accept s)) :=
      extends_accept p s
    rw [events_modify, events_note, Event.handovers_append] at ht
    obtain ⟨hg, r, hr⟩ := hw.handedOver t (by simpa [Event.handovers] using ht)
    obtain ⟨r', hr', -⟩ := hx.registration hr
    exact ⟨hx.genuine hg, r', hr'⟩

/-- No change disturbs the ledger, and each extends the world. -/
theorem alters [BEq α] (hw : w.Ledger) (h : w.Alters w') : w'.Ledger ∧ w.Extends w' := by
  cases h with
  | enrol hb hcl hj => exact ⟨hw.enrol hb hj, extends_enrol hw.sound hb hj⟩
  | reserve hb hcl hj => exact ⟨hw.reserve hb hj, extends_reserve hj⟩
  | retire id l =>
    have hres := resembles_unregister w id l
    exact ⟨hw.resembles hres fun _ ht => .inl ht, hres.to_extends⟩
  | close id =>
    have hres := resembles_close w hw.sound id
    exact ⟨hw.resembles hres fun _ ht => .inl ht, hres.to_extends⟩
  | adopt p hb hcl hr => exact ⟨hw.accept hb p _, extends_accept p _⟩
  | @handOver p t r hr ha hg =>
    have hres := resembles_handOver w p t
    refine ⟨hw.resembles hres fun x hx => ?_, hres.to_extends⟩
    rw [events_handOver, Event.handovers_append] at hx
    rcases List.mem_append.mp hx with hx | hx
    · exact .inl hx
    · obtain rfl : x = t := by simpa [Event.handovers] using hx
      exact .inr ⟨hg, r, hr⟩

theorem rearranges [BEq α] (hw : w.Ledger) (h : w.Rearranges w') : w'.Ledger ∧ w.Extends w' := by
  induction h with
  | refl => exact ⟨hw, .refl w⟩
  | tail _ hstep ih =>
    obtain ⟨hledger, hx⟩ := ih
    rcases hstep with ha | ha
    · exact ⟨hledger.alike ha, hx.trans ha.resembles.to_extends⟩
    · obtain ⟨hledger', hx'⟩ := hledger.alters ha
      exact ⟨hledger', hx.trans hx'⟩

theorem tries {t : Task α} (hw : w.Ledger) (h : w.Tries t w') : w'.Ledger ∧ w.Extends w' := by
  have hhand : Event.handovers w'.events = Event.handovers w.events := by
    cases h with
    | pass p ht hr ha =>
      rw [events_note, Event.handovers_append]
      simp [Event.handovers]
    | stale p ht hr ha hn =>
      rw [events_note, Event.handovers_append]
      simp [Event.handovers]
    | call p q elsewhere audience ht hr ha hn =>
      rw [events_note, events_tell, events_note, Event.handovers_append, Event.handovers_append]
      simp [Event.handovers]
  exact ⟨hw.resembles h.resembles fun t ht => .inl (hhand ▸ ht), h.resembles.to_extends⟩

end Ledger

/-! ## Who is new -/

/-- A child that was not one before did not exist before. -/
theorem Alters.child_or_new [BEq α] (h : w.Alters w') {c p : WatcherId} {l : ListenerId}
    {d : Derivation α} (ho : w'.origin? c = some (.child p l d)) :
    w.origin? c = some (.child p l d) ∨ w.watcher? c = none := by
  have hjoin : ∀ {v : World α} {id : WatcherId} {b : Watcher α} {listener : Listener α}
      {executor : Executor α}, w.Joins id b listener executor v →
      v.origin? c = some (.child p l d) →
      w.origin? c = some (.child p l d) ∨ w.watcher? c = none := by
    intro v id b listener executor hj hv
    rcases hj.origin?_eq_or hv with hold | ⟨-, -, rfl, -⟩
    · exact .inl hold
    · exact .inr (watcher?_length w)
  cases h with
  | enrol hb hcl hj =>
    rw [origin?_enrol] at ho
    exact hjoin hj ho
  | reserve hb hcl hj =>
    rw [origin?_reserve] at ho
    exact hjoin hj ho
  | retire id l =>
    rw [origin?_unregister] at ho
    exact .inl ho
  | close id =>
    rw [origin?_modify _ _ _ Watcher.close_origin] at ho
    exact .inl ho
  | adopt p hb hcl hr =>
    rw [origin?_modify _ _ _ fun b => Watcher.accept_origin b _] at ho
    exact .inl ho
  | handOver p hr ha hg =>
    rw [origin?_handOver] at ho
    exact .inl ho

theorem Rearranges.child_or_new [BEq α] (hw : w.Ledger) (h : w.Rearranges w') {c p : WatcherId}
    {l : ListenerId} {d : Derivation α} (ho : w'.origin? c = some (.child p l d)) :
    w.origin? c = some (.child p l d) ∨ w.watcher? c = none := by
  induction h generalizing p l d with
  | refl => exact .inl ho
  | @tail w₁ w₂ hfirst hstep ih =>
    have hback : w₁.origin? c = some (.child p l d) ∨ w₁.watcher? c = none :=
      hstep.elim (fun ha => .inl (ha.child ho)) fun ha => ha.child_or_new ho
    rcases hback with hold | hnone
    · exact ih hold
    · refine .inr ?_
      cases hc : w.watcher? c with
      | none => rfl
      | some b =>
        have hx := (hw.rearranges hfirst).2.origin (origin?_of_watcher? hc)
        obtain ⟨b', hb', -⟩ := exists_watcher?_of_origin? hx
        rw [hnone] at hb'
        exact nomatch hb'

theorem Tries.origin?_eq {t : Task α} (h : w.Tries t w') (id : WatcherId) :
    w'.origin? id = w.origin? id := by
  cases h with
  | pass => rfl
  | stale => rfl
  | call p q elsewhere audience ht hr ha hn =>
    rw [origin?_note, origin?_tell, origin?_note]

end World

end WatchTree
