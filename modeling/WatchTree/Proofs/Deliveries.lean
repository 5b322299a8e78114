import WatchTree.Proofs.Reachability

/-!
# Deliveries under any executor

An executor may run the tasks it was handed in any order, several times inside each other, or not at
all. `World.Deliveries` is what holds of the tasks of every registration nevertheless: the number a
registration was told last is the greatest of the tasks run while it was active, and its listener
was called with exactly those tasks that were newer than all before them.
-/

namespace WatchTree

variable {α : Type}

/-! ## Lists of tasks -/

namespace Task

/-- The number of the last update in a list, zero if there is none. -/
def lastUpdate (ts : List (Task α)) : Nat := (ts.getLast?.map Task.update).getD 0

@[simp] theorem lastUpdate_nil : lastUpdate ([] : List (Task α)) = 0 := rfl

@[simp] theorem lastUpdate_concat (ts : List (Task α)) (t : Task α) :
    lastUpdate (ts ++ [t]) = t.update := by
  unfold lastUpdate
  rw [List.getLast?_concat]
  rfl

theorem lastUpdate_of_getLast? {ts : List (Task α)} {t : Task α} (h : ts.getLast? = some t) :
    lastUpdate ts = t.update := by
  unfold lastUpdate
  rw [h]
  rfl

theorem exists_of_lastUpdate_pos {ts : List (Task α)} (h : 0 < lastUpdate ts) :
    ∃ t, ts.getLast? = some t ∧ t.update = lastUpdate ts := by
  unfold lastUpdate at h ⊢
  cases hl : ts.getLast? with
  | none =>
    rw [hl] at h
    exact absurd h (Nat.lt_irrefl 0)
  | some t => exact ⟨t, rfl, rfl⟩

/-- Each maximum is newer than those before it. -/
theorem maximaAfter_ascending (ts : List (Task α)) :
    ∀ before, (maximaAfter before ts).Pairwise (fun a b => a.update < b.update) ∧
      ∀ b ∈ before, ∀ t ∈ maximaAfter before ts, b.update < t.update := by
  induction ts with
  | nil => exact fun before => ⟨.nil, by simp [maximaAfter]⟩
  | cons a ts ih =>
    intro before
    obtain ⟨hasc, hlt⟩ := ih (before ++ [a])
    have hbefore : ∀ b ∈ before, ∀ t ∈ maximaAfter (before ++ [a]) ts, b.update < t.update :=
      fun b hb => hlt b (List.mem_append_left _ hb)
    rw [maximaAfter]
    split
    · rename_i ha
      refine ⟨.cons (hlt a (by simp)) hasc, fun b hb t ht => ?_⟩
      rcases List.mem_cons.mp ht with rfl | ht
      · exact ha b hb
      · exact hbefore b hb t ht
    · exact ⟨hasc, hbefore⟩

theorem maxima_ascending (ts : List (Task α)) :
    (maxima ts).Pairwise fun a b => a.update < b.update := (maximaAfter_ascending ts []).1

end Task

namespace Event

theorem mem_runsOf {id : WatcherId} {l : ListenerId} {es : List (Event α)} {t : Task α} :
    t ∈ runsOf id l es ↔ (t, true) ∈ executions es ∧ t.isFor id l := by
  unfold runsOf
  rw [List.mem_map]
  constructor
  · rintro ⟨⟨a, b⟩, hx, rfl⟩
    obtain ⟨hmem, hcond⟩ := List.mem_filter.mp hx
    obtain ⟨hb, hfor⟩ := of_decide_eq_true hcond
    obtain rfl : b = true := hb
    exact ⟨hmem, hfor⟩
  · rintro ⟨hmem, hfor⟩
    exact ⟨(t, true), List.mem_filter.mpr ⟨hmem, decide_eq_true ⟨rfl, hfor⟩⟩, rfl⟩

theorem runsOf_ran (id : WatcherId) (l : ListenerId) (t : Task α) (active : Bool) :
    runsOf id l [.ran t active] = if active = true ∧ t.isFor id l then [t] else [] := by
  unfold runsOf executions
  by_cases h : active = true ∧ t.isFor id l
  · rw [if_pos h]
    simp [h]
  · rw [if_neg h]
    simp only [List.filterMap_cons, List.filterMap_nil, execution?]
    rw [List.filter_cons_of_neg (by simpa using h)]
    rfl

theorem callsTo_called (id : WatcherId) (l : ListenerId) (t : Task α) (audience : Audience)
    (elsewhere : Bool) :
    callsTo id l [.called audience t elsewhere] = if t.isFor id l then [t] else [] := by
  unfold callsTo invocations
  by_cases h : t.isFor id l <;> simp [h]

end Event

namespace World

/-- No task was run between the two worlds. -/
structure Untried (w w' : World α) : Prop where
  executions : Event.executions w'.events = Event.executions w.events
  invocations : Event.invocations w'.events = Event.invocations w.events

namespace Untried

theorem of_events_eq {w w' : World α} (h : w'.events = w.events) : w.Untried w' :=
  ⟨by rw [h], by rw [h]⟩

theorem of_event {w w' : World α} {e : Event α} (h : w'.events = w.events ++ [e])
    (hexec : e.execution? = none) (hinv : e.invocation? = none) : w.Untried w' where
  executions := by
    rw [h, Event.executions_append]
    unfold Event.executions
    rw [List.filterMap_cons_none hexec, List.filterMap_nil, List.append_nil]
  invocations := by
    rw [h, Event.invocations_append]
    unfold Event.invocations
    rw [List.filterMap_cons_none hinv, List.filterMap_nil, List.append_nil]

variable {w w' w'' : World α}

theorem trans (h : w.Untried w') (h' : w'.Untried w'') : w.Untried w'' :=
  ⟨h'.executions.trans h.executions, h'.invocations.trans h.invocations⟩

theorem runsOf (h : w.Untried w') (id : WatcherId) (l : ListenerId) :
    Event.runsOf id l w'.events = Event.runsOf id l w.events := by
  unfold Event.runsOf
  rw [h.executions]

theorem callsTo (h : w.Untried w') (id : WatcherId) (l : ListenerId) :
    w'.callsTo id l = w.callsTo id l := by
  unfold World.callsTo Event.callsTo
  rw [h.invocations]

end Untried

theorem Alters.untried [BEq α] {w w' : World α} (h : w.Alters w') : w.Untried w' := by
  cases h with
  | enrol hb hcl hj => exact .of_events_eq (by rw [events_enrol, hj.events_eq])
  | reserve hb hcl hj => exact .of_events_eq (by rw [events_reserve, hj.events_eq])
  | retire id l => exact .of_events_eq rfl
  | close id => exact .of_events_eq rfl
  | adopt p hb hcl hr => exact .of_event (by rw [events_modify, events_note]) rfl rfl
  | handOver p hr ha hg => exact .of_event (events_handOver ..) rfl rfl

theorem Rearranges.untried [BEq α] {w w' : World α} (h : w.Rearranges w') : w.Untried w' := by
  induction h with
  | refl => exact .of_events_eq rfl
  | tail _ hstep ih =>
    rcases hstep with ha | ha
    · exact ih.trans ⟨ha.executions, ha.invocations⟩
    · exact ih.trans ha.untried

/-- What the history tells of the tasks of every registration. -/
structure Deliveries (w : World α) : Prop where
  executed : ∀ {x}, x ∈ Event.executions w.events → x.1 ∈ Event.handovers w.events
  passed : ∀ {t r}, (t, false) ∈ Event.executions w.events →
    w.registration? t.watcher t.listener = some r → r.active = false
  maxima : ∀ id l, w.callsTo id l = Task.maxima (Event.runsOf id l w.events)
  delivered : ∀ {id l r}, w.registration? id l = some r →
    r.delivered = Task.lastUpdate (w.callsTo id l)
  ran_le : ∀ {id l r}, w.registration? id l = some r →
    ∀ t ∈ Event.runsOf id l w.events, t.update ≤ r.delivered

namespace Deliveries

variable {w w' : World α}

theorem initial : ({} : World α).Deliveries where
  executed hx := by simp [Event.executions, World.events] at hx
  passed hx := by simp [Event.executions, World.events] at hx
  maxima id l := rfl
  delivered hr := by simp [World.registration?, World.watcher?] at hr
  ran_le hr := by simp [World.registration?, World.watcher?] at hr

/-- Before a registration is made, no task is run for it. -/
theorem runsOf_eq_nil (hd : w.Deliveries) (hw : w.Ledger) {id : WatcherId} {l : ListenerId}
    (h : w.registration? id l = none) : Event.runsOf id l w.events = [] := by
  refine List.eq_nil_iff_forall_not_mem.mpr ?_
  intro t ht
  obtain ⟨hmem, rfl, rfl⟩ := Event.mem_runsOf.mp ht
  obtain ⟨-, r, hr⟩ := hw.handedOver t (hd.executed hmem)
  rw [h] at hr
  exact nomatch hr

/-- As long as no task is run. -/
theorem keep (hd : w.Deliveries) (hw : w.Ledger) (hsame : w.Untried w')
    (hhand : Event.handovers w.events ⊆ Event.handovers w'.events)
    (hreg : ∀ {id l r'}, w'.registration? id l = some r' →
      w.registration? id l = none ∧ r'.delivered = 0 ∨
      ∃ r, w.registration? id l = some r ∧ r'.delivered = r.delivered ∧
        (r.active = false → r'.active = false)) : w'.Deliveries := by
  refine ⟨fun hx => hhand (hd.executed (hsame.executions ▸ hx)), ?_, ?_, ?_, ?_⟩
  · intro t r' ht hr'
    rw [hsame.executions] at ht
    rcases hreg hr' with ⟨hnone, -⟩ | ⟨r, hr, -, hact⟩
    · obtain ⟨-, r, hr⟩ := hw.handedOver t (hd.executed ht)
      rw [hnone] at hr
      exact nomatch hr
    · exact hact (hd.passed ht hr)
  · intro id l
    rw [hsame.callsTo, hsame.runsOf]
    exact hd.maxima id l
  · intro id l r' hr'
    rw [hsame.callsTo]
    rcases hreg hr' with ⟨hnone, hzero⟩ | ⟨r, hr, heq, -⟩
    · rw [hzero, hd.maxima, hd.runsOf_eq_nil hw hnone]
      rfl
    · rw [heq]
      exact hd.delivered hr
  · intro id l r' hr' t ht
    rw [hsame.runsOf] at ht
    rcases hreg hr' with ⟨hnone, -⟩ | ⟨r, hr, heq, -⟩
    · rw [hd.runsOf_eq_nil hw hnone] at ht
      exact absurd ht List.not_mem_nil
    · rw [heq]
      exact hd.ran_le hr t ht

theorem alike (hd : w.Deliveries) (hw : w.Ledger) (h : w.Alike w') : w'.Deliveries :=
  hd.keep hw ⟨h.executions, h.invocations⟩ (by rw [h.handovers]; exact List.Subset.refl _)
    fun {id l r'} hr' => .inr ⟨r', by rw [← h.registration]; exact hr', rfl, fun ha => ha⟩

/-- A change that leaves what registrations were told. -/
theorem keep_of_ite (hd : w.Deliveries) (hw : w.Ledger) (hsame : w.Untried w')
    (hhand : Event.handovers w.events ⊆ Event.handovers w'.events)
    {f : Registration α → Registration α} {P : WatcherId → ListenerId → Prop}
    [∀ id l, Decidable (P id l)]
    (hreg : ∀ id l, w'.registration? id l =
      if P id l then (w.registration? id l).map f else w.registration? id l)
    (hdelivered : ∀ r, (f r).delivered = r.delivered)
    (hactive : ∀ r, r.active = false → (f r).active = false) : w'.Deliveries := by
  refine hd.keep hw hsame hhand fun {id l r'} hr' => .inr ?_
  rw [hreg] at hr'
  split at hr'
  · obtain ⟨r, hr, rfl⟩ := Option.map_eq_some_iff.mp hr'
    exact ⟨r, hr, hdelivered r, hactive r⟩
  · exact ⟨r', hr', rfl, fun ha => ha⟩

theorem alters [BEq α] (hd : w.Deliveries) (hw : w.Ledger) (h : w.Alters w') : w'.Deliveries := by
  have hsame := h.untried
  have hhand : Event.handovers w.events ⊆ Event.handovers w'.events :=
    (hw.alters h).2.handovers
  cases h with
  | enrol hb hcl hj =>
    refine hd.keep hw hsame hhand fun {j k r'} hr' => ?_
    rw [registration?_joined hw.sound hb hj] at hr'
    split at hr'
    · rename_i heq
      obtain ⟨rfl, rfl⟩ := heq
      obtain rfl := Option.some.inj hr'
      exact .inl ⟨registration?_nextId hw.sound hb, rfl⟩
    · exact .inr ⟨r', hr', rfl, fun ha => ha⟩
  | reserve hb hcl hj =>
    refine hd.keep hw hsame hhand fun {j k r'} hr' => .inr ⟨r', ?_, rfl, fun ha => ha⟩
    rw [registration?_reserve, hj.registration?_eq] at hr'
    exact hr'
  | retire id l =>
    exact hd.keep_of_ite hw hsame hhand (registration?_unregister w id · l ·) (fun _ => rfl)
      fun _ _ => rfl
  | close id =>
    exact hd.keep_of_ite hw hsame hhand (registration?_close hw.sound id) (fun _ => rfl)
      fun _ _ => rfl
  | @adopt p id b s hb hcl hr =>
    refine hd.keep hw hsame hhand fun {j k r'} hr' => .inr ⟨r', ?_, rfl, fun ha => ha⟩
    rw [registration?_modify _ _ _ _ fun b => Watcher.accept_registry b s] at hr'
    exact hr'
  | @handOver p t r hr ha hg =>
    exact hd.keep_of_ite hw hsame hhand (registration?_handOver w p t) (fun _ => rfl) fun _ ha => ha

theorem rearranges [BEq α] (hd : w.Deliveries) (hw : w.Ledger) (h : w.Rearranges w') :
    w'.Deliveries := by
  induction h with
  | refl => exact hd
  | tail hfirst hstep ih =>
    obtain ⟨hledger, -⟩ := hw.rearranges hfirst
    exact hstep.elim (ih.alike hledger) (ih.alters hledger)

/-- What a listener was called with had been handed over. -/
theorem handed_of_invoked (hd : w.Deliveries) {t : Task α}
    (ht : t ∈ Event.invocations w.events) : t ∈ Event.handovers w.events := by
  have hmem : t ∈ w.callsTo t.watcher t.listener :=
    List.mem_filter.mpr ⟨ht, decide_eq_true t.isFor_self⟩
  rw [hd.maxima] at hmem
  exact hd.executed (Event.mem_runsOf.mp (Task.mem_of_mem_maxima hmem)).1

/-- What the listener of a registration was called with had been accepted. -/
theorem genuine_of_called (hd : w.Deliveries) (hw : w.Ledger) {id : WatcherId} {l : ListenerId}
    {t : Task α} (ht : t ∈ w.callsTo id l) : w.Genuine id t.update t.state := by
  obtain ⟨hinv, hfor⟩ := List.mem_filter.mp ht
  obtain ⟨rfl, rfl⟩ := of_decide_eq_true hfor
  exact (hw.handedOver t (hd.handed_of_invoked hinv)).1

/-- No listener is called with an update twice, or with an older one after a newer one. -/
theorem ascending (hd : w.Deliveries) (id : WatcherId) (l : ListenerId) :
    (w.callsTo id l).Pairwise fun a b => a.update < b.update := by
  rw [hd.maxima]
  exact Task.maxima_ascending _

/-- A registration was called with no task newer than the one it was told last. -/
theorem called_le (hd : w.Deliveries) {t : Task α} {r : Registration α}
    (ht : t ∈ Event.invocations w.events) (hr : w.registration? t.watcher t.listener = some r) :
    t.update ≤ r.delivered := by
  have hmem : t ∈ w.callsTo t.watcher t.listener :=
    List.mem_filter.mpr ⟨ht, decide_eq_true t.isFor_self⟩
  rw [hd.maxima] at hmem
  exact hd.ran_le hr t (Task.mem_of_mem_maxima hmem)

section Newest

variable (hd : w.Deliveries) (hw : w.Ledger) {t : Task α} {r : Registration α}
  (ht : t ∈ Event.handovers w.events) (hr : w.registration? t.watcher t.listener = some r)

include hd hw ht hr

/-- An update is newer than what its registration was told last if and only if it is newer than all
that the listener was called with. -/
theorem newer_than_calls_iff :
    (∀ c ∈ w.callsTo t.watcher t.listener, c.update < t.update) ↔ r.delivered < t.update := by
  have hlast := hd.delivered hr
  constructor
  · intro h
    by_contra hn
    obtain ⟨⟨k, hk, -⟩, -⟩ := hw.handedOver t ht
    have hpos : 0 < Task.lastUpdate (w.callsTo t.watcher t.listener) := by omega
    obtain ⟨c, hc, heq⟩ := Task.exists_of_lastUpdate_pos hpos
    have := h c (List.mem_of_getLast? hc)
    omega
  · intro h c hc
    rw [hd.maxima] at hc
    have hle := hd.ran_le hr c (Task.mem_of_mem_maxima hc)
    omega

/-- The same for all that was run while the registration was active. -/
theorem newer_than_runs_iff :
    (∀ b ∈ Event.runsOf t.watcher t.listener w.events, b.update < t.update) ↔
      r.delivered < t.update := by
  constructor
  · intro h
    refine (hd.newer_than_calls_iff hw ht hr).mp ?_
    intro c hc
    rw [hd.maxima] at hc
    exact h c (Task.mem_of_mem_maxima hc)
  · intro h b hb
    have hle := hd.ran_le hr b hb
    omega

end Newest

end Deliveries

/-- What running a task does, given its registration and whether the listener is called. -/
structure Tried (w : World α) (t : Task α) (r : Registration α) (called : Bool) (w' : World α) :
    Prop where
  handed : t ∈ Event.handovers w.events
  found : w.registration? t.watcher t.listener = some r
  called_iff : called = true ↔ r.active = true ∧ r.delivered < t.update
  executions : Event.executions w'.events = Event.executions w.events ++ [(t, r.active)]
  invocations : Event.invocations w'.events =
    Event.invocations w.events ++ if called then [t] else []
  handovers : Event.handovers w'.events = Event.handovers w.events
  registration : ∀ id l, w'.registration? id l =
    if called = true ∧ t.watcher = id ∧ l = t.listener then
      (w.registration? id l).map fun r => { r with delivered := t.update, calls := r.calls + 1 }
    else w.registration? id l

theorem Tries.tried {w w' : World α} {t : Task α} (h : w.Tries t w') :
    ∃ r called, w.Tried t r called w' := by
  cases h with
  | @pass p r ht hr ha =>
    refine ⟨r, false, ht, hr, by simp [ha], ?_, ?_, ?_, fun id l => by simp⟩
    · rw [events_note, Event.executions_append, ha]
      rfl
    · rw [events_note, Event.invocations_append]
      rfl
    · rw [events_note, Event.handovers_append]
      exact List.append_nil _
  | @stale p r ht hr ha hn =>
    refine ⟨r, false, ht, hr, by simp [ha, hn], ?_, ?_, ?_, fun id l => by simp⟩
    · rw [events_note, Event.executions_append, ha]
      rfl
    · rw [events_note, Event.invocations_append]
      rfl
    · rw [events_note, Event.handovers_append]
      exact List.append_nil _
  | @call p q elsewhere audience r ht hr ha hn =>
    refine ⟨r, true, ht, hr, by simp [ha, hn], ?_, ?_, ?_, fun id l => ?_⟩
    · rw [events_note, events_tell, events_note, Event.executions_append,
        Event.executions_append, ha]
      exact List.append_nil _
    · rw [events_note, events_tell, events_note, Event.invocations_append,
        Event.invocations_append, List.append_assoc]
      rfl
    · rw [events_note, events_tell, events_note, Event.handovers_append,
        Event.handovers_append, List.append_assoc]
      exact List.append_nil _
    · rw [registration?_note, registration?_tell, registration?_note]
      simp

namespace Tried

variable {w w' : World α} {t : Task α} {r : Registration α} {called : Bool}
  (h : w.Tried t r called w')

include h

theorem runsOf_eq (id : WatcherId) (l : ListenerId) :
    Event.runsOf id l w'.events = Event.runsOf id l w.events ++
      if r.active = true ∧ t.isFor id l then [t] else [] := by
  have hone : Event.runsOf id l [.ran t r.active] = _ := Event.runsOf_ran id l t r.active
  rw [← hone]
  unfold Event.runsOf
  rw [h.executions, List.filter_append, List.map_append]
  rfl

theorem callsTo_eq (id : WatcherId) (l : ListenerId) :
    w'.callsTo id l = w.callsTo id l ++ if called = true ∧ t.isFor id l then [t] else [] := by
  unfold World.callsTo Event.callsTo
  rw [h.invocations, List.filter_append]
  congr 1
  by_cases hc : called = true <;> by_cases ht : t.isFor id l <;> simp [hc, ht]

theorem not_called (ha : r.active = false) : called = false := by
  cases hc : called with
  | false => rfl
  | true =>
    rw [(h.called_iff.mp hc).1] at ha
    exact nomatch ha

/-- A registration afterwards: that of the task, which was told of it, or one left alone. -/
theorem registration_or {id : WatcherId} {l : ListenerId} {b : Registration α}
    (hb : w'.registration? id l = some b) :
    called = true ∧ t.isFor id l ∧ b = { r with delivered := t.update, calls := r.calls + 1 } ∨
      ¬ (called = true ∧ t.isFor id l) ∧ w.registration? id l = some b := by
  rw [h.registration] at hb
  split at hb
  · rename_i hc
    obtain ⟨hc, rfl, rfl⟩ := hc
    rw [h.found] at hb
    exact .inl ⟨hc, t.isFor_self, (Option.some.inj hb).symm⟩
  · rename_i hc
    exact .inr ⟨fun hx => hc ⟨hx.1, hx.2.1, hx.2.2.symm⟩, hb⟩

theorem passed (hd : w.Deliveries) {a : Task α} {b : Registration α}
    (ha : (a, false) ∈ Event.executions w'.events)
    (hb : w'.registration? a.watcher a.listener = some b) : b.active = false := by
  obtain ⟨b₀, hb₀, hactive⟩ : ∃ b₀, w.registration? a.watcher a.listener = some b₀ ∧
      b.active = b₀.active := by
    rcases h.registration_or hb with ⟨-, ⟨hid, hl⟩, rfl⟩ | ⟨-, hb⟩
    · exact ⟨r, by rw [← hid, ← hl, h.found], rfl⟩
    · exact ⟨b, hb, rfl⟩
  rw [hactive]
  rw [h.executions] at ha
  rcases List.mem_append.mp ha with hold | hnew
  · exact hd.passed hold hb₀
  · obtain ⟨rfl, hr⟩ := Prod.mk.inj (List.mem_singleton.mp hnew)
    obtain rfl := Option.some.inj (h.found.symm.trans hb₀)
    exact hr.symm

theorem maxima (hd : w.Deliveries) (hw : w.Ledger) (id : WatcherId) (l : ListenerId) :
    w'.callsTo id l = Task.maxima (Event.runsOf id l w'.events) := by
  rw [h.callsTo_eq, h.runsOf_eq, hd.maxima]
  by_cases hfor : t.isFor id l
  · obtain ⟨rfl, rfl⟩ := hfor
    cases ha : r.active with
    | false => simp [h.not_called ha]
    | true =>
      have hrun : (if true = true ∧ t.isFor t.watcher t.listener then [t] else []) = [t] :=
        if_pos ⟨rfl, rfl, rfl⟩
      rw [hrun, Task.maxima_concat]
      congr 1
      simp only [hd.newer_than_runs_iff hw h.handed h.found, Task.isFor_self, and_true,
        h.called_iff, ha, true_and]
  · simp [hfor]

theorem delivered (hd : w.Deliveries) {id : WatcherId} {l : ListenerId} {b : Registration α}
    (hb : w'.registration? id l = some b) :
    b.delivered = Task.lastUpdate (w'.callsTo id l) := by
  rw [h.callsTo_eq]
  rcases h.registration_or hb with ⟨hc, hfor, rfl⟩ | ⟨hnot, hb⟩
  · rw [if_pos ⟨hc, hfor⟩, Task.lastUpdate_concat]
  · rw [if_neg hnot, List.append_nil]
    exact hd.delivered hb

theorem ran_le (hd : w.Deliveries) {id : WatcherId} {l : ListenerId} {a : Task α}
    {b : Registration α} (hb : w'.registration? id l = some b)
    (ha : a ∈ Event.runsOf id l w'.events) : a.update ≤ b.delivered := by
  rw [h.runsOf_eq] at ha
  rcases h.registration_or hb with ⟨hc, ⟨rfl, rfl⟩, rfl⟩ | ⟨hnot, hb⟩
  · show a.update ≤ t.update
    have hlt := (h.called_iff.mp hc).2
    rcases List.mem_append.mp ha with hold | hnew
    · have hle := hd.ran_le h.found a hold
      omega
    · split at hnew
      · exact Nat.le_of_eq (congrArg Task.update (List.mem_singleton.mp hnew))
      · exact absurd hnew List.not_mem_nil
  · rcases List.mem_append.mp ha with hold | hnew
    · exact hd.ran_le hb a hold
    · split at hnew
      · rename_i hrun
        obtain rfl := List.mem_singleton.mp hnew
        obtain ⟨hactive, rfl, rfl⟩ := hrun
        obtain rfl := Option.some.inj (h.found.symm.trans hb)
        by_contra hlt
        exact hnot ⟨h.called_iff.mpr ⟨hactive, Nat.lt_of_not_le hlt⟩, a.isFor_self⟩
      · exact absurd hnew List.not_mem_nil

theorem deliveries (hd : w.Deliveries) (hw : w.Ledger) : w'.Deliveries where
  executed {x} hx := by
    rw [h.handovers]
    rw [h.executions] at hx
    rcases List.mem_append.mp hx with hx | hx
    · exact hd.executed hx
    · rw [List.mem_singleton.mp hx]
      exact h.handed
  passed := h.passed hd
  maxima := h.maxima hd hw
  delivered := h.delivered hd
  ran_le hb _ ha := h.ran_le hd hb ha

end Tried

end World

theorem Runs.deliveries [BEq α] {m m' : Machine α} {t : Task α} (h : Runs m t m')
    (hm : m.WellFormed) (hd : m.world.Deliveries) : m'.world.Deliveries := by
  obtain ⟨w₁, w₂, hfirst, htries, halike⟩ := h.changes hm
  obtain ⟨hledger, -⟩ := hm.ledger.rearranges hfirst
  obtain ⟨r, called, htried⟩ := htries.tried
  exact (htried.deliveries (hd.rearranges hm.ledger hfirst) hledger).alike
    (hledger.tries htries).1 halike

namespace Machine

variable [BEq α] {P : Machine α → Prop} {m m' : Machine α}

/-- What holds at first and is preserved by moves and runs always holds; preserving it may rely on
what is known of deliveries. -/
theorem Reached.invariant_of_deliveries {I : Machine α → Prop} (h : m.Reached P)
    (hinit : I { world := {} })
    (hmove : ∀ {m m'}, m.WellFormed → m.world.Deliveries → I m → Move P m m' → I m')
    (hruns : ∀ {m t m'}, m.WellFormed → m.world.Deliveries → I m → Runs m t m' → I m') :
    m.world.Deliveries ∧ I m := by
  refine (h.invariant (I := fun m => m.world.Deliveries ∧ I m) ⟨.initial, hinit⟩ ?_ ?_).2
  · rintro m m' hm ⟨hd, hI⟩ hstep
    exact ⟨hd.rearranges hm.ledger (hstep.rearranges hm), hmove hm hd hI hstep⟩
  · rintro m t m' hm ⟨hd, hI⟩ hr
    exact ⟨hr.deliveries hm hd, hruns hm hd hI hr⟩

theorem Reached.deliveries (h : m.Reached P) : m.world.Deliveries :=
  (h.invariant_of_deliveries (I := fun _ => True) trivial (fun _ _ _ _ => trivial)
    fun _ _ _ _ => trivial).1

/-- At most one task is run before the next machine. -/
theorem Next.tried (h : m.Next m') (hm : m.WellFormed) :
    m.world.Untried m'.world ∨ ∃ w₁ w₂ t r called, m.world.Rearranges w₁ ∧
      w₁.Tried t r called w₂ ∧ w₂.Alike m'.world := by
  obtain ⟨m₁, hmoves, hlast⟩ := h.turn (P := fun _ => True) hm trivial
  obtain ⟨hm₁, -, hfirst⟩ := moves_invariant (I := fun _ => True) (fun _ _ _ => trivial) hmoves hm
    trivial
  rcases hlast with rfl | ⟨t, hr⟩
  · exact .inl hfirst.untried
  · obtain ⟨w₁, w₂, hnext, htries, halike⟩ := hr.changes hm₁
    obtain ⟨r, called, htried⟩ := htries.tried
    exact .inr ⟨w₁, w₂, t, r, called, hfirst.trans hnext, htried, halike⟩

/-- A task that is run reaches the listener if and only if its registration is active and it is
newer than all tasks that the listener was called with before. -/
theorem Next.invokes_iff (h : m.Next m') (hm : m.WellFormed) (hd : m.world.Deliveries)
    {t : Task α} {active : Bool} (hexec : m.Executes m' t active) :
    active = m'.world.isRegistered t.watcher t.listener ∧
      (m.Invokes m' t ↔ m'.world.isRegistered t.watcher t.listener = true ∧
        ∀ c ∈ m.world.callsTo t.watcher t.listener, c.update < t.update) := by
  obtain ⟨xs, hxs, hmem⟩ := hexec
  rcases h.tried hm with hsame | ⟨w₁, w₂, t₀, r, called, hfirst, htried, halike⟩
  · rw [hsame.executions] at hxs
    rw [List.self_eq_append_right.mp hxs] at hmem
    exact absurd hmem List.not_mem_nil
  · rw [halike.executions, htried.executions, hfirst.untried.executions] at hxs
    rw [← List.append_cancel_left hxs] at hmem
    obtain ⟨rfl, rfl⟩ := Prod.mk.inj (List.mem_singleton.mp hmem)
    obtain ⟨hledger, -⟩ := hm.ledger.rearranges hfirst
    have hd₁ : w₁.Deliveries := hd.rearranges hm.ledger hfirst
    have hsound : m'.world.SoundRegistries := (h.wellFormed hm).ledger.sound
    have hreg : m'.world.isRegistered t.watcher t.listener = r.active := by
      have hr' : ∃ r', m'.world.registration? t.watcher t.listener = some r' ∧
          r'.active = r.active := by
        rw [halike.registration, htried.registration, htried.found]
        split
        · exact ⟨_, rfl, rfl⟩
        · exact ⟨_, rfl, rfl⟩
      obtain ⟨r', hr', ha⟩ := hr'
      rw [← ha, Bool.eq_iff_iff, World.isRegistered_iff hsound]
      exact ⟨fun ⟨a, hx, hact⟩ => Option.some.inj (hr'.symm.trans hx) ▸ hact,
        fun hact => ⟨r', hr', hact⟩⟩
    have hinv : Event.invocations m'.world.events =
        Event.invocations m.world.events ++ if called then [t] else [] := by
      rw [halike.invocations, htried.invocations, hfirst.untried.invocations]
    have hcalled : m.Invokes m' t ↔ called = true := by
      constructor
      · rintro ⟨ts, hts, ht⟩
        rw [← List.append_cancel_left (hinv.symm.trans hts)] at ht
        by_contra hc
        rw [if_neg hc] at ht
        exact absurd ht List.not_mem_nil
      · exact fun hc => ⟨_, hinv, by rw [if_pos hc]; exact List.mem_singleton_self t⟩
    refine ⟨hreg.symm, ?_⟩
    rw [hcalled, htried.called_iff, hreg,
      ← hd₁.newer_than_calls_iff hledger htried.handed htried.found, hfirst.untried.callsTo]

/-- When all tasks handed over for an active registration have been run, the last call was with the
newest of them. -/
theorem Reached.last_call_newest (h : m.Reached P) {id : WatcherId} {l : ListenerId}
    (hactive : m.world.isRegistered id l = true)
    (hall : ∀ t ∈ Event.handoversTo id l m.world.events,
      ∃ active, (t, active) ∈ Event.executions m.world.events)
    (hsome : Event.handoversTo id l m.world.events ≠ []) :
    ∃ t ∈ Event.handoversTo id l m.world.events, (m.world.callsTo id l).getLast? = some t ∧
      ∀ t' ∈ Event.handoversTo id l m.world.events, t'.update ≤ t.update := by
  have hd := h.deliveries
  have hw := h.wellFormed.ledger
  obtain ⟨r, hr, hact⟩ := (World.isRegistered_iff hw.sound id l).mp hactive
  have hran : ∀ t ∈ Event.handoversTo id l m.world.events,
      t ∈ Event.runsOf id l m.world.events := by
    intro t ht
    obtain ⟨active, hexec⟩ := hall t ht
    obtain ⟨-, hfor⟩ := List.mem_filter.mp ht
    obtain ⟨rfl, rfl⟩ := of_decide_eq_true hfor
    cases active with
    | true => exact Event.mem_runsOf.mpr ⟨hexec, t.isFor_self⟩
    | false =>
      rw [hd.passed hexec hr] at hact
      exact nomatch hact
  obtain ⟨t₀, ht₀⟩ := List.exists_mem_of_ne_nil _ hsome
  have hpos : 0 < Task.lastUpdate (m.world.callsTo id l) := by
    obtain ⟨⟨k, hk, -⟩, -⟩ := hw.handedOver t₀ (List.mem_of_mem_filter ht₀)
    have hle := hd.ran_le hr t₀ (hran t₀ ht₀)
    have hlast := hd.delivered hr
    omega
  obtain ⟨t, ht, heq⟩ := Task.exists_of_lastUpdate_pos hpos
  refine ⟨t, ?_, ht, fun t' ht' => ?_⟩
  · obtain ⟨hinv, hfor⟩ := List.mem_filter.mp (List.mem_of_getLast? ht)
    exact List.mem_filter.mpr ⟨hd.handed_of_invoked hinv, hfor⟩
  · rw [heq, ← hd.delivered hr]
    exact hd.ran_le hr t' (hran t' ht')

/-- Whatever executors do and whoever panics: a task that is run calls the listener if and only if
its registration is active and the task is newer than all the listener was called with; so the calls
are the strict maxima of the runs, each with the state that was accepted as that update; and when
everything handed over has been run, the last call was the newest. -/
theorem calls_are_maxima (h : m.Reached fun _ => True) :
    (∀ m' t active, m.Next m' → m.Executes m' t active →
      (m.Invokes m' t ↔ m'.world.isRegistered t.watcher t.listener = true ∧
        ∀ c ∈ m.world.callsTo t.watcher t.listener, c.update < t.update) ∧
      active = m'.world.isRegistered t.watcher t.listener) ∧
    ∀ id l,
      m.world.callsTo id l = Task.maxima (Event.runsOf id l m.world.events) ∧
      (m.world.callsTo id l).Pairwise (fun a b => a.update < b.update) ∧
      (∀ t ∈ m.world.callsTo id l, m.world.Genuine id t.update t.state) ∧
      (m.world.isRegistered id l = true →
        (∀ t ∈ Event.handoversTo id l m.world.events,
          ∃ active, (t, active) ∈ Event.executions m.world.events) →
        Event.handoversTo id l m.world.events ≠ [] →
        ∃ t ∈ Event.handoversTo id l m.world.events,
          (m.world.callsTo id l).getLast? = some t ∧
          ∀ t' ∈ Event.handoversTo id l m.world.events, t'.update ≤ t.update) := by
  have hd := h.deliveries
  constructor
  · intro m' t active hn hexec
    obtain ⟨hact, hiff⟩ := hn.invokes_iff h.wellFormed hd hexec
    exact ⟨hiff, hact⟩
  · intro id l
    refine ⟨hd.maxima id l, hd.ascending id l, ?_, ?_⟩
    · intro t ht
      exact hd.genuine_of_called h.wellFormed.ledger ht
    · intro hactive hall hsome
      exact h.last_call_newest hactive hall hsome

def twoQueued : Machine Nat :=
  ({ world := {} } : Machine Nat).carry 12
    [.root "r" "r" false, .watch "r" "l" false (.queue "q") (fun _ => []) fun _ => [],
      .push "r" ⟨1⟩ ⟨10, 10⟩, .push "r" ⟨2⟩ ⟨20, 20⟩]

def lateTask : Machine Nat := (twoQueued.world.start (.queueRun "q" .backward)).steps 3

theorem reached_lateTask : lateTask.Reached fun _ => True :=
  (Reached.initial.carry_any (by decide +kernel)).begin_any (by decide +kernel)

theorem calls_are_maxima_lateTask :
    ¬ lateTask.Invokes lateTask.step ⟨0, ⟨1⟩, 1, ⟨⟨1⟩, 10⟩⟩ ∧
      lateTask.step.world.callsTo 0 ⟨1⟩ =
        Task.maxima (Event.runsOf 0 ⟨1⟩ lateTask.step.world.events) ∧
      ∃ t ∈ Event.handoversTo 0 ⟨1⟩ lateTask.step.world.events,
        (lateTask.step.world.callsTo 0 ⟨1⟩).getLast? = some t ∧
        ∀ t' ∈ Event.handoversTo 0 ⟨1⟩ lateTask.step.world.events, t'.update ≤ t.update := by
  have hnext : lateTask.Next lateTask.step := .of_stack (by decide +kernel)
  have hexec : lateTask.Executes lateTask.step ⟨0, ⟨1⟩, 1, ⟨⟨1⟩, 10⟩⟩ true :=
    ⟨[(⟨0, ⟨1⟩, 1, ⟨⟨1⟩, 10⟩⟩, true)], by with_unfolding_all rfl, List.mem_singleton_self _⟩
  have hcalls : lateTask.world.callsTo 0 ⟨1⟩ = [⟨0, ⟨1⟩, 2, ⟨⟨2⟩, 20⟩⟩] := by
    with_unfolding_all rfl
  have hhanded : Event.handoversTo 0 ⟨1⟩ lateTask.step.world.events =
      [⟨0, ⟨1⟩, 1, ⟨⟨1⟩, 10⟩⟩, ⟨0, ⟨1⟩, 2, ⟨⟨2⟩, 20⟩⟩] := by with_unfolding_all rfl
  have hexecs : Event.executions lateTask.step.world.events =
      [(⟨0, ⟨1⟩, 2, ⟨⟨2⟩, 20⟩⟩, true), (⟨0, ⟨1⟩, 1, ⟨⟨1⟩, 10⟩⟩, true)] := by
    with_unfolding_all rfl
  obtain ⟨hmax, -, -, hlast⟩ :=
    (calls_are_maxima (.next reached_lateTask trivial hnext)).2 0 ⟨1⟩
  refine ⟨fun hinv => ?_, hmax, hlast (by decide +kernel) ?_ (by rw [hhanded]; simp)⟩
  · have hlt := (((calls_are_maxima reached_lateTask).1 _ _ _ hnext hexec).1.mp hinv).2
    rw [hcalls] at hlt
    exact absurd (hlt _ (List.mem_singleton_self _)) (by decide)
  · rw [hhanded, hexecs]
    simp

end Machine

end WatchTree
