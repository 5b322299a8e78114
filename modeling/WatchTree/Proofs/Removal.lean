import WatchTree.Proofs.Deliveries

/-!
# Removal is final

A registration can outlive its entry in the registry: in the listeners of an unfinished delivery,
in a queued task, in a replay that is about to begin. `World.Gone` says that it is inactive, or that
its watcher is closed and then holds no active registration at all (`World.Shut`). Both last, a task
calls an active registration only, and a closed watcher accepts nothing.
-/

namespace WatchTree

variable {α : Type}

namespace Event

/-- The tasks with which a child's transformation was applied. -/
def applications (child : WatcherId) (es : List (Event α)) : List (Task α) :=
  es.filterMap fun
    | .called (.child c) t _ => if c = child then some t else none
    | _ => none

theorem applications_append (child : WatcherId) (es fs : List (Event α)) :
    applications child (es ++ fs) = applications child es ++ applications child fs :=
  List.filterMap_append

theorem mem_applications {child : WatcherId} {es : List (Event α)} {t : Task α} :
    t ∈ applications child es ↔ ∃ elsewhere, .called (.child child) t elsewhere ∈ es := by
  unfold applications
  rw [List.mem_filterMap]
  constructor
  · rintro ⟨e, he, hsome⟩
    split at hsome
    · rename_i c a elsewhere
      split at hsome
      · rename_i hc
        obtain rfl := Option.some.inj hsome
        exact ⟨elsewhere, hc ▸ he⟩
      · exact nomatch hsome
    · exact nomatch hsome
  · rintro ⟨elsewhere, he⟩
    exact ⟨_, he, if_pos rfl⟩

end Event

namespace World

/-- The tasks with which a child's transformation was applied. -/
abbrev applications (w : World α) (child : WatcherId) : List (Task α) :=
  Event.applications child w.events

/-- Closed watchers have no active registrations. -/
def Shut (w : World α) : Prop :=
  ∀ id l r, w.isClosed id = true → w.registration? id l = some r → r.active = false

/-- The registration is inactive, or its watcher is closed. -/
def Gone (w : World α) (id : WatcherId) (l : ListenerId) : Prop :=
  w.isClosed id = true ∨ ∃ r, w.registration? id l = some r ∧ r.active = false

section Gone

variable {w w' : World α}

theorem Gone.of_extends {id : WatcherId} {l : ListenerId} (h : w.Gone id l) (hx : w.Extends w') :
    w'.Gone id l := by
  rcases h with hcl | ⟨r, hr, ha⟩
  · exact .inl (hx.closed hcl)
  · obtain ⟨r', hr', hp⟩ := hx.registration hr
    exact .inr ⟨r', hr', hp.active ha⟩

theorem Gone.inactive {id : WatcherId} {l : ListenerId} (h : w.Gone id l) (hs : w.Shut)
    {r : Registration α} (hr : w.registration? id l = some r) : r.active = false := by
  rcases h with hcl | ⟨r', hr', ha⟩
  · exact hs id l r hcl hr
  · obtain rfl := Option.some.inj (hr'.symm.trans hr)
    exact ha

theorem Gone.not_registered {id : WatcherId} {l : ListenerId} (h : w.Gone id l) (hs : w.Shut)
    (hw : w.Ledger) : w.isRegistered id l = false := by
  rw [← Bool.not_eq_true, isRegistered_iff hw.sound]
  rintro ⟨r, hr, ha⟩
  rw [h.inactive hs hr] at ha
  exact nomatch ha

end Gone

/-! ## Closed watchers -/

section Shut

variable {w w' : World α}

/-- A change that closes nothing and activates nothing. -/
theorem Shut.keep (h : w.Shut) (hclosed : ∀ id, w'.isClosed id = w.isClosed id)
    (hreg : ∀ {id l r'}, w'.registration? id l = some r' →
      w.isClosed id = false ∨ ∃ r, w.registration? id l = some r ∧
        (r.active = false → r'.active = false)) : w'.Shut := by
  intro id l r' hcl hr'
  rw [hclosed] at hcl
  rcases hreg hr' with hopen | ⟨r, hr, ha⟩
  · rw [hcl] at hopen
    exact nomatch hopen
  · exact ha (h id l r hcl hr)

theorem Shut.keep_of_ite (h : w.Shut) (hclosed : ∀ id, w'.isClosed id = w.isClosed id)
    {f : Registration α → Registration α} {P : WatcherId → ListenerId → Prop}
    [∀ id l, Decidable (P id l)]
    (hreg : ∀ id l, w'.registration? id l =
      if P id l then (w.registration? id l).map f else w.registration? id l)
    (hf : ∀ r, r.active = false → (f r).active = false) : w'.Shut := by
  refine h.keep hclosed fun {id l r'} hr' => .inr ?_
  rw [hreg] at hr'
  split at hr'
  · obtain ⟨r, hr, rfl⟩ := Option.map_eq_some_iff.mp hr'
    exact ⟨r, hr, hf r⟩
  · exact ⟨r', hr', fun ha => ha⟩

theorem Shut.alike (h : w.Shut) (ha : w.Alike w') : w'.Shut :=
  h.keep ha.closed fun {id l r'} hr' =>
    .inr ⟨r', by rw [← ha.registration]; exact hr', fun ha => ha⟩

theorem Shut.alters [BEq α] (h : w.Shut) (hw : w.Ledger) (ha : w.Alters w') : w'.Shut := by
  cases ha with
  | @enrol w₁ id b listener executor hb hcl hj =>
    refine h.keep (fun j => by rw [isClosed_enrol, hj.isClosed_eq]) fun {j k r'} hr' => ?_
    rw [registration?_joined hw.sound hb hj] at hr'
    split at hr'
    · rename_i heq
      obtain ⟨rfl, rfl⟩ := heq
      exact .inl ((isClosed_of_watcher? hb).trans hcl)
    · exact .inr ⟨r', hr', fun ha => ha⟩
  | @reserve w₁ id b listener executor hb hcl hj =>
    refine h.keep (fun j => by rw [isClosed_reserve, hj.isClosed_eq]) fun {j k r'} hr' => ?_
    rw [registration?_reserve, hj.registration?_eq] at hr'
    exact .inr ⟨r', hr', fun ha => ha⟩
  | retire id l =>
    exact h.keep_of_ite (fun j => isClosed_unregister w id j l)
      (registration?_unregister w id · l ·) fun _ _ => rfl
  | close id =>
    intro j k r' hcl hr'
    rw [registration?_close hw.sound] at hr'
    split at hr'
    · obtain ⟨r, -, rfl⟩ := Option.map_eq_some_iff.mp hr'
      rfl
    · rename_i hne
      refine h j k r' ?_ hr'
      unfold isClosed at hcl ⊢
      rwa [watcher?_modify_of_ne _ hne] at hcl
  | @adopt p id b s hb hcl hr =>
    refine h.keep (fun j => isClosed_modify _ id j fun b => Watcher.accept_closed b s)
      fun {j k r'} hr' => .inr ⟨r', ?_, fun ha => ha⟩
    rw [registration?_modify _ _ _ _ fun b => Watcher.accept_registry b s] at hr'
    exact hr'
  | @handOver p t r hr ha hg =>
    exact h.keep_of_ite (isClosed_handOver w p t) (registration?_handOver w p t) fun _ ha => ha

theorem Shut.rearranges [BEq α] (h : w.Shut) (hw : w.Ledger) (hr : w.Rearranges w') :
    w'.Shut := by
  induction hr with
  | refl => exact h
  | tail hfirst hstep ih =>
    obtain ⟨hledger, -⟩ := hw.rearranges hfirst
    exact hstep.elim ih.alike (ih.alters hledger)

theorem Shut.tries {t : Task α} (h : w.Shut) (ht : w.Tries t w') : w'.Shut := by
  cases ht with
  | pass p => exact h
  | stale p => exact h
  | call p q elsewhere audience =>
    exact h.keep_of_ite (isClosed_tell _ t) (registration?_tell (w.note p (.ran t true)) t)
      fun _ ha => ha

/-- A closed watcher accepts nothing. -/
theorem Rearranges.accepted_eq_of_closed [BEq α] (h : w.Rearranges w') (hw : w.Ledger)
    {id : WatcherId} (hcl : w.isClosed id = true) : w'.accepted id = w.accepted id := by
  induction h with
  | refl => rfl
  | tail hfirst hstep ih =>
    rw [← ih]
    have hcl' := (hw.rearranges hfirst).2.closed hcl
    rcases hstep with ha | ha
    · exact ha.accepted id
    · cases ha with
      | enrol hb hopen hj =>
        unfold World.accepted
        rw [events_enrol, hj.events_eq]
      | reserve hb hopen hj =>
        unfold World.accepted
        rw [events_reserve, hj.events_eq]
      | retire j l => rfl
      | close j => rfl
      | adopt p hb hopen hr =>
        rw [accepted_accept, if_neg, List.append_nil]
        rintro rfl
        rw [isClosed_of_watcher? hb, hopen] at hcl'
        exact nomatch hcl'
      | handOver p hr ha hg => exact (resembles_handOver _ p _).accepted id

end Shut

end World

/-! ## What the history says about registrations -/

/-- What an event says about registrations is so: who was applied is fed by its subscription, and
what was to be taken out is not registered. -/
def Event.Fits (w : World α) : Event α → Prop
  | .called (.child c) t _ => w.Feeds t c
  | .unwatched id l found => w.isRegistered id l = false ∧
      (found = true → ∃ r, w.registration? id l = some r ∧ r.active = false)
  | _ => True

/-- What of it is so for ever: an id that was not found may be issued later. -/
def Event.Attested (w : World α) : Event α → Prop
  | .called (.child c) t _ => w.Feeds t c
  | .unwatched id l true => ∃ r, w.registration? id l = some r ∧ r.active = false
  | _ => True

/-- All of the history is attested. -/
def World.Attested (w : World α) : Prop := ∀ e ∈ w.events, e.Attested w

theorem Event.Fits.attested {w : World α} {e : Event α} (h : e.Fits w) : e.Attested w := by
  unfold Event.Fits at h
  unfold Event.Attested
  split
  · exact h
  · exact h.2 rfl
  · trivial

theorem Event.Attested.of_extends {w w' : World α} {e : Event α} (h : e.Attested w)
    (hx : w.Extends w') : e.Attested w' := by
  unfold Event.Attested at h ⊢
  split
  · exact hx.feeds h
  · obtain ⟨r, hr, ha⟩ := h
    obtain ⟨r', hr', hp⟩ := hx.registration hr
    exact ⟨r', hr', hp.active ha⟩
  · trivial

/-- Neither a call nor a removal. -/
def Event.isPlain : Event α → Bool
  | .called .. | .unwatched .. => false
  | _ => true

theorem Event.fits_of_isPlain {e : Event α} (h : e.isPlain = true) (w : World α) : e.Fits w := by
  cases e <;> trivial

theorem Event.isPlain_of_isIdle {e : Event α} (h : e.isIdle = true) : e.isPlain = true := by
  cases e <;> first | rfl | exact nomatch h

namespace World

/-- The events that come with a change fit the world after it. -/
def Writes (w w' : World α) : Prop :=
  ∃ es, w'.events = w.events ++ es ∧ ∀ e ∈ es, e.Fits w'

theorem Writes.same {w w' : World α} (h : w'.events = w.events) : w.Writes w' :=
  ⟨[], by rw [h, List.append_nil], by simp⟩

theorem Writes.plain {w w' : World α} (es : List (Event α)) (h : w'.events = w.events ++ es)
    (hes : ∀ e ∈ es, e.isPlain = true) : w.Writes w' :=
  ⟨es, h, fun e he => e.fits_of_isPlain (hes e he) w'⟩

/-- Something plain is recorded before. -/
theorem Writes.after_note {w w' : World α} (p : Bool) {e : Event α} (he : e.isPlain = true)
    {es : List (Event α)} (h : w'.events = (w.note p e).events ++ es)
    (hes : ∀ e ∈ es, e.isPlain = true) : w.Writes w' :=
  .plain (e :: es) (by rw [h, events_note, List.append_assoc]; rfl)
    (List.forall_mem_cons.mpr ⟨he, hes⟩)

theorem Attested.writes {w w' : World α} (h : w.Attested) (hx : w.Extends w')
    (hw : w.Writes w') : w'.Attested := by
  obtain ⟨es, heq, hes⟩ := hw
  intro e he
  rw [heq] at he
  rcases List.mem_append.mp he with hold | hnew
  · exact (h e hold).of_extends hx
  · exact (hes e hnew).attested

theorem events_adopt (w : World α) (p q : Bool) (name : String) (id : WatcherId)
    (b : Watcher α) (s : Latest α) :
    ∃ es : List (Event α), (w.adopt p q name id b s).events = w.events ++ es ∧
      ∀ e ∈ es, e.isPlain = true := by
  unfold adopt
  simp only
  split
  · exact ⟨[.offered id s .accepted, .logged id name (.initialized s.revision)], by simp,
      by simp [Event.isPlain]⟩
  · exact ⟨[.offered id s .accepted], by simp, by simp [Event.isPlain]⟩

theorem Rebuffs.events_eq [BEq α] {w w' : World α} {id : WatcherId} {b : Watcher α} {s : Latest α}
    {reception : Reception} (h : w.Rebuffs id b s reception w') :
    ∃ es : List (Event α), w'.events = w.events ++ es ∧ ∀ e ∈ es, e.isPlain = true := by
  cases h with
  | closed p hcl => exact ⟨_, events_note .., by simp [Event.isPlain]⟩
  | @refused p q name refusal hcl hr =>
    exact ⟨[.offered id s .refused, .logged id name (Machine.refusalMessage s refusal)], by simp,
      by simp [Event.isPlain]⟩

theorem Detaches.events_plain {w w' : World α} {id : WatcherId} {message : String → Diagnostic}
    (h : w.Detaches id message w') :
    ∃ es : List (Event α), w'.events = w.events ++ es ∧ ∀ e ∈ es, e.isPlain = true := by
  rcases h.events_eq with heq | ⟨name, parent, heq⟩
  · exact ⟨[], by rw [heq, List.append_nil], by simp⟩
  · exact ⟨_, heq, by simp [Event.isPlain]⟩

theorem Dispatches.events_eq {w w' : World α} {stk stk' : List (Frame α)} {t : Task α}
    (h : w.Dispatches stk t w' stk') : w'.events = w.events ++ [.handedOver t] := by
  cases h with
  | spread => exact events_handOver ..
  | replay p todo hb hcl hl hj hreg => rw [events_handOver, events_enrol, hj.events_eq]

theorem Takes.writes {w w' : World α} {stk stk' : List (Frame α)} {t : Task α}
    (h : w.Takes stk t w' stk') : w.Writes w' := by
  cases h with
  | dispatched hd => exact .plain _ hd.events_eq (by simp [Event.isPlain])
  | drained => exact .same rfl
  | picked => exact .same rfl

theorem Ran.writes {w w' : World α} {t : Task α} {frames : List (Frame α)}
    (h : w.Ran t w' frames) : w.Writes w' := by
  cases h with
  | inactive p => exact .plain _ (events_note ..) (by simp [Event.isPlain])
  | stale p q name =>
    exact .plain [.ran t true, .logged t.watcher name (.staleDelivery t.listener t.update)]
      (by simp) (by simp [Event.isPlain])
  | @called r p q elsewhere audience frames hr hact hlt hc =>
    refine ⟨[.ran t true, .called audience t elsewhere], by simp, ?_⟩
    rintro e (⟨⟩ | ⟨_, ⟨⟩ | ⟨_, ⟨⟩⟩⟩)
    · trivial
    · cases hc with
      | observer => trivial
      | @child c d hl ho =>
        refine ⟨d, ?_⟩
        rw [origin?_note, origin?_tell]
        exact ho

end World

section Moves

variable [BEq α] {P : Machine α → Prop} {m m' : Machine α}

theorem Move.writes (hm : m.WellFormed) (h : Move P m m') : m.world.Writes m'.world := by
  cases h with
  | remark p he =>
    exact .plain _ (World.events_note ..) (by simpa using Event.isPlain_of_isIdle he)
  | rename hw hq hh hr => exact .same (World.events_eq_of_history hh)
  | enlist p waker hb hp => exact .plain _ (World.events_note ..) (by simp [Event.isPlain])
  | enrol hb hcl hl hj => exact .same (by rw [World.events_enrol, hj.events_eq])
  | reserve hb hcl hj => exact .same (by rw [World.events_reserve, hj.events_eq])
  | @unwatch w stk c p id l hr =>
    obtain ⟨r, hr, -⟩ := (World.isRegistered_iff hm.ledger.sound id l).mp hr
    have hr' : ((w.note p (.unwatched id l true)).unregister id l).registration? id l =
        some r.retire := by
      rw [World.registration?_unregister, if_pos ⟨rfl, rfl⟩, World.registration?_note, hr]
      rfl
    have hsound : ((w.note p (.unwatched id l true)).unregister id l).SoundRegistries :=
      hm.ledger.sound.modify id fun _ hb => hb.remove l
    refine ⟨[.unwatched id l true], World.events_note .., ?_⟩
    intro e he
    obtain rfl := List.mem_singleton.mp he
    refine ⟨?_, fun _ => ⟨_, hr', rfl⟩⟩
    rw [← Bool.not_eq_true, World.isRegistered_iff hsound]
    rintro ⟨r', hr'', ha⟩
    obtain rfl := Option.some.inj (hr'.symm.trans hr'')
    exact nomatch ha
  | @miss w stk c p id l hr =>
    refine ⟨[.unwatched id l false], World.events_note .., ?_⟩
    intro e he
    obtain rfl := List.mem_singleton.mp he
    exact ⟨hr, fun h => nomatch h⟩
  | drop ho hdr hdet =>
    obtain ⟨es, heq, hes⟩ := hdet.events_plain
    exact .plain es heq hes
  | finish q name hc hdet =>
    obtain ⟨es, heq, hes⟩ := hdet.events_plain
    exact .after_note q rfl heq hes
  | wake p hc => exact .plain _ (World.events_note ..) (by simp [Event.isPlain])
  | rebuff hb ho hr =>
    obtain ⟨es, heq, hes⟩ := hr.events_eq
    exact .plain es heq hes
  | @accept w stk c p q name id b s hc hb ho hcl hr hs =>
    obtain ⟨es, heq, hes⟩ := w.events_adopt p q name id b s
    exact .plain es heq hes
  | fail p q name ho hout hy =>
    exact .after_note p rfl (World.events_note ..) (by simp [Event.isPlain])
  | suppress p hc hb ho hy hr =>
    obtain ⟨es, heq, hes⟩ := hr.events_eq
    exact .after_note p rfl heq hes
  | @derive w stk c o p q name id parent b s l d y hok hc hb ho hy hcl hr =>
    obtain ⟨es, heq, hes⟩ := (w.note o (.applied id s.revision (.value y))).events_adopt p q name
      id b ⟨s.revision, y⟩
    exact .after_note o rfl heq hes
  | announce q name hc => exact .plain _ (World.events_note ..) (by simp [Event.isPlain])
  | defer hc hd hr hi => exact .plain _ hd.events_eq (by simp [Event.isPlain])
  | _ => exact .same rfl

theorem Runs.attested {t : Task α} (hm : m.WellFormed) (h : Runs m t m')
    (ha : m.world.Attested) : m'.world.Attested := by
  cases h with
  | @mk w w' w'' stk stk' frames c t hc ht hr =>
    obtain ⟨hchanges, hmem⟩ := ht.rearranges hm.ledger hm.stacked
    have htaken : w'.Attested := ha.writes (hm.ledger.rearranges hchanges).2 ht.writes
    exact htaken.writes (hr.resembles hmem).to_extends hr.writes

omit [BEq α] in
/-- A child whose subscription is not called does not apply its transformation. -/
theorem World.applications_eq_of_callsTo_eq {w w' : World α} (hx : w.Extends w')
    (ha : w'.Attested) {c id : WatcherId} {l : ListenerId} {d : Derivation α}
    (ho : w'.origin? c = some (.child id l d)) (hcalls : w'.callsTo id l = w.callsTo id l) :
    w'.applications c = w.applications c := by
  obtain ⟨es, he⟩ := hx.events
  have hnone : Event.callsTo id l es = [] := by
    unfold World.callsTo at hcalls
    rw [← he, Event.callsTo_append] at hcalls
    exact List.append_cancel_left (hcalls.trans (List.append_nil _).symm)
  unfold World.applications
  rw [← he, Event.applications_append]
  refine (congrArg _ ?_).trans (List.append_nil _)
  refine List.eq_nil_iff_forall_not_mem.mpr fun t ht => ?_
  obtain ⟨elsewhere, hmem⟩ := Event.mem_applications.mp ht
  have hfed : (Event.called (.child c) t elsewhere).Attested w' :=
    ha _ (he ▸ List.mem_append_right _ hmem)
  obtain ⟨d', ho'⟩ : w'.Feeds t c := hfed
  obtain ⟨hid, hl, -⟩ := Origin.child.inj (Option.some.inj (ho'.symm.trans ho))
  have hcall : t ∈ Event.callsTo id l es :=
    List.mem_filter.mpr ⟨List.mem_filterMap.mpr ⟨_, hmem, rfl⟩, decide_eq_true ⟨hid, hl⟩⟩
  rw [hnone] at hcall
  exact nomatch hcall

/-! ## What is over stays over -/

theorem Runs.shut {t : Task α} (hm : m.WellFormed) (h : Runs m t m') (hs : m.world.Shut) :
    m'.world.Shut := by
  obtain ⟨w₁, w₂, hfirst, htries, halike⟩ := h.changes hm
  exact ((hs.rearranges hm.ledger hfirst).tries htries).alike halike

/-- No task is run for a registration that is gone. -/
theorem Runs.callsTo_eq {t : Task α} (hm : m.WellFormed) (h : Runs m t m') (hs : m.world.Shut)
    {id : WatcherId} {l : ListenerId} (hg : m.world.Gone id l) :
    m'.world.callsTo id l = m.world.callsTo id l := by
  obtain ⟨w₁, w₂, hfirst, htries, halike⟩ := h.changes hm
  obtain ⟨r, called, htried⟩ := htries.tried
  have hx := (hm.ledger.rearranges hfirst).2
  have hsame : w₂.callsTo id l = w₁.callsTo id l := by
    rw [htried.callsTo_eq, if_neg, List.append_nil]
    rintro ⟨rfl, rfl, rfl⟩
    have hr := (hg.of_extends hx).inactive (hs.rearranges hm.ledger hfirst) htried.found
    rw [(htried.called_iff.mp rfl).1] at hr
    exact nomatch hr
  have hlast : m'.world.callsTo id l = w₂.callsTo id l :=
    World.Untried.callsTo ⟨halike.executions, halike.invocations⟩ id l
  rw [hlast, hsame, hfirst.untried.callsTo]

namespace Machine

theorem Reached.shut (h : m.Reached P) : m.world.Shut :=
  (h.invariant (I := fun m => m.world.Shut) (fun _ _ _ _ hr => nomatch hr)
    (fun hm hs hmove => hs.rearranges hm.ledger (hmove.rearranges hm))
    fun hm hs hruns => hruns.shut hm hs).2

theorem Reached.attested (h : m.Reached P) : m.world.Attested :=
  (h.invariant (I := fun m => m.world.Attested) (fun _ he => nomatch he)
    (fun hm ha hmove => ha.writes (hm.move hmove).2 (hmove.writes hm))
    fun hm ha hruns => hruns.attested hm ha).2

/-- The listener of a registration that is gone is never called again. -/
theorem Later.callsTo_eq (h : m.Later P m') (hm : m.WellFormed) (hs : m.world.Shut)
    {id : WatcherId} {l : ListenerId} (hg : m.world.Gone id l) :
    m'.world.callsTo id l = m.world.callsTo id l := by
  refine (h.invariant (I := fun x => (x.world.Shut ∧ x.world.Gone id l) ∧
    x.world.callsTo id l = m.world.callsTo id l) hm ⟨⟨hs, hg⟩, rfl⟩ ?_ ?_).2.1.2
  · rintro x x' hx ⟨⟨hs, hg⟩, hcalls⟩ hmove
    have hr := hmove.rearranges hx
    refine ⟨⟨hs.rearranges hx.ledger hr, hg.of_extends (hx.ledger.rearranges hr).2⟩, ?_⟩
    rw [hr.untried.callsTo, hcalls]
  · rintro x t x' hx ⟨⟨hs, hg⟩, hcalls⟩ hruns
    refine ⟨⟨hruns.shut hx hs, hg.of_extends (hruns.ledger hx).2⟩, ?_⟩
    rw [hruns.callsTo_eq hx hs hg, hcalls]

/-- A closed watcher accepts nothing more. -/
theorem Later.accepted_eq_of_closed (h : m.Later P m') (hm : m.WellFormed) {id : WatcherId}
    (hcl : m.world.isClosed id = true) : m'.world.accepted id = m.world.accepted id := by
  refine (h.invariant (I := fun x => x.world.isClosed id = true ∧
    x.world.accepted id = m.world.accepted id) hm ⟨hcl, rfl⟩ ?_ ?_).2.1.2
  · rintro x x' hx ⟨hcl, hacc⟩ hmove
    have hr := hmove.rearranges hx
    exact ⟨(hx.ledger.rearranges hr).2.closed hcl,
      (hr.accepted_eq_of_closed hx.ledger hcl).trans hacc⟩
  · rintro x t x' hx ⟨hcl, hacc⟩ hruns
    exact ⟨(hruns.ledger hx).2.closed hcl, (hruns.accepted_eq id).trans hacc⟩

end Machine

end Moves

/-! ## What can be done with a closed watcher -/

theorem World.hasHandle_of_resolve? {w : World α} {name : Name} {h : Handle} {b : Watcher α}
    (hr : w.resolve? name = some (h, b)) : w.hasHandle h.target = true :=
  List.any_eq_true.mpr ⟨_, (World.resolve?_eq_some hr).1, decide_eq_true rfl⟩

theorem World.isClosed_of_close (w : World α) {id : WatcherId} {b : Watcher α}
    (h : w.watcher? id = some b) (stk : List (Frame α)) :
    (Machine.close ⟨w, stk, .proceed⟩ id).world.isClosed id = true := by
  unfold Machine.close
  simp only
  rw [h]
  by_cases hcl : b.closed = true
  · simp only [hcl, if_true]
    exact (isClosed_of_watcher? h).trans hcl
  · simp only [hcl]
    exact isClosed_of_watcher? (watcher?_modify_self h Watcher.close)

namespace Machine

/-- What a handle refers to is not dropped. -/
theorem release_of_hasHandle {m : Machine α} {id : WatcherId}
    (h : m.world.hasHandle id = true) : m.release id = m := by
  refine release_of_stays (stays_of_isReferenced ?_)
  unfold isReferenced
  rw [h]
  rfl

variable [BEq α]

theorem step_holding (w : World α) {id : WatcherId} (h : w.hasHandle id = true)
    (stk : List (Frame α)) (a : Answer α) :
    step ⟨w, .holding id :: stk, .answer a⟩ = ⟨w, stk, .answer a⟩ :=
  release_of_hasHandle (m := ⟨w, stk, .answer a⟩) h

end Machine

/-- Carried out on any stack, the operation comes back to it with the answer and such a world. -/
def World.Answers [BEq α] (w : World α) (op : Op α) (a : Answer α) (Q : World α → Prop) : Prop :=
  ∀ stk c, ∃ n w', (Machine.perform ⟨w, stk, c⟩ op).steps n = ⟨w', stk, .answer a⟩ ∧ Q w'

/-- What can still be done with a closed watcher. -/
structure World.Over [BEq α] (w : World α) (id : WatcherId) : Prop where
  /-- A push is answered with no, and changes nothing. -/
  push : ∀ {name face b}, w.resolve? name = some (⟨id, face⟩, b) →
    face = .root ∨ face = .plainRoot → ∀ revision value,
      w.Answers (.push name revision value) (.bool false) fun w' =>
        ∃ p, w' = w.note p (.offered id ⟨revision, value.on face⟩ .watcherClosed)
  /-- A listener that comes is not called, and there is nothing to take out under its id. -/
  watch : ∀ {name h b}, w.resolve? name = some (h, b) → h.target = id →
    ∀ label valueOnly disposal onHandover actions, ∃ l,
      w.Answers (.watch name label valueOnly disposal onHandover actions) (.listener l) fun w' =>
        Event.invocations w'.events = Event.invocations w.events ∧
          Event.handovers w'.events = Event.handovers w.events ∧
          w'.registration? id l = none ∧ w'.isRegistered id l = false
  /-- No listener is taken out any more. -/
  unwatch : ∀ l stk c, ∃ p, Machine.unwatch ⟨w, stk, c⟩ id l =
    ⟨w.note p (.unwatched id l false), stk, .answer (.bool false)⟩
  /-- A further close changes nothing. -/
  close : ∀ {name h b}, w.resolve? name = some (h, b) → h.target = id →
    w.Answers (.close name) .done fun w' => w' = w

namespace World

variable [BEq α] {w : World α} {id : WatcherId}

theorem push_closed (hcl : w.isClosed id = true) {name : Name} {face : Face} {b : Watcher α}
    (hr : w.resolve? name = some (⟨id, face⟩, b)) (hf : face = .root ∨ face = .plainRoot)
    (revision : Revision) (value : Given α) :
    w.Answers (.push name revision value) (.bool false) fun w' =>
      ∃ p, w' = w.note p (.offered id ⟨revision, value.on face⟩ .watcherClosed) := by
  intro stk c
  have hb : w.watcher? id = some b := (resolve?_eq_some hr).2
  have hclosed : b.closed = true := (isClosed_of_watcher? hb).symm.trans hcl
  have hoffer : Machine.perform ⟨w, stk, c⟩ (.push name revision value) =
      Machine.offer ⟨w, .holding id :: stk, .proceed⟩ id ⟨revision, value.on face⟩ := by
    show Machine.withHandle ⟨w, stk, c⟩ name _ = _
    unfold Machine.withHandle
    rw [hr]
    rcases hf with rfl | rfl <;> rfl
  obtain ⟨p, hp⟩ : ∃ p, Machine.offer ⟨w, .holding id :: stk, .proceed⟩ id
      ⟨revision, value.on face⟩ =
      ⟨w.note p (.offered id ⟨revision, value.on face⟩ .watcherClosed), .holding id :: stk,
        .answer (.bool false)⟩ := by
    unfold Machine.offer
    simp only
    rw [hb]
    simp only [hclosed, if_true]
    exact ⟨_, rfl⟩
  have hhandle : w.hasHandle id = true := hasHandle_of_resolve? hr
  refine ⟨1, _, ?_, p, rfl⟩
  rw [hoffer, hp]
  exact Machine.step_holding (w.note p _) hhandle stk _

omit [BEq α] in
/-- Whoever comes to a closed watcher uses up an id. -/
theorem register_closed (w : World α) (id : WatcherId) {b : Watcher α} (hclosed : b.closed = true)
    (stk : List (Frame α)) (c : Control α) (listener : Listener α) (executor : Executor α) :
    ∃ p name, Machine.register ⟨w, stk, c⟩ id b listener executor =
      ⟨(w.reserve id).note p (.logged id name (.registrationIgnored b.registry.nextId)), stk,
        .proceed⟩ := by
  unfold Machine.register
  rw [if_pos hclosed]
  exact ⟨_, _, rfl⟩

theorem watch_closed (hw : w.Ledger) (hcl : w.isClosed id = true) {name : Name} {h : Handle}
    {b : Watcher α} (hr : w.resolve? name = some (h, b)) (hid : h.target = id) (label : Name)
    (valueOnly : Bool) (disposal : Disposal) (onHandover actions : Actions α) :
    w.Answers (.watch name label valueOnly disposal onHandover actions)
      (.listener b.registry.nextId) fun w' =>
        Event.invocations w'.events = Event.invocations w.events ∧
          Event.handovers w'.events = Event.handovers w.events ∧
          w'.registration? id b.registry.nextId = none ∧
          w'.isRegistered id b.registry.nextId = false := by
  subst hid
  intro stk c
  have hb : w.watcher? h.target = some b := (resolve?_eq_some hr).2
  have hclosed : b.closed = true := (isClosed_of_watcher? hb).symm.trans hcl
  obtain ⟨p, logName, hp⟩ := register_closed w h.target hclosed
    (.watching label b.registry.nextId :: .holding h.target :: stk) .proceed
    (.observer label valueOnly actions) ⟨disposal, onHandover⟩
  have hperform : Machine.perform ⟨w, stk, c⟩
      (.watch name label valueOnly disposal onHandover actions) =
      Machine.register ⟨w, .watching label b.registry.nextId :: .holding h.target :: stk,
        .proceed⟩ h.target b (.observer label valueOnly actions) ⟨disposal, onHandover⟩ := by
    show Machine.withHandle ⟨w, stk, c⟩ name _ = _
    unfold Machine.withHandle
    rw [hr]
    rfl
  set w₁ := (w.reserve h.target).note p
    (.logged h.target logName (.registrationIgnored b.registry.nextId)) with hw₁
  have hhandle : w.hasHandle h.target = true := hasHandle_of_resolve? hr
  have hnone : w.registration? h.target b.registry.nextId = none :=
    registration?_nextId hw.sound hb
  refine ⟨2, { w₁ with listeners := w₁.listeners.bind label b.registry.nextId }, ?_, ?_, ?_, ?_, ?_⟩
  · rw [hperform, hp]
    exact Machine.step_holding { w₁ with listeners := w₁.listeners.bind label b.registry.nextId }
      hhandle stk _
  · show Event.invocations w₁.events = _
    rw [hw₁, events_note, Event.invocations_append, events_reserve]
    exact List.append_nil _
  · show Event.handovers w₁.events = _
    rw [hw₁, events_note, Event.handovers_append, events_reserve]
    exact List.append_nil _
  · show w₁.registration? _ _ = none
    rw [hw₁, registration?_note, registration?_reserve]
    exact hnone
  · show w₁.isRegistered _ _ = false
    rw [hw₁, isRegistered_note, ← Bool.not_eq_true, isRegistered_iff]
    · rintro ⟨r, hr, -⟩
      rw [registration?_reserve, hnone] at hr
      exact nomatch hr
    · exact hw.sound.modify _ fun _ hb => hb.reserve

theorem close_closed (hcl : w.isClosed id = true) {name : Name} {h : Handle} {b : Watcher α}
    (hr : w.resolve? name = some (h, b)) (hid : h.target = id) :
    w.Answers (.close name) .done fun w' => w' = w := by
  subst hid
  intro stk c
  have hb : w.watcher? h.target = some b := (resolve?_eq_some hr).2
  have hclosed : b.closed = true := (isClosed_of_watcher? hb).symm.trans hcl
  refine ⟨1, w, ?_, rfl⟩
  have hperform : Machine.perform ⟨w, stk, c⟩ (.close name) =
      ⟨w, .holding h.target :: stk, .answer .done⟩ := by
    show Machine.withHandle ⟨w, stk, c⟩ name _ = _
    unfold Machine.withHandle
    rw [hr]
    show Machine.close ⟨w, .holding h.target :: stk, .proceed⟩ h.target = _
    unfold Machine.close
    simp only
    rw [hb]
    simp only [hclosed, if_true]
    rfl
  rw [hperform]
  exact Machine.step_holding w (hasHandle_of_resolve? hr) stk _

theorem Shut.over (hs : w.Shut) (hw : w.Ledger) (hcl : w.isClosed id = true) : w.Over id where
  push := push_closed hcl
  watch hr hid label valueOnly disposal onHandover actions :=
    ⟨_, watch_closed hw hcl hr hid label valueOnly disposal onHandover actions⟩
  unwatch l stk c := by
    have hreg : w.isRegistered id l = false := Gone.not_registered (.inl hcl) hs hw
    unfold Machine.unwatch
    simp only
    rw [hreg]
    exact ⟨_, rfl⟩
  close := close_closed hcl

end World

/-! ## Finality -/

namespace Machine

variable [BEq α]

/-- Whoever is told that it took a registration out has done so, and a watcher that is asked to
close is closed. From then on, whatever callbacks do and wherever they panic, the listener is not
called and the transformation not applied; a closed watcher keeps its state and is of no use. -/
theorem removal_is_final {m m' : Machine α} (h : m.Reached fun _ => True)
    (hl : m.Later (fun _ => True) m') :
    (∀ (x : Machine α) id l, (x.unwatch id l).control = .answer (.bool true) →
      .unwatched id l true ∈ (x.unwatch id l).world.events) ∧
    (∀ (x : Machine α) name hd b, x.world.resolve? name = some (hd, b) →
      (x.perform (.close name)).world.isClosed hd.target = true) ∧
    (∀ id l, .unwatched id l true ∈ m.world.events ∨ m.world.isClosed id = true →
      m'.world.callsTo id l = m.world.callsTo id l ∧
      ∀ c d, m'.world.origin? c = some (.child id l d) →
        m'.world.applications c = m.world.applications c) ∧
    ∀ id, m.world.isClosed id = true →
      m'.world.latest? id = m.world.latest? id ∧ m'.world.Over id := by
  have hm := h.wellFormed
  have hx := hl.extends_world hm
  have hm' := (h.later hl).wellFormed
  refine ⟨?_, ?_, ?_, ?_⟩
  · intro x id l hanswer
    unfold unwatch at hanswer ⊢
    simp only at hanswer ⊢
    cases hfound : x.world.isRegistered id l with
    | false =>
      rw [hfound] at hanswer
      exact nomatch hanswer
    | true =>
      show _ ∈ (x.record (.unwatched id l true)).world.events
      exact (World.events_note ..) ▸ List.mem_append_right _ (List.mem_singleton_self _)
  · intro x name hd b hr
    show (x.withHandle name _).world.isClosed hd.target = true
    unfold withHandle
    rw [hr]
    exact World.isClosed_of_close _ (World.resolve?_eq_some hr).2 _
  · intro id l hgone
    have hg : m.world.Gone id l := by
      rcases hgone with he | hcl
      · exact .inr (h.attested _ he)
      · exact .inl hcl
    have hcalls := hl.callsTo_eq hm h.shut hg
    refine ⟨hcalls, fun c d ho => ?_⟩
    exact World.applications_eq_of_callsTo_eq hx (h.later hl).attested ho hcalls
  · intro id hcl
    refine ⟨?_, (h.later hl).shut.over hm'.ledger (hx.closed hcl)⟩
    rw [hm'.ledger.latest_eq, hm.ledger.latest_eq, hl.accepted_eq_of_closed hm hcl]

/-! ### Removals in the middle of a delivery -/

/-- Three listeners; the first one, when called again, takes the second one out and closes the
watcher. The third one is called from a queue, where its first update is. -/
def threeListeners : Machine Nat :=
  ({ world := {} } : Machine Nat).carry 24
    [.root "r" "r" false,
      .watch "r" "a" false .inline (fun _ => [])
        (fun n => if n = 2 then [.unwatch "r" "b", .close "r"] else []),
      .watch "r" "b" false .inline (fun _ => []) fun _ => [],
      .watch "r" "c" false (.queue "q") (fun _ => []) fun _ => [],
      .push "r" ⟨1⟩ ⟨10, 10⟩]

def midDelivery : Machine Nat := (threeListeners.world.start (.push "r" ⟨2⟩ ⟨20, 20⟩)).steps 10

/-- The delivery has ended, and the queue has been run. -/
def queueRunAfterwards : Machine Nat :=
  ((midDelivery.steps 12).world.start (.queueRun "q" .forward)).steps 8

theorem reached_midDelivery : midDelivery.Reached fun _ => True :=
  (Reached.initial.carry_any (by decide +kernel)).begin_any (by decide +kernel)

theorem later_queueRunAfterwards : midDelivery.Later (fun _ => True) queueRunAfterwards :=
  (Later.refl.steps 12 fun _ _ => trivial).begin_any (by decide +kernel)

theorem removal_is_final_midDelivery :
    Event.unwatched 0 ⟨2⟩ true ∈ midDelivery.world.events ∧ midDelivery.world.isClosed 0 = true ∧
      queueRunAfterwards.world.callsTo 0 ⟨2⟩ = midDelivery.world.callsTo 0 ⟨2⟩ ∧
      queueRunAfterwards.world.callsTo 0 ⟨3⟩ = midDelivery.world.callsTo 0 ⟨3⟩ ∧
      queueRunAfterwards.world.latest? 0 = midDelivery.world.latest? 0 ∧
      queueRunAfterwards.world.Over 0 := by
  have hcl : midDelivery.world.isClosed 0 = true := by decide +kernel
  have hun : Event.unwatched 0 ⟨2⟩ true ∈ midDelivery.world.events :=
    List.mem_of_getElem? (i := 15) (by with_unfolding_all rfl)
  obtain ⟨-, -, hcalls, hclosed⟩ := removal_is_final reached_midDelivery later_queueRunAfterwards
  obtain ⟨hlatest, hover⟩ := hclosed 0 hcl
  exact ⟨hun, hcl, (hcalls 0 ⟨2⟩ (.inl hun)).1, (hcalls 0 ⟨3⟩ (.inr hcl)).1, hlatest, hover⟩

end Machine

end WatchTree
