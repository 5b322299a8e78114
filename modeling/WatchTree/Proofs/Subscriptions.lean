import WatchTree.Proofs.OrderlySteps

/-!
# Subscriptions

Which children are subscribed to their parents. Where nothing is under way the stack has no marks,
so a child has been dropped exactly if nothing refers to it, neither a handle nor, transitively, a
child (`World.Referenced`). That the id of a child's subscription is not found where it is to be
taken out says that it is out for good (`World.Issued`).
-/

namespace WatchTree

variable {α : Type}

namespace World

/-! ## References -/

/-- A handle refers to the watcher, or it is the parent of a child that is referred to. -/
inductive Referenced (w : World α) : WatcherId → Prop
  | handle {id : WatcherId} : w.hasHandle id = true → Referenced w id
  | child {id c : WatcherId} {l : ListenerId} {d : Derivation α} :
      w.origin? c = some (.child id l d) → Referenced w c → Referenced w id

theorem Tidy.not_dropped_of_referenced {w : World α} {ms : Marks} {loose : Option WatcherId}
    (h : w.Tidy ms loose) {id : WatcherId} (hr : w.Referenced id) : w.isDropped id = false := by
  induction hr with
  | handle hh =>
    rw [← Bool.not_eq_true]
    intro hdr
    rw [(h.gone hdr).1] at hh
    exact nomatch hh
  | child ho _ ih =>
    rw [← Bool.not_eq_true]
    exact fun hdr => (h.gone hdr).2.2 ⟨_, _, _, ho, ih⟩

/-- A child that was not dropped has an undropped descendant with a handle: the induction is on the
number of watchers that come after it. -/
theorem Tidy.referenced_of_not_dropped {w : World α} (h : w.Tidy ⟨[], [], []⟩ none)
    (hw : w.Ledger) (n : Nat) : ∀ {c p l d}, w.origin? c = some (.child p l d) →
    w.watchers.length ≤ c + n → w.isDropped c = false → w.Referenced c := by
  induction n with
  | zero =>
    intro c p l d ho hn
    obtain ⟨b, hb, -⟩ := exists_watcher?_of_origin? ho
    exact absurd (lt_length hb) (Nat.not_lt_of_le hn)
  | succ n ih =>
    intro c p l d ho hn hdr
    rcases h.held ho hdr with hl | hh | hh | ⟨c', k, d', hc', hdr'⟩ | hh
    · exact nomatch hl
    · exact .handle hh
    · exact nomatch hh
    · have hlt : c + 1 ≤ c' := (hw.parent hc').1
      have hn' : w.watchers.length ≤ c + 1 + n := by rwa [Nat.add_right_comm]
      exact .child hc' (ih hc' (Nat.le_trans hn' (Nat.add_le_add_right hlt n)) hdr')
    · exact nomatch hh

/-- Where nothing is under way, a child was dropped exactly if nothing refers to it. -/
theorem Tidy.not_dropped_iff {w : World α} (h : w.Tidy ⟨[], [], []⟩ none) (hw : w.Ledger)
    {c p : WatcherId} {l : ListenerId} {d : Derivation α} (ho : w.origin? c = some (.child p l d)) :
    w.isDropped c = false ↔ w.Referenced c :=
  ⟨h.referenced_of_not_dropped hw w.watchers.length ho (Nat.le_add_left _ _),
    h.not_dropped_of_referenced⟩

/-! ## Ids of subscriptions -/

/-- The id of a child's subscription belongs to a registration, unless the parent is closed. -/
def Issued (w : World α) : Prop := ∀ c p l d, w.origin? c = some (.child p l d) →
  w.isClosed p = true ∨ ∃ r, w.registration? p l = some r

section Issued

variable {w w' : World α}

theorem Issued.keep (h : w.Issued) (hx : w.Extends w')
    (ho : ∀ {c p l d}, w'.origin? c = some (.child p l d) →
      w.origin? c = some (.child p l d) ∨ w'.isClosed p = true ∨
        ∃ r, w'.registration? p l = some r) : w'.Issued := by
  intro c p l d hc
  rcases ho hc with hold | hnew
  · rcases h c p l d hold with hcl | ⟨r, hr⟩
    · exact .inl (hx.closed hcl)
    · obtain ⟨r', hr', -⟩ := hx.registration hr
      exact .inr ⟨r', hr'⟩
  · exact hnew

theorem Issued.alters [BEq α] (h : w.Issued) (hw : w.Ledger) (ha : w.Alters w') : w'.Issued := by
  have hx := (hw.alters ha).2
  refine h.keep hx fun {c p l d} hc => ?_
  cases ha with
  | @enrol w₁ id b listener executor hb hcl hj =>
    rw [origin?_enrol] at hc
    rcases hj.origin?_eq_or hc with hold | ⟨-, -, -, d', heq⟩
    · exact .inl hold
    · obtain ⟨rfl, rfl, -⟩ := Origin.child.inj heq
      refine .inr (.inr ?_)
      rw [registration?_joined hw.sound hb hj, if_pos ⟨rfl, rfl⟩]
      exact ⟨_, rfl⟩
  | @reserve w₁ id b listener executor hb hcl hj =>
    rw [origin?_reserve] at hc
    rcases hj.origin?_eq_or hc with hold | ⟨-, -, -, d', heq⟩
    · exact .inl hold
    · obtain ⟨rfl, rfl, -⟩ := Origin.child.inj heq
      exact .inr (.inl (hx.closed ((isClosed_of_watcher? hb).trans hcl)))
  | retire id k =>
    rw [origin?_unregister] at hc
    exact .inl hc
  | close id =>
    rw [origin?_modify _ _ _ Watcher.close_origin] at hc
    exact .inl hc
  | adopt q hb hcl hr =>
    rw [origin?_modify _ _ _ fun b => Watcher.accept_origin b _] at hc
    exact .inl hc
  | handOver q hr ha hg =>
    rw [origin?_handOver] at hc
    exact .inl hc

theorem Issued.rearranges [BEq α] (h : w.Issued) (hw : w.Ledger) (hr : w.Rearranges w') :
    w'.Issued := by
  induction hr with
  | refl => exact h
  | tail hfirst hstep ih =>
    obtain ⟨hledger, -⟩ := hw.rearranges hfirst
    exact hstep.elim
      (fun ha => ih.keep ha.resembles.to_extends fun ho => .inl (ha.child ho)) (ih.alters hledger)

/-- What was to be taken out and is not registered is gone. -/
theorem Issued.gone (h : w.Issued) (hw : w.Ledger) {c p : WatcherId} {l : ListenerId}
    {d : Derivation α} (ho : w.origin? c = some (.child p l d))
    (hr : w.isRegistered p l = false) : w.Gone p l := by
  rcases h c p l d ho with hcl | ⟨r, hr'⟩
  · exact .inl hcl
  · refine .inr ⟨r, hr', ?_⟩
    rw [← Bool.not_eq_true]
    intro ha
    rw [(isRegistered_iff hw.sound p l).mpr ⟨r, hr', ha⟩] at hr
    exact nomatch hr

end Issued

end World

section Moves

variable [BEq α] {P : Machine α → Prop} {m m' : Machine α}

theorem Runs.issued {t : Task α} (hm : m.WellFormed) (h : Runs m t m') (hi : m.world.Issued) :
    m'.world.Issued := by
  obtain ⟨w₁, w₂, hfirst, htries, halike⟩ := h.changes hm
  have hi₁ := hi.rearranges hm.ledger hfirst
  have hx := ((hm.ledger.rearranges hfirst).1.tries htries).2
  exact (hi₁.keep hx fun ho => .inl ((htries.origin?_eq _).symm.trans ho)).keep
    halike.resembles.to_extends fun ho => .inl (halike.child ho)

omit [BEq α] in
theorem World.Takes.events_eq {w w' : World α} {stk stk' : List (Frame α)} {t : Task α}
    (h : w.Takes stk t w' stk') : ∃ es : List (Event α), w'.events = w.events ++ es ∧
      ∀ e ∈ es, e = .handedOver t := by
  cases h with
  | dispatched hd => exact ⟨_, hd.events_eq, by simp⟩
  | drained => exact ⟨[], (List.append_nil _).symm, by simp⟩
  | picked => exact ⟨[], (List.append_nil _).symm, by simp⟩

omit [BEq α] in
/-- Nothing is taken out of a registry where a task is run. -/
theorem Runs.not_unwatched {t : Task α} (h : Runs m t m') : ∃ es : List (Event α),
    m'.world.events = m.world.events ++ es ∧ ∀ id l found, .unwatched id l found ∉ es := by
  cases h with
  | mk hc ht hr =>
    obtain ⟨es, heq, hes⟩ := ht.events_eq
    have hnone : ∀ id l found, .unwatched id l found ∉ es := fun id l found he =>
      nomatch hes _ he
    cases hr with
    | inactive p =>
      exact ⟨es ++ [.ran t false], by simp [heq], by simp [hnone]⟩
    | stale p q name =>
      exact ⟨es ++ [.ran t true, .logged t.watcher name (.staleDelivery t.listener t.update)],
        by simp [heq], by simp [hnone]⟩
    | @called r p q elsewhere audience =>
      exact ⟨es ++ [.ran t true, .called audience t elsewhere], by simp [heq], by simp [hnone]⟩

omit [BEq α] in
/-- What has happened since then happened before or in the last step. -/
theorem World.Extends.mem_or_mem {w w' : World α} (h : w.Extends w') {all es new : List (Event α)}
    {e : Event α} (hnew : all = w'.events ++ new) (hes : all = w.events ++ es) (he : e ∈ es) :
    (∃ old, w'.events = w.events ++ old ∧ e ∈ old) ∨ e ∈ new := by
  obtain ⟨old, hold⟩ := h.events
  rw [hnew, ← hold, List.append_assoc] at hes
  rw [← List.append_cancel_left hes] at he
  exact (List.mem_append.mp he).imp_left fun hmem => ⟨old, hold.symm, hmem⟩

namespace Machine

/-- Where `unwatch` was called with the id of a child's subscription, it is gone. -/
theorem Later.gone_of_unwatched (h : m.Later P m') (hm : m.WellFormed) (hi : m.world.Issued)
    {c p : WatcherId} {l : ListenerId} {d : Derivation α}
    (ho : m.world.origin? c = some (.child p l d)) {es : List (Event α)}
    (hes : m'.world.events = m.world.events ++ es) {found : Bool}
    (he : .unwatched p l found ∈ es) : m'.world.Gone p l := by
  refine (h.invariant (I := fun x => x.world.Issued ∧ m.world.Extends x.world ∧
    ∀ es, x.world.events = m.world.events ++ es → .unwatched p l found ∈ es → x.world.Gone p l)
    hm ⟨hi, .refl _, ?_⟩ ?_ ?_).2.1.2.2 es hes he
  · intro es hes hmem
    rw [List.self_eq_append_right.mp hes] at hmem
    exact nomatch hmem
  · rintro x x' hx ⟨hi, hxx, hgone⟩ hmove
    have hi' := hi.rearranges hx.ledger (hmove.rearranges hx)
    obtain ⟨hm', hx'⟩ := hx.move hmove
    refine ⟨hi', hxx.trans hx', fun es hes hmem => ?_⟩
    obtain ⟨new, hnew, hfits⟩ := hmove.writes hx
    rcases hxx.mem_or_mem hnew hes hmem with ⟨old, hold, hmem⟩ | hmem
    · exact (hgone old hold hmem).of_extends hx'
    · exact hi'.gone hm'.ledger ((hxx.trans hx').origin ho) (hfits _ hmem).1
  · rintro x t x' hx ⟨hi, hxx, hgone⟩ hruns
    obtain ⟨hm', hx'⟩ := hx.runs hruns
    refine ⟨hruns.issued hx hi, hxx.trans hx', fun es hes hmem => ?_⟩
    obtain ⟨new, hnew, hnone⟩ := hruns.not_unwatched
    rcases hxx.mem_or_mem hnew hes hmem with ⟨old, hold, hmem⟩ | hmem
    · exact (hgone old hold hmem).of_extends hx'
    · exact absurd hmem (hnone p l found)

theorem Reached.issued (h : m.Reached P) : m.world.Issued :=
  (h.invariant (I := fun m => m.world.Issued) (fun _ _ _ _ ho => nomatch ho)
    (fun hm hi hmove => hi.rearranges hm.ledger (hmove.rearranges hm))
    fun hm hi hruns => hruns.issued hm hi).2

end Machine

end Moves

/-! ## What a drop and a close take out -/

/-- Children may have been dropped, each with its subscription. -/
structure World.Released (w w' : World α) : Prop where
  origin : ∀ j, w'.origin? j = w.origin? j
  dropped : ∀ {j}, w.isDropped j = true → w'.isDropped j = true
  registered : ∀ j k, w'.isRegistered j k = true ↔ w.isRegistered j k = true ∧
    ∀ c d, w.origin? c = some (.child j k d) → w'.isDropped c = true → w.isDropped c = true

namespace World.Released

variable {w w' w'' : World α}

theorem refl (w : World α) : w.Released w :=
  ⟨fun _ => rfl, id, fun _ _ => ⟨fun h => ⟨h, fun _ _ _ => id⟩, And.left⟩⟩

theorem trans (h : w.Released w') (h' : w'.Released w'') : w.Released w'' where
  origin j := (h'.origin j).trans (h.origin j)
  dropped hd := h'.dropped (h.dropped hd)
  registered j k := by
    rw [h'.registered, h.registered, and_assoc]
    refine and_congr_right fun _ => ⟨fun ⟨hfirst, hsecond⟩ c d ho hdr => ?_, fun hboth => ?_⟩
    · exact hfirst c d ho (hsecond c d ((h.origin c).trans ho) hdr)
    · exact ⟨fun c d ho hdr => hboth c d ho (h'.dropped hdr),
        fun c d ho hdr => h.dropped (hboth c d ((h.origin c).symm.trans ho) hdr)⟩

theorem of_drops {id p : WatcherId} {l : ListenerId} {d : Derivation α}
    (ho : w.origin? id = some (.child p l d)) (hdr : w.isDropped id = false)
    (h : w.Drops id p l w') : w.Released w' where
  origin := h.origin
  dropped hd := (h.dropped _).mpr (.inr hd)
  registered j k := by
    rw [h.registered]
    refine and_congr_right fun _ => ⟨fun hne c d' ho' hdr' => ?_, fun hall => ?_⟩
    · refine ((h.dropped c).mp hdr').resolve_left ?_
      rintro rfl
      obtain ⟨rfl, rfl, -⟩ := Origin.child.inj (Option.some.inj (ho'.symm.trans ho))
      exact hne ⟨rfl, rfl⟩
    · rintro ⟨rfl, rfl⟩
      rw [hall id d ho ((h.dropped id).mpr (.inl rfl))] at hdr
      exact nomatch hdr

end World.Released

namespace Machine

theorem release_released (id : WatcherId) (m : Machine α) : m.world.Ledger →
    m.world.Released (m.release id).world := by
  refine release_induction (R := fun _ m m' => m.world.Ledger → m.world.Released m'.world)
    ?_ ?_ ?_ id m
  · exact fun _ _ => .refl _
  · exact fun ho _ _ hnot hw => absurd (hw.parent ho).1 hnot
  · intro id p l d m ho hdr _ _ ih hw
    obtain ⟨w, heq, hledger, hdrops⟩ := dropChild_eq hw ho
    rw [heq] at ih ⊢
    exact (World.Released.of_drops ho hdr hdrops).trans (ih hledger)

/-- Where a handle is dropped, exactly the subscriptions of the children that are dropped are taken
out. -/
theorem dropHandle_registered {m : Machine α} (h : m.world.Tidy (Frame.marks m.stack) none)
    (hw : m.world.Ledger) (name : Name) (j : WatcherId) (k : ListenerId) :
    (m.dropHandle name).world.isRegistered j k = true ↔ m.world.isRegistered j k = true ∧
      ∀ c d, m.world.origin? c = some (.child j k d) →
        (m.dropHandle name).world.isDropped c = false := by
  have hkept : m.world.isRegistered j k = true → ∀ c d,
      m.world.origin? c = some (.child j k d) → m.world.isDropped c = false := by
    intro hreg c d ho
    rw [← Bool.not_eq_true]
    intro hdr
    rw [h.dropped ho hdr] at hreg
    exact nomatch hreg
  unfold dropHandle
  split
  · exact ⟨fun hreg => ⟨hreg, hkept hreg⟩, And.left⟩
  · rename_i hd _
    have hreleased := release_released hd.target
      (m := m.inWorld fun w => { w with handles := w.handles.unbind name }) (hw.of_eq rfl rfl)
    refine (hreleased.registered j k).trans ?_
    show m.world.isRegistered j k = true ∧ _ ↔ _
    refine and_congr_right fun hreg => forall_congr' fun c => forall_congr' fun d =>
      forall_congr' fun ho => ?_
    show (_ → m.world.isDropped c = true) ↔ _
    rw [hkept hreg c d ho, ← Bool.not_eq_true]
    exact ⟨fun hno hdr => Bool.false_ne_true (hno hdr), fun hno hdr => absurd hdr hno⟩

/-- A close takes out the listeners of the watcher itself. -/
theorem close_registered {m : Machine α} (hw : m.world.Ledger) (hs : m.world.Shut)
    (id j : WatcherId) (k : ListenerId) :
    (m.close id).world.isRegistered j k = true ↔ m.world.isRegistered j k = true ∧ j ≠ id := by
  have hclosed : m.world.isClosed id = true → (m.world.isRegistered j k = true ↔
      m.world.isRegistered j k = true ∧ j ≠ id) := by
    refine fun hcl => ⟨fun hreg => ⟨hreg, ?_⟩, And.left⟩
    rintro rfl
    rw [World.Gone.not_registered (.inl hcl) hs hw] at hreg
    exact nomatch hreg
  unfold close
  split
  · rename_i hb
    refine ⟨fun hreg => ⟨hreg, ?_⟩, And.left⟩
    rintro rfl
    unfold answer World.isRegistered at hreg
    rw [hb] at hreg
    exact nomatch hreg
  · rename_i b hb
    split
    · rename_i hcl
      exact hclosed ((World.isClosed_of_watcher? hb).trans hcl)
    · exact World.isRegistered_close hw.sound id j k

/-- At the end of its close a child's own subscription is taken out, and no other registration. -/
theorem step_closing_registered [BEq α] {m : Machine α} (hw : m.world.Ledger) {id : WatcherId}
    {n : Nat} {stk : List (Frame α)} (hstk : m.stack = .closing id n :: stk)
    (hc : m.control.Calm) (j : WatcherId) (k : ListenerId) :
    m.step.world.isRegistered j k = true ↔ m.world.isRegistered j k = true ∧
      ∀ d, m.world.origin? id ≠ some (.child j k d) := by
  obtain ⟨w, _, c⟩ := m
  obtain rfl : _ = Frame.closing id n :: stk := hstk
  have hstep : (step ⟨w, .closing id n :: stk, c⟩).world =
      ((log ⟨w, stk, c⟩ id (.closed n)).detach id .detached).world := by
    cases c with
    | unwind payload => exact absurd rfl (hc payload)
    | proceed => rfl
    | answer a => rfl
  rw [hstep]
  cases hp : w.parent? id with
  | none =>
    have hnone : ∀ d, w.origin? id ≠ some (.child j k d) := fun d ho => by
      rw [World.parent?_eq_some_iff.mpr ho] at hp
      exact nomatch hp
    unfold detach
    have hp' : (log ⟨w, stk, c⟩ id (.closed n)).world.parent? id = none := hp
    rw [hp']
    exact ⟨fun hreg => ⟨hreg, hnone⟩, And.left⟩
  | some x =>
    obtain ⟨p, l, d⟩ := x
    have ho : w.origin? id = some (.child p l d) := World.parent?_eq_some_iff.mp hp
    have hown : (∀ d', w.origin? id ≠ some (.child j k d')) ↔ ¬ (j = p ∧ k = l) := by
      rw [ho]
      constructor
      · rintro hne ⟨rfl, rfl⟩
        exact hne d rfl
      · intro hne d' heq
        obtain ⟨rfl, rfl, -⟩ := Origin.child.inj (Option.some.inj heq)
        exact hne ⟨rfl, rfl⟩
    rw [detach_eq (m := log ⟨w, stk, c⟩ id (.closed n)) hp]
    show _ ↔ w.isRegistered j k = true ∧ ∀ d', w.origin? id ≠ _
    rw [hown]
    split
    · exact World.isRegistered_unregister hw.sound p j l k
    · rename_i hout
      refine ⟨fun hreg => ⟨hreg, ?_⟩, And.left⟩
      rintro ⟨rfl, rfl⟩
      exact hout hreg

/-! ## Neither leaks nor losses -/

variable [BEq α]

/-- What the subscriptions of children depend on, and what takes them out, in a machine `m` that
comes after `m₁`. -/
structure KeepsSubscriptions (m₁ m : Machine α) : Prop where
  subscribed : m.stack = [] → ∀ c p l d, m₁.world.origin? c = some (.child p l d) →
    (m.world.isRegistered p l = true ↔
      m.world.isClosed p = false ∧ m.world.isClosed c = false ∧ m.world.Referenced c ∧
        .unwatched p l true ∉ m₁.world.events ∧
        ∀ es, m.world.events = m₁.world.events ++ es → ∀ found, .unwatched p l found ∉ es)
  kept : m.stack = [] → ∀ c p l d, m.world.origin? c = some (.child p l d) →
    (m.world.isDropped c = false ↔ m.world.Referenced c)
  dropHandle : ∀ name j k, (m.dropHandle name).world.isRegistered j k = true ↔
    m.world.isRegistered j k = true ∧ ∀ c d, m.world.origin? c = some (.child j k d) →
      (m.dropHandle name).world.isDropped c = false
  close : ∀ c j k, (m.close c).world.isRegistered j k = true ↔
    m.world.isRegistered j k = true ∧ j ≠ c
  closing : ∀ c n stk, m.stack = .closing c n :: stk → m.control.Calm → ∀ j k,
    (m.step.world.isRegistered j k = true ↔
      m.world.isRegistered j k = true ∧ ∀ d, m.world.origin? c ≠ some (.child j k d))

section Subscribed

variable {m₁ m : Machine α} (h : m₁.Reached fun m => m.wakersCalm = true)
  (hl : m₁.Later (fun m => m.wakersCalm = true) m)

include h hl

theorem subscribed_iff (hq : m.stack = []) {c p : WatcherId} {l : ListenerId} {d : Derivation α}
    (ho : m₁.world.origin? c = some (.child p l d)) :
    m.world.isRegistered p l = true ↔
      m.world.isClosed p = false ∧ m.world.isClosed c = false ∧ m.world.Referenced c ∧
        .unwatched p l true ∉ m₁.world.events ∧
        ∀ es, m.world.events = m₁.world.events ++ es → ∀ found, .unwatched p l found ∉ es := by
  have hr := h.later hl
  have hm₁ := h.wellFormed
  have hm := hr.wellFormed
  have hx := hl.extends_world hm₁
  have htidy := (hr.orderly fun _ hP => hP).tidy
  rw [hq] at htidy
  have ho' : m.world.origin? c = some (.child p l d) := hx.origin ho
  constructor
  · intro hreg
    have hnot : ¬ m.world.Gone p l := fun hg => by
      rw [hg.not_registered hr.shut hm.ledger] at hreg
      exact nomatch hreg
    have hopen : m.world.isClosed c = false := by
      rw [← Bool.not_eq_true]
      intro hcl
      rcases htidy.closed ho' hcl with hmem | hno
      · exact nomatch hmem
      · rw [hno] at hreg
        exact nomatch hreg
    have halive : m.world.isDropped c = false := by
      rw [← Bool.not_eq_true]
      intro hdr
      rw [htidy.dropped ho' hdr] at hreg
      exact nomatch hreg
    refine ⟨?_, hopen, (htidy.not_dropped_iff hm.ledger ho').mp halive, ?_, ?_⟩
    · rw [← Bool.not_eq_true]
      exact fun hcl => hnot (.inl hcl)
    · intro hmem
      have hin : (Event.unwatched p l true).Attested m₁.world := h.attested _ hmem
      exact hnot (World.Gone.of_extends (.inr hin) hx)
    · exact fun es hes found hmem => hnot (hl.gone_of_unwatched hm₁ h.issued ho hes hmem)
  · rintro ⟨hp, hc, href, hbefore, hsince⟩
    refine htidy.bound ho' hp hc ((htidy.not_dropped_iff hm.ledger ho').mpr href) ?_
    obtain ⟨es, hes⟩ := hx.events
    rw [← hes]
    intro hmem
    exact (List.mem_append.mp hmem).elim hbefore (hsince es hes.symm true)

/-- Where no waker panics and nothing is under way, a child is subscribed to its parent exactly if
both are open, something refers to the child, and nobody has called `unwatch` with the id of its
subscription: not since a machine in which the child already exists, nor, so that it was found,
before. What was dropped is what nothing refers to. A drop, whenever it happens, takes out exactly
the subscriptions of the children it drops, and a close, beside the listeners of the watcher itself,
its own subscription. -/
theorem subscribed_while_referenced : m₁.KeepsSubscriptions m := by
  have hr := h.later hl
  have hm := hr.wellFormed
  have htidy := (hr.orderly fun _ hP => hP).tidy
  exact
    { subscribed := fun hq _ _ _ _ ho => subscribed_iff h hl hq ho
      kept := fun hq _ _ _ _ ho => by
        rw [hq] at htidy
        exact htidy.not_dropped_iff hm.ledger ho
      dropHandle := dropHandle_registered htidy hm.ledger
      close := close_registered hm.ledger hr.shut
      closing := fun _ _ _ hstk hc => step_closing_registered hm.ledger hstk hc }

end Subscribed

/-! ### A child without handles, between its parent and its own child -/

/-- A root, its child and its grandchild. The child's transformation, when applied for the second
time, drops the child's own handle. -/
def family : Machine Nat :=
  ({ world := {} } : Machine Nat).carry 40
    [.root "r" "r" false,
      .child "r" "c" (.ok "c") (fun n => .value (n / 2))
        (fun n => if n = 2 then [.drop "c"] else []),
      .push "r" ⟨1⟩ ⟨10, 10⟩,
      .child "c" "g" (.ok "g") (fun n => .value n) fun _ => [],
      .push "r" ⟨2⟩ ⟨20, 20⟩]

def familyDropped : Machine Nat := (family.world.start (.drop "g")).steps 1

theorem reached_family : family.Reached fun m => m.wakersCalm = true :=
  Reached.carry .initial (by decide +kernel)

theorem later_familyDropped : family.Later (fun m => m.wakersCalm = true) familyDropped :=
  Later.refl.begin (by decide +kernel) (by decide +kernel) fun k hk => by
    obtain rfl : k = 0 := by omega
    decide +kernel

theorem subscribed_while_referenced_family :
    family.stack = [] ∧ family.world.hasHandle 1 = false ∧
      family.world.isRegistered 0 ⟨1⟩ = true ∧
      familyDropped.world.isRegistered 0 ⟨1⟩ = false := by
  have hquiet : family.stack = [] := List.isEmpty_iff.mp (by decide +kernel)
  have hquiet' : familyDropped.stack = [] := List.isEmpty_iff.mp (by decide +kernel)
  obtain ⟨d, ho⟩ : ∃ d, family.world.origin? 1 = some (.child 0 ⟨1⟩ d) :=
    ⟨_, by with_unfolding_all rfl⟩
  obtain ⟨d', ho'⟩ : ∃ d, family.world.origin? 2 = some (.child 1 ⟨1⟩ d) :=
    ⟨_, by with_unfolding_all rfl⟩
  have hgrandchild : family.world.Referenced 2 := .handle (by decide +kernel)
  have hnobody : Event.unwatched 0 ⟨1⟩ true ∉ family.world.events := by
    have hplain : (family.world.events.any fun
        | .unwatched .. => true
        | _ => false) = false := by decide +kernel
    exact fun hmem => List.any_eq_false.mp hplain _ hmem rfl
  refine ⟨hquiet, by decide +kernel, ?_, ?_⟩
  · have hkeeps := subscribed_while_referenced reached_family .refl
    refine (hkeeps.subscribed hquiet 1 0 ⟨1⟩ d ho).mpr
      ⟨by decide +kernel, by decide +kernel, .child ho' hgrandchild, hnobody, ?_⟩
    intro es hes found hmem
    rw [List.self_eq_append_right.mp hes] at hmem
    exact nomatch hmem
  · have hkeeps := subscribed_while_referenced reached_family later_familyDropped
    have ho'' : familyDropped.world.origin? 1 = some (.child 0 ⟨1⟩ d) :=
      (later_familyDropped.extends_world reached_family.wellFormed).origin ho
    have hgone : familyDropped.world.isDropped 1 = true := by decide +kernel
    rw [← Bool.not_eq_true]
    intro hreg
    obtain ⟨-, -, href, -⟩ := (hkeeps.subscribed hquiet' 1 0 ⟨1⟩ d ho).mp hreg
    rw [(hkeeps.kept hquiet' 1 0 ⟨1⟩ d ho'').mpr href] at hgone
    exact nomatch hgone

end Machine

end WatchTree
