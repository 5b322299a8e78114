import WatchTree.Proofs.Layers

/-!
# Listeners that miss nothing

Where deliveries are in layers, a listener that is called at once lags behind its watcher by one
update at most, so it is called with every update, one after the other: `World.Follows`. A listener
begins with the replay of the latest update there was when it was registered, or with the first one.
-/

namespace WatchTree

variable {α : Type}

namespace World

/-- The listener of a registration is called with every update from a certain one on. -/
structure Follows (w : World α) (id : WatcherId) (l : ListenerId) (first : Nat) : Prop where
  first_pos : 0 < first
  first_le : first ≤ max (w.updates id) 1
  calls : ∀ i t, (w.callsTo id l)[i]? = some t → t.update = first + i
  lag : ∀ r, w.registration? id l = some r → r.active = true →
    w.updates id ≤ max first (r.delivered + 1)

section Extends

variable {w w' : World α}

theorem Extends.accepted (h : w.Extends w') (id : WatcherId) :
    w.accepted id <+: w'.accepted id := by
  obtain ⟨es, he⟩ := h.events
  refine ⟨Event.accepted id es, ?_⟩
  rw [← Event.accepted_append, he]

theorem Extends.updates_le (h : w.Extends w') (hw : w.Ledger) (hw' : w'.Ledger) (id : WatcherId) :
    w.updates id ≤ w'.updates id := by
  rw [hw.updates_eq, hw'.updates_eq]
  exact (h.accepted id).length_le

/-- Before a registration is made, nobody is called for it. -/
theorem Deliveries.callsTo_eq_nil (hd : w.Deliveries) (hw : w.Ledger) {id : WatcherId}
    {l : ListenerId} (h : w.registration? id l = none) : w.callsTo id l = [] := by
  rw [hd.maxima, hd.runsOf_eq_nil hw h]
  rfl

end Extends

namespace Follows

variable {w : World α} {id : WatcherId} {l : ListenerId} {first : Nat}

/-- The number of the last call, if there was one, tells how many there were. -/
theorem lastUpdate (h : w.Follows id l first) (hne : w.callsTo id l ≠ []) :
    Task.lastUpdate (w.callsTo id l) + 1 = first + (w.callsTo id l).length := by
  have hpos := List.length_pos_iff.mpr hne
  obtain ⟨t, ht⟩ := Option.isSome_iff_exists.mp (List.getLast?_isSome.mpr hne)
  rw [Task.lastUpdate_of_getLast? ht]
  rw [List.getLast?_eq_getElem?] at ht
  have hnumber := h.calls _ t ht
  omega

/-- A listener that was told the latest update was called with all states from the first on. -/
theorem states_eq (h : w.Follows id l first) (hw : w.Ledger) (hd : w.Deliveries)
    {r : Registration α} (hr : w.registration? id l = some r)
    (htold : r.delivered = w.updates id) :
    (w.callsTo id l).map Task.state = (w.accepted id).drop (first - 1) := by
  have hfirst := h.first_pos
  have hlast := hd.delivered hr
  have hlen : (w.accepted id).length = w.updates id := (hw.updates_eq id).symm
  refine List.ext_getElem? fun i => ?_
  rw [List.getElem?_map, List.getElem?_drop]
  cases ht : (w.callsTo id l)[i]? with
  | some t =>
    obtain ⟨k, hk, hs⟩ := hd.genuine_of_called hw (List.mem_of_getElem? ht)
    have hnumber := h.calls i t ht
    rw [show first - 1 + i = k by omega, hs]
    rfl
  | none =>
    have hge := List.getElem?_eq_none_iff.mp ht
    symm
    rw [Option.map_none, List.getElem?_eq_none_iff, hlen]
    by_cases hnil : w.callsTo id l = []
    · rw [hnil, Task.lastUpdate_nil] at hlast
      omega
    · have hnumber := h.lastUpdate hnil
      omega

end Follows

end World

namespace Machine

section Calls

variable [BEq α] {m m' : Machine α}

/-- A call in a step is made with the newest update, if the listener is one that is called at
once. -/
theorem Next.call_newest (hn : m.Next m') (hm : m.WellFormed) (hf : m.Fresh)
    (hcalm : m.calm = true) {t : Task α} (ht : m.Invokes m' t) {r : Registration α}
    (hreg : m'.world.registration? t.watcher t.listener = some r)
    (hi : r.executor.disposal.isImmediate = true) : t.update = m'.world.updates t.watcher := by
  obtain ⟨m₁, hmoves, hlast⟩ := hn.turn (P := fun m => m.calm = true) hm hcalm
  obtain ⟨hm₁, hfresh₁, hfirst⟩ :=
    moves_invariant (I := Fresh) (fun hm h hstep => h.move hm hstep) hmoves hm hf
  obtain ⟨ts, hts, hmem⟩ := ht
  rw [← hfirst.untried.invocations] at hts
  rcases hlast with rfl | ⟨t₀, hr⟩
  · rw [List.self_eq_append_right.mp hts] at hmem
    exact absurd hmem List.not_mem_nil
  · exact (hfresh₁.call_newest hm₁ hr ⟨ts, hts, hmem⟩ hreg hi).1

/-- In a step a listener is called once at most, and only if its registration is active and the
update newer than all it was told. -/
theorem Next.callsTo_or (hn : m.Next m') (hm : m.WellFormed) (id : WatcherId) (l : ListenerId) :
    m'.world.callsTo id l = m.world.callsTo id l ∨
      ∃ t, m'.world.callsTo id l = m.world.callsTo id l ++ [t] ∧ t.isFor id l ∧ m.Invokes m' t ∧
        ∀ r, m.world.registration? id l = some r → r.active = true ∧ r.delivered < t.update := by
  rcases hn.tried hm with hsame | ⟨w₁, w₂, t, r₁, called, hfirst, htried, halike⟩
  · exact .inl (hsame.callsTo id l)
  · have hcalls : m'.world.callsTo id l =
        m.world.callsTo id l ++ if called = true ∧ t.isFor id l then [t] else [] := by
      rw [← hfirst.untried.callsTo, ← htried.callsTo_eq]
      exact World.Untried.callsTo ⟨halike.executions, halike.invocations⟩ id l
    by_cases hcalled : called = true ∧ t.isFor id l
    · rw [if_pos hcalled] at hcalls
      obtain ⟨rfl, rfl, rfl⟩ := hcalled
      refine .inr ⟨t, hcalls, t.isFor_self, ⟨[t], ?_, List.mem_singleton_self t⟩, fun r hr => ?_⟩
      · rw [halike.invocations, htried.invocations, hfirst.untried.invocations]
        rfl
      · obtain ⟨-, hx⟩ := hm.ledger.rearranges hfirst
        obtain ⟨r', hr', hprec⟩ := hx.registration hr
        obtain rfl := Option.some.inj (htried.found.symm.trans hr')
        obtain ⟨hactive, hlt⟩ := htried.called_iff.mp rfl
        refine ⟨?_, Nat.lt_of_le_of_lt hprec.delivered hlt⟩
        by_contra hin
        rw [hprec.active ((Bool.not_eq_true _).mp hin)] at hactive
        exact nomatch hactive
    · rw [if_neg hcalled, List.append_nil] at hcalls
      exact .inl hcalls

end Calls

section Follows

variable [BEq α] {P : Machine α → Prop} {m m' : Machine α} {id : WatcherId} {l : ListenerId}
  {first : Nat} {r : Registration α}

/-- A listener that is called at once misses no update in a step. -/
theorem Next.follows (hn : m.Next m') (hm : m.WellFormed) (hd : m.world.Deliveries)
    (hf : m.Fresh) (hcalm : m.calm = true) (hlayers : StaysLayered m.world (Frame.dues m.stack) m')
    (hr : m.world.registration? id l = some r) (hi : r.executor.disposal.isImmediate = true)
    (h : m.world.Follows id l first) : m'.world.Follows id l first := by
  have hx := hn.extends_world hm
  have hpos := h.first_pos
  have hfirst := h.first_le
  have hgrow := hx.updates_le hm.ledger (hn.wellFormed hm).ledger id
  obtain ⟨r', hr', hprec⟩ := hx.registration hr
  -- The watcher accepts a state only when the listener has been told of all before.
  have hnext : r.active = true → m'.world.updates id = m.world.updates id ∨
      m'.world.updates id = m.world.updates id + 1 ∧ r.delivered = m.world.updates id := by
    intro ha
    rcases hlayers.updates id with hsame | ⟨hmore, hnone⟩
    · exact .inl hsame
    · refine .inr ⟨hmore, ?_⟩
      rcases hf.current id l r hr ha hi with hcur | ⟨d, hdue, hw, -⟩
      · exact hcur
      · exact absurd hw (hnone d hdue)
  refine ⟨hpos, by omega, fun i t ht => ?_, fun a ha hactive => ?_⟩
  · rcases hn.callsTo_or hm id l with hsame | ⟨t', hcalls, ⟨rfl, rfl⟩, hinv, hnew⟩
    · rw [hsame] at ht
      exact h.calls i t ht
    · rw [hcalls, List.getElem?_append] at ht
      split at ht
      · exact h.calls i t ht
      · rename_i hge
        have hmem := List.mem_of_getElem? ht
        obtain rfl := List.mem_singleton.mp hmem
        have hindex : i = (m.world.callsTo t.watcher t.listener).length := by
          have hlt := (List.getElem?_eq_some_iff.mp ht).1
          rw [List.length_singleton] at hlt
          omega
        obtain ⟨hactive, hlt⟩ := hnew r hr
        have hnewest := hn.call_newest hm hf hcalm hinv hr' (by rw [hprec.executor]; exact hi)
        have hlag := h.lag r hr hactive
        have hold := hnext hactive
        have hlast := hd.delivered hr
        by_cases hnil : m.world.callsTo t.watcher t.listener = []
        · rw [hnil, Task.lastUpdate_nil] at hlast
          rw [hindex, hnil, List.length_nil]
          omega
        · have hnumber := h.lastUpdate hnil
          omega
  · obtain rfl := Option.some.inj (hr'.symm.trans ha)
    have hbefore : r.active = true := by
      by_contra hin
      rw [hprec.active ((Bool.not_eq_true _).mp hin)] at hactive
      exact nomatch hactive
    have hlag := h.lag r hr hbefore
    have hold := hnext hbefore
    have hdelivered := hprec.delivered
    omega

variable (hP : ∀ m, P m → m.calm = true ∧ m.passive = true)

include hP

theorem Later.follows (hl : m.Later P m') (hreach : m.Reached P)
    (hr : m.world.registration? id l = some r) (hi : r.executor.disposal.isImmediate = true)
    (h : m.world.Follows id l first) : m'.world.Follows id l first := by
  induction hl with
  | refl => exact h
  | @next m' m'' hl hm hn ih =>
    have hmid := hreach.later hl
    obtain ⟨hd, hf⟩ := (hmid.mono fun x hx => (hP x hx).1).fresh
    obtain ⟨r', hr', hprec⟩ := (hl.extends_world hreach.wellFormed).registration hr
    have hlayers := hn.staysLayered hmid.wellFormed (hmid.layered fun x hx => (hP x hx).2)
      (hP _ hm).2
    exact hn.follows hmid.wellFormed hd hf (hP _ hm).1 hlayers hr'
      (by rw [hprec.executor]; exact hi)
      ih

/-- A new listener that is called at once is called with no older update than the latest there
was. -/
theorem Later.le_update (hl : m.Later P m') (hreach : m.Reached P)
    (hnone : m.world.registration? id l = none) :
    ∀ r, m'.world.registration? id l = some r → r.executor.disposal.isImmediate = true →
      ∀ t ∈ m'.world.callsTo id l, m.world.updates id ≤ t.update := by
  induction hl with
  | refl =>
    intro r hr
    exact nomatch hnone.symm.trans hr
  | @next m' m'' hl hm hn ih =>
    intro r hr hi t ht
    have hmid := hreach.later hl
    have hw := hmid.wellFormed
    obtain ⟨hd, hf⟩ := (hmid.mono fun x hx => (hP x hx).1).fresh
    have hbefore : ∀ t ∈ m'.world.callsTo id l, m.world.updates id ≤ t.update := by
      intro t ht
      cases hr' : m'.world.registration? id l with
      | none =>
        rw [hd.callsTo_eq_nil hw.ledger hr'] at ht
        exact absurd ht List.not_mem_nil
      | some r' =>
        obtain ⟨r'', hr'', hprec⟩ := (hn.extends_world hw).registration hr'
        obtain rfl := Option.some.inj (hr.symm.trans hr'')
        exact ih r' hr' (by rw [← hprec.executor]; exact hi) t ht
    rcases hn.callsTo_or hw id l with hsame | ⟨t', hcalls, ⟨rfl, rfl⟩, hinv, -⟩
    · exact hbefore t (hsame ▸ ht)
    · rw [hcalls] at ht
      rcases List.mem_append.mp ht with hold | hnew
      · exact hbefore t hold
      · obtain rfl := List.mem_singleton.mp hnew
        rw [hn.call_newest hw hf (hP _ hm).1 hinv hr hi]
        exact ((hl.next hm hn).extends_world hreach.wellFormed).updates_le hreach.wellFormed.ledger
          (hn.wellFormed hw).ledger _

/-- A listener that is registered between two moments with nothing new in between follows the
watcher from the latest update on, or from the first. -/
theorem Later.follows_new (hl : m.Later P m') (hreach : m.Reached P)
    (hnone : m.world.registration? id l = none) (hr : m'.world.registration? id l = some r)
    (hi : r.executor.disposal.isImmediate = true)
    (hsame : m'.world.updates id ≤ max (m.world.updates id) 1) :
    m'.world.Follows id l (max (m.world.updates id) 1) := by
  have hreach' := hreach.later hl
  have hw' := hreach'.wellFormed.ledger
  have hd := hreach'.deliveries
  have hgrow := (hl.extends_world hreach.wellFormed).updates_le hreach.wellFormed.ledger hw' id
  -- All calls are with one and the same update.
  have hone : ∀ t ∈ m'.world.callsTo id l, t.update = max (m.world.updates id) 1 := by
    intro t ht
    have hle := hl.le_update hP hreach hnone r hr hi t ht
    obtain ⟨hpos, hle'⟩ := hw'.genuine_bounds (hd.genuine_of_called hw' ht)
    omega
  refine ⟨by omega, by omega, fun i t ht => ?_, fun _ _ _ => by omega⟩
  have hupdate := hone t (List.mem_of_getElem? ht)
  cases i with
  | zero => exact hupdate
  | succ i =>
    obtain ⟨hlt, hget⟩ := List.getElem?_eq_some_iff.mp ht
    have hasc := List.pairwise_iff_getElem.mp (hd.ascending id l) 0 (i + 1) (by omega) hlt
      (Nat.succ_pos i)
    rw [hget, hupdate, hone _ (List.getElem_mem _)] at hasc
    exact absurd hasc (Nat.lt_irrefl _)

/-- When nothing is under way later on, it has been called with all states from that one on. -/
theorem Later.states_of_new {m'' : Machine α} (hl : m.Later P m') (hreach : m.Reached P)
    (hnone : m.world.registration? id l = none)
    (hsome : ∃ r', m'.world.registration? id l = some r')
    (hsame : m'.world.updates id ≤ max (m.world.updates id) 1) (hl' : m'.Later P m'')
    (hs : m''.stack = []) (hr : m''.world.registration? id l = some r) (ha : r.active = true)
    (hi : r.executor.disposal.isImmediate = true) :
    (m''.world.callsTo id l).map Task.state =
      (m''.world.accepted id).drop (max (m.world.updates id) 1 - 1) := by
  have hreach' := hreach.later hl
  have hreach'' := hreach'.later hl'
  obtain ⟨r', hr'⟩ := hsome
  obtain ⟨r'', hr'', hprec⟩ := (hl'.extends_world hreach'.wellFormed).registration hr'
  obtain rfl := Option.some.inj (hr.symm.trans hr'')
  have hi' : r'.executor.disposal.isImmediate = true := by rw [← hprec.executor]; exact hi
  have hfollows := hl'.follows hP hreach' hr' hi' (hl.follows_new hP hreach hnone hr' hi' hsame)
  obtain ⟨hd, hf⟩ := (hreach''.mono fun x hx => (hP x hx).1).fresh
  exact hfollows.states_eq hreach''.wellFormed.ledger hd hr (hf.told_newest hs hr ha hi)

end Follows

end Machine

end WatchTree
