import WatchTree.Proofs.Order

/-!
# Agreement of children with their parents

A transformation that carries out no operations is applied without interruption, so that at most one
application is under way, at the top of the stack, and it is that of the latest call. Every other
child that was told the latest state of its parent has the value its transformation gives for it, if
it gives any: `Machine.Derived`. By freshness every child with an active subscription was told the
latest state when nothing is under way.
-/

namespace WatchTree

variable {α : Type}

namespace World

/-- No transformation carries out operations. -/
def Passive (w : World α) : Prop :=
  ∀ c p l d, w.origin? c = some (.child p l d) → ∀ n, d.actions n = []

namespace Passive

variable {w w' : World α}

theorem of_extends (h : w'.Passive) (hx : w.Extends w') : w.Passive :=
  fun c p l d ho => h c p l d (hx.origin ho)

theorem of_origins {os : List (Origin α)} (h : w.watchers.map Watcher.origin = os)
    (hos : ∀ p l d, .child p l d ∈ os → ∀ n, d.actions n = []) : w.Passive := by
  intro c p l d ho
  refine hos p l d ?_
  obtain ⟨b, hb, hbo⟩ := World.exists_watcher?_of_origin? ho
  rw [← h]
  exact List.mem_map.mpr ⟨b, List.mem_of_getElem? hb, hbo⟩

theorem not_licensed (h : w.Passive) (label : Name) : ¬ w.Licensed (.derivation label) := by
  rintro ⟨c, p, l, d, ho, -, n, hn⟩
  exact hn (h c p l d ho n)

end Passive

end World

/-! ## The application under way -/

namespace Frame

/-- The child whose transformation is being applied at the top of a stack, and the task of its
subscription. -/
def applying? : List (Frame α) → Option (WatcherId × Task α)
  | applying c _ :: calling t :: _ => some (c, t)
  | script (.derivation _) _ :: applying c _ :: calling t :: _ => some (c, t)
  | _ => none

variable {w : World α} {f : Frame α} {stk : List (Frame α)}

theorem exists_of_applying? {c : WatcherId} {t : Task α} (h : applying? stk = some (c, t)) :
    (∃ s rest, stk = applying c s :: calling t :: rest) ∨
      ∃ label todo s rest,
        stk = script (.derivation label) todo :: applying c s :: calling t :: rest := by
  unfold applying? at h
  split at h
  · obtain ⟨rfl, rfl⟩ := Prod.mk.inj (Option.some.inj h)
    exact .inl ⟨_, _, rfl⟩
  · obtain ⟨rfl, rfl⟩ := Prod.mk.inj (Option.some.inj h)
    exact .inr ⟨_, _, _, _, rfl⟩
  · exact nomatch h

/-- Only the operations of the transformation stand on an application. -/
theorem eq_script_of_stands {c : WatcherId} {s : Latest α} (h : f.Stands w (applying c s :: stk)) :
    ∃ label todo, f = script (.derivation label) todo := by
  cases f with
  | script site todo =>
    cases site with
    | derivation label => exact ⟨label, todo, rfl⟩
    | _ => simp [Stands, OnDelivering] at h
  | _ => simp [Stands, World.Operable, OnHolding, OnOffering, OnRunning, OnCompleting,
      OnClosing] at h

/-- What stands on the operations of a transformation is licensed to do so. -/
theorem licensed_of_stands {label : Name} {todo : List (Op α)}
    (h : f.Stands w (script (.derivation label) todo :: stk)) :
    w.Licensed (.derivation label) := by
  cases f with
  | script site todo => cases site <;> simp [Stands, OnDelivering] at h
  | holding id => exact h
  | draining ts k => exact h.1
  | picking q is k => exact h
  | _ => simp [Stands, OnHolding, OnOffering, OnRunning, OnCompleting, OnClosing] at h

/-- No application is under way below any other frame. -/
theorem applying?_of_stands (hp : w.Passive) (h : f.Stands w stk)
    (hf : ∀ label todo, f ≠ script (.derivation label) todo) : applying? stk = none := by
  cases ha : applying? stk with
  | none => rfl
  | some x =>
    rcases exists_of_applying? ha with ⟨s, rest, rfl⟩ | ⟨label, todo, s, rest, rfl⟩
    · obtain ⟨label, todo, rfl⟩ := eq_script_of_stands h
      exact absurd rfl (hf label todo)
    · exact absurd (licensed_of_stands h) (hp.not_licensed label)

theorem applying?_of_operable (hp : w.Passive) (h : w.Operable stk) : applying? stk = none :=
  applying?_of_stands (f := .holding 0) hp h fun _ _ => nofun

theorem applying?_of_onOffering : ∀ {stk : List (Frame α)}, OnOffering stk → applying? stk = none
  | holding _ :: _, _ | pushing _ :: _, _ | calling _ :: _, _ => rfl

theorem applying?_of_onRunning : ∀ {stk : List (Frame α)}, OnRunning stk → applying? stk = none
  | script (.executor ..) _ :: _, _ | draining .. :: _, _ | picking .. :: _, _ => rfl

theorem applying?_of_onRegistering : ∀ {stk : List (Frame α)},
    OnRegistering stk → applying? stk = none
  | watching .. :: _, _ | constructing .. :: _, _ => rfl

theorem applying?_of_onClosing : ∀ {stk : List (Frame α)}, OnClosing stk → applying? stk = none
  | holding _ :: _, _ | ending _ :: _, _ => rfl

/-- Only an application makes a difference when it is taken off or put on. -/
theorem applying?_cons (hp : w.Passive) (h : w.Stacked (f :: stk))
    (hf : ∀ c s, f ≠ applying c s) : applying? (f :: stk) = applying? stk := by
  cases f with
  | script site todo =>
    cases site with
    | derivation label =>
      obtain ⟨⟨⟨c, s, rest, rfl⟩, -⟩, ⟨t, rest, rfl, -⟩, -⟩ := h
      rfl
    | _ => exact (applying?_of_stands hp h.1 fun _ _ => nofun).symm
  | applying c s => exact absurd rfl (hf c s)
  | _ => exact (applying?_of_stands hp h.1 fun _ _ => nofun).symm

end Frame

open WatchTree.Frame (applying?)

theorem World.Stacked.feeds {w : World α} {stk : List (Frame α)} (h : w.Stacked stk)
    {c : WatcherId} {t : Task α} (ha : applying? stk = some (c, t)) :
    w.Feeds t c ∧ t ∈ Event.invocations w.events := by
  rcases Frame.exists_of_applying? ha with ⟨s, rest, rfl⟩ | ⟨label, todo, s, rest, rfl⟩
  · obtain ⟨⟨t', rest', heq, -, hf⟩, ⟨hinv, -⟩, -⟩ := h
    cases heq
    exact ⟨hf, hinv⟩
  · obtain ⟨-, ⟨t', rest', heq, -, hf⟩, ⟨hinv, -⟩, -⟩ := h
    cases heq
    exact ⟨hf, hinv⟩

/-! ## Agreement -/

namespace World

/-- The child's subscription is active and was told the latest state of the parent. -/
inductive Informed (w : World α) (c : WatcherId) (s : Latest α) : Prop
  | mk {p : WatcherId} {l : ListenerId} {d : Derivation α} {r : Registration α} :
      w.origin? c = some (.child p l d) → w.registration? p l = some r → r.active = true →
      w.latest? p = some s → Task.lastUpdate (w.callsTo p l) = w.updates p → Informed w c s

/-- The child has the value that its transformation gives for a state, if it gives any, or is
closed. A value that the child was to accept may have been withheld as equal. -/
def Settled [BEq α] (w : World α) (c : WatcherId) (s : Latest α) : Prop :=
  ∀ p l d y, w.origin? c = some (.child p l d) → w.isClosed c = false →
    d.apply s.value = .value y → ∃ x, w.latest? c = some x ∧ (x.value = y ∨ (x.value == y) = true)

section Informed

variable {w w' : World α} {c : WatcherId} {s : Latest α}

theorem Informed.exists_origin (h : w.Informed c s) :
    ∃ p l d, w.origin? c = some (.child p l d) := by
  obtain ⟨ho, -⟩ := h
  exact ⟨_, _, _, ho⟩

theorem Settled.keep [BEq α] (h : w.Settled c s) (hx : w.Extends w') {o : Origin α}
    (ho : w.origin? c = some o) (hlatest : w'.latest? c = w.latest? c) : w'.Settled c s := by
  intro p l d y ho' hcl hy
  obtain rfl := Option.some.inj ((hx.origin ho).symm.trans ho')
  rw [hlatest]
  refine h p l d y ho ?_ hy
  cases hc : w.isClosed c with
  | false => rfl
  | true =>
    rw [hx.closed hc] at hcl
    exact nomatch hcl

/-- A subscription was told nothing in a change without calls. -/
theorem Resembles.informed (h : w.Resembles w') (hinf : w'.Informed c s)
    (hcalls : ∀ p l d, w.origin? c = some (.child p l d) → w'.callsTo p l = w.callsTo p l) :
    w.Informed c s := by
  obtain ⟨ho, hr, ha, hl, hn⟩ := hinf
  have ho' := h.child ho
  obtain ⟨a, har, hprec⟩ := (h.registration _ _).backward hr
  rw [h.latest] at hl
  rw [h.updates, hcalls _ _ _ ho'] at hn
  refine .mk ho' har ?_ hl hn
  cases hact : a.active with
  | true => rfl
  | false =>
    rw [hprec.active hact] at ha
    exact nomatch ha

/-- No subscription was told more than there was. -/
theorem Deliveries.lastUpdate_le (hd : w.Deliveries) (hw : w.Ledger) {id : WatcherId}
    {l : ListenerId} {r : Registration α} (hr : w.registration? id l = some r) :
    Task.lastUpdate (w.callsTo id l) ≤ w.updates id := by
  rw [← hd.delivered hr]
  exact hd.delivered_le_updates hw hr

theorem Alters.informed [BEq α] (hw : w.Ledger) (hd : w.Deliveries) (h : w.Alters w')
    (hinf : w'.Informed c s) : w.Informed c s := by
  have hcalls : ∀ id l, w'.callsTo id l = w.callsTo id l := fun id l => h.untried.callsTo id l
  cases h with
  | retire id l => exact (resembles_unregister w id l).informed hinf fun p l _ _ => hcalls p l
  | close id => exact (resembles_close w hw.sound id).informed hinf fun p l _ _ => hcalls p l
  | handOver p hr ha hg => exact (resembles_handOver w p _).informed hinf fun p l _ _ => hcalls p l
  | @enrol w' id b listener executor hb hcl hj =>
    obtain @⟨p, l, d, r, ho, hr, ha, hl, hn⟩ := hinf
    rw [origin?_enrol] at ho
    rw [registration?_joined hw.sound hb hj] at hr
    rw [latest?_enrol, hj.latest?_eq] at hl
    rw [updates_enrol, hj.updates_eq, hcalls] at hn
    rcases Ledger.parent_joined hw hb hj ho with ⟨ho, -, hle⟩ | ⟨rfl, rfl, -, -, -⟩
    · rw [if_neg (Ledger.ne_nextId hb hle)] at hr
      exact .mk ho hr ha hl hn
    · -- A new subscription was told nothing yet, but its parent has a state.
      have hcallsTo : w.callsTo p b.registry.nextId = [] := by
        rw [hd.maxima, hd.runsOf_eq_nil hw (registration?_nextId hw.sound hb)]
        rfl
      have hpos := hw.updates_pos hl
      rw [← hn, hcallsTo, Task.lastUpdate_nil] at hpos
      omega
  | reserve hb hcl hj =>
    obtain ⟨ho, hr, ha, hl, hn⟩ := hinf
    rw [origin?_reserve] at ho
    rw [registration?_reserve, hj.registration?_eq] at hr
    rw [latest?_reserve, hj.latest?_eq] at hl
    rw [updates_reserve, hj.updates_eq, hcalls] at hn
    rcases Ledger.parent_joined hw hb hj ho with ⟨ho, -, -⟩ | ⟨rfl, rfl, -, -, -⟩
    · exact .mk ho hr ha hl hn
    · rw [registration?_nextId hw.sound hb] at hr
      exact nomatch hr
  | @adopt p id b s' hb hcl hrefuse =>
    obtain ⟨ho, hr, ha, hl, hn⟩ := hinf
    rw [origin?_modify _ _ _ fun b => Watcher.accept_origin b s'] at ho
    rw [registration?_modify _ _ _ _ fun b => Watcher.accept_registry b s'] at hr
    rw [latest?_accept hb] at hl
    rw [updates_accept hb, hcalls] at hn
    split at hn
    · -- Nobody was told the update that has just been accepted.
      have hle := hd.lastUpdate_le hw hr
      omega
    · rename_i hne
      rw [if_neg hne] at hl
      exact .mk ho hr ha hl hn

theorem Rearranges.informed [BEq α] (hw : w.Ledger) (hd : w.Deliveries) (h : w.Rearranges w')
    (hinf : w'.Informed c s) : w.Informed c s := by
  induction h with
  | refl => exact hinf
  | tail hfirst hstep ih =>
    obtain ⟨hledger, -⟩ := hw.rearranges hfirst
    rcases hstep with ha | ha
    · exact ih (ha.resembles.informed hinf fun p l _ _ =>
        Untried.callsTo ⟨ha.executions, ha.invocations⟩ p l)
    · exact ih (ha.informed hledger (hd.rearranges hw hfirst) hinf)

/-- The last call was with the latest state, if the listener was told of it. -/
theorem Informed.eq_state (hw : w.Ledger) (hd : w.Deliveries) (h : w.Informed c s) {t : Task α}
    (hf : w.Feeds t c) (ht : (w.callsTo t.watcher t.listener).getLast? = some t) :
    s = t.state := by
  obtain ⟨ho, -, -, hl, hn⟩ := h
  obtain ⟨d', ho'⟩ := hf
  obtain ⟨rfl, rfl, -⟩ := Origin.child.inj (Option.some.inj (ho.symm.trans ho'))
  have hgen := hd.genuine_of_called hw (List.mem_of_getLast? ht)
  have hupdate : t.update = w.updates t.watcher := by
    rw [← hn, Task.lastUpdate_of_getLast? ht]
  exact Option.some.inj (hl.symm.trans (hw.latest?_of_genuine hgen hupdate))

end Informed

section Settled

variable [BEq α] {w : World α} {c p : WatcherId} {b : Watcher α} {s : Latest α} {l : ListenerId}
  {d : Derivation α} {y : α} (hb : w.watcher? c = some b) (ho : b.origin = .child p l d)
  (hy : d.apply s.value = .value y)

include hb ho hy

/-- A value is withheld only from a child that is closed or has an equal value. -/
theorem settled_of_rebuffs {w' : World α} {reception : Reception}
    (hr : w.Rebuffs c b ⟨s.revision, y⟩ reception w') : w.Settled c s := by
  intro p' l' d' y' ho' hcl hy'
  rw [origin?_of_watcher? hb, ho] at ho'
  obtain ⟨rfl, rfl, rfl⟩ := Origin.child.inj (Option.some.inj ho')
  obtain rfl := Outcome.value.inj (hy.symm.trans hy')
  cases hr with
  | closed q hclosed =>
    rw [isClosed_of_watcher? hb, hclosed] at hcl
    exact nomatch hcl
  | refused q q' name hclosed hrefuse =>
    rw [latest?_of_watcher? hb]
    unfold Watcher.refusal at hrefuse
    rw [ho] at hrefuse
    cases hl : b.latest with
    | none =>
      rw [hl] at hrefuse
      exact nomatch hrefuse
    | some x =>
      rw [hl] at hrefuse
      have hne : (x.value == y) ≠ false := fun hne => by simp [hne] at hrefuse
      exact ⟨x, rfl, .inr (eq_true_of_ne_false hne)⟩

theorem settled_adopt (o q : Bool) (name : String) :
    (w.adopt o q name c b ⟨s.revision, y⟩).Settled c s := by
  intro p' l' d' y' ho' hcl hy'
  have hback := (alike_adopt w o q name c b ⟨s.revision, y⟩).child ho'
  rw [origin?_modify _ _ _ fun b => Watcher.accept_origin b _, origin?_note,
    origin?_of_watcher? hb, ho] at hback
  obtain ⟨rfl, rfl, rfl⟩ := Origin.child.inj (Option.some.inj hback)
  obtain rfl := Outcome.value.inj (hy.symm.trans hy')
  refine ⟨⟨s.revision, y⟩, ?_, .inl rfl⟩
  rw [latest?_adopt hb, if_pos rfl]

end Settled

end World

namespace Machine

/-- At most one application is under way, of the latest call; all other children agree with their
parents. -/
structure Derived [BEq α] (m : Machine α) : Prop where
  newest : ∀ {c t}, applying? m.stack = some (c, t) →
    (m.world.callsTo t.watcher t.listener).getLast? = some t
  agrees : ∀ {c s}, (∀ t, applying? m.stack ≠ some (c, t)) → m.world.Informed c s →
    m.world.Settled c s
  /-- A panic never takes off an application. -/
  guarded : ∀ payload, m.control = .unwind payload → applying? m.stack = none

end Machine

section Turns

variable [BEq α] {P : Machine α → Prop} {m m' : Machine α}

/-- An application stays under way, or it ends and the child is settled. -/
theorem Move.application (hm : m.WellFormed) (hp : m.world.Passive) (h : m.Derived)
    (hmove : Move P m m') :
    applying? m'.stack = applying? m.stack ∧
        (∀ payload, m'.control = .unwind payload → applying? m.stack = none) ∨
      applying? m'.stack = none ∧
        ∃ c t, applying? m.stack = some (c, t) ∧ m'.world.Settled c t.state := by
  cases hmove with
  | steer hc => exact .inl ⟨rfl, fun payload hx => absurd hx (hc payload)⟩
  | raise payload hop => exact .inl ⟨rfl, fun _ _ => Frame.applying?_of_operable hp hop⟩
  | @unwind w f stk payload hok =>
    have hnone := h.guarded payload rfl
    refine .inl ⟨(Frame.applying?_cons hp hm.stacked fun c s hf => ?_).symm, fun _ _ => hnone⟩
    subst hf
    obtain ⟨t, rest, rfl, -⟩ := hm.stacked.1
    exact nomatch hnone
  | @leave w f stk c hc hf =>
    refine .inl ⟨(Frame.applying?_cons hp hm.stacked fun c s heq => ?_).symm,
      fun payload hx => absurd hx (hc payload)⟩
    rw [heq] at hf
    exact nomatch hf
  | enter hc hf hs =>
    refine .inl ⟨Frame.applying?_cons hp ⟨hs, hm.stacked⟩ fun c s heq => ?_,
      fun payload hx => absurd hx (hc payload)⟩
    rw [heq] at hf
    exact nomatch hf
  | close hc hb hcl hs =>
    exact .inl ⟨(Frame.applying?_of_onClosing hs).symm, nofun⟩
  | accept p q name hc hb ho hcl hr hs =>
    exact .inl ⟨(Frame.applying?_of_onOffering hs).symm, nofun⟩
  | finish q name hc hdet =>
    exact .inl ⟨(Frame.applying?_cons hp hm.stacked nofun).symm,
      fun payload hx => absurd hx (hc payload)⟩
  | @fail w stk c p q name id parent s l d outcome error ho hout hcomplaint =>
    obtain ⟨t, rest, rfl, rfl, -⟩ := hm.stacked.1
    refine .inr ⟨rfl, id, t, rfl, ?_⟩
    intro p' l' d' y ho' hcl hvalue
    rw [World.origin?_note, World.origin?_note, ho] at ho'
    obtain ⟨rfl, rfl, rfl⟩ := Origin.child.inj (Option.some.inj ho')
    rcases hout with ⟨-, rfl⟩ | ⟨payload, rfl, -⟩
    · rw [hvalue] at hcomplaint
      exact nomatch hcomplaint
    · exact nomatch h.guarded payload rfl
  | @suppress w w' stk c p id parent b s l d y reception hc hb ho hy hr =>
    obtain ⟨t, rest, rfl, rfl, -⟩ := hm.stacked.1
    have hsettled : (w.note p (.applied id t.state.revision (.value y))).Settled id t.state :=
      World.settled_of_rebuffs hb ho hy hr
    exact .inr ⟨rfl, id, t, rfl, hsettled.keep hr.alike.resembles.to_extends
      ((World.origin?_of_watcher? hb).trans (congrArg some ho)) (hr.alike.latest id)⟩
  | @derive w stk c o p q name id parent b s l d y hok hc hb ho hy hcl hr =>
    obtain ⟨t, rest, rfl, rfl, -⟩ := hm.stacked.1
    exact .inr ⟨rfl, id, t, rfl, World.settled_adopt (w := w.note o _) hb ho hy p q name⟩
  | defer hc hd hr hi =>
    cases hd with
    | spread => exact .inl ⟨rfl, nofun⟩
    | replay p todo hb hcl hl hj hreg =>
      exact .inl ⟨(Frame.applying?_of_onRegistering hreg).symm, nofun⟩
  | _ => exact .inl ⟨rfl, h.guarded⟩

/-- Only the child whose transformation is being applied can accept a value. -/
theorem Move.latest?_eq (hm : m.WellFormed) (h : Move P m m') {c p : WatcherId} {l : ListenerId}
    {d : Derivation α} (ho : m.world.origin? c = some (.child p l d))
    (hc : ∀ t, applying? m.stack ≠ some (c, t)) : m'.world.latest? c = m.world.latest? c := by
  rcases h.accepted_or with hacc | hroot | ⟨-, hchild⟩
  · rw [hm.ledger.latest_eq, (hm.ledger.rearranges (h.rearranges hm)).1.latest_eq, hacc]
  · obtain ⟨o, q, name, id, b, s, hb, hbo, hcl, hr, hw'⟩ := hroot
    rw [hw', World.latest?_adopt hb, if_neg]
    rintro rfl
    rw [World.origin?_of_watcher? hb, hbo] at ho
    exact nomatch ho
  · obtain ⟨o, q, q', name, id, parent, b, s, l', d', y, rest, hcalm, hstk, hb, hbo, hy, hcl, hr,
      hw'⟩ := hchild
    rw [hw', World.latest?_adopt (w := m.world.note o _) hb, if_neg]
    · rfl
    · rintro rfl
      have hs := hm.stacked
      rw [hstk] at hs hc
      obtain ⟨t, rest', rfl, -⟩ := hs.1
      exact hc t rfl

omit [BEq α] in
/-- A task is not taken while a transformation is being applied. -/
theorem World.Takes.applying?_eq {w w' : World α} {stk stk' : List (Frame α)} {t : Task α}
    (h : w.Takes stk t w' stk') : applying? stk = none := by
  cases h with
  | dispatched hd =>
    cases hd with
    | spread => rfl
    | replay p todo hb hcl hl hj hreg => exact Frame.applying?_of_onRegistering hreg
  | drained => rfl
  | picked => rfl

omit [BEq α] in
theorem World.callsTo_note (w : World α) (p : Bool) {e : Event α} (he : e.invocation? = none)
    (id : WatcherId) (l : ListenerId) : (w.note p e).callsTo id l = w.callsTo id l := by
  unfold World.callsTo Event.callsTo Event.invocations
  rw [World.events_note, List.filterMap_append, List.filterMap_cons_none he, List.filterMap_nil,
    List.append_nil]

omit [BEq α] in
theorem World.callsTo_call (w : World α) (t : Task α) (p q elsewhere : Bool) (audience : Audience)
    (id : WatcherId) (l : ListenerId) :
    (((w.note p (.ran t true)).tell t).note q (.called audience t elsewhere)).callsTo id l =
      w.callsTo id l ++ if t.isFor id l then [t] else [] := by
  unfold World.callsTo
  rw [World.events_note, World.events_tell, World.events_note, Event.callsTo_append,
    Event.callsTo_append, Event.callsTo_called, List.append_assoc]
  rfl

omit [BEq α] in
/-- A call to the subscription of a child begins an application. -/
theorem World.Ran.application {w w' : World α} {t : Task α} {frames stk : List (Frame α)}
    (hw : w.Ledger) (hstk : Frame.OnRunning stk) (h : w.Ran t w' frames) :
    (∀ c t', applying? (frames ++ stk) = some (c, t') →
      t' = t ∧ (w'.callsTo t.watcher t.listener).getLast? = some t) ∧
    ∀ c p l d, w.origin? c = some (.child p l d) →
      (∀ t', applying? (frames ++ stk) ≠ some (c, t')) → w'.callsTo p l = w.callsTo p l := by
  have hnone := Frame.applying?_of_onRunning hstk
  cases h with
  | inactive p hr ha =>
    constructor
    · intro c t' hx
      exact nomatch hnone.symm.trans hx
    · intro c p' l d ho _
      exact World.callsTo_note w p rfl p' l
  | stale p q name hr ha hn =>
    constructor
    · intro c t' hx
      exact nomatch hnone.symm.trans hx
    · intro c p' l d ho _
      exact (World.callsTo_note _ q rfl p' l).trans (World.callsTo_note w p rfl p' l)
  | called p q elsewhere hr ha hn hc =>
    have hcalls := World.callsTo_call w t p q elsewhere
    have hother : ∀ {audience : Audience} {p' l}, ¬ t.isFor p' l →
        (((w.note p (.ran t true)).tell t).note q
          (.called audience t elsewhere)).callsTo p' l = w.callsTo p' l := by
      intro audience p' l hfor
      rw [hcalls, if_neg hfor, List.append_nil]
    cases hc with
    | observer hl =>
      constructor
      · intro c t' hx
        exact nomatch hx
      · intro c p' l d ho _
        apply hother
        rintro ⟨rfl, rfl⟩
        exact nomatch hl.symm.trans (hw.subscription ho hr).1
    | @child child d hl ho =>
      constructor
      · intro c t' hx
        obtain ⟨rfl, rfl⟩ := Prod.mk.inj (Option.some.inj hx)
        refine ⟨rfl, ?_⟩
        rw [hcalls, if_pos t.isFor_self]
        exact List.getLast?_concat
      · intro c p' l d' ho' hc
        apply hother
        rintro ⟨rfl, rfl⟩
        obtain rfl := Listener.subscription.inj (hl.symm.trans (hw.subscription ho' hr).1)
        exact hc t rfl

namespace Machine.Derived

theorem initial : Derived ({ world := {} } : Machine α) where
  newest h := nomatch h
  agrees _ hinf := by
    obtain ⟨p, l, d, ho⟩ := hinf.exists_origin
    simp [World.origin?, World.watcher?] at ho
  guarded _ h := nomatch h

theorem move (hm : m.WellFormed) (hp : m.world.Passive) (hd : m.world.Deliveries)
    (h : m.Derived) (hmove : Move P m m') : m'.Derived := by
  have hchanges := hmove.rearranges hm
  obtain ⟨hledger, hx⟩ := hm.ledger.rearranges hchanges
  have happ := hmove.application hm hp h
  refine ⟨fun {c t} ht => ?_, fun {c s} hc hinf => ?_, fun payload hpayload => ?_⟩
  · rcases happ with ⟨heq, -⟩ | ⟨hnone, -⟩
    · rw [hchanges.untried.callsTo]
      exact h.newest (heq ▸ ht)
    · exact nomatch hnone.symm.trans ht
  · have hbefore := hchanges.informed hm.ledger hd hinf
    by_cases hunder : ∃ t, applying? m.stack = some (c, t)
    · -- The application has just ended, and it was that of the parent's latest state.
      obtain ⟨t, ht⟩ := hunder
      rcases happ with ⟨heq, -⟩ | ⟨-, c', t', ht', hsettled⟩
      · exact absurd (heq.trans ht) (hc t)
      · obtain ⟨rfl, rfl⟩ := Prod.mk.inj (Option.some.inj (ht.symm.trans ht'))
        rw [hbefore.eq_state hm.ledger hd (hm.stacked.feeds ht).1 (h.newest ht)]
        exact hsettled
    · -- What the child was told and what it has are as before.
      have hother : ∀ t, applying? m.stack ≠ some (c, t) := fun t ht => hunder ⟨t, ht⟩
      obtain ⟨p, l, d, ho⟩ := hbefore.exists_origin
      exact (h.agrees hother hbefore).keep hx ho (hmove.latest?_eq hm ho hother)
  · rcases happ with ⟨heq, hguarded⟩ | ⟨hnone, -⟩
    · rw [heq]
      exact hguarded payload hpayload
    · exact hnone

theorem runs {t : Task α} (hm : m.WellFormed) (hd : m.world.Deliveries) (h : m.Derived)
    (hr : Runs m t m') : m'.Derived := by
  obtain ⟨hledger', hx⟩ := hr.ledger hm
  have hacc := hr.accepted_eq
  cases hr with
  | @mk w w' w'' stk stk' frames c t hc ht hran =>
    obtain ⟨hchanges, hmem⟩ := ht.rearranges hm.ledger hm.stacked
    obtain ⟨hledger, -⟩ := hm.ledger.rearranges hchanges
    obtain ⟨hbegun, hother⟩ := hran.application hledger ht.onRunning
    refine ⟨fun {c t'} hx => ?_, fun {c s} hc hinf => ?_, fun payload hx => nomatch hx⟩
    · obtain ⟨rfl, hlast⟩ := hbegun c t' hx
      exact hlast
    · have hmiddle := (hran.resembles hmem).informed hinf fun p l d ho => hother c p l d ho hc
      have hbefore := hchanges.informed hm.ledger hd hmiddle
      have hnone : ∀ t', applying? stk ≠ some (c, t') := by
        intro t' ht'
        exact nomatch ht.applying?_eq.symm.trans ht'
      obtain ⟨p, l, d, ho⟩ := hbefore.exists_origin
      refine (h.agrees hnone hbefore).keep hx ho ?_
      rw [hm.ledger.latest_eq, hledger'.latest_eq, hacc]

/-- In a passive world no newer delivery overtakes an application. -/
theorem not_regresses (hm : m.WellFormed) (hd : m.world.Deliveries) (h : m.Derived)
    (c : WatcherId) : ¬ m.Regresses c := by
  intro hreg
  cases hreg with
  | @mk w rest ctl c p l d s x t r y hc ho hr hover hcl hy hx hlt hne =>
    obtain ⟨t', rest', heq, -, rfl, rfl, -⟩ := hm.applying ho
    cases heq
    have hlast := Task.lastUpdate_of_getLast? (h.newest (c := c) rfl)
    rw [hd.delivered hr, hlast] at hover
    omega

end Machine.Derived

end Turns

namespace Machine

variable [BEq α] {P : Machine α → Prop} {m : Machine α}

theorem Reached.derived (h : m.Reached P) (hp : m.world.Passive) :
    m.Derived ∧ m.world.Ordered := by
  refine (h.invariant_of_deliveries
    (I := fun m => m.world.Passive → m.Derived ∧ m.world.Ordered)
    (fun _ => ⟨.initial, .initial⟩) ?_ ?_).2 hp
  · intro m m' hm hd hI hstep hp
    have hbefore : m.world.Passive := hp.of_extends (hm.move hstep).2
    obtain ⟨hderived, hordered⟩ := hI hbefore
    exact ⟨hderived.move hm hbefore hd hstep,
      ordered_move hm hd hordered (fun _ => hderived.not_regresses hm hd) hstep⟩
  · intro m t m' hm hd hI hr hp
    obtain ⟨hderived, hordered⟩ := hI (hp.of_extends (hm.runs hr).2)
    exact ⟨hderived.runs hm hd hr, ordered_runs hm hordered hr⟩

/-- As long as transformations carry out no operations and no executor and no waker panics, a child
that is open and still subscribed has the value of its parent's latest state whenever nothing is
under way; its revision never passes that of the parent, and the revisions it accepts never
decrease. -/
theorem derived_values_agree (h : m.Reached fun m => m.calm = true) (hp : m.world.Passive)
    {c p : WatcherId} {l : ListenerId} {d : Derivation α}
    (ho : m.world.origin? c = some (.child p l d)) :
    (m.stack = [] → m.world.isClosed c = false → m.world.isRegistered p l = true →
      ∀ s y, m.world.latest? p = some s → d.apply s.value = .value y →
        ∃ x, m.world.latest? c = some x ∧ (x.value = y ∨ (x.value == y) = true)) ∧
    (∀ x, m.world.latest? c = some x →
      ∃ s, m.world.latest? p = some s ∧ x.revision ≤ s.revision) ∧
    Latest.InOrder (m.world.accepted c) := by
  have hw := h.wellFormed.ledger
  obtain ⟨hd, hfresh⟩ := h.fresh
  obtain ⟨hderived, hordered⟩ := h.derived hp
  refine ⟨?_, ?_, hordered.inOrder c⟩
  · intro hs hcl hreg s y hl hy
    obtain ⟨r, hr, ha⟩ := (World.isRegistered_iff hw.sound p l).mp hreg
    have htold : Task.lastUpdate (m.world.callsTo p l) = m.world.updates p := by
      rw [← hd.delivered hr]
      exact hfresh.told_newest hs hr ha (by rw [(hw.subscription ho hr).2]; rfl)
    have hnone : ∀ t, applying? m.stack ≠ some (c, t) := by
      rw [hs]
      exact fun _ => nofun
    exact hderived.agrees hnone (.mk ho hr ha hl htold) p l d y ho hcl hy
  · intro x hx
    rw [hw.latest_eq] at hx
    obtain ⟨r, k, v, hr, -, ⟨i, -, hv⟩, hrev⟩ := hordered.derived ho (List.mem_of_getLast? hx)
    have hmem := List.mem_of_getElem? hv
    cases hlast : (m.world.accepted p).getLast? with
    | none =>
      rw [List.getLast?_eq_none_iff.mp hlast] at hmem
      exact absurd hmem List.not_mem_nil
    | some s =>
      refine ⟨s, (hw.latest_eq p).trans hlast, ?_⟩
      rw [hrev]
      exact (hordered.inOrder p).le_getLast hmem hlast

def half : Derivation Nat where
  label := "c"
  apply v := .value (v / 2)
  actions _ := []

/-- A root and the half of it, with a listener on the half that pushes another value when it is
first called, and what comes of a push. -/
def halved : Machine Nat :=
  ({ world := {} } : Machine Nat).carry 40
    [.root "r" "r" false, .child "r" "c" (.ok "") half.apply half.actions,
      .watch "c" "l" false .inline (fun _ => [])
        fun n => if n = 1 then [.push "r" ⟨2⟩ ⟨5, 5⟩] else [],
      .push "r" ⟨1⟩ ⟨4, 4⟩]

theorem passive_halved : halved.world.Passive := by
  have horigins : halved.world.watchers.map Watcher.origin = [.root, .child 0 ⟨1⟩ half] := by
    with_unfolding_all rfl
  refine .of_origins horigins fun p l d hmem => ?_
  obtain ⟨-, -, rfl⟩ : p = 0 ∧ l = ⟨1⟩ ∧ d = half := by simpa using hmem
  exact fun _ => rfl

theorem derived_values_agree_halved :
    (∃ x, halved.world.latest? 1 = some x ∧ (x.value = 2 ∨ (x.value == 2) = true)) ∧
      (∃ s, halved.world.latest? 0 = some s ∧ (⟨1⟩ : Revision) ≤ s.revision) ∧
      Latest.InOrder (halved.world.accepted 1) := by
  have hreached : halved.Reached fun m => m.calm = true :=
    Reached.carry .initial (by decide +kernel)
  have hempty : halved.stack.isEmpty = true := by decide +kernel
  have horigin : halved.world.origin? 1 = some (.child 0 ⟨1⟩ half) := by with_unfolding_all rfl
  obtain ⟨hagree, hle, horder⟩ := derived_values_agree hreached passive_halved horigin
  refine ⟨hagree (List.isEmpty_iff.mp hempty) (by decide +kernel) (by decide +kernel) ⟨⟨2⟩, 5⟩ 2
    (by with_unfolding_all rfl) rfl, hle ⟨⟨1⟩, 2⟩ (by with_unfolding_all rfl), horder⟩

end Machine

end WatchTree
