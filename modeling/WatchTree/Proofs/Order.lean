import WatchTree.Proofs.Freshness

/-!
# The order of revisions

A root refuses a revision older than its own. A child does not look at revisions: it takes the
revision of the state its transformation was applied to, and what keeps these in order is that the
deliveries of the parent are. `World.Ordered` is preserved by everything but one step,
`Machine.Regresses`: an application that was overtaken by a newer delivery, from inside the
transformation, ends with a value of its own. The step gives the child an older revision, and a run
can make it; in a run that does not, no child and no listener on one goes back.
-/

namespace WatchTree

variable {α : Type}

namespace Revision

theorem le_refl (a : Revision) : a ≤ a := Int.le_refl a.major

theorem le_trans {a b c : Revision} (h : a ≤ b) (h' : b ≤ c) : a ≤ c := Int.le_trans h h'

theorem le_of_not_lt {a b : Revision} (h : ¬ a < b) : b ≤ a := Int.le_of_not_gt h

theorem not_le_of_lt {a b : Revision} (h : a < b) : ¬ b ≤ a := Int.not_le_of_gt h

end Revision

/-- Revisions that do not decrease. -/
abbrev Latest.InOrder (ss : List (Latest α)) : Prop :=
  ss.Pairwise fun a b => a.revision ≤ b.revision

namespace Latest.InOrder

theorem le_getLast {ss : List (Latest α)} (h : InOrder ss) {a b : Latest α} (ha : a ∈ ss)
    (hb : ss.getLast? = some b) : a.revision ≤ b.revision := by
  obtain ⟨front, rfl⟩ := List.getLast?_eq_some_iff.mp hb
  rcases List.mem_append.mp ha with hmem | hmem
  · exact (List.pairwise_append.mp h).2.2 a hmem b (List.mem_singleton_self b)
  · rw [List.mem_singleton.mp hmem]
    exact Revision.le_refl _

theorem concat {ss : List (Latest α)} (h : InOrder ss) {s : Latest α}
    (hs : ∀ b, ss.getLast? = some b → b.revision ≤ s.revision) : InOrder (ss ++ [s]) := by
  refine List.pairwise_append.mpr ⟨h, List.pairwise_singleton _ _, ?_⟩
  intro a ha b hb
  rw [List.mem_singleton.mp hb]
  cases hl : ss.getLast? with
  | none =>
    rw [List.getLast?_eq_none_iff.mp hl] at ha
    exact absurd ha List.not_mem_nil
  | some c => exact Revision.le_trans (h.le_getLast ha hl) (hs c hl)

theorem le_getElem {ss : List (Latest α)} (h : InOrder ss) {i j : Nat} {a b : Latest α}
    (hij : i ≤ j) (ha : ss[i]? = some a) (hb : ss[j]? = some b) : a.revision ≤ b.revision := by
  obtain ⟨hi, rfl⟩ := List.getElem?_eq_some_iff.mp ha
  obtain ⟨hj, rfl⟩ := List.getElem?_eq_some_iff.mp hb
  rcases Nat.lt_or_eq_of_le hij with hlt | rfl
  · exact List.pairwise_iff_getElem.mp h i j hi hj hlt
  · exact Revision.le_refl _

end Latest.InOrder

/-- A root accepts no state older than its own. -/
theorem Watcher.le_of_root_accepts [BEq α] {w : World α} {id : WatcherId} {b : Watcher α}
    {s x : Latest α} (hb : w.watcher? id = some b) (ho : b.origin = .root)
    (hr : b.refusal s = none) (hx : w.latest? id = some x) : x.revision ≤ s.revision := by
  rw [World.latest?_of_watcher? hb] at hx
  unfold Watcher.refusal at hr
  rw [hx, ho] at hr
  refine Revision.le_of_not_lt fun hlt => ?_
  simp [hlt] at hr

namespace World

/-- Accepted revisions do not decrease, and those of a child are those of updates of its parent that
its subscription was told. -/
structure Ordered (w : World α) : Prop where
  inOrder : ∀ id, Latest.InOrder (w.accepted id)
  derived : ∀ {c p l d x}, w.origin? c = some (.child p l d) → x ∈ w.accepted c →
    ∃ r k v, w.registration? p l = some r ∧ k ≤ r.delivered ∧ w.Genuine p k v ∧
      x.revision = v.revision

namespace Ordered

variable {w w' : World α}

theorem initial : ({} : World α).Ordered where
  inOrder id := by
    show Latest.InOrder []
    exact .nil
  derived ho := by simp [World.origin?, World.watcher?] at ho

/-- As long as nothing is accepted. -/
theorem keep (h : w.Ordered) (hw : w.Ledger) (hx : w.Extends w')
    (hacc : ∀ id, w'.accepted id = w.accepted id)
    (hchild : ∀ {c p l d}, w'.origin? c = some (.child p l d) →
      w.origin? c = some (.child p l d) ∨ w.watcher? c = none) : w'.Ordered where
  inOrder id := by
    rw [hacc]
    exact h.inOrder id
  derived {c p l d x} ho hmem := by
    rw [hacc] at hmem
    rcases hchild ho with ho | hnone
    · obtain ⟨r, k, v, hr, hk, hg, hrev⟩ := h.derived ho hmem
      obtain ⟨r', hr', hp⟩ := hx.registration hr
      exact ⟨r', k, v, hr', Nat.le_trans hk hp.delivered, hx.genuine hg, hrev⟩
    · rw [hw.accepted_of_watcher?_none hnone] at hmem
      exact absurd hmem List.not_mem_nil

/-- A state that is no older than the latest is accepted. -/
theorem adopt [BEq α] (h : w.Ordered) (hw : w.Ledger) (p q : Bool) (name : String)
    {id : WatcherId} {b : Watcher α} {s : Latest α} (hb : w.watcher? id = some b)
    (hcl : b.closed = false) (hr : b.refusal s = none)
    (hlast : ∀ x, w.latest? id = some x → x.revision ≤ s.revision)
    (hfrom : ∀ {parent l d}, w.origin? id = some (.child parent l d) →
      ∃ r k v, w.registration? parent l = some r ∧ k ≤ r.delivered ∧ w.Genuine parent k v ∧
        s.revision = v.revision) : (w.adopt p q name id b s).Ordered where
  inOrder j := by
    rw [accepted_adopt]
    by_cases hj : id = j
    · subst hj
      rw [if_pos rfl]
      refine (h.inOrder id).concat fun x hx => hlast x ?_
      rw [hw.latest_eq]
      exact hx
    · rw [if_neg hj, List.append_nil]
      exact h.inOrder j
  derived {c p' l d x} ho hmem := by
    obtain ⟨-, hx⟩ := hw.rearranges (rearranges_adopt p q name hb hcl hr)
    have ho' : w.origin? c = some (.child p' l d) := by
      have hback := (alike_adopt w p q name id b s).child ho
      rw [origin?_modify _ _ _ fun b => Watcher.accept_origin b s] at hback
      exact hback
    rw [accepted_adopt] at hmem
    obtain ⟨r, k, v, hr, hk, hg, hrev⟩ : ∃ r k v, w.registration? p' l = some r ∧
        k ≤ r.delivered ∧ w.Genuine p' k v ∧ x.revision = v.revision := by
      rcases List.mem_append.mp hmem with hold | hnew
      · exact h.derived ho' hold
      · split at hnew
        · rename_i hj
          subst hj
          rw [List.mem_singleton.mp hnew]
          exact hfrom ho'
        · exact absurd hnew List.not_mem_nil
    obtain ⟨r', hr', hp⟩ := hx.registration hr
    exact ⟨r', k, v, hr', Nat.le_trans hk hp.delivered, hx.genuine hg, hrev⟩

end Ordered

end World

namespace Machine

/-! ## The step back -/

/-- A newer delivery has overtaken the application of a child's transformation, which now ends with
a value that the child does not have. -/
inductive Regresses [BEq α] : Machine α → WatcherId → Prop
  | mk {w : World α} {rest : List (Frame α)} {ctl : Control α} {c p : WatcherId} {l : ListenerId}
      {d : Derivation α} {s x : Latest α} {t : Task α} {r : Registration α} {y : α} :
      ctl.Calm → w.origin? c = some (.child p l d) → w.registration? p l = some r →
      t.update < r.delivered → w.isClosed c = false → d.apply s.value = .value y →
      w.latest? c = some x → s.revision < x.revision → (x.value == y) = false →
      Regresses ⟨w, .applying c s :: .calling t :: rest, ctl⟩ c

/-- The application at the top of a stack is that of the subscription's task. -/
theorem WellFormed.applying {w : World α} {stk : List (Frame α)} {ctl : Control α}
    {c p : WatcherId} {s : Latest α} {l : ListenerId} {d : Derivation α}
    (hm : WellFormed ⟨w, .applying c s :: stk, ctl⟩) (ho : w.origin? c = some (.child p l d)) :
    ∃ t rest, stk = .calling t :: rest ∧ t.state = s ∧ t.watcher = p ∧ t.listener = l ∧
      t ∈ Event.invocations w.events := by
  obtain ⟨⟨t, rest, rfl, hs, d', hd⟩, ⟨hinv, -⟩, -⟩ := hm.stacked
  obtain ⟨rfl, rfl, -⟩ := Origin.child.inj (Option.some.inj (ho.symm.trans hd))
  exact ⟨t, rest, rfl, hs, rfl, rfl, hinv⟩

variable [BEq α] {P : Machine α → Prop} {m m' : Machine α}

/-- A child whose transformation ends does not go back, unless it makes the step back. -/
theorem le_of_not_regresses {w : World α} {stk : List (Frame α)} {ctl : Control α}
    {c p : WatcherId} {b : Watcher α} {s x : Latest α} {l : ListenerId} {d : Derivation α} {y : α}
    (hm : WellFormed ⟨w, .applying c s :: stk, ctl⟩) (hd : w.Deliveries) (h : w.Ordered)
    (hno : ¬ Regresses ⟨w, .applying c s :: stk, ctl⟩ c) (hc : ctl.Calm)
    (hb : w.watcher? c = some b) (ho : b.origin = .child p l d)
    (hy : d.apply s.value = .value y) (hcl : b.closed = false)
    (hr : b.refusal ⟨s.revision, y⟩ = none) (hx : w.latest? c = some x) :
    x.revision ≤ s.revision := by
  have hoc : w.origin? c = some (.child p l d) := by rw [World.origin?_of_watcher? hb, ho]
  obtain ⟨t, rest, rfl, rfl, rfl, rfl, hinv⟩ := hm.applying hoc
  obtain ⟨hgen, r, hreg⟩ := hm.ledger.handedOver t (hd.handed_of_invoked hinv)
  by_cases hover : t.update < r.delivered
  · -- Overtaken: an older revision would be the step back.
    refine Revision.le_of_not_lt fun hlt => hno ?_
    have hne : (x.value == y) = false := by
      rw [World.latest?_of_watcher? hb] at hx
      unfold Watcher.refusal at hr
      rw [hx, ho] at hr
      simpa using hr
    exact .mk hc hoc hreg hover (by rw [World.isClosed_of_watcher? hb, hcl]) hy hx hlt hne
  · -- Not overtaken: all that the child has comes from updates no newer than this one.
    have hmem : x ∈ w.accepted c := by
      rw [hm.ledger.latest_eq] at hx
      exact List.mem_of_getLast? hx
    obtain ⟨r', k, v, hr', hk, ⟨i, hi, hv⟩, hrev⟩ := h.derived hoc hmem
    obtain rfl := Option.some.inj (hreg.symm.trans hr')
    obtain ⟨j, hj, hs⟩ := hgen
    rw [hrev]
    exact (h.inOrder t.watcher).le_getElem (by omega) hv hs

theorem ordered_move (hm : m.WellFormed) (hd : m.world.Deliveries) (h : m.world.Ordered)
    (hno : P m → ∀ c, ¬ m.Regresses c) (hmove : Move P m m') : m'.world.Ordered := by
  have hrearranges := hmove.rearranges hm
  have hx := (hm.ledger.rearranges hrearranges).2
  rcases hmove.accepted_or with hacc | hroot | ⟨hP, hchild⟩
  · exact h.keep hm.ledger hx hacc fun ho => hrearranges.child_or_new hm.ledger ho
  · obtain ⟨p, q, name, id, b, s, hb, ho, hcl, hr, hw'⟩ := hroot
    rw [hw']
    refine h.adopt hm.ledger p q name hb hcl hr
      (fun x hx => Watcher.le_of_root_accepts hb ho hr hx) fun hc => ?_
    rw [World.origin?_of_watcher? hb, ho] at hc
    exact nomatch hc
  · obtain ⟨w, stk, ctl⟩ := m
    obtain ⟨o, p, q, name, id, parent, b, s, l, d, y, rest, hc, hstk, hb, ho, hy, hcl, hr, hw'⟩ :=
      hchild
    obtain rfl : stk = .applying id s :: rest := hstk
    have halike := World.Alike.note w o (e := .applied id s.revision (.value y)) rfl
    have hnoted : (w.note o (.applied id s.revision (.value y))).Ordered :=
      h.keep hm.ledger halike.resembles.to_extends halike.accepted fun ho => .inl (halike.child ho)
    rw [hw']
    refine hnoted.adopt (hm.ledger.alike halike) p q name hb hcl hr (fun x hx => ?_) ?_
    · have hle : x.revision ≤ s.revision :=
        le_of_not_regresses hm hd h (hno hP id) hc hb ho hy hcl hr hx
      exact hle
    · intro p' l' d' hoc
      obtain ⟨t, rest, rfl, rfl, rfl, rfl, hinv⟩ := hm.applying hoc
      obtain ⟨hgen, r, hreg⟩ := hm.ledger.handedOver t (hd.handed_of_invoked hinv)
      exact ⟨r, t.update, t.state, hreg, hd.called_le hinv hreg,
        halike.resembles.to_extends.genuine hgen, rfl⟩

theorem ordered_runs {t : Task α} (hm : m.WellFormed) (h : m.world.Ordered) (hr : Runs m t m') :
    m'.world.Ordered :=
  h.keep hm.ledger (hr.ledger hm).2 hr.accepted_eq fun ho => hr.child_or_new hm ho

/-- The step back gives the child an older revision. -/
theorem Regresses.step {c : WatcherId} (h : m.Regresses c) :
    m.stack ≠ [] ∧ ∃ p l d x s, m.world.origin? c = some (.child p l d) ∧
      m.world.latest? c = some x ∧ s.revision < x.revision ∧ m.step.world.latest? c = some s := by
  cases h with
  | @mk w rest ctl c p l d s x t r y hc ho hreg hover hcl hy hx hlt hne =>
    refine ⟨List.cons_ne_nil _ _, p, l, d, x, ⟨s.revision, y⟩, ho, hx, hlt, ?_⟩
    obtain ⟨b, hb, hbo⟩ := World.exists_watcher?_of_origin? ho
    have hclosed : b.closed = false := by rw [← World.isClosed_of_watcher? hb, hcl]
    have hrefusal : b.refusal ⟨s.revision, y⟩ = none := by
      unfold Watcher.refusal
      rw [← World.latest?_of_watcher? hb, hx, hbo]
      simp [hne]
    have hstep : step ⟨w, .applying c s :: .calling t :: rest, ctl⟩ =
        settle ⟨w, .calling t :: rest, ctl⟩ c s.revision (.value y) := by
      have hout : outcomeOf ⟨w, .calling t :: rest, ctl⟩ c s.value = .value y := by
        unfold outcomeOf
        rw [World.parent?_eq_some_iff.mpr ho]
        exact hy
      rw [← hout]
      cases ctl with
      | unwind payload => exact absurd rfl (hc payload)
      | proceed => rfl
      | answer a => rfl
    rw [hstep]
    show World.latest? (offer (record ⟨w, .calling t :: rest, ctl⟩
      (.applied c s.revision (.value y))) c ⟨s.revision, y⟩).world c = _
    rw [offer_adopted (m := record ⟨w, .calling t :: rest, ctl⟩ _) hb hclosed hrefusal]
    exact (World.latest?_adopt (w := w.note _ _) hb ..).trans (if_pos rfl)

/-! ## Runs -/

/-- No child goes back from the one machine to the other. -/
def Forward (m m' : Machine α) : Prop :=
  ∀ c p l d x, m.world.origin? c = some (.child p l d) → m.world.latest? c = some x →
    ∃ x', m'.world.latest? c = some x' ∧ x.revision ≤ x'.revision

/-- No listener on a child was called with an older revision after a newer one. -/
def CallsInOrder (m : Machine α) : Prop :=
  ∀ c p l d k, m.world.origin? c = some (.child p l d) →
    (m.world.callsTo c k).Pairwise fun t u => t.state.revision ≤ u.state.revision

theorem Regresses.not_forward {c : WatcherId} (h : m.Regresses c) : ¬ m.Forward m.step := by
  intro hforward
  obtain ⟨-, p, l, d, y, s, ho, hy, hlt, hstep⟩ := h.step
  obtain ⟨y', hy', hle⟩ := hforward c p l d y ho hy
  obtain rfl := Option.some.inj (hstep.symm.trans hy')
  exact Revision.not_le_of_lt hlt hle

theorem Reached.ordered (h : m.Reached P) (hno : ∀ m, P m → ∀ c, ¬ m.Regresses c) :
    m.world.Ordered :=
  (h.invariant_of_deliveries (I := fun m => m.world.Ordered) .initial
    (fun hm hd h hstep => ordered_move hm hd h (hno _) hstep) fun hm _ h hr =>
      ordered_runs hm h hr).2

omit [BEq α] in
/-- Where accepted revisions are in order, the latest revision only grows. -/
theorem forward_of_ordered (hm : m.WellFormed) (hm' : m'.WellFormed)
    (hx : m.world.Extends m'.world) (h : m'.world.Ordered) : m.Forward m' := by
  intro c p l d x ho hl
  rw [hm.ledger.latest_eq] at hl
  obtain ⟨es, he⟩ := hx.events
  have hmem : x ∈ m'.world.accepted c := by
    unfold World.accepted
    rw [← he, Event.accepted_append]
    exact List.mem_append_left _ (List.mem_of_getLast? hl)
  cases hl' : (m'.world.accepted c).getLast? with
  | none =>
    rw [List.getLast?_eq_none_iff.mp hl'] at hmem
    exact absurd hmem List.not_mem_nil
  | some x' =>
    exact ⟨x', (hm'.ledger.latest_eq c).trans hl', (h.inOrder c).le_getLast hmem hl'⟩

omit [BEq α] in
theorem callsInOrder_of_ordered (hm : m.WellFormed) (hd : m.world.Deliveries)
    (h : m.world.Ordered) : m.CallsInOrder := by
  intro c p l d k _
  refine (hd.ascending c k).imp_of_mem fun {t u} ht hu hlt => ?_
  obtain ⟨i, hi, hs⟩ := hd.genuine_of_called hm.ledger ht
  obtain ⟨j, hj, hs'⟩ := hd.genuine_of_called hm.ledger hu
  exact (h.inOrder c).le_getElem (by omega) hs hs'

theorem not_regresses_of_forward {ms : List (Machine α)} (h : Run ms)
    (hforward : ms.IsChain fun m' m => m.Forward m') : ∀ x ∈ ms.tail, ∀ c, ¬ x.Regresses c := by
  induction h with
  | initial => exact fun x hx => absurd hx List.not_mem_nil
  | @next m m' ms hrun hn ih =>
    obtain ⟨hfirst, hrest⟩ := List.isChain_cons_cons.mp hforward
    intro x hx c hreg
    rcases List.mem_cons.mp hx with rfl | hx
    · cases hn with
      | start op hempty => exact hreg.step.1 hempty
      | step => exact hreg.not_forward hfirst
    · exact ih hrest x hx c hreg

theorem forward_of_not_regresses {ms : List (Machine α)} (h : Run ms)
    (hno : ∀ x ∈ ms.tail, ∀ c, ¬ x.Regresses c) :
    (ms.IsChain fun m' m => m.Forward m') ∧ ∀ m ∈ ms.head?, m.CallsInOrder := by
  have hreached := h.reached (P := fun m => ∀ c, ¬ m.Regresses c) hno
  constructor
  · induction h with
    | initial => exact .singleton _
    | @next m m' ms hrun hn ih =>
      have hbefore : ∀ x ∈ ms, ∀ c, ¬ x.Regresses c :=
        fun x hx => hno x (List.mem_cons_of_mem _ hx)
      have hm := hrun.reached (P := fun m => ∀ c, ¬ m.Regresses c) hbefore
      refine List.isChain_cons_cons.mpr ⟨?_, ih hbefore hm⟩
      have hw := (hm m rfl).wellFormed
      exact forward_of_ordered hw (hn.wellFormed hw) (hn.extends_world hw)
        ((hreached m' rfl).ordered fun _ h => h)
  · intro m hm
    have hr := hreached m hm
    exact callsInOrder_of_ordered hr.wellFormed hr.deliveries (hr.ordered fun _ h => h)

/-- In a run no child ever goes back and no listener on a child is called with an older revision
after a newer one, if and only if no transformation that was overtaken gives its child another value
again. -/
theorem revisions_in_order_iff {ms : List (Machine α)} (h : Run (m :: ms)) :
    ((m :: ms).IsChain fun b a => a.Forward b) ∧ m.CallsInOrder ↔
      ∀ x ∈ ms, ∀ c, ¬ x.Regresses c := by
  constructor
  · exact fun hforward => not_regresses_of_forward h hforward.1
  · intro hno
    obtain ⟨hforward, hcalls⟩ := forward_of_not_regresses h hno
    exact ⟨hforward, hcalls m rfl⟩

/-! ## A child that goes back -/

/-- The state that is being applied is no older than what the child has. -/
def upToDate (m : Machine α) : Bool :=
  match m.stack with
  | .applying c s :: _ => (m.world.latest? c).all fun x => decide (x.revision ≤ s.revision)
  | _ => true

theorem not_regresses_of_upToDate (h : m.upToDate = true) (c : WatcherId) : ¬ m.Regresses c := by
  rintro ⟨-, -, -, -, -, -, hx, hlt, -⟩
  simp only [upToDate, hx, Option.all_some, decide_eq_true_eq] at h
  exact Revision.not_le_of_lt hlt h

/-- A transformation that pushes a newer state into the parent when it is first applied. -/
def relay : Derivation Nat where
  label := "c"
  apply v := .value v
  actions n := if n = 1 then [.push "r" ⟨2⟩ ⟨2, 2⟩] else []

def relayed : Machine Nat :=
  ({ world := {} } : Machine Nat).carry 12
    [.root "r" "r" false, .child "r" "c" (.ok "") relay.apply relay.actions,
      .watch "c" "l" false .inline (fun _ => []) fun _ => []]

def overtaken (n : Nat) : Machine Nat := (relayed.world.start (.push "r" ⟨1⟩ ⟨1, 1⟩)).steps n

theorem overtaken_next : (overtaken 22).Next (overtaken 22).step :=
  .of_stack (by decide +kernel)

theorem upToDate_overtaken : (overtaken 22).Reached fun m => m.upToDate = true := by
  have hrelayed : relayed.Reached fun m => m.upToDate = true :=
    Reached.carry .initial (by decide +kernel)
  have htest : ∀ k < 22, (overtaken k).upToDate = true := by decide +kernel
  exact hrelayed.begin (by decide +kernel) (by decide +kernel) htest

theorem regresses_overtaken : (overtaken 22).Regresses 1 := by
  have hmachine : overtaken 22 = ⟨(overtaken 22).world,
      .applying 1 ⟨⟨1⟩, 1⟩ :: .calling ⟨0, ⟨1⟩, 1, ⟨⟨1⟩, 1⟩⟩ :: (overtaken 22).stack.drop 2,
      .proceed⟩ := by
    with_unfolding_all rfl
  have horigin : (overtaken 22).world.origin? 1 = some (.child 0 ⟨1⟩ relay) := by
    with_unfolding_all rfl
  rw [hmachine]
  exact .mk (x := ⟨⟨2⟩, 2⟩) (y := 1) Control.calm_proceed horigin (by with_unfolding_all rfl)
    (by decide +kernel) (by decide +kernel) rfl (by with_unfolding_all rfl) (by decide) rfl

theorem revisions_in_order_iff_overtaken : ∃ ms, Run (overtaken 22 :: ms) ∧
    (overtaken 22 :: ms).IsChain (fun b a => a.Forward b) ∧ (overtaken 22).CallsInOrder ∧
    ¬ (((overtaken 22).step :: overtaken 22 :: ms).IsChain (fun b a => a.Forward b) ∧
      (overtaken 22).step.CallsInOrder) := by
  obtain ⟨ms, hrun, htest⟩ := upToDate_overtaken.run
  obtain ⟨hchain, hcalls⟩ :=
    (revisions_in_order_iff hrun).mpr fun x hx c => not_regresses_of_upToDate (htest x hx) c
  refine ⟨ms, hrun, hchain, hcalls, fun hforward => ?_⟩
  exact (revisions_in_order_iff (.next hrun overtaken_next)).mp hforward _
    (List.mem_cons_self ..) 1 regresses_overtaken

theorem child_goes_back :
    ((overtaken 22).Reached (fun _ => True) ∧ (overtaken 22).Next (overtaken 22).step ∧
      ¬ (overtaken 22).Forward (overtaken 22).step) ∧
    (overtaken 26).Reached (fun _ => True) ∧ ¬ (overtaken 26).CallsInOrder := by
  have hreached : ∀ n, (overtaken n).Reached fun _ => True := fun n =>
    (Reached.initial.carry_any (by decide +kernel)).begin_any (by decide +kernel)
  refine ⟨⟨hreached 22, overtaken_next, regresses_overtaken.not_forward⟩, hreached 26, ?_⟩
  intro hcalls
  have horigin : (overtaken 26).world.origin? 1 = some (.child 0 ⟨1⟩ relay) := by
    with_unfolding_all rfl
  have hcallsTo : (overtaken 26).world.callsTo 1 ⟨1⟩ =
      [⟨1, ⟨1⟩, 1, ⟨⟨2⟩, 2⟩⟩, ⟨1, ⟨1⟩, 2, ⟨⟨1⟩, 1⟩⟩] := by
    with_unfolding_all rfl
  have hpairwise := hcalls 1 0 ⟨1⟩ relay ⟨1⟩ horigin
  rw [hcallsTo] at hpairwise
  exact absurd (List.rel_of_pairwise_cons hpairwise (List.mem_singleton_self _)) (by decide)

end Machine

end WatchTree
