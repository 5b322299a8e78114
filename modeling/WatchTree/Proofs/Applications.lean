import WatchTree.Proofs.OffersAndWakers
import WatchTree.Proofs.OnTop
import Mathlib.Data.List.Induction
import Mathlib.Data.List.Chain

/-!
# A child's history is the condensed image of its parent's

An application of a child's transformation that ends is the only thing that can give the child a
state. Whatever the callbacks do meanwhile, and however applications are nested,

1. each one that has ended was that of a task its subscription was called with (`World.Invoked`),
2. what the child has accepted are the values among those that ended while it was open, without
   those that equal the value kept last (`World.Condenses`), and
3. how the child takes the outcome is decided when the application ends (`Machine.Ends`): a failure
   and a value that is not accepted leave traces in the history alone.
-/

namespace WatchTree

variable {α : Type}

/-! ## Values that differ from the one before -/

namespace Latest

variable [BEq α]

theorem retain_eq_or (kept : List (Latest α)) (s : Latest α) :
    retain kept s = kept ∨ retain kept s = kept ++ [s] ∧
      ∀ last, kept.getLast? = some last → (last.value == s.value) = false := by
  unfold retain
  cases kept.getLast? with
  | none => exact .inr ⟨rfl, nofun⟩
  | some last =>
    by_cases h : (last.value == s.value) = true
    · exact .inl (if_pos h)
    · refine .inr ⟨if_neg h, fun x hx => ?_⟩
      rw [← Option.some.inj hx]
      exact (Bool.not_eq_true _).mp h

/-- No value follows an equal one. -/
theorem isChain_distinct (ss : List (Latest α)) :
    (distinct ss).IsChain fun x y => (x.value == y.value) = false := by
  induction ss using List.reverseRecOn with
  | nil => exact .nil
  | append_singleton ss s ih =>
    rw [distinct_concat]
    rcases retain_eq_or (distinct ss) s with heq | ⟨heq, hne⟩
    · rw [heq]
      exact ih
    · rw [heq]
      refine List.isChain_append.mpr ⟨ih, .singleton s, fun x hx y hy => ?_⟩
      obtain rfl : s = y := Option.some.inj hy
      exact hne x hx

theorem distinct_subset (ss : List (Latest α)) : distinct ss ⊆ ss := by
  induction ss using List.reverseRecOn with
  | nil => exact List.Subset.refl _
  | append_singleton ss s ih =>
    rw [distinct_concat]
    rcases retain_eq_or (distinct ss) s with heq | ⟨heq, -⟩
    · rw [heq]
      exact fun x hx => List.mem_append_left _ (ih hx)
    · rw [heq]
      intro x hx
      rcases List.mem_append.mp hx with hx | hx
      · exact List.mem_append_left _ (ih hx)
      · exact List.mem_append_right _ hx

end Latest

theorem Outcome.mem_states {xs : List (Revision × Outcome α)} {s : Latest α}
    (h : s ∈ Outcome.states xs) : (s.revision, .value s.value) ∈ xs := by
  obtain ⟨⟨r, outcome⟩, hx, hs⟩ := List.mem_filterMap.mp h
  cases outcome with
  | value y =>
    obtain rfl : ⟨r, y⟩ = s := Option.some.inj hs
    exact hx
  | failed | panicked => exact nomatch hs

/-! ## Applications among the deeds -/

namespace World

theorem accepted_eq_deeds (w : World α) (id : WatcherId) :
    w.accepted id = w.deeds.filterMap (Event.acceptance? id) :=
  w.filterMap_deeds fun e he => by
    cases e with
    | offered => exact nomatch he
    | _ => rfl

theorem outcomes_eq_deeds (w : World α) (c : WatcherId) :
    w.outcomes c = w.deeds.filterMap (Event.outcome? c) :=
  w.filterMap_deeds fun e he => by
    cases e with
    | applied => exact nomatch he
    | _ => rfl

/-- Nothing was done between the two worlds that matters to a child. -/
theorem spared_of_deeds {w w' : World α} (es : List (Event α)) (h : w'.deeds = w.deeds ++ es)
    {c : WatcherId} (hes : ∀ e ∈ es, e.acceptance? c = none ∧ e.outcome? c = none) :
    w'.outcomes c = w.outcomes c ∧ w'.accepted c = w.accepted c := by
  rw [outcomes_eq_deeds, outcomes_eq_deeds, accepted_eq_deeds, accepted_eq_deeds, h,
    List.filterMap_append, List.filterMap_append,
    List.filterMap_eq_nil_iff.mpr fun e he => (hes e he).1,
    List.filterMap_eq_nil_iff.mpr fun e he => (hes e he).2, List.append_nil, List.append_nil]
  exact ⟨rfl, rfl⟩

end World

/-! ## How an application ends -/

namespace Machine

section Ends

variable [BEq α]

/-- How the application of a child's transformation to a state ends with an outcome, above these
frames: the child takes a value if it is open and has no equal one. -/
inductive Ends (m : Machine α) (c : WatcherId) (s : Latest α) (rest : List (Frame α)) :
    Outcome α → Machine α → Prop
  /-- A failure is recorded and logged. -/
  | failed {outcome : Outcome α} (p : Bool) (error : String) : (∀ y, outcome ≠ .value y) →
      Ends m c s rest outcome
        ⟨(m.world.note p (.applied c s.revision outcome)).note p
          (.logged c (m.nameOf c) (.transformationFailed s.revision error)), rest, .proceed⟩
  /-- A value that the child has already is recorded and logged. -/
  | suppressed {b : Watcher α} {y : α} {x : Latest α} (p : Bool) :
      m.world.watcher? c = some b → b.closed = false → b.latest = some x →
      (x.value == y) = true →
      Ends m c s rest (.value y)
        ⟨((m.world.note p (.applied c s.revision (.value y))).note p
          (.offered c ⟨s.revision, y⟩ .refused)).note p
          (.logged c b.name (.unchanged s.revision)), rest, .answer (.bool false)⟩
  /-- A closed child takes no value. -/
  | late {y : α} (p : Bool) : m.world.isClosed c = true →
      Ends m c s rest (.value y)
        ⟨(m.world.note p (.applied c s.revision (.value y))).note p
          (.offered c ⟨s.revision, y⟩ .watcherClosed), rest, .answer (.bool false)⟩
  /-- An open child takes a value that it does not have, with the revision of the state. -/
  | kept {b : Watcher α} {y : α} (p : Bool) :
      m.world.watcher? c = some b → b.closed = false →
      (∀ x, b.latest = some x → (x.value == y) = false) →
      Ends m c s rest (.value y)
        ⟨(m.world.note p (.applied c s.revision (.value y))).adopt p p b.name c b ⟨s.revision, y⟩,
          .waking b.slot.wakers ::
            .announcing c (b.updates + 1) ⟨s.revision, y⟩ b.registry.entries :: rest, .proceed⟩

variable {m m' : Machine α} {c p : WatcherId} {l : ListenerId} {d : Derivation α}

theorem ends_settle {w : World α} {ctl : Control α} {s : Latest α} {rest : List (Frame α)}
    (ho : w.origin? c = some (.child p l d)) (outcome : Outcome α) :
    Ends ⟨w, .applying c s :: rest, ctl⟩ c s rest outcome
      (settle ⟨w, rest, ctl⟩ c s.revision outcome) := by
  obtain ⟨b, hb, hbo⟩ := World.exists_watcher?_of_origin? ho
  by_cases hv : ∃ y, outcome = .value y
  · obtain ⟨y, rfl⟩ := hv
    set w₁ := w.note (onPoller ⟨w, rest, ctl⟩) (.applied c s.revision (.value y))
    have hb₁ : w₁.watcher? c = some b := hb
    rw [settle_value]
    by_cases hcl : b.closed = true
    · rw [offer_closed (m := ⟨w₁, rest, ctl⟩) hb₁ hcl]
      exact .late _ ((World.isClosed_of_watcher? hb).trans hcl)
    · rw [Bool.not_eq_true] at hcl
      cases hr : b.refusal ⟨s.revision, y⟩ with
      | none =>
        rw [offer_adopted (m := ⟨w₁, rest, ctl⟩) hb₁ hcl hr]
        refine .kept _ hb hcl fun x hx => ?_
        unfold Watcher.refusal at hr
        rw [hx, hbo] at hr
        simpa using hr
      | some refusal =>
        rw [offer_refused (m := ⟨w₁, rest, ctl⟩) hb₁ hcl hr]
        unfold Watcher.refusal at hr
        cases hx : b.latest with
        | none =>
          rw [hx] at hr
          exact nomatch hr
        | some x =>
          rw [hx, hbo] at hr
          have heq : (x.value == y) = true := by
            by_contra hne
            simp [hne] at hr
          obtain rfl : Watcher.Refusal.unchanged = refusal := by simpa [heq] using hr
          exact .suppressed _ hb hcl hx heq
  · obtain ⟨error, heq⟩ := settle_failure ⟨w, rest, ctl⟩ c s.revision
      fun y hy => hv ⟨y, hy⟩
    rw [heq]
    exact .failed _ error fun y hy => hv ⟨y, hy⟩

theorem Ends.outcomes {s : Latest α} {rest : List (Frame α)} {outcome : Outcome α}
    (h : m.Ends c s rest outcome m') :
    m'.world.outcomes c = m.world.outcomes c ++ [(s.revision, outcome)] := by
  have happlied : ∀ q, (m.world.note q (.applied c s.revision outcome)).outcomes c =
      m.world.outcomes c ++ [(s.revision, outcome)] := by
    intro q
    rw [World.outcomes_note, if_pos rfl]
  cases h with
  | failed q => exact ((World.Barren.note _ q rfl).outcomes c).trans (happlied q)
  | suppressed q =>
    exact (((World.Barren.note _ q rfl).trans (.note _ q rfl)).outcomes c).trans (happlied q)
  | late q => exact ((World.Barren.note _ q rfl).outcomes c).trans (happlied q)
  | kept q => exact (World.outcomes_adopt ..).trans (happlied q)

/-- Nothing that matters to a child comes next, or an application of its transformation ends. -/
theorem Next.ends_or_spares (h : m.Next m') (hm : m.WellFormed) (hroot : ¬ m.world.IsRoot c) :
    (m'.world.outcomes c = m.world.outcomes c ∧ m'.world.accepted c = m.world.accepted c) ∨
      ∃ p l d s rest outcome, m.world.origin? c = some (.child p l d) ∧
        m.stack = .applying c s :: rest ∧
        (m.control.Calm ∧ outcome = d.apply s.value ∨
          ∃ payload, m.control = .unwind payload ∧ outcome = .panicked payload) ∧
        m.Ends c s rest outcome m' := by
  have hoffered : ∀ {id : WatcherId} (s : Latest α) (reception : Reception), id ≠ c →
      (Event.offered id s reception).acceptance? c = none := by
    intro id s reception hne
    cases reception <;> simp [hne]
  rcases (h.does hm).deeds with ⟨es, heq, hes⟩ | ⟨f, fs, id, s, ctl, -, hid, rfl⟩ |
    ⟨j, p, l, d, s, rest, outcome, hj, hstk, hout, rfl⟩
  · refine .inl (World.spared_of_deeds es heq fun e he => ?_)
    have hwaker := hes e he
    cases e with
    | woken | enlisted => exact ⟨rfl, rfl⟩
    | _ => exact absurd hwaker Bool.false_ne_true
  · obtain ⟨b, hb, -⟩ := World.exists_watcher?_of_origin? hid
    refine .inl (World.spared_of_deeds _ (deeds_offer (m := ⟨m.world, _, ctl⟩) hb s) ?_)
    intro e he
    rw [List.mem_singleton.mp he]
    exact ⟨hoffered s _ fun heq => hroot (heq ▸ hid), rfl⟩
  · by_cases hjc : j = c
    · subst hjc
      obtain ⟨w, stk, ctl⟩ := m
      obtain rfl : stk = .applying j s :: rest := hstk
      exact .inr ⟨p, l, d, s, rest, outcome, hj, rfl, hout, ends_settle hj outcome⟩
    · left
      obtain ⟨b, hb, -⟩ := World.exists_watcher?_of_origin? hj
      refine World.spared_of_deeds _
        (deeds_settle (m := ⟨m.world, rest, m.control⟩) hb s.revision outcome) fun e he => ?_
      rcases List.mem_cons.mp he with rfl | he
      · exact ⟨rfl, if_neg hjc⟩
      · obtain ⟨x, -, rfl⟩ := List.mem_map.mp he
        exact ⟨hoffered x _ hjc, rfl⟩

end Ends

end Machine

/-! ## What children have made of their parents' states -/

namespace World

/-- The child has accepted what remains of the outcomes so far, or of those until it was closed. -/
def Condenses [BEq α] (w : World α) (c : WatcherId) : Prop :=
  ∃ os, os <+: w.outcomes c ∧ (w.isClosed c = false → os = w.outcomes c) ∧
    w.accepted c = Latest.distinct (Outcome.states os)

/-- The application was that of a task with a state of the parent that the subscription was called
with; it has ended with what the transformation makes of the state, or with a panic. -/
def Invoked (w : World α) (p : WatcherId) (l : ListenerId) (d : Derivation α)
    (x : Revision × Outcome α) : Prop :=
  ∃ t ∈ w.callsTo p l, t.state ∈ w.accepted p ∧ x.1 = t.state.revision ∧
    (x.2 = d.apply t.state.value ∨ ∃ payload, x.2 = .panicked payload)

/-- What a child has made of the states of its parent. -/
structure Distils [BEq α] (w : World α) (c p : WatcherId) (l : ListenerId) (d : Derivation α) :
    Prop where
  condenses : w.Condenses c
  /-- The latest state and the number of updates are those of what was accepted. -/
  latest : w.latest? c = (w.accepted c).getLast?
  updates : w.updates c = (w.accepted c).length
  /-- No value follows an equal one. -/
  varied : (w.accepted c).IsChain fun x y => (x.value == y.value) = false
  invoked : ∀ x ∈ w.outcomes c, w.Invoked p l d x
  /-- Revision and value belong to the same state of the parent. -/
  image : ∀ x ∈ w.accepted c, ∃ s ∈ w.accepted p, x.revision = s.revision ∧
    d.apply s.value = .value x.value

theorem Extends.outcomes {w w' : World α} (h : w.Extends w') (c : WatcherId) :
    w.outcomes c <+: w'.outcomes c := h.events.filterMap _

theorem Extends.accepted_subset {w w' : World α} (h : w.Extends w') (id : WatcherId) :
    w.accepted id ⊆ w'.accepted id := (h.events.filterMap _).subset

theorem Extends.callsTo_subset {w w' : World α} (h : w.Extends w') (id : WatcherId)
    (l : ListenerId) : w.callsTo id l ⊆ w'.callsTo id l :=
  ((h.events.filterMap _).filter _).subset

theorem Invoked.of_extends {w w' : World α} {p : WatcherId} {l : ListenerId} {d : Derivation α}
    {x : Revision × Outcome α} (h : w.Invoked p l d x) (hx : w.Extends w') :
    w'.Invoked p l d x := by
  obtain ⟨t, ht, hs, hrest⟩ := h
  exact ⟨t, hx.callsTo_subset p l ht, hx.accepted_subset p hs, hrest⟩

end World

namespace Machine

variable [BEq α] {P : Machine α → Prop} {m m' : Machine α} {c p : WatcherId} {l : ListenerId}
  {d : Derivation α}

/-- A step that closes a watcher accepts nothing. -/
theorem Next.accepted_eq_of_closed (h : m.Next m') (hm : m.WellFormed)
    (hcl : m'.world.isClosed c = true) : m'.world.accepted c = m.world.accepted c := by
  cases hold : m.world.isClosed c with
  | true => exact (Later.refl.next (P := fun _ => True) trivial h).accepted_eq_of_closed hm hold
  | false =>
    rcases h.accepted c with heq | ⟨b, s, stk, -, -, hstk⟩
    · exact heq
    · rcases h.closed c with hsame | ⟨wakers, n, stk', hstk'⟩
      · exact nomatch hold.symm.trans (hsame.symm.trans hcl)
      · exact nomatch hstk.symm.trans hstk'

theorem Reached.condenses (h : m.Reached P) :
    ∀ {c p l d}, m.world.origin? c = some (.child p l d) → m.world.Condenses c := by
  induction h with
  | initial =>
    intro c p l d ho
    simp [World.origin?, World.watcher?] at ho
  | @next m m' hreach hP hn ih =>
    intro c p l d ho
    have hm := hreach.wellFormed
    have hx := hn.extends_world hm
    cases hcl : m'.world.isClosed c with
    | false =>
      exact ⟨_, List.prefix_rfl, fun _ => rfl, (hreach.next hP hn).condensed.accepted ho hcl⟩
    | true =>
      have hacc := hn.accepted_eq_of_closed hm hcl
      have hshut : m'.world.isClosed c ≠ false := by simp [hcl]
      cases hb : m.world.watcher? c with
      | none =>
        refine ⟨[], List.nil_prefix, fun hopen => absurd hopen hshut, ?_⟩
        rw [hacc, hm.ledger.accepted_of_watcher?_none hb]
        rfl
      | some b =>
        have hob := World.origin?_of_watcher? hb
        rw [← Option.some.inj (ho.symm.trans (hx.origin hob))] at hob
        obtain ⟨os, hos, -, heq⟩ := ih hob
        exact ⟨os, hos.trans (hx.outcomes c), fun hopen => absurd hopen hshut,
          hacc.trans heq⟩

omit [BEq α] in
/-- An application that ends is that of a task. -/
theorem invoked_of_ends {s : Latest α} {rest : List (Frame α)} {outcome : Outcome α}
    (hm : m.WellFormed) (hd : m.world.Deliveries) (ho : m.world.origin? c = some (.child p l d))
    (hstk : m.stack = .applying c s :: rest)
    (hout : m.control.Calm ∧ outcome = d.apply s.value ∨
      ∃ payload, m.control = .unwind payload ∧ outcome = .panicked payload) :
    m.world.Invoked p l d (s.revision, outcome) := by
  obtain ⟨w, stk, ctl⟩ := m
  obtain rfl : stk = .applying c s :: rest := hstk
  obtain ⟨t, rest', rfl, rfl, rfl, rfl, hinv⟩ := hm.applying ho
  have hcalled : t ∈ w.callsTo t.watcher t.listener :=
    List.mem_filter.mpr ⟨hinv, decide_eq_true t.isFor_self⟩
  obtain ⟨k, -, hk⟩ := hd.genuine_of_called hm.ledger hcalled
  refine ⟨t, hcalled, List.mem_of_getElem? hk, rfl, ?_⟩
  rcases hout with ⟨-, heq⟩ | ⟨payload, -, heq⟩
  · exact .inl heq
  · exact .inr ⟨payload, heq⟩

theorem Reached.invoked (h : m.Reached P) :
    ∀ {c p l d}, m.world.origin? c = some (.child p l d) →
      ∀ x ∈ m.world.outcomes c, m.world.Invoked p l d x := by
  induction h with
  | initial => exact fun _ x hx => absurd hx List.not_mem_nil
  | @next m m' hreach hP hn ih =>
    intro c p l d ho x hxmem
    have hm := hreach.wellFormed
    have hx := hn.extends_world hm
    -- A child that has just been made has no history.
    have hold : ∀ {o}, m.world.origin? c = some o → m.world.origin? c = some (.child p l d) := by
      intro o hc
      rw [hc, ← hx.origin hc, ho]
    have hroot : ¬ m.world.IsRoot c := fun hroot => nomatch hroot.symm.trans (hold hroot)
    rcases hn.ends_or_spares hm hroot with
      ⟨heq, -⟩ | ⟨p', l', d', s, rest, outcome, hc, hstk, hout, hends⟩
    · rw [heq] at hxmem
      cases hb : m.world.watcher? c with
      | none =>
        rw [hreach.condensed.unknown hb] at hxmem
        exact absurd hxmem List.not_mem_nil
      | some b =>
        exact (ih (hold (World.origin?_of_watcher? hb)) x hxmem).of_extends hx
    · obtain ⟨rfl, rfl, rfl⟩ := Origin.child.inj (Option.some.inj (hc.symm.trans (hold hc)))
      rw [hends.outcomes] at hxmem
      rcases List.mem_append.mp hxmem with hxmem | hxmem
      · exact (ih hc x hxmem).of_extends hx
      · rw [List.mem_singleton.mp hxmem]
        exact (invoked_of_ends hm hreach.deliveries hc hstk hout).of_extends hx

theorem Reached.distils (h : m.Reached P) (ho : m.world.origin? c = some (.child p l d)) :
    m.world.Distils c p l d where
  condenses := h.condenses ho
  latest := h.wellFormed.ledger.latest_eq c
  updates := h.wellFormed.ledger.updates_eq c
  varied := by
    obtain ⟨os, -, -, heq⟩ := h.condenses ho
    rw [heq]
    exact Latest.isChain_distinct _
  invoked := h.invoked ho
  image x hx := by
    obtain ⟨os, hos, -, heq⟩ := h.condenses ho
    rw [heq] at hx
    have hmem := hos.subset (Outcome.mem_states (Latest.distinct_subset _ hx))
    obtain ⟨t, -, hs, hrev, hval⟩ := h.invoked ho _ hmem
    refine ⟨t.state, hs, hrev, ?_⟩
    rcases hval with hval | ⟨payload, hval⟩
    · exact hval.symm
    · exact nomatch hval

/-- In every machine that can be reached, a child has accepted the values among the applications
that ended while it was open, each with its revision, without those equal to the value kept last.
What comes next changes nothing about that, unless it is the end of an application: a failure and a
value that is not accepted leave traces in the history alone. -/
theorem children_distil_applications (h : m.Reached fun _ => True)
    (ho : m.world.origin? c = some (.child p l d)) :
    m.world.Distils c p l d ∧ ∀ m', m.Next m' →
      (m'.world.outcomes c = m.world.outcomes c ∧ m'.world.accepted c = m.world.accepted c) ∨
        ∃ s rest outcome, m.stack = .applying c s :: rest ∧
          (m.control.Calm ∧ outcome = d.apply s.value ∨
            ∃ payload, m.control = .unwind payload ∧ outcome = .panicked payload) ∧
          m.Ends c s rest outcome m' ∧
          m'.world.outcomes c = m.world.outcomes c ++ [(s.revision, outcome)] := by
  refine ⟨h.distils ho, fun m' hn => ?_⟩
  have hroot : ¬ m.world.IsRoot c := fun hroot => nomatch ho.symm.trans hroot
  rcases hn.ends_or_spares h.wellFormed hroot with
    hspared | ⟨p', l', d', s, rest, outcome, hc, hstk, hout, hends⟩
  · exact .inl hspared
  · obtain ⟨rfl, rfl, rfl⟩ := Origin.child.inj (Option.some.inj (hc.symm.trans ho))
    exact .inr ⟨s, rest, outcome, hstk, hout, hends, hends.outcomes⟩

/-! ### A value that a nested push has made old -/

/-- A transformation that gives no value for zero; when it is first applied, it pushes a newer state
into the parent. -/
def flooring : Derivation Nat where
  label := "c"
  apply v := if v = 0 then .failed "zero" else .value (v / 2)
  actions n := if n = 1 then [.push "r" ⟨2⟩ ⟨9, 9⟩] else []

def floored : Machine Nat :=
  ({ world := {} } : Machine Nat).carry 12
    [.root "r" "r" false, .child "r" "c" (.ok "") flooring.apply flooring.actions]

def outpaced (n : Nat) : Machine Nat := (floored.world.start (.push "r" ⟨1⟩ ⟨8, 8⟩)).steps n

theorem reached_outpaced : (outpaced 18).Reached fun _ => True :=
  (Reached.initial.carry_any (by decide +kernel)).begin_any (by decide +kernel)

theorem children_distil_applications_outpaced :
    (outpaced 18).Next (outpaced 18).step ∧ (outpaced 18).world.Distils 1 0 ⟨1⟩ flooring ∧
      (outpaced 18).world.outcomes 1 = [(⟨2⟩, .value 4)] ∧
      (∃ rest, (outpaced 18).Ends 1 ⟨⟨1⟩, 8⟩ rest (.value 4) (outpaced 18).step) ∧
      (outpaced 18).step.world.outcomes 1 = [(⟨2⟩, .value 4), (⟨1⟩, .value 4)] ∧
      (outpaced 18).step.world.accepted 1 = [⟨⟨2⟩, 4⟩] := by
  have hn : (outpaced 18).Next (outpaced 18).step := .of_stack (by decide +kernel)
  have ho : (outpaced 18).world.origin? 1 = some (.child 0 ⟨1⟩ flooring) := by
    with_unfolding_all rfl
  obtain ⟨hdistils, hnext⟩ := children_distil_applications reached_outpaced ho
  have houtcomes : (outpaced 18).world.outcomes 1 = [(⟨2⟩, .value 4)] := by
    with_unfolding_all rfl
  have houtcomes' : (outpaced 18).step.world.outcomes 1 =
      [(⟨2⟩, .value 4), (⟨1⟩, .value 4)] := by
    with_unfolding_all rfl
  refine ⟨hn, hdistils, houtcomes, ?_, houtcomes', by with_unfolding_all rfl⟩
  rcases hnext _ hn with ⟨hsame, -⟩ | ⟨s, rest, outcome, hstk, -, hends, hout⟩
  · rw [houtcomes, houtcomes'] at hsame
    exact absurd (congrArg List.length hsame) (by decide)
  · have htop : (outpaced 18).stack.head? = some (.applying 1 ⟨⟨1⟩, 8⟩) := by
      with_unfolding_all rfl
    rw [hstk] at htop
    obtain rfl := (Frame.applying.inj (Option.some.inj htop)).2
    rw [houtcomes, houtcomes'] at hout
    obtain rfl : Outcome.value 4 = outcome := by simpa using hout
    exact ⟨rest, hends⟩

end Machine

end WatchTree
