import WatchTree.Proofs.Applications
import WatchTree.Proofs.PollLoop

/-!
# What a root accepts

A root compares a state that is offered only with its latest. Over the whole history, nested pushes
and rejected ones included, this comes to a running maximum (`World.Ranks`): while the root is open,
a state is accepted if and only if its revision is at least that of every state offered before, and
the latest state is the last one among those with the greatest revision. A push that is turned down
leaves traces in the history alone and answers so at once (`Machine.TurnsDown`); one that is
accepted never answers so, however long it takes (`Machine.Underway`).
-/

namespace WatchTree

variable {α : Type}

theorem Revision.lt_of_not_le {a b : Revision} (h : ¬ a ≤ b) : b < a := Int.lt_of_not_ge h

/-! ## Offers in a history -/

namespace Event

/-- The state that was offered to a watcher, and what was done with it. -/
def offer? (id : WatcherId) : Event α → Option (Latest α × Reception)
  | .offered j s reception => if j = id then some (s, reception) else none
  | _ => none

end Event

/-- The states among these offers that were made while the watcher was open. -/
def Latest.whileOpen (os : List (Latest α × Reception)) : List (Latest α) :=
  (os.filter fun o => o.2 ≠ .watcherClosed).map Prod.fst

/-- The last one among the states with the greatest revision. -/
def Latest.IsLastGreatest (ss : List (Latest α)) (s : Latest α) : Prop :=
  ∃ xs ys, ss = xs ++ s :: ys ∧ (∀ x ∈ xs, x.revision ≤ s.revision) ∧
    ∀ y ∈ ys, y.revision < s.revision

namespace Latest

theorem IsLastGreatest.mem {ss : List (Latest α)} {s : Latest α} (h : IsLastGreatest ss s) :
    s ∈ ss := by
  obtain ⟨xs, ys, rfl, -⟩ := h
  exact List.mem_append_right _ (List.mem_cons_self ..)

theorem IsLastGreatest.le {ss : List (Latest α)} {s : Latest α} (h : IsLastGreatest ss s) :
    ∀ x ∈ ss, x.revision ≤ s.revision := by
  obtain ⟨xs, ys, rfl, hxs, hys⟩ := h
  intro x hx
  rcases List.mem_append.mp hx with hx | hx
  · exact hxs x hx
  · rcases List.mem_cons.mp hx with rfl | hx
    · exact Revision.le_refl _
    · exact Int.le_of_lt (hys x hx)

/-- A state that is no older than any before it is the last of the greatest. -/
theorem isLastGreatest_concat {ss : List (Latest α)} {s : Latest α}
    (h : ∀ x ∈ ss, x.revision ≤ s.revision) : IsLastGreatest (ss ++ [s]) s :=
  ⟨ss, [], rfl, h, by simp⟩

theorem IsLastGreatest.concat {ss : List (Latest α)} {s t : Latest α} (h : IsLastGreatest ss s)
    (ht : t.revision < s.revision) : IsLastGreatest (ss ++ [t]) s := by
  obtain ⟨xs, ys, rfl, hxs, hys⟩ := h
  refine ⟨xs, ys ++ [t], by simp, hxs, fun y hy => ?_⟩
  rcases List.mem_append.mp hy with hy | hy
  · exact hys y hy
  · rw [List.mem_singleton.mp hy]
    exact ht

theorem whileOpen_concat (os : List (Latest α × Reception)) (s : Latest α) (r : Reception) :
    whileOpen (os ++ [(s, r)]) = whileOpen os ++ if r = .watcherClosed then [] else [s] := by
  unfold whileOpen
  rw [List.filter_append, List.map_append]
  congr 1
  cases r <;> rfl

theorem mem_whileOpen {os : List (Latest α × Reception)} {o : Latest α × Reception} (h : o ∈ os)
    (ho : o.2 ≠ .watcherClosed) : o.1 ∈ whileOpen os :=
  List.mem_map.mpr ⟨o, List.mem_filter.mpr ⟨h, decide_eq_true ho⟩, rfl⟩

end Latest

/-- Where an element stands in a list with one more element. -/
theorem split_concat {β : Type} {xs ys zs : List β} {x z : β}
    (h : zs ++ [z] = xs ++ x :: ys) :
    (xs = zs ∧ x = z ∧ ys = []) ∨ ∃ ys', ys = ys' ++ [z] ∧ zs = xs ++ x :: ys' := by
  rcases List.eq_nil_or_concat ys with rfl | ⟨ys', y, rfl⟩
  · obtain ⟨rfl, hz⟩ := List.append_inj' h rfl
    exact .inl ⟨rfl, (List.cons.inj hz).1.symm, rfl⟩
  · rw [List.concat_eq_append, ← List.cons_append, ← List.append_assoc] at h
    obtain ⟨rfl, hz⟩ := List.append_inj' h rfl
    obtain rfl : z = y := (List.cons.inj hz).1
    exact .inr ⟨ys', List.concat_eq_append, rfl⟩

namespace World

/-- The states offered to a watcher, and what was done with them, in the order in which that was
decided. -/
abbrev offers (w : World α) (id : WatcherId) : List (Latest α × Reception) :=
  w.events.filterMap (Event.offer? id)

theorem offers_eq_deeds (w : World α) (id : WatcherId) :
    w.offers id = w.deeds.filterMap (Event.offer? id) :=
  w.filterMap_deeds fun e he => by
    cases e with
    | offered => exact nomatch he
    | _ => rfl

/-- What was accepted was offered. -/
theorem accepted_eq_offers (w : World α) (id : WatcherId) :
    w.accepted id =
      (w.offers id).filterMap fun o => if o.2 = .accepted then some o.1 else none := by
  have hoffer : Event.acceptance? (α := α) id = fun e =>
      (e.offer? id).bind fun o => if o.2 = .accepted then some o.1 else none := by
    funext e
    cases e with
    | offered j s reception =>
      by_cases hj : j = id
      · cases reception <;> simp [Event.acceptance?, Event.offer?, hj]
      · cases reception <;> simp [Event.acceptance?, Event.offer?, hj]
    | _ => rfl
  unfold World.accepted Event.accepted offers
  rw [List.filterMap_filterMap, hoffer]

/-- What was offered to a root and what became of it. -/
structure Ranks (w : World α) (id : WatcherId) : Prop where
  /-- While the root was open, a state was accepted if and only if it was no older than any state
  offered before. -/
  judged : ∀ xs s reception ys, w.offers id = xs ++ (s, reception) :: ys →
    reception ≠ .watcherClosed →
    (reception = .accepted ↔ ∀ x ∈ xs, x.1.revision ≤ s.revision)
  /-- Once it was closed, all states were turned down as offered to a closed watcher. -/
  closed : ∀ xs s ys, w.offers id = xs ++ (s, .watcherClosed) :: ys →
    w.isClosed id = true ∧ ∀ y ∈ ys, y.2 = .watcherClosed
  /-- The latest state is the last one among those with the greatest revision. -/
  latest : ∀ s, w.latest? id = some s → Latest.IsLastGreatest (Latest.whileOpen (w.offers id)) s
  none : w.latest? id = none → Latest.whileOpen (w.offers id) = []

namespace Ranks

variable {w w' : World α} {id : WatcherId}

theorem of_nil (hoffers : w.offers id = []) (hlatest : w.latest? id = .none) : w.Ranks id where
  judged xs s reception ys h := by simp [hoffers] at h
  closed xs s ys h := by simp [hoffers] at h
  latest s hs := nomatch hlatest.symm.trans hs
  none _ := by rw [hoffers]; rfl

theorem keep (h : w.Ranks id) (hoffers : w'.offers id = w.offers id)
    (hlatest : w'.latest? id = w.latest? id)
    (hclosed : w.isClosed id = true → w'.isClosed id = true) : w'.Ranks id where
  judged := by
    rw [hoffers]
    exact h.judged
  closed xs s ys heq := by
    rw [hoffers] at heq
    obtain ⟨hcl, hys⟩ := h.closed xs s ys heq
    exact ⟨hclosed hcl, hys⟩
  latest := by
    rw [hoffers, hlatest]
    exact h.latest
  none := by
    rw [hoffers, hlatest]
    exact h.none

/-- As long as a root is open, no state has been turned down as offered to a closed watcher. -/
theorem ne_watcherClosed (h : w.Ranks id) (hcl : w.isClosed id = false)
    {o : Latest α × Reception} (ho : o ∈ w.offers id) : o.2 ≠ .watcherClosed := by
  rintro hclosed
  obtain ⟨xs, ys, heq⟩ := List.append_of_mem ho
  obtain ⟨s, reception⟩ := o
  obtain rfl : reception = .watcherClosed := hclosed
  exact nomatch hcl.symm.trans (h.closed xs s ys heq).1

/-- An open root accepts a state if and only if none was offered before that is newer. -/
theorem accepts_iff [BEq α] (h : w.Ranks id) {b : Watcher α} {s : Latest α}
    (hb : w.watcher? id = some b) (ho : b.origin = .root) (hcl : b.closed = false) :
    b.refusal s = .none ↔ ∀ o ∈ w.offers id, o.1.revision ≤ s.revision := by
  have hopen : w.isClosed id = false := (isClosed_of_watcher? hb).trans hcl
  have hlatest := latest?_of_watcher? hb
  unfold Watcher.refusal
  rw [ho]
  cases hl : b.latest with
  | none =>
    have hnil := h.none (hlatest.trans hl)
    refine ⟨fun _ o hmem => ?_, fun _ => rfl⟩
    have hin := Latest.mem_whileOpen hmem (h.ne_watcherClosed hopen hmem)
    rw [hnil] at hin
    exact absurd hin List.not_mem_nil
  | some x =>
    have hgreatest := h.latest x (hlatest.trans hl)
    have hrefusal : (if s.revision < x.revision then
        some (Watcher.Refusal.outOfOrder x.revision) else .none) = .none ↔
          x.revision ≤ s.revision := by
      constructor
      · exact fun hnone => Revision.le_of_not_lt fun hlt => by simp [hlt] at hnone
      · exact fun hle => if_neg fun hlt => Revision.not_le_of_lt hlt hle
    refine hrefusal.trans ⟨fun hle o hmem => ?_, fun hall => ?_⟩
    · have hin := Latest.mem_whileOpen hmem (h.ne_watcherClosed hopen hmem)
      exact Revision.le_trans (hgreatest.le _ hin) hle
    · obtain ⟨o, hmem, rfl⟩ := List.mem_map.mp hgreatest.mem
      exact hall o (List.mem_of_mem_filter hmem)

section Further

variable [BEq α] {b : Watcher α} {s : Latest α} (h : w.Ranks id) (hb : w.watcher? id = some b)
  (ho : b.origin = .root)

include h hb ho

/-- What becomes of a further state that is offered to an open root. -/
theorem accepted_iff (hne : b.reception s ≠ .watcherClosed) :
    b.reception s = .accepted ↔ ∀ o ∈ w.offers id, o.1.revision ≤ s.revision := by
  have hcl := Watcher.closed_eq_false hne
  rw [Watcher.reception_eq_accepted_iff, ← h.accepts_iff hb ho hcl]
  exact and_iff_right hcl

/-- The latest state, when a further one has been offered. -/
theorem latest_concat {t : Latest α}
    (ht : (if b.reception s = .accepted then some s else w.latest? id) = some t) :
    Latest.IsLastGreatest (Latest.whileOpen (w.offers id ++ [(s, b.reception s)])) t := by
  rw [Latest.whileOpen_concat]
  by_cases hne : b.reception s = .watcherClosed
  · rw [hne, if_neg (by simp)] at ht
    rw [if_pos hne, List.append_nil]
    exact h.latest t ht
  rw [if_neg hne]
  have hiff := h.accepted_iff hb ho hne
  split at ht
  · rename_i hacc
    obtain rfl := Option.some.inj ht
    refine Latest.isLastGreatest_concat fun x hx => ?_
    obtain ⟨o, hmem, rfl⟩ := List.mem_map.mp hx
    exact hiff.mp hacc o (List.mem_of_mem_filter hmem)
  · rename_i hnot
    have hgreatest := h.latest t ht
    have hopen := (isClosed_of_watcher? hb).trans (Watcher.closed_eq_false hne)
    refine hgreatest.concat (Revision.lt_of_not_le fun hle => hnot (hiff.mpr fun o hmem => ?_))
    have hin := Latest.mem_whileOpen hmem (h.ne_watcherClosed hopen hmem)
    exact Revision.le_trans (hgreatest.le _ hin) hle

omit ho in
/-- A root without a latest state has taken none, and so none was offered while it was open. -/
theorem whileOpen_concat_eq_nil
    (hnone : (if b.reception s = .accepted then some s else w.latest? id) = .none) :
    Latest.whileOpen (w.offers id ++ [(s, b.reception s)]) = [] := by
  split at hnone
  · exact nomatch hnone
  rename_i hnot
  rw [Latest.whileOpen_concat, h.none hnone]
  by_cases hne : b.reception s = .watcherClosed
  · rw [if_pos hne]
    rfl
  · have hcl := Watcher.closed_eq_false hne
    refine absurd (Watcher.reception_eq_accepted_iff.mpr ⟨hcl, ?_⟩) hnot
    rw [latest?_of_watcher? hb] at hnone
    unfold Watcher.refusal
    rw [hnone]

/-- A further state is offered. -/
theorem offer (hoffers : w'.offers id = w.offers id ++ [(s, b.reception s)])
    (hlatest : w'.latest? id = if b.reception s = .accepted then some s else w.latest? id)
    (hclosed : w'.isClosed id = w.isClosed id) : w'.Ranks id := by
  have hclosed_iff : b.reception s = .watcherClosed ↔ w.isClosed id = true := by
    rw [Watcher.reception_eq_watcherClosed_iff, isClosed_of_watcher? hb]
  constructor
  · intro xs t reception ys heq hne
    rw [hoffers] at heq
    rcases split_concat heq with ⟨rfl, hlast, rfl⟩ | ⟨ys', rfl, hold⟩
    · obtain ⟨rfl, rfl⟩ := Prod.mk.inj hlast
      exact h.accepted_iff hb ho hne
    · exact h.judged xs t reception ys' hold hne
  · intro xs t ys heq
    rw [hoffers] at heq
    rw [hclosed]
    rcases split_concat heq with ⟨rfl, hlast, rfl⟩ | ⟨ys', rfl, hold⟩
    · obtain ⟨rfl, hreception⟩ := Prod.mk.inj hlast
      exact ⟨hclosed_iff.mp hreception.symm, by simp⟩
    · obtain ⟨hcl, hys⟩ := h.closed xs t ys' hold
      refine ⟨hcl, fun y hy => ?_⟩
      rcases List.mem_append.mp hy with hy | hy
      · exact hys y hy
      · rw [List.mem_singleton.mp hy]
        exact hclosed_iff.mpr hcl
  · intro t ht
    rw [hoffers]
    exact h.latest_concat hb ho (hlatest ▸ ht)
  · intro hnone
    rw [hoffers]
    exact h.whileOpen_concat_eq_nil hb (hlatest ▸ hnone)

end Further

end Ranks

end World

namespace Machine

variable [BEq α] {P : Machine α → Prop} {m m' : Machine α} {id : WatcherId}

/-! ## Offers to roots -/

theorem offers_offer {b : Watcher α} (hb : m.world.watcher? id = some b) (s : Latest α)
    (j : WatcherId) : (m.offer id s).world.offers j =
      m.world.offers j ++ if id = j then [(s, b.reception s)] else [] := by
  rw [World.offers_eq_deeds, World.offers_eq_deeds, deeds_offer hb, List.filterMap_append]
  congr 1
  by_cases hj : id = j <;> simp [Event.offer?, hj]

/-- Nothing is offered to a watcher that is no child, or a push offers a state to it. -/
theorem Next.pushes_or_spares (h : m.Next m') (hm : m.WellFormed)
    (hid : ∀ p l d, m.world.origin? id ≠ some (.child p l d)) :
    m'.world.offers id = m.world.offers id ∨
      ∃ f fs s c, f.Pushes id ∧ m.world.IsRoot id ∧
        m' = offer ⟨m.world, f :: (fs ++ m.stack.tail), c⟩ id s := by
  have hspared : ∀ es : List (Event α), m'.world.deeds = m.world.deeds ++ es →
      (∀ e ∈ es, e.offer? id = none) → m'.world.offers id = m.world.offers id := by
    intro es heq hes
    rw [World.offers_eq_deeds, World.offers_eq_deeds, heq, List.filterMap_append,
      List.filterMap_eq_nil_iff.mpr hes, List.append_nil]
  rcases (h.does hm).deeds with ⟨es, heq, hes⟩ | ⟨f, fs, j, s, c, hpush, hj, rfl⟩ |
    ⟨j, p, l, d, s, rest, outcome, hj, -, -, rfl⟩
  · refine .inl (hspared es heq fun e he => ?_)
    have hwaker := hes e he
    cases e with
    | woken | enlisted => rfl
    | _ => exact absurd hwaker Bool.false_ne_true
  · by_cases hji : j = id
    · subst hji
      exact .inr ⟨f, fs, s, c, hpush, hj, rfl⟩
    · left
      obtain ⟨b, hb, -⟩ := World.exists_watcher?_of_origin? hj
      refine (offers_offer (m := ⟨m.world, _, c⟩) hb s id).trans ?_
      rw [if_neg hji]
      exact List.append_nil _
  · obtain ⟨b, hb, -⟩ := World.exists_watcher?_of_origin? hj
    refine .inl (hspared _
      (deeds_settle (m := ⟨m.world, rest, m.control⟩) hb s.revision outcome) ?_)
    intro e he
    rcases List.mem_cons.mp he with rfl | he
    · rfl
    · obtain ⟨x, -, rfl⟩ := List.mem_map.mp he
      refine if_neg ?_
      rintro rfl
      exact hid p l d hj

omit [BEq α] in
theorem latest?_eq_of_offers (hw : m.world.Ledger) (hw' : m'.world.Ledger)
    (h : m'.world.offers id = m.world.offers id) :
    m'.world.latest? id = m.world.latest? id := by
  rw [hw'.latest_eq, hw.latest_eq, World.accepted_eq_offers, World.accepted_eq_offers, h]

theorem latest?_offer {b : Watcher α} (hb : m.world.watcher? id = some b) (s : Latest α)
    (hw : m.world.Ledger) (hw' : (m.offer id s).world.Ledger) :
    (m.offer id s).world.latest? id =
      if b.reception s = .accepted then some s else m.world.latest? id := by
  rw [hw'.latest_eq, hw.latest_eq, World.accepted_eq_offers, offers_offer hb, if_pos rfl,
    List.filterMap_append, ← World.accepted_eq_offers]
  by_cases h : b.reception s = .accepted <;> simp [h]

/-- What was offered to a root was judged by its rank in the history. -/
theorem Reached.ranks_and_unknown (h : m.Reached P) :
    (∀ id, m.world.watcher? id = none → m.world.offers id = []) ∧
      ∀ id, m.world.IsRoot id → m.world.Ranks id := by
  induction h with
  | initial =>
    refine ⟨fun _ _ => rfl, fun id hroot => ?_⟩
    simp [World.IsRoot, World.origin?, World.watcher?] at hroot
  | @next m m' hreach hP hn ih =>
    obtain ⟨hunknown, hranks⟩ := ih
    have hm := hreach.wellFormed
    have hm' := hn.wellFormed hm
    have hx := hn.extends_world hm
    -- To a watcher that is not there yet, nothing is offered.
    have hnil : ∀ id, m.world.watcher? id = none → m'.world.offers id = [] := by
      intro id hnone
      have hid : ∀ o, m.world.origin? id ≠ some o := by
        intro o ho
        obtain ⟨b, hb, -⟩ := World.exists_watcher?_of_origin? ho
        simp [hnone] at hb
      rcases hn.pushes_or_spares hm fun p l d => hid _ with heq | ⟨f, fs, s, c, -, hroot, -⟩
      · rw [heq, hunknown id hnone]
      · exact absurd hroot (hid _)
    refine ⟨fun id hnone => hnil id (World.watcher?_none_of_extends hx hnone), fun id hroot => ?_⟩
    cases hb : m.world.watcher? id with
    | none =>
      refine .of_nil (hnil id hb) ?_
      rw [hm'.ledger.latest_eq, World.accepted_eq_offers, hnil id hb]
      rfl
    | some b =>
      have hob := World.origin?_of_watcher? hb
      have hbo : b.origin = .root := Option.some.inj ((hx.origin hob).symm.trans hroot)
      have hold : m.world.IsRoot id := by rw [World.IsRoot, hob, hbo]
      have hrank := hranks id hold
      have hnochild : ∀ p l d, m.world.origin? id ≠ some (.child p l d) := by
        intro p l d hc
        simp [World.IsRoot, hc] at hold
      rcases hn.pushes_or_spares hm hnochild with heq | ⟨f, fs, s, c, -, -, rfl⟩
      · exact hrank.keep heq (latest?_eq_of_offers hm.ledger hm'.ledger heq) hx.closed
      · refine hrank.offer hb hbo ?_
          (latest?_offer (m := ⟨m.world, _, c⟩) hb s hm.ledger hm'.ledger)
          (isClosed_offer ⟨m.world, _, c⟩ id s id)
        rw [offers_offer (m := ⟨m.world, _, c⟩) hb, if_pos rfl]

theorem Reached.ranks (h : m.Reached P) (hroot : m.world.IsRoot id) : m.world.Ranks id :=
  h.ranks_and_unknown.2 id hroot

/-! ## What a push answers -/

/-- A push that is turned down: its offer is recorded, and the reason why an open root refuses it,
and it answers so at once. -/
structure TurnsDown (m : Machine α) (id : WatcherId) (s : Latest α) (b : Watcher α) (f : Frame α)
    (rest : List (Frame α)) (m' : Machine α) : Prop where
  world : ∃ es : List (Entry α), m'.world = { m.world with history := es ++ m.world.history } ∧
    ∀ e ∈ es, e.event = .offered id s (b.reception s) ∨
      ∃ refusal, e.event = .logged id b.name (refusalMessage s refusal)
  stack : m'.stack = f :: rest
  control : m'.control = .answer (.bool false)
  answer : f = .holding id → m'.step = ⟨m'.world, rest, .answer (.bool false)⟩

omit [BEq α] in
/-- A root is kept by the program that made it. -/
theorem release_root (h : m.world.IsRoot id) : m.release id = m :=
  release_of_stays (stays_of_isRoot h)

theorem turnsDown_offer {f : Frame α} {rest : List (Frame α)} {c : Control α} {b : Watcher α}
    {s : Latest α} (hroot : m.world.IsRoot id) (hb : m.world.watcher? id = some b)
    (h : b.reception s ≠ .accepted) :
    m.TurnsDown id s b f rest (offer ⟨m.world, f :: rest, c⟩ id s) := by
  obtain ⟨es, heq, hes⟩ := offer_rebuffs (m := ⟨m.world, f :: rest, c⟩) hb h
  rw [heq]
  refine ⟨⟨es, rfl, hes⟩, rfl, rfl, ?_⟩
  rintro rfl
  exact release_root (m := ⟨{ m.world with history := es ++ m.world.history }, rest,
    .answer (.bool false)⟩) hroot

/-- An accepted push: above it the update waits to be handed out, or it is over, with the answer
that the state was accepted, or by a panic. -/
def Underway (f : Frame α) (rest : List (Frame α)) (x : Machine α) : Prop :=
  (∃ id n s ls, .announcing id n s ls :: f :: rest <:+ x.stack ∨
      .fanOut id n s ls :: f :: rest <:+ x.stack) ∨
    x.stack = f :: rest ∧
      (x.control = .answer (.bool true) ∨ ∃ payload, x.control = .unwind payload)

/-- The innermost frame of an accepted update goes on. -/
theorem underway_step {w : World α} {f g : Frame α} {rest : List (Frame α)} {c : Control α}
    {n : Nat} {s : Latest α} {ls : List ListenerId}
    (hg : g = .announcing id n s ls ∨ g = .fanOut id n s ls) :
    Underway f rest (step ⟨w, g :: f :: rest, c⟩) := by
  have hcalm : c.Calm → Underway f rest (resume ⟨w, f :: rest, c⟩ g) := by
    intro _
    rcases hg with rfl | rfl
    · exact .inl ⟨id, n, s, ls, .inr List.suffix_rfl⟩
    · cases ls with
      | nil => exact .inr ⟨rfl, .inl rfl⟩
      | cons l ls =>
        exact .inl ⟨id, n, s, ls, .inr (Changes.handOver_ofTask (push ⟨w, f :: rest, c⟩ _) _).stack⟩
  cases c with
  | unwind payload =>
    rcases hg with rfl | rfl
    · exact .inr ⟨rfl, .inr ⟨payload, rfl⟩⟩
    · exact .inr ⟨rfl, .inr ⟨payload, rfl⟩⟩
  | proceed =>
    have hresume := hcalm Control.calm_proceed
    rcases hg with rfl | rfl <;> exact hresume
  | answer a =>
    have hresume := hcalm (Control.calm_answer a)
    rcases hg with rfl | rfl <;> exact hresume

theorem Underway.next {f : Frame α} {rest : List (Frame α)} {x x' : Machine α}
    (h : Underway f rest x) (hpush : f.Pushes id) (hn : x.Next x')
    (hkept : f :: rest <:+ x'.stack) : Underway f rest x' := by
  have hne : x.stack ≠ [] := by
    rcases h with ⟨_, _, _, _, h | h⟩ | ⟨h, -⟩
    · exact h.ne_nil (List.cons_ne_nil _ _)
    · exact h.ne_nil (List.cons_ne_nil _ _)
    · rw [h]
      exact List.cons_ne_nil _ _
  cases hn with
  | start op hs => exact absurd hs hne
  | step hs =>
    obtain ⟨w, stk, c⟩ := x
    obtain ⟨top, below, rfl⟩ := List.exists_cons_of_ne_nil hs
    rcases h with ⟨j, n, s, ls, h⟩ | ⟨h, hc⟩
    · have hbelow : ∀ {g : Frame α}, g :: f :: rest <:+ top :: below →
          g = top ∧ f :: rest = below ∨ g :: f :: rest <:+ (step ⟨w, top :: below, c⟩).stack := by
        intro g hg
        rcases List.suffix_cons_iff.mp hg with heq | hg
        · exact .inl (List.cons.inj heq)
        · exact .inr (suffix_step hg)
      rcases h with h | h
      · rcases hbelow h with ⟨rfl, rfl⟩ | hsuffix
        · exact underway_step (.inl rfl)
        · exact .inl ⟨j, n, s, ls, .inl hsuffix⟩
      · rcases hbelow h with ⟨rfl, rfl⟩ | hsuffix
        · exact underway_step (.inr rfl)
        · exact .inl ⟨j, n, s, ls, .inr hsuffix⟩
    · -- The push itself goes on: it is no longer there.
      obtain ⟨rfl, rfl⟩ := List.cons.inj h
      have hlength := hkept.length_le
      cases hpush with
      | holding =>
        have hstk : (step ⟨w, .holding id :: below, c⟩).stack = below := by
          obtain ⟨w', heq, -⟩ := release_moves (P := fun _ => True) id ⟨w, below, c⟩
          rcases hc with rfl | ⟨payload, rfl⟩ <;> exact congrArg stack heq
        rw [hstk] at hlength
        exact absurd hlength (Nat.not_succ_le_self _)
      | @pushing p hp =>
        obtain ⟨q, hstk⟩ : ∃ q, (step ⟨w, .pushing p :: below, c⟩).stack = .polling q :: below := by
          rcases hc with rfl | ⟨payload, rfl⟩ <;> exact ⟨_, rfl⟩
        rw [hstk] at hkept
        exact nomatch (List.cons.inj (hkept.eq_of_length rfl)).1

theorem Later.underway {f : Frame α} {rest : List (Frame α)} {x : Machine α}
    (h : m.Later (fun y => f :: rest <:+ y.stack) x) (hpush : f.Pushes id)
    (hm : Underway f rest m) (hkept : f :: rest <:+ x.stack) : Underway f rest x := by
  induction h with
  | refl => exact hm
  | next hl hP hn ih => exact (ih hP).next hpush hn hkept

omit [BEq α] in
/-- An accepted push that has come to its end answers that the state was accepted, unless a panic
has ended it. -/
theorem Underway.over {f : Frame α} {rest : List (Frame α)} {x : Machine α}
    (h : Underway f rest x) (hstk : x.stack = f :: rest) :
    x.control = .answer (.bool true) ∨ ∃ payload, x.control = .unwind payload := by
  rcases h with ⟨j, n, s, ls, h | h⟩ | ⟨-, h⟩
  · rw [hstk] at h
    exact absurd h.length_le (Nat.not_succ_le_self _)
  · rw [hstk] at h
    exact absurd h.length_le (Nat.not_succ_le_self _)
  · exact h

theorem underway_offer {f : Frame α} {rest : List (Frame α)} {c : Control α} {b : Watcher α}
    {s : Latest α} (hb : m.world.watcher? id = some b) (h : b.reception s = .accepted) :
    Underway f rest (offer ⟨m.world, f :: rest, c⟩ id s) := by
  obtain ⟨hcl, hr⟩ := Watcher.reception_eq_accepted_iff.mp h
  rw [offer_adopted (m := ⟨m.world, f :: rest, c⟩) hb hcl hr]
  exact .inl ⟨id, _, s, _, .inl (List.suffix_cons _ _)⟩

/-- In every machine that can be reached, a root has taken a state that was offered to it while it
was open if and only if its revision was at least that of every state offered before; so the
accepted revisions do not decrease, and the latest state is the last one among those with the
greatest revision. What comes next changes nothing about that, unless it is the work of a push: one
that is turned down leaves traces in the history alone and answers so at once, and one that is
accepted does not answer that it was turned down. -/
theorem roots_accept_maxima (h : m.Reached fun _ => True) (hroot : m.world.IsRoot id) :
    m.world.Ranks id ∧ Latest.InOrder (m.world.accepted id) ∧ ∀ m', m.Next m' →
      (m'.world.offers id = m.world.offers id ∧ m'.world.latest? id = m.world.latest? id) ∨
        ∃ f rest s b, f.Pushes id ∧ m.stack.tail <:+ rest ∧ m.world.watcher? id = some b ∧
          m'.world.offers id = m.world.offers id ++ [(s, b.reception s)] ∧
          (b.reception s = .watcherClosed ↔ b.closed = true) ∧
          (b.reception s ≠ .accepted → m.TurnsDown id s b f rest m') ∧
          (b.reception s = .accepted → m'.world.latest? id = some s ∧
            ∀ x, m'.Later (fun y => f :: rest <:+ y.stack) x → x.stack = f :: rest →
              x.control = .answer (.bool true) ∨ ∃ payload, x.control = .unwind payload) := by
  have hchild : ∀ p l d, m.world.origin? id ≠ some (.child p l d) :=
    fun p l d ho => nomatch ho.symm.trans hroot
  have hm := h.wellFormed
  refine ⟨h.ranks hroot, h.rootsInOrder id hchild, fun m' hn => ?_⟩
  have hm' := hn.wellFormed hm
  obtain ⟨b, hb, -⟩ := World.exists_watcher?_of_origin? hroot
  rcases hn.pushes_or_spares hm hchild with heq | ⟨f, fs, s, c, hpush, -, rfl⟩
  · exact .inl ⟨heq, latest?_eq_of_offers hm.ledger hm'.ledger heq⟩
  · right
    refine ⟨f, fs ++ m.stack.tail, s, b, hpush, List.suffix_append _ _, hb, ?_,
      Watcher.reception_eq_watcherClosed_iff, turnsDown_offer hroot hb, fun hacc => ⟨?_, ?_⟩⟩
    · rw [offers_offer (m := ⟨m.world, _, c⟩) hb, if_pos rfl]
    · rw [latest?_offer (m := ⟨m.world, _, c⟩) hb s hm.ledger hm'.ledger, if_pos hacc]
    · intro x hl hstk
      exact (hl.underway hpush (underway_offer hb hacc) (hstk ▸ List.suffix_rfl)).over hstk

/-! ### A listener that pushes -/

/-- A root with a listener that pushes an older state and an equally old one when it is first
called. -/
def insistent : Machine Nat :=
  ({ world := {} } : Machine Nat).carry 12
    [.root "r" "r" false, .watch "r" "l" false .inline (fun _ => [])
      fun n => if n = 1 then [.push "r" ⟨1⟩ ⟨10, 10⟩, .push "r" ⟨2⟩ ⟨21, 21⟩] else []]

def insisting (n : Nat) : Machine Nat := (insistent.world.start (.push "r" ⟨2⟩ ⟨20, 20⟩)).steps n

theorem reached_insisting (n : Nat) : (insisting n).Reached fun _ => True :=
  (Reached.initial.carry_any (by decide +kernel)).begin_any (by decide +kernel)

theorem roots_accept_maxima_insisting :
    (insisting 3).Next (insisting 3).step ∧ (insisting 3).world.Ranks 0 ∧
      (∃ f rest b, (insisting 3).TurnsDown 0 ⟨⟨1⟩, 10⟩ b f rest (insisting 3).step) ∧
      (insisting 7).world.Ranks 0 ∧
      (insisting 7).world.offers 0 =
        [(⟨⟨2⟩, 20⟩, .accepted), (⟨⟨1⟩, 10⟩, .refused), (⟨⟨2⟩, 21⟩, .accepted)] := by
  have hn : (insisting 3).Next (insisting 3).step := .of_stack (by decide +kernel)
  have hroot : ∀ {n}, (insisting n).world.origin? 0 = some .root →
      (insisting n).world.IsRoot 0 := id
  obtain ⟨hranks, -, hnext⟩ :=
    roots_accept_maxima (reached_insisting 3) (hroot (by with_unfolding_all rfl))
  obtain ⟨hranks', -⟩ :=
    roots_accept_maxima (reached_insisting 7) (hroot (by with_unfolding_all rfl))
  have hoffers : (insisting 3).world.offers 0 = [(⟨⟨2⟩, 20⟩, .accepted)] := by
    with_unfolding_all rfl
  have hoffers' : (insisting 3).step.world.offers 0 =
      [(⟨⟨2⟩, 20⟩, .accepted), (⟨⟨1⟩, 10⟩, .refused)] := by
    with_unfolding_all rfl
  refine ⟨hn, hranks, ?_, hranks', by with_unfolding_all rfl⟩
  rcases hnext _ hn with ⟨hsame, -⟩ | ⟨f, rest, s, b, -, -, -, hmore, -, hdown, -⟩
  · rw [hoffers, hoffers'] at hsame
    exact absurd (congrArg List.length hsame) (by decide)
  · rw [hoffers, hoffers'] at hmore
    obtain ⟨hs, hreception⟩ : (⟨⟨1⟩, 10⟩ : Latest Nat) = s ∧ .refused = b.reception s := by
      simpa using hmore
    subst hs
    exact ⟨f, rest, b, hdown (by rw [← hreception]; decide)⟩

end Machine

end WatchTree
