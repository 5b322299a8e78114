import WatchTree.Proofs.Agreement
import WatchTree.Proofs.Following

/-!
# What children make of what they are told

An application of a child's transformation ends with a value, an error or a panic.

1. `World.Condensed`: an open child has accepted the values among these outcomes, each with the
   revision it was computed for, except those equal to the value kept last. This holds whatever the
   callbacks do.
2. `Machine.Answered`: where transformations carry out no operations, each call of a subscription
   is followed by its application before the next call.
-/

namespace WatchTree

variable {α : Type}

/-! ## Values that differ from the one before -/

/-- The state that an outcome makes with a revision, if it is a value. -/
def Outcome.state? (revision : Revision) : Outcome α → Option (Latest α)
  | .value y => some ⟨revision, y⟩
  | _ => none

namespace Latest

variable [BEq α]

/-- Adds a state unless its value equals that of the last one. -/
def retain (kept : List (Latest α)) (s : Latest α) : List (Latest α) :=
  match kept.getLast? with
  | some last => if last.value == s.value then kept else kept ++ [s]
  | none => kept ++ [s]

/-- The states that remain when each one with a value equal to that of the last one kept is left
out. -/
def distinct (ss : List (Latest α)) : List (Latest α) := ss.foldl retain []

theorem retain_of_eq {kept : List (Latest α)} {last s : Latest α} (h : kept.getLast? = some last)
    (he : (last.value == s.value) = true) : retain kept s = kept := by
  unfold retain
  rw [h]
  exact if_pos he

theorem retain_of_ne {kept : List (Latest α)} {s : Latest α}
    (h : ∀ last, kept.getLast? = some last → (last.value == s.value) = false) :
    retain kept s = kept ++ [s] := by
  unfold retain
  cases hl : kept.getLast? with
  | none => rfl
  | some last =>
    simp only [h last hl]
    rfl

theorem distinct_concat (ss : List (Latest α)) (s : Latest α) :
    distinct (ss ++ [s]) = retain (distinct ss) s := by
  unfold distinct
  rw [List.foldl_append]
  rfl

end Latest

/-- The values among the outcomes of applications, with the revisions they were computed for. -/
def Outcome.states (xs : List (Revision × Outcome α)) : List (Latest α) :=
  xs.filterMap fun x => x.2.state? x.1

/-! ## Applications in a history -/

namespace Event

/-- The revision and the outcome of an application of the transformation of a child. -/
def outcome? (c : WatcherId) : Event α → Option (Revision × Outcome α)
  | .applied j revision outcome => if j = c then some (revision, outcome) else none
  | _ => none

/-- The applications of the transformation of a child, in the order in which they ended. -/
def outcomes (c : WatcherId) (es : List (Event α)) : List (Revision × Outcome α) :=
  es.filterMap (outcome? c)

/-- It tells neither that a state was accepted nor that an application ended. -/
def isBarren : Event α → Bool
  | .offered _ _ .accepted | .applied .. => false
  | _ => true

theorem acceptance?_of_isBarren {e : Event α} (h : e.isBarren = true) (id : WatcherId) :
    e.acceptance? id = none := by
  cases e with
  | offered j s reception => cases reception <;> first | rfl | exact nomatch h
  | _ => rfl

theorem outcome?_of_isBarren {e : Event α} (h : e.isBarren = true) (c : WatcherId) :
    e.outcome? c = none := by
  cases e with
  | applied => exact nomatch h
  | _ => rfl

theorem isBarren_of_isIdle {e : Event α} (h : e.isIdle = true) : e.isBarren = true := by
  cases e <;> first | rfl | exact nomatch h

end Event

namespace World

/-- The applications of the transformation of a child, in the order in which they ended. -/
abbrev outcomes (w : World α) (c : WatcherId) : List (Revision × Outcome α) :=
  Event.outcomes c w.events

theorem outcomes_note (w : World α) (p : Bool) (c : WatcherId) (revision : Revision)
    (outcome : Outcome α) (j : WatcherId) :
    (w.note p (.applied c revision outcome)).outcomes j =
      w.outcomes j ++ if c = j then [(revision, outcome)] else [] := by
  unfold outcomes Event.outcomes
  rw [events_note, List.filterMap_append]
  congr 1
  by_cases h : c = j <;> simp [Event.outcome?, h]

/-- Nothing was accepted between the two worlds, and no application ended. -/
def Barren (w w' : World α) : Prop :=
  ∃ es, w'.events = w.events ++ es ∧ ∀ e ∈ es, e.isBarren = true

namespace Barren

variable {w w' w'' : World α}

theorem of_events_eq (h : w'.events = w.events) : w.Barren w' := ⟨[], by simpa using h, by simp⟩

theorem note (w : World α) (p : Bool) {e : Event α} (he : e.isBarren = true) :
    w.Barren (w.note p e) := ⟨[e], events_note w p e, by simpa using he⟩

theorem trans (h : w.Barren w') (h' : w'.Barren w'') : w.Barren w'' := by
  obtain ⟨es, he, hb⟩ := h
  obtain ⟨es', he', hb'⟩ := h'
  refine ⟨es ++ es', by rw [he', he, List.append_assoc], fun e hmem => ?_⟩
  exact (List.mem_append.mp hmem).elim (hb e) (hb' e)

theorem accepted (h : w.Barren w') (id : WatcherId) : w'.accepted id = w.accepted id := by
  obtain ⟨es, he, hb⟩ := h
  unfold World.accepted Event.accepted
  rw [he, List.filterMap_append, List.filterMap_eq_nil_iff.mpr fun e hmem =>
    Event.acceptance?_of_isBarren (hb e hmem) id, List.append_nil]

theorem outcomes (h : w.Barren w') (c : WatcherId) :
    w'.outcomes c = w.outcomes c := by
  obtain ⟨es, he, hb⟩ := h
  unfold World.outcomes Event.outcomes
  rw [he, List.filterMap_append, List.filterMap_eq_nil_iff.mpr fun e hmem =>
    Event.outcome?_of_isBarren (hb e hmem) c, List.append_nil]

theorem handOver (w : World α) (p : Bool) (t : Task α) : w.Barren (w.handOver p t) :=
  ⟨[.handedOver t], events_handOver w p t, by simp [Event.isBarren]⟩

theorem dispatches {stk stk' : List (Frame α)} {t : Task α} (h : w.Dispatches stk t w' stk') :
    w.Barren w' := by
  cases h with
  | spread p todo hr ha => exact handOver w p _
  | replay p todo hb hcl hl hj hreg =>
    exact (of_events_eq (by rw [events_enrol, hj.events_eq])).trans (handOver _ p _)

theorem takes {stk stk' : List (Frame α)} {t : Task α} (h : w.Takes stk t w' stk') :
    w.Barren w' := by
  cases h with
  | dispatched hd => exact dispatches hd
  | drained => exact of_events_eq rfl
  | picked => exact of_events_eq rfl

theorem ran {t : Task α} {frames : List (Frame α)} (h : w.Ran t w' frames) : w.Barren w' := by
  cases h with
  | inactive p => exact note w p rfl
  | stale p q => exact (note w p rfl).trans (note _ q rfl)
  | called p q =>
    exact ((note w p rfl).trans (of_events_eq (events_tell _ t))).trans (note _ q rfl)

theorem detaches {id : WatcherId} {message : String → Diagnostic} (h : w.Detaches id message w') :
    w.Barren w' := by
  rcases h.events_eq with heq | ⟨name, parent, heq⟩
  · exact of_events_eq heq
  · exact ⟨_, heq, by simp [Event.isBarren]⟩

theorem rebuffs [BEq α] {id : WatcherId} {b : Watcher α} {s : Latest α} {reception : Reception}
    (h : w.Rebuffs id b s reception w') : w.Barren w' := by
  cases h with
  | closed p hcl => exact note w p rfl
  | refused p q name hcl hr => exact (note w p rfl).trans (note _ q rfl)

end Barren

/-- Accepting a state is no application. -/
theorem outcomes_adopt (w : World α) (p q : Bool) (name : String) (id : WatcherId)
    (b : Watcher α) (s : Latest α) (c : WatcherId) :
    (w.adopt p q name id b s).outcomes c = w.outcomes c := by
  have hoffer : ((w.note p (.offered id s .accepted)).modify id (·.accept s)).outcomes c =
      w.outcomes c := by
    unfold outcomes Event.outcomes
    rw [events_modify, events_note, List.filterMap_append]
    exact List.append_nil _
  unfold adopt
  simp only
  split
  · exact ((Barren.note _ q rfl).outcomes c).trans hoffer
  · exact hoffer

end World

/-! ## Applications under way -/

namespace Frame

/-- The state to which the transformation of a child is being applied. -/
def applied? (c : WatcherId) : Frame α → Option (Latest α)
  | applying j s => if j = c then some s else none
  | _ => none

/-- The states to which the transformation of a child is being applied. -/
def underway (c : WatcherId) (stk : List (Frame α)) : List (Latest α) := stk.filterMap (applied? c)

theorem underway_cons {f : Frame α} (h : ∀ c s, f ≠ applying c s) (c : WatcherId)
    (stk : List (Frame α)) : underway c (f :: stk) = underway c stk := by
  cases f with
  | applying j s => exact absurd rfl (h j s)
  | _ => rfl

theorem underway_applying (j c : WatcherId) (s : Latest α) (stk : List (Frame α)) :
    underway c (applying j s :: stk) = (if j = c then [s] else []) ++ underway c stk := by
  unfold underway
  rw [List.filterMap_cons]
  by_cases h : j = c <;> simp [applied?, h]

theorem underway_append (c : WatcherId) (fs stk : List (Frame α)) :
    underway c (fs ++ stk) = underway c fs ++ underway c stk := List.filterMap_append

/-- Where transformations carry out no operations, all applications under way are on top. -/
theorem underway_eq_nil {w : World α} (hp : w.Passive) {stk : List (Frame α)}
    (hs : w.Stacked stk) (h : applying? stk = none) (c : WatcherId) : underway c stk = [] := by
  induction stk with
  | nil => rfl
  | cons f stk ih =>
    have hf : ∀ j s, f ≠ applying j s := by
      rintro j s rfl
      obtain ⟨t, rest, rfl, -⟩ := hs.1
      exact nomatch h
    rw [underway_cons hf]
    exact ih hs.2 ((applying?_cons hp hs hf).symm.trans h)

end Frame

open WatchTree.Frame (underway)

namespace Machine

/-- Only a root may have accepted something, and no application has ended; or a panic has taken off
a frame. -/
structure Idles (m m' : Machine α) : Prop where
  accepted : ∀ c, ¬ m.world.IsRoot c → m'.world.accepted c = m.world.accepted c
  outcomes : ∀ c, m'.world.outcomes c = m.world.outcomes c
  underway : (∀ c, underway c m'.stack = underway c m.stack) ∨
    ∃ f payload, m.control = .unwind payload ∧ m.stack = f :: m'.stack

/-- The application of a child's transformation on top has ended with this outcome: a value is
accepted by an open child that has no equal value. -/
structure Concludes [BEq α] (m : Machine α) (c : WatcherId) (s : Latest α) (outcome : Outcome α)
    (m' : Machine α) : Prop where
  origin : ∃ p l d, m.world.origin? c = some (.child p l d) ∧
    (m.control.Calm ∧ outcome = d.apply s.value ∨
      ∃ payload, m.control = .unwind payload ∧ outcome = .panicked payload)
  outcomes : ∀ j, m'.world.outcomes j =
    m.world.outcomes j ++ if c = j then [(s.revision, outcome)] else []
  accepted : m.world.isClosed c = false → m'.world.accepted c =
    (outcome.state? s.revision).elim (m.world.accepted c) (Latest.retain (m.world.accepted c))
  others : ∀ j, c ≠ j → m'.world.accepted j = m.world.accepted j
  stack : ∃ rest, m.stack = .applying c s :: rest ∧ ∀ j, underway j m'.stack = underway j rest

theorem Idles.of_barren {m m' : Machine α} (h : m.world.Barren m'.world)
    (hs : ∀ c, Frame.underway c m'.stack = Frame.underway c m.stack) : m.Idles m' :=
  ⟨fun c _ => h.accepted c, h.outcomes, .inl hs⟩

end Machine

section Moves

variable [BEq α] {P : Machine α → Prop} {m m' : Machine α}

/-- An open child takes a state just as `Latest.retain` does. -/
theorem World.Ledger.retain_of_rebuffs {w w₁ w' : World α} (hw : w.Ledger) {c p : WatcherId}
    {b : Watcher α} {l : ListenerId} {d : Derivation α} {s : Latest α} {reception : Reception}
    (hb : w.watcher? c = some b) (ho : b.origin = .child p l d) (h : w₁.Rebuffs c b s reception w')
    (hcl : w.isClosed c = false) : Latest.retain (w.accepted c) s = w.accepted c := by
  rw [World.isClosed_of_watcher? hb] at hcl
  cases h with
  | closed q hclosed => exact nomatch hcl.symm.trans hclosed
  | refused q q' name _ hrefuse =>
    unfold Watcher.refusal at hrefuse
    rw [ho] at hrefuse
    cases hlast : b.latest with
    | none =>
      rw [hlast] at hrefuse
      exact nomatch hrefuse
    | some last =>
      rw [hlast] at hrefuse
      have hne : (last.value == s.value) ≠ false := fun hne => by simp [hne] at hrefuse
      refine Latest.retain_of_eq ?_ (eq_true_of_ne_false hne)
      rw [← hw.latest_eq, World.latest?_of_watcher? hb, hlast]

theorem World.Ledger.retain_of_refusal {w : World α} (hw : w.Ledger) {c p : WatcherId}
    {b : Watcher α} {l : ListenerId} {d : Derivation α} {s : Latest α}
    (hb : w.watcher? c = some b) (ho : b.origin = .child p l d) (hr : b.refusal s = none) :
    Latest.retain (w.accepted c) s = w.accepted c ++ [s] := by
  refine Latest.retain_of_ne fun last hlast => ?_
  rw [← hw.latest_eq, World.latest?_of_watcher? hb] at hlast
  unfold Watcher.refusal at hr
  rw [hlast, ho] at hr
  cases he : last.value == s.value with
  | false => rfl
  | true => simp [he] at hr

omit [BEq α] in
theorem Frame.underway_of_isPlain {f : Frame α} (h : f.isPlain = true) (c : WatcherId)
    (stk : List (Frame α)) : underway c (f :: stk) = underway c stk := by
  refine underway_cons (fun j s heq => ?_) c stk
  rw [heq] at h
  exact nomatch h

omit [BEq α] in
theorem Frame.underway_of_isDone {f : Frame α} (h : f.isDone = true) (c : WatcherId)
    (stk : List (Frame α)) : underway c (f :: stk) = underway c stk := by
  refine underway_cons (fun j s heq => ?_) c stk
  rw [heq] at h
  exact nomatch h

/-- A move ends an application, or it does nothing that matters to children. -/
theorem Move.idles_or_concludes (hm : m.WellFormed) (h : Move P m m') :
    m.Idles m' ∨ ∃ c s outcome, m.Concludes c s outcome m' := by
  have hw := hm.ledger
  cases h with
  | unwind hok =>
    exact .inl ⟨fun _ _ => rfl, fun _ => rfl, .inr ⟨_, _, rfl, rfl⟩⟩
  | leave hc hf =>
    exact .inl ⟨fun _ _ => rfl, fun _ => rfl, .inl fun c => (Frame.underway_of_isDone hf c _).symm⟩
  | enter hc hf hs =>
    exact .inl ⟨fun _ _ => rfl, fun _ => rfl, .inl fun c => Frame.underway_of_isPlain hf c _⟩
  | remark p he =>
    exact .inl (.of_barren (.note _ p (Event.isBarren_of_isIdle he)) fun _ => rfl)
  | rename hw hq hh hr =>
    exact .inl (.of_barren (.of_events_eq (World.events_eq_of_history hh)) fun _ => rfl)
  | enlist p waker hb hp => exact .inl (.of_barren (.note _ p rfl) fun _ => rfl)
  | enrol hb hcl hl hj =>
    exact .inl (.of_barren (.of_events_eq (by rw [World.events_enrol, hj.events_eq]))
      fun _ => rfl)
  | reserve hb hcl hj =>
    exact .inl (.of_barren (.of_events_eq (by rw [World.events_reserve, hj.events_eq]))
      fun _ => rfl)
  | unwatch p hr => exact .inl (.of_barren (.note _ p rfl) fun _ => rfl)
  | miss p hr => exact .inl (.of_barren (.note _ p rfl) fun _ => rfl)
  | drop ho hdr hdet =>
    have hdetaches := World.Barren.detaches hdet
    exact .inl (.of_barren hdetaches fun _ => rfl)
  | finish q name hc hdet =>
    exact .inl (.of_barren ((World.Barren.note _ q rfl).trans (.detaches hdet)) fun _ => rfl)
  | wake p hc => exact .inl (.of_barren (.note _ p rfl) fun _ => rfl)
  | rebuff hb ho hr => exact .inl (.of_barren (.rebuffs hr) fun _ => rfl)
  | announce q name hc => exact .inl (.of_barren (.note _ q rfl) fun _ => rfl)
  | @accept w stk c p q name id b s hc hb ho hcl hr hs =>
    refine .inl ⟨fun j hj => ?_, World.outcomes_adopt w p q name id b s, .inl fun _ => rfl⟩
    show (w.adopt p q name id b s).accepted j = _
    rw [World.accepted_adopt, if_neg, List.append_nil]
    rintro rfl
    exact hj (by rw [World.IsRoot, World.origin?_of_watcher? hb, ho])
  | @fail w stk c p q name id parent s l d outcome error ho hout hcomplaint =>
    have hnone : outcome.state? s.revision = none := by
      cases outcome with
      | value y => exact nomatch hcomplaint
      | failed | panicked => rfl
    have hacc : ∀ j, ((w.note p (.applied id s.revision outcome)).note q
        (.logged id name (.transformationFailed s.revision error))).accepted j = w.accepted j :=
      ((World.Alike.note w p (e := .applied id s.revision outcome) rfl).trans
        (.note _ q rfl)).accepted
    exact .inr ⟨id, s, outcome, ⟨parent, l, d, ho, hout⟩,
      fun j => ((World.Barren.note _ q rfl).outcomes j).trans (w.outcomes_note p id _ _ j),
      fun _ => by rw [hnone]; exact hacc id, fun j _ => hacc j, stk, rfl, fun _ => rfl⟩
  | @suppress w w' stk c p id parent b s l d y reception hc hb ho hy hr =>
    have hacc : ∀ j, w'.accepted j = w.accepted j :=
      ((World.Alike.note w p (e := .applied id s.revision (.value y)) rfl).trans
        hr.alike).accepted
    refine .inr ⟨id, s, .value y, ⟨parent, l, d, ?_, .inl ⟨hc, hy.symm⟩⟩, fun j => ?_,
      fun hcl => ?_, fun j _ => hacc j, stk, rfl, fun _ => rfl⟩
    · rw [World.origin?_of_watcher? hb, ho]
    · exact ((World.Barren.rebuffs hr).outcomes j).trans (w.outcomes_note p id _ _ j)
    · exact (hacc id).trans (hw.retain_of_rebuffs hb ho hr hcl).symm
  | @derive w stk c o p q name id parent b s l d y hok hc hb ho hy hcl hr =>
    have hacc : ∀ j, ((w.note o (.applied id s.revision (.value y))).adopt p q name id b
        ⟨s.revision, y⟩).accepted j = w.accepted j ++ if id = j then [⟨s.revision, y⟩] else [] := by
      intro j
      rw [World.accepted_adopt,
        (World.Alike.note w o (e := .applied id s.revision (.value y)) rfl).accepted]
    refine .inr ⟨id, s, .value y, ⟨parent, l, d, ?_, .inl ⟨hc, hy.symm⟩⟩, fun j => ?_,
      fun _ => ?_, fun j hj => ?_, stk, rfl, fun _ => rfl⟩
    · rw [World.origin?_of_watcher? hb, ho]
    · exact (World.outcomes_adopt _ p q name id b _ j).trans
        (w.outcomes_note o id _ _ j)
    · refine (hacc id).trans ?_
      rw [if_pos rfl]
      exact (hw.retain_of_refusal hb ho hr).symm
    · refine (hacc j).trans ?_
      rw [if_neg hj, List.append_nil]
  | defer hc hd hr hi =>
    refine .inl (.of_barren (.dispatches hd) fun c => ?_)
    cases hd <;> rfl
  | _ => exact .inl (.of_barren (.of_events_eq rfl) fun _ => rfl)

omit [BEq α] in
theorem Runs.barren {t : Task α} (h : Runs m t m') : m.world.Barren m'.world := by
  cases h with
  | mk hc ht hr => exact (World.Barren.takes ht).trans (.ran hr)

end Moves

/-! ## What open children have accepted -/

namespace World

/-- Every open child has accepted the values of its transformation, each one that differs from the
value kept before. -/
structure Condensed [BEq α] (w : World α) : Prop where
  unknown : ∀ {c}, w.watcher? c = none → w.outcomes c = []
  accepted : ∀ {c p l d}, w.origin? c = some (.child p l d) → w.isClosed c = false →
    w.accepted c = Latest.distinct (Outcome.states (w.outcomes c))

theorem watcher?_none_of_extends {w w' : World α} (h : w.Extends w') {c : WatcherId}
    (hc : w'.watcher? c = none) : w.watcher? c = none := by
  cases hb : w.watcher? c with
  | none => rfl
  | some b =>
    obtain ⟨b', hb', -⟩ := exists_watcher?_of_origin? (h.origin (origin?_of_watcher? hb))
    exact nomatch hc.symm.trans hb'

theorem Extends.open_of_open {w w' : World α} (h : w.Extends w') {c : WatcherId}
    (hc : w'.isClosed c = false) : w.isClosed c = false := by
  by_contra hne
  rw [h.closed ((Bool.not_eq_false _).mp hne)] at hc
  exact nomatch hc

namespace Condensed

variable [BEq α] {w w' : World α}

theorem initial : ({} : World α).Condensed where
  unknown _ := rfl
  accepted ho := by simp [origin?, watcher?] at ho

theorem keep (h : w.Condensed) (hw : w.Ledger) (hx : w.Extends w')
    (hback : ∀ {c p l d}, w'.origin? c = some (.child p l d) →
      w.origin? c = some (.child p l d) ∨ w.watcher? c = none)
    (haccepted : ∀ c, ¬ w.IsRoot c → w'.accepted c = w.accepted c)
    (houtcomes : ∀ c, w'.outcomes c = w.outcomes c) : w'.Condensed where
  unknown hc := (houtcomes _).trans (h.unknown (watcher?_none_of_extends hx hc))
  accepted {c p l d} ho hcl := by
    rw [houtcomes]
    rcases hback ho with hold | hnone
    · rw [haccepted c fun hroot => nomatch hold.symm.trans hroot]
      exact h.accepted hold (hx.open_of_open hcl)
    · rw [haccepted c fun hroot => ?_, hw.accepted_of_watcher?_none hnone, h.unknown hnone]
      · rfl
      · obtain ⟨b, hb, -⟩ := exists_watcher?_of_origin? hroot
        exact nomatch hnone.symm.trans hb

/-- The application of a child's transformation has ended. -/
theorem conclude {m m' : Machine α} (h : m.world.Condensed) (hx : m.world.Extends m'.world)
    (hback : ∀ {c p l d}, m'.world.origin? c = some (.child p l d) →
      m.world.origin? c = some (.child p l d) ∨ m.world.watcher? c = none)
    (hw : m.world.Ledger) {c : WatcherId} {s : Latest α} {outcome : Outcome α}
    (hc : m.Concludes c s outcome m') : m'.world.Condensed where
  unknown {j} hj := by
    have hnone := watcher?_none_of_extends hx hj
    rw [hc.outcomes, h.unknown hnone, if_neg]
    · rfl
    · rintro rfl
      obtain ⟨p, l, d, ho, -⟩ := hc.origin
      obtain ⟨b, hb, -⟩ := exists_watcher?_of_origin? ho
      exact nomatch hnone.symm.trans hb
  accepted {j p l d} ho hcl := by
    have hopen := hx.open_of_open hcl
    rw [hc.outcomes]
    by_cases hj : c = j
    · subst hj
      obtain ⟨p', l', d', ho', -⟩ := hc.origin
      rw [hc.accepted hopen, h.accepted ho' hopen, if_pos rfl]
      unfold Outcome.states
      rw [List.filterMap_append]
      cases outcome with
      | value y => exact (Latest.distinct_concat _ _).symm
      | failed | panicked => exact congrArg Latest.distinct (List.append_nil _).symm
    · rw [hc.others j hj, if_neg hj, List.append_nil]
      rcases hback ho with hold | hnone
      · exact h.accepted hold hopen
      · rw [hw.accepted_of_watcher?_none hnone, h.unknown hnone]
        rfl

end Condensed

end World

section Condensed

variable [BEq α] {P : Machine α → Prop} {m m' : Machine α}

theorem Move.condensed (hm : m.WellFormed) (h : Move P m m') (hc : m.world.Condensed) :
    m'.world.Condensed := by
  have hx := (hm.move h).2
  have hback := fun {c p l d} => (h.rearranges hm).child_or_new (c := c) (p := p) (l := l) (d := d)
    hm.ledger
  rcases h.idles_or_concludes hm with hidle | ⟨c, s, outcome, hend⟩
  · exact hc.keep hm.ledger hx hback hidle.accepted hidle.outcomes
  · exact hc.conclude hx hback hm.ledger hend

theorem Runs.condensed {t : Task α} (hm : m.WellFormed) (h : Runs m t m')
    (hc : m.world.Condensed) : m'.world.Condensed :=
  hc.keep hm.ledger (hm.runs h).2 (h.child_or_new hm) (fun c _ => h.barren.accepted c)
    h.barren.outcomes

theorem Machine.Reached.condensed (h : m.Reached P) : m.world.Condensed :=
  (h.invariant (I := fun m => m.world.Condensed) .initial (fun hm hc hmove => hmove.condensed hm hc)
    fun hm hc hruns => hruns.condensed hm hc).2

end Condensed

/-! ## What children were called with -/

/-- What a transformation makes of a state: the revision stays, the value is transformed. -/
def Derivation.image (d : Derivation α) (s : Latest α) : Revision × Outcome α :=
  (s.revision, d.apply s.value)

namespace Derivation

variable [BEq α]

/-- What an open child keeps of the states that its subscription is called with. -/
def kept (d : Derivation α) (ss : List (Latest α)) : List (Latest α) :=
  Latest.distinct (Outcome.states (ss.map d.image))

theorem kept_concat (d : Derivation α) (ss : List (Latest α)) (s : Latest α) :
    d.kept (ss ++ [s]) =
      ((d.apply s.value).state? s.revision).elim (d.kept ss) (Latest.retain (d.kept ss)) := by
  unfold kept Outcome.states
  rw [List.map_append, List.filterMap_append]
  cases hy : (d.apply s.value).state? s.revision with
  | none => simp [image, hy]
  | some x => simp [image, hy, Latest.distinct_concat]

end Derivation

/-- Each call of a child's subscription has been answered by an application of its transformation,
or the application is under way. -/
def Machine.Answered (m : Machine α) : Prop :=
  ∀ c p l d, m.world.origin? c = some (.child p l d) →
    (m.world.callsTo p l).map (fun t => d.image t.state) =
      m.world.outcomes c ++ (underway c m.stack).map d.image

/-- A transformation that is being applied belongs to a child that there is. -/
theorem World.Stacked.underway_eq_nil {w : World α} {stk : List (Frame α)} (hs : w.Stacked stk)
    {c : WatcherId} (hc : w.watcher? c = none) : underway c stk = [] := by
  induction stk with
  | nil => rfl
  | cons f stk ih =>
    cases f with
    | applying j s =>
      rw [Frame.underway_applying, if_neg, ih hs.2]
      · rfl
      · rintro rfl
        obtain ⟨⟨t, rest, rfl, -, d, ho⟩, -⟩ := hs
        obtain ⟨b, hb, -⟩ := World.exists_watcher?_of_origin? ho
        exact nomatch hc.symm.trans hb
    | _ => exact ih hs.2

/-- The subscription of a new child is new. -/
theorem World.Extends.registration?_of_new {w w' : World α} (hx : w.Extends w') (hw : w.Ledger)
    (hw' : w'.Ledger) {c p : WatcherId} {l : ListenerId} {d : Derivation α}
    (hc : w.watcher? c = none) (ho : w'.origin? c = some (.child p l d)) :
    w.registration? p l = none := by
  cases hr : w.registration? p l with
  | none => rfl
  | some r =>
    obtain ⟨r', hr', hprec⟩ := hx.registration hr
    have hl := (hw'.subscription ho hr').1
    rw [hprec.listener] at hl
    obtain ⟨d', ho'⟩ := hw.fed hr hl
    obtain ⟨b, hb, -⟩ := World.exists_watcher?_of_origin? ho'
    exact nomatch hc.symm.trans hb

namespace Machine.Answered

theorem initial : Answered ({ world := {} } : Machine α) := by
  intro c p l d ho
  simp [World.origin?, World.watcher?] at ho

/-- As long as nobody is called and no application begins or ends. -/
theorem keep [BEq α] {m m' : Machine α} (h : m.Answered) (hm : m.WellFormed)
    (hd : m.world.Deliveries) (hk : m.world.Condensed) (hw : m'.world.Ledger)
    (hx : m.world.Extends m'.world)
    (hback : ∀ {c p l d}, m'.world.origin? c = some (.child p l d) →
      m.world.origin? c = some (.child p l d) ∨ m.world.watcher? c = none)
    (hcalls : ∀ id l, m'.world.callsTo id l = m.world.callsTo id l)
    (houtcomes : ∀ c, m'.world.outcomes c = m.world.outcomes c)
    (hunderway : ∀ c, underway c m'.stack = underway c m.stack) : m'.Answered := by
  intro c p l d ho
  rw [hcalls, houtcomes, hunderway]
  rcases hback ho with hold | hnone
  · exact h c p l d hold
  · rw [hd.callsTo_eq_nil hm.ledger (hx.registration?_of_new hm.ledger hw hnone ho),
      hk.unknown hnone, hm.stacked.underway_eq_nil hnone]
    rfl

end Machine.Answered

section Answered

variable [BEq α] {P : Machine α → Prop} {m m' : Machine α}

theorem Move.answered (hm : m.WellFormed) (hp : m.world.Passive) (hd : m.world.Deliveries)
    (hk : m.world.Condensed) (hv : m.Derived) (h : Move P m m') (ha : m.Answered) :
    m'.Answered := by
  obtain ⟨hm', hx⟩ := hm.move h
  have hchanges := h.rearranges hm
  have hback := fun {c p l d} => hchanges.child_or_new (c := c) (p := p) (l := l) (d := d) hm.ledger
  have hcalls := hchanges.untried.callsTo
  rcases h.idles_or_concludes hm with hidle | ⟨c, s, outcome, hend⟩
  · refine ha.keep hm hd hk hm'.ledger hx hback hcalls hidle.outcomes ?_
    rcases hidle.underway with hsame | ⟨f, payload, hctl, hstk⟩
    · exact hsame
    · -- A panic never takes off an application.
      intro c
      have hnone := Frame.underway_eq_nil hp hm.stacked (hv.guarded payload hctl) c
      rw [hnone]
      rw [hstk] at hnone
      unfold underway at hnone ⊢
      rw [List.filterMap_eq_nil_iff] at hnone ⊢
      exact fun g hg => hnone g (List.mem_cons_of_mem _ hg)
  · obtain ⟨p, l, d, ho, hout⟩ := hend.origin
    obtain ⟨rest, hstk, hrest⟩ := hend.stack
    have hstacked := hm.stacked
    rw [hstk] at hstacked
    obtain ⟨⟨t, rest', rfl, -⟩, hbelow⟩ := hstacked
    have hnone := Frame.underway_eq_nil hp hbelow rfl
    have houtcome : (s.revision, outcome) = d.image s := by
      rcases hout with ⟨-, rfl⟩ | ⟨payload, hctl, -⟩
      · rfl
      · have hguard := hv.guarded payload hctl
        rw [hstk] at hguard
        exact nomatch hguard
    intro j p' l' d' ho'
    rw [hcalls, hrest, hnone, hend.outcomes]
    rcases hback ho' with hold | hnew
    · have hbefore := ha j p' l' d' hold
      rw [hstk, Frame.underway_applying, hnone] at hbefore
      rw [hbefore]
      by_cases hj : c = j
      · subst hj
        obtain ⟨-, -, rfl⟩ := Origin.child.inj (Option.some.inj (ho.symm.trans hold))
        rw [if_pos rfl, if_pos rfl, houtcome]
        simp
      · rw [if_neg hj, if_neg hj]
        simp
    · have hj : c ≠ j := by
        rintro rfl
        obtain ⟨b, hb, -⟩ := World.exists_watcher?_of_origin? ho
        exact nomatch hnew.symm.trans hb
      rw [hd.callsTo_eq_nil hm.ledger (hx.registration?_of_new hm.ledger hm'.ledger hnew ho'),
        hk.unknown hnew, if_neg hj]
      rfl

omit [BEq α] in
/-- A call of a subscription begins an application. -/
theorem World.Ran.answered {w w' : World α} {t : Task α} {frames stk : List (Frame α)}
    {c c' : Control α} (hw : w.Ledger) (hnone : ∀ j, underway j stk = [])
    (h : w.Ran t w' frames) (ha : Machine.Answered ⟨w, stk, c⟩) :
    Machine.Answered ⟨w', frames ++ stk, c'⟩ := by
  have houtcomes := (World.Barren.ran h).outcomes
  intro j p l d ho
  show (w'.callsTo p l).map (fun t => d.image t.state) =
    w'.outcomes j ++ (underway j (frames ++ stk)).map d.image
  rw [houtcomes]
  cases h with
  | inactive q =>
    rw [World.callsTo_note w q rfl]
    exact ha j p l d ho
  | stale q q' =>
    rw [World.callsTo_note _ q' rfl, World.callsTo_note w q rfl]
    exact ha j p l d ho
  | called q q' elsewhere hr hactive hn hc =>
    rw [World.origin?_note, World.origin?_tell, World.origin?_note] at ho
    have hbefore := ha j p l d ho
    change (w.callsTo p l).map (fun t => d.image t.state) =
      w.outcomes j ++ (underway j stk).map d.image at hbefore
    rw [World.callsTo_call, List.map_append, hbefore, hnone]
    rw [Frame.underway_append, hnone, List.append_nil, List.map_nil, List.append_nil]
    cases hc with
    | observer hl =>
      rw [if_neg]
      · rfl
      · rintro ⟨rfl, rfl⟩
        exact nomatch hl.symm.trans (hw.subscription ho hr).1
    | @child child d' hl ho' =>
      rw [Frame.underway_cons (by simp), Frame.underway_applying]
      congr 1
      by_cases hj : child = j
      · subst hj
        obtain ⟨rfl, rfl, rfl⟩ := Origin.child.inj (Option.some.inj (ho'.symm.trans ho))
        rw [if_pos t.isFor_self, if_pos rfl]
        rfl
      · rw [if_neg hj, if_neg]
        · rfl
        · rintro ⟨rfl, rfl⟩
          exact hj (Listener.subscription.inj (hl.symm.trans (hw.subscription ho hr).1))

theorem Runs.answered {t : Task α} (hm : m.WellFormed) (hp : m.world.Passive)
    (hd : m.world.Deliveries) (hk : m.world.Condensed) (h : Runs m t m') (ha : m.Answered) :
    m'.Answered := by
  cases h with
  | @mk w w' w'' stk stk' frames c t hc ht hran =>
    obtain ⟨hchanges, -⟩ := ht.rearranges hm.ledger hm.stacked
    obtain ⟨hledger, hx⟩ := hm.ledger.rearranges hchanges
    have hunderway : ∀ j, underway j stk' = underway j stk := by
      intro j
      cases ht with
      | dispatched hd => cases hd <;> rfl
      | drained => rfl
      | picked => rfl
    have htaken : Machine.Answered ⟨w', stk', .proceed⟩ :=
      ha.keep hm hd hk hledger hx (hchanges.child_or_new hm.ledger) hchanges.untried.callsTo
        (World.Barren.takes ht).outcomes hunderway
    refine hran.answered hledger (fun j => ?_) htaken
    rw [hunderway]
    exact Frame.underway_eq_nil hp hm.stacked ht.applying?_eq j

theorem Machine.Reached.answered (h : m.Reached P) (hp : m.world.Passive) : m.Answered := by
  refine ((h.invariant_of_deliveries
    (I := fun m => m.world.Condensed ∧ (m.world.Passive → m.Derived ∧ m.Answered))
    ⟨.initial, fun _ => ⟨.initial, .initial⟩⟩ ?_ ?_).2.2 hp).2
  · rintro m m' hm hd ⟨hk, hI⟩ hstep
    refine ⟨hstep.condensed hm hk, fun hp => ?_⟩
    have hbefore : m.world.Passive := hp.of_extends (hm.move hstep).2
    obtain ⟨hderived, hanswered⟩ := hI hbefore
    exact ⟨hderived.move hm hbefore hd hstep, hstep.answered hm hbefore hd hk hderived hanswered⟩
  · rintro m t m' hm hd ⟨hk, hI⟩ hr
    refine ⟨hr.condensed hm hk, fun hp => ?_⟩
    have hbefore : m.world.Passive := hp.of_extends (hm.runs hr).2
    obtain ⟨hderived, hanswered⟩ := hI hbefore
    exact ⟨hderived.runs hm hd hr, hr.answered hm hbefore hd hk hanswered⟩

/-- Where transformations carry out no operations, an open child has accepted what its own makes of
the states that its subscription was called with, when nothing is under way: the values, each one
that differs from the value kept before. -/
theorem Machine.Reached.accepted_eq (h : m.Reached P) (hp : m.world.Passive) (hs : m.stack = [])
    {c p : WatcherId} {l : ListenerId} {d : Derivation α}
    (ho : m.world.origin? c = some (.child p l d)) (hcl : m.world.isClosed c = false) :
    m.world.accepted c = d.kept ((m.world.callsTo p l).map Task.state) := by
  have hanswered := h.answered hp c p l d ho
  rw [hs, show underway c ([] : List (Frame α)) = [] from rfl, List.map_nil,
    List.append_nil] at hanswered
  unfold Derivation.kept
  rw [h.condensed.accepted ho hcl, ← hanswered, List.map_map]
  rfl

end Answered

end WatchTree
