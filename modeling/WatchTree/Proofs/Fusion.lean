import Mathlib.Data.List.Induction
import WatchTree.Proofs.Additions
import WatchTree.Proofs.Derivations
import WatchTree.Proofs.FirstValue
import WatchTree.Proofs.Subscriptions

/-!
# Fusion of derived watchers

A child of a child and a child of the root whose transformation does both at once accept the same
states, although the watcher in between suppresses equal values and keeps its value on failure.

1. `Derivation.Fuses.kept_eq`: they keep the same of the same states.
2. `Machine.Later.accepted_of_new`: a new child is told the latest state of its parent and all that
   follow.
3. `Machine.Fusion`: so, if they are created with nothing new at the root in between, they are told
   of the same states of the root, the one by way of the watcher in between.
-/

namespace WatchTree

variable {α : Type}

/-! ## One transformation after the other -/

namespace Outcome

/-- What becomes of it in a further transformation: an error or a panic stays what it is. -/
def andThen (x : Outcome α) (g : α → Outcome α) : Outcome α :=
  match x with
  | value y => g y
  | failed error => failed error
  | panicked payload => panicked payload

/-- Both are values, and equal, or neither is a value. -/
def Same [BEq α] : Outcome α → Outcome α → Prop
  | value y, value z => (y == z) = true
  | value _, _ | _, value _ => False
  | _, _ => True

end Outcome

/-- The last of the states that remain has the value of the newest state, or an equal one. -/
theorem Latest.exists_getLast?_retain [BEq α] (kept : List (Latest α)) (s : Latest α) :
    ∃ v, (retain kept s).getLast? = some v ∧ (v.value = s.value ∨ (v.value == s.value) = true) := by
  by_cases h : ∃ last, kept.getLast? = some last ∧ (last.value == s.value) = true
  · obtain ⟨last, hlast, he⟩ := h
    exact ⟨last, by rw [retain_of_eq hlast he, hlast], .inr he⟩
  · rw [retain_of_ne fun last hlast => (Bool.not_eq_true _).mp fun he => h ⟨last, hlast, he⟩]
    exact ⟨s, List.getLast?_concat, .inl rfl⟩

theorem Latest.length_retain_le [BEq α] (kept : List (Latest α)) (s : Latest α) :
    (retain kept s).length ≤ kept.length + 1 := by
  unfold retain
  split
  · split
    · exact Nat.le_succ _
    · exact Nat.le_of_eq List.length_append
  · exact Nat.le_of_eq List.length_append

namespace Derivation

variable [BEq α]

/-- The transformation `h` does what `f` and then `g` does, which makes of equal values equal ones
or fails for both. -/
structure Fuses (f g h : Derivation α) : Prop where
  apply : ∀ x, h.apply x = (f.apply x).andThen g.apply
  respects : ∀ x y, (x == y) = true → (g.apply x).Same (g.apply y)

/-- If the newest state gives a value, the last one kept has it, or an equal one. -/
theorem exists_getLast?_kept (g : Derivation α) {ss : List (Latest α)} {s : Latest α}
    (hs : ss.getLast? = some s) {z : α} (hz : g.apply s.value = .value z) :
    ∃ v, (g.kept ss).getLast? = some v ∧ (v.value = z ∨ (v.value == z) = true) := by
  obtain ⟨ss, rfl⟩ := List.getLast?_eq_some_iff.mp hs
  rw [g.kept_concat, hz]
  exact Latest.exists_getLast?_retain (g.kept ss) ⟨s.revision, z⟩

/-- What is kept of what is kept of the states is what the fused transformation keeps of them. -/
theorem Fuses.kept_eq [PartialEquivBEq α] {f g h : Derivation α} (hf : Fuses f g h)
    (ss : List (Latest α)) : g.kept (f.kept ss) = h.kept ss := by
  induction ss using List.reverseRecOn with
  | nil => rfl
  | append_singleton ss s ih =>
    rw [h.kept_concat, f.kept_concat, hf.apply]
    cases hy : f.apply s.value with
    | failed | panicked => exact ih
    | value y =>
      show g.kept (Latest.retain (f.kept ss) ⟨s.revision, y⟩) =
        ((g.apply y).state? s.revision).elim (h.kept ss) (Latest.retain (h.kept ss))
      by_cases hequal : ∃ last, (f.kept ss).getLast? = some last ∧ (last.value == y) = true
      · -- The value in between is suppressed: what `g` makes of it is equal to what is there.
        obtain ⟨last, hlast, he⟩ := hequal
        rw [Latest.retain_of_eq hlast he, ih]
        have hsame := hf.respects _ _ he
        cases hz : g.apply y with
        | failed | panicked => rfl
        | value z =>
          rw [hz] at hsame
          cases hz' : g.apply last.value with
          | failed | panicked =>
            rw [hz'] at hsame
            exact hsame.elim
          | value z' =>
            rw [hz'] at hsame
            obtain ⟨v, hv, hvalue⟩ := g.exists_getLast?_kept hlast hz'
            rw [ih] at hv
            refine (Latest.retain_of_eq hv ?_).symm
            rcases hvalue with hvalue | hvalue
            · rw [hvalue]
              exact hsame
            · exact PartialEquivBEq.trans hvalue hsame
      · rw [Latest.retain_of_ne fun last hlast => (Bool.not_eq_true _).mp fun he =>
          hequal ⟨last, hlast, he⟩, g.kept_concat, ih]

/-- No more is kept than there was. -/
theorem length_kept_le (d : Derivation α) (ss : List (Latest α)) :
    (d.kept ss).length ≤ ss.length := by
  induction ss using List.reverseRecOn with
  | nil => exact Nat.le_refl 0
  | append_singleton ss s ih =>
    rw [d.kept_concat, List.length_append, List.length_singleton]
    cases (d.apply s.value).state? s.revision with
    | none => exact Nat.le_succ_of_le ih
    | some x => exact Nat.le_trans (Latest.length_retain_le _ _) (Nat.succ_le_succ ih)

end Derivation

namespace World

/-- A child whose subscription is in the registry of its parent. -/
def Subscribed (w : World α) (c : WatcherId) : Prop :=
  ∃ p l d, w.origin? c = some (.child p l d) ∧ w.isRegistered p l = true

theorem Subscribed.sameSubscriptions {w w' : World α} {c : WatcherId} (h : w.Subscribed c)
    (hs : w.SameSubscriptions w') : w'.Subscribed c := by
  obtain ⟨p, l, d, ho, hreg⟩ := h
  exact ⟨p, l, d, (hs.origin c).trans ho, (hs.registered ho).trans hreg⟩

/-- The subscription of a child is active, and it is called at once. -/
theorem Subscribed.registration {w : World α} (hw : w.Ledger) {c p : WatcherId} {l : ListenerId}
    {d : Derivation α} (h : w.Subscribed c) (ho : w.origin? c = some (.child p l d)) :
    ∃ r, w.registration? p l = some r ∧ r.active = true ∧
      r.executor.disposal.isImmediate = true := by
  obtain ⟨p', l', d', ho', hreg⟩ := h
  obtain ⟨rfl, rfl, -⟩ := Origin.child.inj (Option.some.inj (ho'.symm.trans ho))
  obtain ⟨r, hr, ha⟩ := (isRegistered_iff hw.sound p' l').mp hreg
  exact ⟨r, hr, ha, by rw [(hw.subscription ho hr).2]; rfl⟩

theorem updates_of_watcher?_none {w : World α} {id : WatcherId} (h : w.watcher? id = none) :
    w.updates id = 0 := by
  unfold updates
  rw [h]
  rfl

end World

/-! ## Tasks of equal updates -/

/-- Which tasks are maxima depends only on the numbers of their updates. -/
theorem Task.updates_maximaAfter {ts us : List (Task α)} (h : ts.map update = us.map update) :
    ∀ {before before' : List (Task α)}, before.map update = before'.map update →
      (maximaAfter before ts).map update = (maximaAfter before' us).map update := by
  induction ts generalizing us with
  | nil =>
    intro before before' _
    obtain rfl := List.map_eq_nil_iff.mp h.symm
    rfl
  | cons t ts ih =>
    intro before before' hb
    cases us with
    | nil => exact nomatch h
    | cons u us =>
      obtain ⟨htu, hrest⟩ := List.cons.inj h
      have hiff : (∀ b ∈ before, b.update < t.update) ↔ ∀ b ∈ before', b.update < u.update := by
        rw [htu, ← List.forall_mem_map (f := update) (P := (· < u.update)), hb,
          List.forall_mem_map]
      have hbefore : (before ++ [t]).map update = (before' ++ [u]).map update := by simp [hb, htu]
      have hnext := ih hrest hbefore
      rw [maximaAfter, maximaAfter]
      by_cases hnew : ∀ b ∈ before, b.update < t.update
      · rw [if_pos hnew, if_pos (hiff.mp hnew), List.map_cons, List.map_cons, htu, hnext]
      · rw [if_neg hnew, if_neg (mt hiff.mpr hnew), hnext]

/-- Listeners of two watchers that accepted the same states see the same invocations, if tasks of
the same updates are run for them. -/
theorem World.Deliveries.states_eq {w : World α} (hd : w.Deliveries) (hw : w.Ledger)
    {b c : WatcherId} (hsame : w.accepted b = w.accepted c) {l l' : ListenerId}
    (hruns : (Event.runsOf b l w.events).map Task.update =
      (Event.runsOf c l' w.events).map Task.update) :
    (w.callsTo b l).map Task.state = (w.callsTo c l').map Task.state := by
  have hupdates : (w.callsTo b l).map Task.update = (w.callsTo c l').map Task.update := by
    rw [hd.maxima, hd.maxima]
    exact Task.updates_maximaAfter hruns rfl
  have hstates : ∀ id k, (w.callsTo id k).map (fun t => some t.state) =
      ((w.callsTo id k).map Task.update).map fun n => (w.accepted id)[n - 1]? := by
    intro id k
    rw [List.map_map]
    refine List.map_congr_left fun t ht => ?_
    obtain ⟨i, hi, hstate⟩ := hd.genuine_of_called hw ht
    show some t.state = (w.accepted id)[t.update - 1]?
    rw [hi, Nat.add_sub_cancel, hstate]
  have hsome : ((w.callsTo b l).map Task.state).map some =
      ((w.callsTo c l').map Task.state).map some := by
    rw [List.map_map, List.map_map]
    refine (hstates b l).trans ?_
    rw [hsame, hupdates]
    exact (hstates c l').symm
  exact (List.map_inj_right fun _ _ => Option.some.inj).mp hsome

/-! ## Children of a run -/

namespace Machine

section Children

variable [BEq α] {P : Machine α → Prop} {m₀ m₁ m : Machine α}

/-- A child that was created with nothing new at its parent has accepted, when nothing is under way,
what its transformation keeps of the states of the parent: the latest there was, and all since. -/
theorem Later.accepted_of_new (hP : ∀ m, P m → m.calm = true ∧ m.passive = true)
    (h₀ : m₀.Reached P) (h₁ : m₀.Later P m₁) (h : m₁.Later P m) (hs : m.stack = [])
    (hp : m.world.Passive) {c p : WatcherId} {l : ListenerId} {d : Derivation α}
    (hnew : m₀.world.watcher? c = none) (ho : m₁.world.origin? c = some (.child p l d))
    (hsub₁ : m₁.world.Subscribed c) (hsub : m.world.Subscribed c) (hcl : m.world.isClosed c = false)
    (hsame : m₁.world.updates p ≤ max (m₀.world.updates p) 1) :
    m.world.accepted c =
      d.kept ((m.world.accepted p).drop (max (m₀.world.updates p) 1 - 1)) := by
  have hreach₁ := h₀.later h₁
  have hreach := hreach₁.later h
  have hw₁ := hreach₁.wellFormed.ledger
  have hx := h.extends_world hreach₁.wellFormed
  have hnone :=
    (h₁.extends_world h₀.wellFormed).registration?_of_new h₀.wellFormed.ledger hw₁ hnew ho
  obtain ⟨r₁, hr₁, -⟩ := hsub₁.registration hw₁ ho
  obtain ⟨r, hr, ha, hi⟩ := hsub.registration hreach.wellFormed.ledger (hx.origin ho)
  rw [hreach.accepted_eq hp hs (hx.origin ho) hcl,
    h₁.states_of_new hP h₀ hnone ⟨r₁, hr₁⟩ hsame h hs hr ha hi]

end Children

/-- No executor and no waker panics, and callbacks operate on no watcher. -/
def undisturbed (m : Machine α) : Bool := m.calm && m.aloof

theorem aloof_of_undisturbed (m : Machine α) (h : m.undisturbed = true) : m.aloof = true :=
  (Bool.and_eq_true_iff.mp h).2

theorem calm_and_passive_of_undisturbed (m : Machine α) (h : m.undisturbed = true) :
    m.calm = true ∧ m.passive = true :=
  ⟨(Bool.and_eq_true_iff.mp h).1, passive_of_aloof (m.aloof_of_undisturbed h)⟩

section Fusion

variable [BEq α] {m₀ m₁ m : Machine α} {r a b c : WatcherId} {f g h : Derivation α}

/-- Between two machines of an undisturbed run there came to be a child `a` of `r`, its child `b`
and a further child `c` of `r` that does at once what the two do, while `r` accepted nothing. All
three are open, and unless the root was closed they are subscribed. -/
structure Fusion (m₀ m₁ : Machine α) (r a b c : WatcherId) (f g h : Derivation α) : Prop where
  reached : m₀.Reached (·.undisturbed = true)
  later : m₀.Later (·.undisturbed = true) m₁
  quiet : m₁.stack = []
  new : ∀ x ∈ [a, b, c], m₀.world.watcher? x = none
  inner : ∃ l, m₁.world.origin? a = some (.child r l f)
  outer : ∃ l, m₁.world.origin? b = some (.child a l g)
  direct : ∃ l, m₁.world.origin? c = some (.child r l h)
  unclosed : ∀ x ∈ [a, b, c], m₁.world.isClosed x = false
  subscribed : m₀.world.isClosed r = false → ∀ x ∈ [a, b, c], m₁.world.Subscribed x
  same : m₁.world.accepted r = m₀.world.accepted r
  fuses : Derivation.Fuses f g h

namespace Fusion

/-- The states of the root that its children are told, if it is not closed: the latest there was,
and all since. -/
def told (m₀ m : Machine α) (r : WatcherId) : List (Latest α) :=
  if m₀.world.isClosed r then [] else (m.world.accepted r).drop (max (m₀.world.updates r) 1 - 1)

omit [BEq α] in
theorem told_eq {m₂ m₃ : Machine α} (h : m₃.world.accepted r = m₂.world.accepted r) :
    told m₀ m₃ r = told m₀ m₂ r := by
  unfold told
  rw [h]

variable (hf : Fusion m₀ m₁ r a b c f g h)

include hf

theorem reached₁ : m₁.Reached (·.undisturbed = true) := hf.reached.later hf.later

theorem updates_eq_zero {x : WatcherId} (hx : x ∈ [a, b, c]) : m₀.world.updates x = 0 :=
  World.updates_of_watcher?_none (hf.new x hx)

/-- At most one state was told as long as the root has accepted nothing new. -/
theorem length_told_le (hsame : m.world.accepted r = m₀.world.accepted r) :
    (told m₀ m r).length ≤ 1 := by
  unfold told
  split
  · exact Nat.zero_le 1
  · rw [List.length_drop, hsame, ← hf.reached.wellFormed.ledger.updates_eq]
    omega

variable (hadd : m₁.Additive (·.undisturbed = true) m)

include hadd

theorem sameSubscriptions : m₁.world.SameSubscriptions m.world :=
  hadd.sameSubscriptions hf.reached₁ aloof_of_undisturbed hf.quiet

theorem isClosed_eq {x : WatcherId} (hx : x ∈ [a, b, c]) : m.world.isClosed x = false :=
  ((hf.sameSubscriptions hadd).closed x).trans (hf.unclosed x hx)

variable (hs : m.stack = []) (hp : m.world.Passive) {x p : WatcherId} {l : ListenerId}
  {d : Derivation α} (hx : x ∈ [a, b, c]) (ho : m₁.world.origin? x = some (.child p l d))

include hs hp hx ho

theorem accepted_of_subscribed (hsub : m₁.world.Subscribed x)
    (hsame : m₁.world.updates p ≤ max (m₀.world.updates p) 1) :
    m.world.accepted x = d.kept ((m.world.accepted p).drop (max (m₀.world.updates p) 1 - 1)) :=
  hf.later.accepted_of_new calm_and_passive_of_undisturbed hf.reached hadd.later hs hp
    (hf.new x hx) ho hsub (hsub.sameSubscriptions (hf.sameSubscriptions hadd))
    (hf.isClosed_eq hadd hx) hsame

theorem accepted_of_uncalled (hcalls : m.world.callsTo p l = []) :
    m.world.accepted x = d.kept [] := by
  have hx' := hadd.later.extends_world hf.reached₁.wellFormed
  rw [(hf.reached₁.later hadd.later).accepted_eq hp hs (hx'.origin ho) (hf.isClosed_eq hadd hx),
    hcalls]
  rfl

omit ho in
/-- A child of the root keeps what it makes of the states that it is told. -/
theorem accepted_of_root (ho : m₁.world.origin? x = some (.child r l d)) :
    m.world.accepted x = d.kept (told m₀ m r) := by
  have hw₀ := hf.reached.wellFormed
  have hw₁ := hf.reached₁.wellFormed.ledger
  by_cases hcl : m₀.world.isClosed r = true
  · have hnone := (hf.later.extends_world hw₀).registration?_of_new hw₀.ledger hw₁ (hf.new x hx) ho
    have hcalls : m.world.callsTo r l = [] := by
      rw [(hf.later.trans hadd.later).callsTo_eq hw₀ hf.reached.shut (.inl hcl)]
      exact hf.reached.deliveries.callsTo_eq_nil hw₀.ledger hnone
    unfold told
    rw [if_pos hcl]
    exact hf.accepted_of_uncalled hadd hs hp hx ho hcalls
  · unfold told
    rw [if_neg hcl]
    refine hf.accepted_of_subscribed hadd hs hp hx ho
      (hf.subscribed ((Bool.not_eq_true _).mp hcl) x hx) ?_
    rw [hw₁.updates_eq, hf.same, ← hw₀.ledger.updates_eq]
    exact Nat.le_max_left _ _

omit hx ho

theorem accepted_inner : m.world.accepted a = f.kept (told m₀ m r) := by
  obtain ⟨l, ho⟩ := hf.inner
  exact hf.accepted_of_root hadd hs hp (by simp) ho

theorem accepted_direct : m.world.accepted c = h.kept (told m₀ m r) := by
  obtain ⟨l, ho⟩ := hf.direct
  exact hf.accepted_of_root hadd hs hp (by simp) ho

/-- The child of the child keeps what the fused transformation makes of these states. -/
theorem accepted_outer [PartialEquivBEq α] : m.world.accepted b = h.kept (told m₀ m r) := by
  obtain ⟨l, ho⟩ := hf.outer
  have hinner := hf.accepted_inner hadd hs hp
  rw [← hf.fuses.kept_eq, ← hinner]
  by_cases hcl : m₀.world.isClosed r = true
  · -- Nothing ever happens to a child of a closed root.
    have hnil : m.world.accepted a = [] := by
      rw [hinner]
      unfold told
      rw [if_pos hcl]
      rfl
    have hreach := hf.reached₁.later hadd.later
    have hcalls : m.world.callsTo a l = [] := by
      refine List.eq_nil_iff_forall_not_mem.mpr fun t ht => ?_
      obtain ⟨k, -, hk⟩ := hreach.deliveries.genuine_of_called hreach.wellFormed.ledger ht
      rw [hnil] at hk
      exact nomatch hk
    rw [hnil]
    exact hf.accepted_of_uncalled hadd hs hp (by simp) ho hcalls
  · have hzero : m₀.world.updates a = 0 := hf.updates_eq_zero (by simp)
    have hone : m₁.world.updates a ≤ max (m₀.world.updates a) 1 := by
      have hp₁ := hp.of_extends (hadd.later.extends_world hf.reached₁.wellFormed)
      have hlen := f.length_kept_le (told m₀ m₁ r)
      have htold := hf.length_told_le hf.same
      rw [hf.reached₁.wellFormed.ledger.updates_eq, hf.accepted_inner .refl hf.quiet hp₁]
      omega
    have hsub := hf.subscribed ((Bool.not_eq_true _).mp hcl) b (by simp)
    rw [hf.accepted_of_subscribed hadd hs hp (by simp) ho hsub hone, hzero]
    rfl

end Fusion

/-! ### Equal listeners -/

/-- A registered listener that is called at once. -/
def Hears (m : Machine α) (id : WatcherId) (l : ListenerId) : Prop :=
  ∃ q, m.world.registration? id l = some q ∧ q.active = true ∧
    q.executor.disposal.isImmediate = true

theorem Hears.additive {id : WatcherId} {l : ListenerId} (hq : m₀.Hears id l)
    (h₀ : m₀.Reached (·.undisturbed = true)) (hs : m₀.stack = [])
    (hadd : m₀.Additive (·.undisturbed = true) m) : m.Hears id l := by
  obtain ⟨q, hr, ha, hi⟩ := hq
  have hw := h₀.wellFormed
  have hsame := hadd.sameSubscriptions h₀ aloof_of_undisturbed hs
  obtain ⟨q', hr', hprec⟩ := (hadd.later.extends_world hw).registration hr
  have hreg := hsame.listening ((World.isRegistered_iff hw.ledger.sound id l).mpr ⟨q, hr, ha⟩)
  obtain ⟨q'', hr'', ha'⟩ :=
    (World.isRegistered_iff (h₀.later hadd.later).wellFormed.ledger.sound id l).mp hreg
  obtain rfl := Option.some.inj (hr'.symm.trans hr'')
  exact ⟨q', hr', ha', by rw [hprec.executor]; exact hi⟩

namespace Fusion

/-- A time in which the root accepts nothing: it begins before the children are created, or later
with nothing under way, and ends with nothing under way after they have been created. -/
structure Lull (m₀ m₁ m₂ m₃ : Machine α) (r : WatcherId) : Prop where
  start : m₂ = m₀ ∨ m₁.Additive (·.undisturbed = true) m₂ ∧ m₂.stack = []
  later : m₂.Later (·.undisturbed = true) m₃
  additive : m₁.Additive (·.undisturbed = true) m₃
  quiet : m₃.stack = []
  same : m₃.world.accepted r = m₂.world.accepted r

/-- A listener that comes to be registered in a lull, on a watcher that keeps what `h` keeps, is
called with all states from the latest at that time on. -/
theorem states_of_listener {m₂ m₃ : Machine α} (hf : Fusion m₀ m₁ r a b c f g h)
    (hlull : Lull m₀ m₁ m₂ m₃ r) (hadd : m₃.Additive (·.undisturbed = true) m)
    (hs : m.stack = []) (hp : m.world.Passive) {x : WatcherId} (hx : x ∈ [a, b, c])
    (hkept : ∀ {m}, m₁.Additive (·.undisturbed = true) m → m.stack = [] → m.world.Passive →
      m.world.accepted x = h.kept (told m₀ m r))
    {l : ListenerId} (hnone : m₂.world.registration? x l = none) (hhears : m₃.Hears x l) :
    (m.world.callsTo x l).map Task.state =
      (h.kept (told m₀ m r)).drop (max (h.kept (told m₀ m₂ r)).length 1 - 1) := by
  have hreach₁ := hf.reached₁
  have hreach₃ := hreach₁.later hlull.additive.later
  have hp₃ := hp.of_extends (hadd.later.extends_world hreach₃.wellFormed)
  have hend : m₃.world.updates x = (h.kept (told m₀ m₂ r)).length := by
    rw [hreach₃.wellFormed.ledger.updates_eq, hkept hlull.additive hlull.quiet hp₃,
      told_eq hlull.same]
  obtain ⟨hreach₂, hbegin⟩ : m₂.Reached (·.undisturbed = true) ∧
      max (m₂.world.updates x) 1 = max (h.kept (told m₀ m₂ r)).length 1 := by
    rcases hlull.start with rfl | ⟨h₂, hs₂⟩
    · have hlen := h.length_kept_le (told m₂ m₂ r)
      have hone := hf.length_told_le (m := m₂) rfl
      rw [hf.updates_eq_zero hx]
      exact ⟨hf.reached, by omega⟩
    · have hreach₂ := hreach₁.later h₂.later
      have hp₂ := hp₃.of_extends (hlull.later.extends_world hreach₂.wellFormed)
      rw [hreach₂.wellFormed.ledger.updates_eq, hkept h₂ hs₂ hp₂]
      exact ⟨hreach₂, rfl⟩
  have hjoined : ∃ q, m₃.world.registration? x l = some q := hhears.imp fun _ hq => hq.1
  obtain ⟨q, hq, ha, hi⟩ := hhears.additive hreach₃ hlull.quiet hadd
  rw [← hkept (hlull.additive.trans hadd) hs hp, ← hbegin]
  refine hlull.later.states_of_new calm_and_passive_of_undisturbed hreach₂ hnone hjoined ?_
    hadd.later hs hq ha hi
  rw [hend, hbegin]
  exact Nat.le_max_left _ _

end Fusion

/-- In a run in which callbacks operate on no watcher and no executor and no waker panics, let a
child, a child of it and a child of the root that does at once what the two do be created while the
root accepts nothing. From then on, as long as states are pushed and listeners registered, the child
of the child and the fused one agree whenever nothing is under way: they have the same latest state
and the same first one, and have accepted the same states, namely what the fused transformation
keeps of the root's. Listeners of the two see the same invocations if tasks of the same updates are
run for them; and, if they are called at once and came to be registered with nothing new at the root
in between, in any case. -/
theorem fused_children_agree [PartialEquivBEq α] (hf : Fusion m₀ m₁ r a b c f g h)
    (hadd : m₁.Additive (·.undisturbed = true) m) (hs : m.stack = []) (hp : m.world.Passive) :
    (∃ x y, m.world.watcher? b = some x ∧ m.world.watcher? c = some y ∧ x.latest = y.latest ∧
      x.slot.outcome? = y.slot.outcome?) ∧
    m.world.accepted b = m.world.accepted c ∧
    m.world.accepted c = h.kept (Fusion.told m₀ m r) ∧
    (∀ l l', (Event.runsOf b l m.world.events).map Task.update =
        (Event.runsOf c l' m.world.events).map Task.update →
      (m.world.callsTo b l).map Task.state = (m.world.callsTo c l').map Task.state) ∧
    ∀ m₂ m₃ l l', Fusion.Lull m₀ m₁ m₂ m₃ r → m₃.Additive (·.undisturbed = true) m →
      m₂.world.registration? b l = none → m₂.world.registration? c l' = none →
      m₃.Hears b l → m₃.Hears c l' →
      (m.world.callsTo b l).map Task.state = (m.world.callsTo c l').map Task.state := by
  have hreach := hf.reached₁.later hadd.later
  have hw := hreach.wellFormed.ledger
  have hx := hadd.later.extends_world hf.reached₁.wellFormed
  have hsame : m.world.accepted b = m.world.accepted c :=
    (hf.accepted_outer hadd hs hp).trans (hf.accepted_direct hadd hs hp).symm
  refine ⟨?_, hsame, hf.accepted_direct hadd hs hp,
    fun l l' hruns => hreach.deliveries.states_eq hw hsame hruns, ?_⟩
  · obtain ⟨lb, hb⟩ := hf.outer
    obtain ⟨lc, hc⟩ := hf.direct
    obtain ⟨x, hx', -⟩ := World.exists_watcher?_of_origin? (hx.origin hb)
    obtain ⟨y, hy', -⟩ := World.exists_watcher?_of_origin? (hx.origin hc)
    refine ⟨x, y, hx', hy', ?_, ?_⟩
    · rw [← World.latest?_of_watcher? hx', ← World.latest?_of_watcher? hy', hw.latest_eq,
        hw.latest_eq, hsame]
    · rw [hreach.decided.outcome?_eq hx', hreach.decided.outcome?_eq hy']
      unfold World.initial?
      rw [hsame, hf.isClosed_eq hadd (by simp), hf.isClosed_eq hadd (x := c) (by simp)]
  · intro m₂ m₃ l l' hlull hadd₃ hnb hnc hhb hhc
    rw [hf.states_of_listener hlull hadd₃ hs hp (by simp)
        (fun ha hq hpass => hf.accepted_outer ha hq hpass) hnb hhb,
      hf.states_of_listener hlull hadd₃ hs hp (by simp)
        (fun ha hq hpass => hf.accepted_direct ha hq hpass) hnc hhc]

end Fusion

/-! ### Halving twice -/

def halfOfSome : Derivation Nat where
  label := "m"
  apply x := if x = 0 then .failed "zero" else .value (x / 2)
  actions _ := []

def halfButThree : Derivation Nat where
  label := "g"
  apply x := if x = 3 then .panicked (.text "three") else .value (x / 2)
  actions _ := []

def quarter : Derivation Nat where
  label := "d"
  apply x := (halfOfSome.apply x).andThen halfButThree.apply
  actions _ := []

theorem fuses_quarter : Derivation.Fuses halfOfSome halfButThree quarter where
  apply _ := rfl
  respects x y h := by
    obtain rfl := eq_of_beq h
    cases halfButThree.apply x with
    | value z => exact BEq.rfl
    | failed | panicked => trivial

/-- An initialized root, -/
def fed : Machine Nat :=
  ({ world := {} } : Machine Nat).carry 40 [.root "r" "r" false, .push "r" ⟨1⟩ ⟨4, 4⟩]

/-- its children and the child of the first one, -/
def quartered : Machine Nat :=
  fed.carry 40
    [.child "r" "m" (.ok "m") halfOfSome.apply halfOfSome.actions,
      .child "m" "g" (.ok "g") halfButThree.apply halfButThree.actions,
      .child "r" "d" (.ok "d") quarter.apply quarter.actions]

/-- with a listener on each of the two that are to agree, -/
def overheard : Machine Nat :=
  quartered.carry 40
    [.watch "g" "l" false .inline (fun _ => []) fun _ => [],
      .watch "d" "k" false .inline (fun _ => []) fun _ => []]

/-- after pushes of an equal half, of a failure, of a panic, of a value and of an equal quarter. -/
def fedAgain : Machine Nat :=
  overheard.carry 40
    [.push "r" ⟨2⟩ ⟨5, 5⟩, .push "r" ⟨3⟩ ⟨0, 0⟩, .push "r" ⟨4⟩ ⟨6, 6⟩, .push "r" ⟨5⟩ ⟨20, 20⟩,
      .push "r" ⟨6⟩ ⟨22, 22⟩]

theorem reached_fed : fed.Reached (·.undisturbed = true) :=
  Reached.carry .initial (by decide +kernel)

theorem later_quartered : fed.Later (·.undisturbed = true) quartered :=
  Later.refl.carry (by decide +kernel)

theorem additive_overheard : quartered.Additive (·.undisturbed = true) overheard :=
  Additive.refl.carry rfl (by decide +kernel)

theorem additive_fedAgain : overheard.Additive (·.undisturbed = true) fedAgain :=
  Additive.refl.carry rfl (by decide +kernel)

theorem fusion_quartered : Fusion fed quartered 0 1 2 3 halfOfSome halfButThree quarter where
  reached := reached_fed
  later := later_quartered
  quiet := List.isEmpty_iff.mp (by decide +kernel)
  new x hx := by
    have hlen : fed.world.watchers.length = 1 := by decide +kernel
    refine List.getElem?_eq_none ?_
    simp only [List.mem_cons, List.not_mem_nil, or_false] at hx
    rw [hlen]
    rcases hx with rfl | rfl | rfl <;> decide
  inner := ⟨⟨1⟩, by with_unfolding_all rfl⟩
  outer := ⟨⟨1⟩, by with_unfolding_all rfl⟩
  direct := ⟨⟨2⟩, by with_unfolding_all rfl⟩
  unclosed := by decide +kernel
  subscribed _ x hx := by
    simp only [List.mem_cons, List.not_mem_nil, or_false] at hx
    rcases hx with rfl | rfl | rfl
    · exact ⟨0, ⟨1⟩, halfOfSome, by with_unfolding_all rfl, by decide +kernel⟩
    · exact ⟨1, ⟨1⟩, halfButThree, by with_unfolding_all rfl, by decide +kernel⟩
    · exact ⟨0, ⟨2⟩, quarter, by with_unfolding_all rfl, by decide +kernel⟩
  same := by with_unfolding_all rfl
  fuses := fuses_quarter

theorem passive_fedAgain : fedAgain.world.Passive := by
  have horigins : fedAgain.world.watchers.map Watcher.origin = [.root, .child 0 ⟨1⟩ halfOfSome,
      .child 1 ⟨1⟩ halfButThree, .child 0 ⟨2⟩ quarter] := by
    with_unfolding_all rfl
  refine .of_origins horigins fun p l d hmem n => ?_
  simp only [List.mem_cons, Origin.child.injEq, reduceCtorEq, List.not_mem_nil, or_false,
    false_or] at hmem
  rcases hmem with ⟨-, -, rfl⟩ | ⟨-, -, rfl⟩ | ⟨-, -, rfl⟩ <;> rfl

theorem lull_overheard : Fusion.Lull fed quartered fed overheard 0 where
  start := .inl rfl
  later := later_quartered.trans additive_overheard.later
  additive := additive_overheard
  quiet := List.isEmpty_iff.mp (by decide +kernel)
  same := by with_unfolding_all rfl

theorem fused_children_agree_quarter :
    fedAgain.world.accepted 1 = [⟨⟨1⟩, 2⟩, ⟨⟨4⟩, 3⟩, ⟨⟨5⟩, 10⟩, ⟨⟨6⟩, 11⟩] ∧
      fedAgain.world.accepted 2 = [⟨⟨1⟩, 1⟩, ⟨⟨5⟩, 5⟩] ∧
      (∃ x y, fedAgain.world.watcher? 2 = some x ∧ fedAgain.world.watcher? 3 = some y ∧
        x.latest = y.latest ∧ x.slot.outcome? = y.slot.outcome?) ∧
      (fedAgain.world.callsTo 2 ⟨1⟩).map Task.state =
        (fedAgain.world.callsTo 3 ⟨1⟩).map Task.state := by
  have hquiet : fedAgain.stack = [] := List.isEmpty_iff.mp (by decide +kernel)
  obtain ⟨hlatest, hsame, -, -, hcalls⟩ := fused_children_agree fusion_quartered
    (additive_overheard.trans additive_fedAgain) hquiet passive_fedAgain
  have hearer : ∀ id label, overheard.world.registration? id ⟨1⟩ = some
      { id := ⟨1⟩, listener := .observer label false fun _ => [],
        executor := ⟨.inline, fun _ => []⟩, delivered := 1, calls := 1, handovers := 1 } →
      overheard.Hears id ⟨1⟩ := fun id label h => ⟨_, h, rfl, rfl⟩
  refine ⟨by with_unfolding_all rfl, ?_, hlatest, ?_⟩
  · rw [hsame]
    with_unfolding_all rfl
  · exact hcalls fed overheard ⟨1⟩ ⟨1⟩ lull_overheard additive_fedAgain (by with_unfolding_all rfl)
      (by with_unfolding_all rfl) (hearer 2 "l" (by with_unfolding_all rfl))
      (hearer 3 "k" (by with_unfolding_all rfl))

end Machine

end WatchTree
