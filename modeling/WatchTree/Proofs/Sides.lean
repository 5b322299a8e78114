import WatchTree.Proofs.FirstValue

/-!
# The two sides of a run

Some names are set apart for the watchers of a subtree and what is made on them. An operation
works on the side of the name it is about (`Op.isInside`), and keeps to it if everything else that
it names is on that side, too (`Op.Sided`). Callbacks operate on no watcher (`Callback`).
`World.IsInside` says which watchers were made under the names set apart, and `Bindings.Kept`
compares what other names stand for in two worlds.
-/

namespace WatchTree

variable {α : Type}

/-! ## Operations -/

/-- The name that a query is about. -/
def Query.subject? : Query α → Option Name
  | .name w | .isClosed w | .parent w | .latest w | .latestValue w | .latestValueOr w _
  | .wait w .. | .describe w => some w
  | .futureDone f | .futureGet f => some f
  | .queueLength q => some q
  | .ids | .dump => none

namespace Op

/-- The name that an operation is about: that of the watcher or the future it makes or works on, or
that of a queue. -/
def subject? : Op α → Option Name
  | .ask q => q.subject?
  | .root name .. | .child _ name .. | .share _ name _ => some name
  | .future name _ | .waiter name _ => some name
  | .push w .. | .drop w | .watch w .. | .unwatch w _ | .close w | .poll w .. => some w
  | .futurePoll f .. => some f
  | .join name => some name
  | .queueRun q _ | .queueDrop q => some q
  | .invalid | .stop | .panic _ => none

/-- It works neither on a watcher nor on a future. -/
def isInert : Op α → Bool
  | .invalid | .ask _ | .queueRun .. | .queueDrop _ | .stop | .panic _ => true
  | _ => false

/-- It may stop a poller. -/
def stops : Op α → Bool
  | .stop => true
  | _ => false

end Op

section Sides

variable (below : Name → Bool)

/-- The operation is about a name that is set apart. -/
def Op.isInside (op : Op α) : Bool := op.subject?.any below

/-- A callback operates on no watcher, and asks and runs only what is on its side. Pollers are
outside. -/
def Callback (side : Bool) (todo : List (Op α)) : Prop :=
  ∀ op ∈ todo, op.isInert = true ∧ (op.stops = true → side = false) ∧
    ∀ name ∈ op.subject?, below name = side

/-- An executor hands its tasks only to a queue on its side. -/
def Disposal.OnSide (side : Bool) : Disposal → Prop
  | .queue q => below q = side
  | _ => True

/-- Where a future is taken from is a name on this side. -/
def FutureSource.OnSide (side : Bool) : FutureSource → Prop
  | .watcher name | .future name => below name = side

/-- What an operation makes is on the side of what it is made on, and so are its callbacks. Only a
child may be made inside of a watcher that is outside. -/
def Op.Sided : Op α → Prop
  | .root name .. => below name = false
  | .child w name _ _ actions =>
    (below w = true → below name = true) ∧ ∀ n, Callback below (below name) (actions n)
  | .share w name _ => below w = below name
  | .watch w label _ disposal onHandover actions =>
    below label = below w ∧ disposal.OnSide below (below w) ∧
      ∀ n, Callback below (below w) (onHandover n) ∧ Callback below (below w) (actions n)
  | .unwatch w label => below label = below w
  | .future name source => source.OnSide below (below name)
  | .futurePoll f waker actions =>
    below waker = below f ∧ ∀ n, Callback below (below f) (actions n)
  | .waiter name f => below f = below name
  | .poll _ _ script _ =>
    ∀ x ∈ script, Callback below false x.before ∧ Callback below false x.actions
  | _ => True

/-! ## Watchers -/

/-- The watcher was made under a name that is set apart. -/
def World.IsInside (w : World α) (id : WatcherId) : Prop :=
  ∃ p l d, w.origin? id = some (.child p l d) ∧ below d.label = true

/-- The check for it. -/
def World.isInside (w : World α) (id : WatcherId) : Bool :=
  match w.origin? id with
  | some (.child _ _ d) => below d.label
  | _ => false

/-- A watcher outside with a child inside has a handle. -/
def World.Held (w : World α) : Prop :=
  ∀ c p l d, w.origin? c = some (.child p l d) → below d.label = true →
    w.IsInside below p ∨ w.hasHandle p = true

/-- The check for it. -/
def World.isHeld (w : World α) : Bool :=
  w.watchers.all fun b =>
    match b.origin with
    | .child p _ d => !below d.label || w.isInside below p || w.hasHandle p
    | .root => true

/-! ## Bindings -/

variable {β γ : Type}

/-- What the names outside stand for is in this relation. -/
def Bindings.Kept (R : Name → β → γ → Prop) (bs : Bindings β) (bs' : Bindings γ) : Prop :=
  List.Forall₂ (fun x x' => x.1 = x'.1 ∧ R x.1 x.2 x'.2) (bs.filter fun x => !below x.1) bs'

end Sides

theorem World.held_of_isHeld {below : Name → Bool} {w : World α} (h : w.isHeld below = true) :
    w.Held below := by
  intro c p l d ho hd
  obtain ⟨b, hb, hbo⟩ := exists_watcher?_of_origin? ho
  have hcheck := List.all_eq_true.mp h b (List.mem_of_getElem? hb)
  simp only [hbo, hd, Bool.not_true, Bool.false_or, Bool.or_eq_true] at hcheck
  refine hcheck.imp_left fun hin => ?_
  unfold World.isInside at hin
  split at hin
  · rename_i q k e hq
    exact ⟨q, k, e, hq, hin⟩
  · exact absurd hin Bool.false_ne_true

namespace Bindings

variable {β : Type} {bs : Bindings β} {name : Name} {v : β} {P : Name × β → Prop}

theorem unbind_cons_self (bs : Bindings β) (name : Name) (v : β) :
    unbind ((name, v) :: bs) name = bs.unbind name := List.filter_cons_of_neg (by simp)

theorem unbind_cons_of_ne {n : Name} (hn : n ≠ name) (bs : Bindings β) (v : β) :
    unbind ((n, v) :: bs) name = (n, v) :: bs.unbind name := List.filter_cons_of_pos (by simpa)

theorem forall_unbind (h : ∀ x ∈ bs, P x) (name : Name) : ∀ x ∈ bs.unbind name, P x :=
  fun x hx => h x (List.mem_of_mem_filter hx)

theorem forall_bind (h : ∀ x ∈ bs, P x) (hv : P (name, v)) : ∀ x ∈ bs.bind name v, P x := by
  intro x hx
  rcases List.mem_cons.mp hx with rfl | hx
  · exact hv
  · exact forall_unbind h name x hx

end Bindings

namespace Bindings.Kept

variable {below : Name → Bool} {β γ : Type} {R Q : Name → β → γ → Prop} {bs : Bindings β}
  {bs' : Bindings γ} {name : Name} {v : β} {v' : γ}

/-- Induction on the bindings: those of names inside are passed over. -/
theorem rec_on {P : Bindings β → Bindings γ → Prop} (h : Kept below R bs bs') (hnil : P [] [])
    (hpass : ∀ {n v bs bs'}, below n = true → Kept below R bs bs' → P bs bs' → P ((n, v) :: bs) bs')
    (hboth : ∀ {n v v' bs bs'}, below n = false → R n v v' → Kept below R bs bs' → P bs bs' →
      P ((n, v) :: bs) ((n, v') :: bs')) : P bs bs' := by
  induction bs generalizing bs' with
  | nil =>
    cases h
    exact hnil
  | cons x bs ih =>
    unfold Kept at h
    cases hin : below x.1 with
    | true =>
      rw [List.filter_cons_of_neg (by simp [hin])] at h
      exact hpass hin h (ih h)
    | false =>
      rw [List.filter_cons_of_pos (by simp [hin])] at h
      cases h with
      | @cons _ x' _ bs' hx hrest =>
        obtain ⟨n', v'⟩ := x'
        obtain ⟨hn, hv⟩ : x.1 = n' ∧ R x.1 x.2 v' := hx
        subst hn
        exact hboth hin hv hrest (ih hrest)

theorem pass (hn : below name = true) :
    Kept below R ((name, v) :: bs) bs' ↔ Kept below R bs bs' := by
  unfold Kept
  rw [List.filter_cons_of_neg (by simp [hn])]

theorem both (hn : below name = false) (hv : R name v v') (h : Kept below R bs bs') :
    Kept below R ((name, v) :: bs) ((name, v') :: bs') := by
  unfold Kept
  rw [List.filter_cons_of_pos (by simp [hn])]
  exact .cons ⟨rfl, hv⟩ h

theorem imp (h : Kept below R bs bs')
    (hRQ : ∀ n, below n = false → ∀ v v', R n v v' → Q n v v') : Kept below Q bs bs' :=
  h.rec_on .nil (fun hn _ ih => (pass hn).mpr ih) fun hn hv _ ih => both hn (hRQ _ hn _ _ hv) ih

/-- A name outside stands for nothing in either world, or for things in the relation. -/
theorem lookup (h : Kept below R bs bs') (hn : below name = false) :
    (bs.lookup name = none ∧ bs'.lookup name = none) ∨
      ∃ v v', bs.lookup name = some v ∧ bs'.lookup name = some v' ∧ R name v v' := by
  refine h.rec_on (P := fun bs bs' => (bs.lookup name = none ∧ bs'.lookup name = none) ∨
    ∃ v v', bs.lookup name = some v ∧ bs'.lookup name = some v' ∧ R name v v')
    (.inl ⟨rfl, rfl⟩) ?_ ?_
  · intro n v bs bs' hin _ ih
    have hne : (name == n) = false := beq_false_of_ne fun heq => by
      rw [heq, hin] at hn
      exact nomatch hn
    rw [List.lookup_cons, hne]
    exact ih
  · intro n v v' bs bs' _ hv _ ih
    rw [List.lookup_cons, List.lookup_cons]
    cases heq : name == n with
    | true =>
      obtain rfl := eq_of_beq heq
      exact .inr ⟨_, _, rfl, rfl, hv⟩
    | false => exact ih

theorem rel_lookup (h : Kept below R bs bs') (hn : below name = false) :
    Option.Rel (R name) (bs.lookup name) (bs'.lookup name) := by
  rcases h.lookup hn with ⟨hnone, hnone'⟩ | ⟨v, v', hv, hv', hR⟩
  · rw [hnone, hnone']
    exact .none
  · rw [hv, hv']
    exact .some hR

/-- What the names outside stand for is somewhere in the relation. -/
theorem exists_of_mem (h : Kept below R bs bs') {x : Name × β} (hx : x ∈ bs)
    (hn : below x.1 = false) : ∃ v', (x.1, v') ∈ bs' ∧ R x.1 x.2 v' := by
  revert hx
  refine h.rec_on (P := fun bs bs' => x ∈ bs → ∃ v', (x.1, v') ∈ bs' ∧ R x.1 x.2 v')
    (fun hx => nomatch hx) ?_ ?_
  · intro n v bs bs' hin _ ih hx
    rcases List.mem_cons.mp hx with rfl | hx
    · exact nomatch hn.symm.trans hin
    · exact ih hx
  · intro n v v' bs bs' _ hv _ ih hx
    rcases List.mem_cons.mp hx with rfl | hx
    · exact ⟨v', List.mem_cons_self .., hv⟩
    · obtain ⟨v'', hmem, hR⟩ := ih hx
      exact ⟨v'', List.mem_cons_of_mem _ hmem, hR⟩

theorem exists_of_mem' (h : Kept below R bs bs') {x : Name × γ} (hx : x ∈ bs') :
    ∃ v, (x.1, v) ∈ bs ∧ below x.1 = false ∧ R x.1 v x.2 := by
  revert hx
  refine h.rec_on
    (P := fun bs bs' => x ∈ bs' → ∃ v, (x.1, v) ∈ bs ∧ below x.1 = false ∧ R x.1 v x.2)
    (fun hx => nomatch hx) ?_ ?_
  · intro n v bs bs' _ _ ih hx
    obtain ⟨v, hmem, hR⟩ := ih hx
    exact ⟨v, List.mem_cons_of_mem _ hmem, hR⟩
  · intro n v v' bs bs' hn hv _ ih hx
    rcases List.mem_cons.mp hx with rfl | hx
    · exact ⟨v, List.mem_cons_self .., hn, hv⟩
    · obtain ⟨v, hmem, hR⟩ := ih hx
      exact ⟨v, List.mem_cons_of_mem _ hmem, hR⟩

/-- A name is forgotten in both worlds; it is none of those that are left. -/
theorem unbind_ne (h : Kept below R bs bs') (name : Name) :
    Kept below (fun n v v' => n ≠ name ∧ R n v v') (bs.unbind name) (bs'.unbind name) := by
  refine h.rec_on (P := fun bs bs' => Kept below _ (bs.unbind name) (bs'.unbind name)) .nil ?_ ?_
  · intro n v bs bs' hin _ ih
    by_cases heq : n = name
    · subst heq
      rw [Bindings.unbind_cons_self]
      exact ih
    · rw [Bindings.unbind_cons_of_ne heq]
      exact (pass hin).mpr ih
  · intro n v v' bs bs' hn hv _ ih
    by_cases heq : n = name
    · subst heq
      rw [Bindings.unbind_cons_self, Bindings.unbind_cons_self]
      exact ih
    · rw [Bindings.unbind_cons_of_ne heq, Bindings.unbind_cons_of_ne heq]
      exact both hn ⟨heq, hv⟩ ih

theorem unbind (h : Kept below R bs bs') (name : Name) :
    Kept below R (bs.unbind name) (bs'.unbind name) :=
  (h.unbind_ne name).imp fun _ _ _ _ hv => hv.2

theorem unbind_inside (h : Kept below R bs bs') (hn : below name = true) :
    Kept below R (bs.unbind name) bs' := by
  have hsame : (bs.unbind name).filter (fun x => !below x.1) = bs.filter fun x => !below x.1 := by
    unfold Bindings.unbind
    rw [List.filter_filter]
    refine List.filter_congr fun x _ => ?_
    by_cases hx : x.1 = name
    · simp [hx, hn]
    · simp [hx]
  unfold Kept
  rw [hsame]
  exact h

theorem bind (h : Kept below R bs bs') (hn : below name = false) (hv : Q name v v')
    (hRQ : ∀ n v v', n ≠ name → R n v v' → Q n v v') :
    Kept below Q (bs.bind name v) (bs'.bind name v') :=
  both hn hv ((h.unbind_ne name).imp fun n _ v v' hR => hRQ n v v' hR.1 hR.2)

theorem bind_inside (h : Kept below R bs bs') (hn : below name = true) :
    Kept below R (bs.bind name v) bs' := (pass hn).mpr (h.unbind_inside hn)

end Bindings.Kept

end WatchTree
