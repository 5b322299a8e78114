import WatchTree.Proofs.Steps
import WatchTree.Proofs.Upkeep

/-!
# Reachable machines

A machine without work may be given any operation; a machine with work makes a step. `Reached P`
holds of what is reached in this way while all machines on the way satisfy `P`, `Later P` of what is
reached so from a given machine, and `Run` keeps all of them. `Reached.invariant` and
`Later.invariant` are the inductions for everything that moves and runs preserve.
-/

namespace WatchTree

variable {α : Type}

namespace Machine

section Definitions

variable [BEq α]

/-- What comes next: an operation begun from outside where nothing is under way, or a step. -/
inductive Next (m : Machine α) : Machine α → Prop
  | start (op : Op α) : m.stack = [] → Next m (m.world.start op)
  | step : m.stack ≠ [] → Next m m.step

/-- A machine that can be reached from the empty world by way of machines that satisfy `P`. -/
inductive Reached (P : Machine α → Prop) : Machine α → Prop
  | initial : Reached P { world := {} }
  | next {m m' : Machine α} : Reached P m → P m → m.Next m' → Reached P m'

/-- A machine that can be reached from another by way of machines that satisfy `P`. -/
inductive Later (P : Machine α → Prop) (m : Machine α) : Machine α → Prop
  | refl : Later P m m
  | next {m' m'' : Machine α} : Later P m m' → P m' → m'.Next m'' → Later P m m''

/-- The machines of a run from the empty world, the latest first. -/
inductive Run : List (Machine α) → Prop
  | initial : Run [{ world := {} }]
  | next {m m' : Machine α} {ms : List (Machine α)} : Run (m :: ms) → m.Next m' →
      Run (m' :: m :: ms)

/-- A listener is called with the task between the two machines. -/
def Invokes (m m' : Machine α) (t : Task α) : Prop :=
  ∃ ts, Event.invocations m'.world.events = Event.invocations m.world.events ++ ts ∧ t ∈ ts

/-- A task is run between the two machines, while its registration is active or not. -/
def Executes (m m' : Machine α) (t : Task α) (active : Bool) : Prop :=
  ∃ xs, Event.executions m'.world.events = Event.executions m.world.events ++ xs ∧
    (t, active) ∈ xs

end Definitions

/-- No panic is about to leave an executor or a waker. -/
def calm (m : Machine α) : Bool :=
  match m.control, m.stack with
  | .unwind _, .script (.executor ..) _ :: _ | .unwind _, .script (.waker _) _ :: _ => false
  | _, _ => true

section Invariants

variable [BEq α] {P : Machine α → Prop} {m m' : Machine α}

theorem Next.turn (h : m.Next m') (hm : m.WellFormed) (hP : P m) : Turn P m m' := by
  cases h with
  | start op hs => exact start_turn hm hs op
  | step hs => exact step_turn hm hP hs

/-- What moves preserve is preserved by any number of them. -/
theorem moves_invariant {I : Machine α → Prop}
    (hmove : ∀ {m m'}, m.WellFormed → I m → Move P m m' → I m')
    (h : Relation.ReflTransGen (Move P) m m') (hm : m.WellFormed) (hI : I m) :
    m'.WellFormed ∧ I m' ∧ m.world.Rearranges m'.world := by
  induction h with
  | refl => exact ⟨hm, hI, .refl⟩
  | tail _ hstep ih =>
    obtain ⟨hw, hI, hr⟩ := ih
    exact ⟨(hw.move hstep).1, hmove hw hI hstep, hr.trans (hstep.rearranges hw)⟩

/-- What moves and runs preserve is preserved by a turn. -/
theorem turn_invariant {I : Machine α → Prop}
    (hmove : ∀ {m m'}, m.WellFormed → I m → Move P m m' → I m')
    (hruns : ∀ {m t m'}, m.WellFormed → I m → Runs m t m' → I m')
    (h : Turn P m m') (hm : m.WellFormed) (hI : I m) :
    m'.WellFormed ∧ I m' ∧ m.world.Extends m'.world := by
  obtain ⟨m₁, hmoves, hlast⟩ := h
  obtain ⟨hw, hI, hr⟩ := moves_invariant hmove hmoves hm hI
  have hx := (hm.ledger.rearranges hr).2
  rcases hlast with rfl | ⟨t, hrun⟩
  · exact ⟨hw, hI, hx⟩
  · obtain ⟨hw', hx'⟩ := hw.runs hrun
    exact ⟨hw', hruns hw hI hrun, hx.trans hx'⟩

/-- What holds at first and is preserved by moves and runs always holds. -/
theorem Reached.invariant {I : Machine α → Prop} (h : m.Reached P)
    (hinit : I { world := {} })
    (hmove : ∀ {m m'}, m.WellFormed → I m → Move P m m' → I m')
    (hruns : ∀ {m t m'}, m.WellFormed → I m → Runs m t m' → I m') : m.WellFormed ∧ I m := by
  induction h with
  | initial => exact ⟨.initial, hinit⟩
  | next _ hP hn ih =>
    obtain ⟨hw, hI⟩ := ih
    obtain ⟨hw', hI', -⟩ := turn_invariant hmove hruns (hn.turn hw hP) hw hI
    exact ⟨hw', hI'⟩

theorem Reached.wellFormed (h : m.Reached P) : m.WellFormed :=
  (h.invariant (I := fun _ => True) trivial (fun _ _ _ => trivial) fun _ _ _ => trivial).1

theorem Reached.mono {Q : Machine α → Prop} (h : m.Reached P) (hPQ : ∀ m, P m → Q m) :
    m.Reached Q := by
  induction h with
  | initial => exact .initial
  | next _ hP hn ih => exact .next ih (hPQ _ hP) hn

theorem Next.extends_world (h : m.Next m') (hm : m.WellFormed) : m.world.Extends m'.world :=
  (turn_invariant (P := fun _ => True) (I := fun _ => True) (fun _ _ _ => trivial)
    (fun _ _ _ => trivial) (h.turn hm trivial) hm trivial).2.2

theorem Next.wellFormed (h : m.Next m') (hm : m.WellFormed) : m'.WellFormed :=
  (turn_invariant (P := fun _ => True) (I := fun _ => True) (fun _ _ _ => trivial)
    (fun _ _ _ => trivial) (h.turn hm trivial) hm trivial).1

/-! ## Later machines -/

theorem Reached.later (h : m.Reached P) (hl : m.Later P m') : m'.Reached P := by
  induction hl with
  | refl => exact h
  | next _ hP hn ih => exact .next ih hP hn

theorem Later.trans {m'' : Machine α} (h : m.Later P m') (h' : m'.Later P m'') :
    m.Later P m'' := by
  induction h' with
  | refl => exact h
  | next _ hP hn ih => exact .next ih hP hn

theorem Later.mono {Q : Machine α → Prop} (h : m.Later P m') (hPQ : ∀ m, P m → Q m) :
    m.Later Q m' := by
  induction h with
  | refl => exact .refl
  | next _ hP hn ih => exact .next ih (hPQ _ hP) hn

/-- What holds of a machine and is preserved by moves and runs holds from then on. -/
theorem Later.invariant {I : Machine α → Prop} (h : m.Later P m') (hm : m.WellFormed) (hI : I m)
    (hmove : ∀ {m m'}, m.WellFormed → I m → Move P m m' → I m')
    (hruns : ∀ {m t m'}, m.WellFormed → I m → Runs m t m' → I m') :
    m'.WellFormed ∧ I m' ∧ m.world.Extends m'.world := by
  induction h with
  | refl => exact ⟨hm, hI, .refl _⟩
  | next _ hP hn ih =>
    obtain ⟨hw, hI, hx⟩ := ih
    obtain ⟨hw', hI', hx'⟩ := turn_invariant hmove hruns (hn.turn hw hP) hw hI
    exact ⟨hw', hI', hx.trans hx'⟩

theorem Later.wellFormed (h : m.Later P m') (hm : m.WellFormed) : m'.WellFormed :=
  (h.invariant (I := fun _ => True) hm trivial (fun _ _ _ => trivial) fun _ _ _ => trivial).1

theorem Later.extends_world (h : m.Later P m') (hm : m.WellFormed) : m.world.Extends m'.world :=
  (h.invariant (I := fun _ => True) hm trivial (fun _ _ _ => trivial) fun _ _ _ => trivial).2.2

/-! ## Runs -/

theorem Run.reached {ms : List (Machine α)} (h : Run ms) (hP : ∀ x ∈ ms.tail, P x) :
    ∀ m ∈ ms.head?, m.Reached P := by
  induction h with
  | initial =>
    rintro m ⟨⟩
    exact .initial
  | next _ hn ih =>
    rintro m ⟨⟩
    have htail := fun x hx => hP x (List.mem_cons_of_mem _ hx)
    exact .next (ih htail _ rfl) (hP _ (List.mem_cons_self ..)) hn

theorem Run.reached_of_mem {ms : List (Machine α)} (h : Run ms) (hP : ∀ x ∈ ms.tail, P x) :
    ∀ x ∈ ms, x.Reached P := by
  induction h with
  | initial => exact fun x hx => List.mem_singleton.mp hx ▸ .initial
  | next hrun hn ih =>
    intro x hx
    rcases List.mem_cons.mp hx with rfl | hx
    · exact (hrun.next hn).reached hP x rfl
    · exact ih (fun y hy => hP y (List.mem_cons_of_mem _ hy)) x hx

theorem Reached.run (h : m.Reached P) : ∃ ms, Run (m :: ms) ∧ ∀ x ∈ ms, P x := by
  induction h with
  | initial => exact ⟨[], .initial, fun x hx => absurd hx List.not_mem_nil⟩
  | @next m m' _ hP hn ih =>
    obtain ⟨ms, hrun, hms⟩ := ih
    refine ⟨m :: ms, .next hrun hn, fun x hx => ?_⟩
    rcases List.mem_cons.mp hx with rfl | hx
    · exact hP
    · exact hms x hx

/-! ## Concrete runs -/

/-- What each step on the way preserves holds after any number of them. -/
theorem steps_induction {Q : Machine α → Prop}
    (hstep : ∀ x, Q x → P x → x.stack ≠ [] → Q x.step) (n : Nat) (h : Q m)
    (hP : ∀ k < n, P (m.steps k)) : Q (m.steps n) := by
  induction n generalizing m with
  | zero => exact h
  | succ n ih =>
    unfold Machine.steps
    by_cases hs : m.stack.isEmpty = true
    · rw [if_pos hs]
      exact h
    · rw [if_neg hs]
      refine ih (hstep m h (hP 0 (Nat.succ_pos n)) fun heq => hs (by rw [heq]; rfl)) ?_
      intro k hk
      have hnext := hP (k + 1) (Nat.succ_lt_succ hk)
      rw [Machine.steps, if_neg hs] at hnext
      exact hnext

theorem Later.steps (n : Nat) (h : m.Later P m') (hP : ∀ k < n, P (m'.steps k)) :
    m.Later P (m'.steps n) :=
  steps_induction (fun _ hx hPx hs => hx.next hPx (.step hs)) n h hP

theorem Next.of_stack (h : m.stack.isEmpty = false) : m.Next m.step :=
  .step fun hs => by
    rw [hs] at h
    exact nomatch h

/-- An operation begun from outside, after so many steps. -/
theorem Later.begin {op : Op α} {n : Nat} (h : m.Later P m') (hs : m'.stack.isEmpty = true)
    (hm : P m') (hP : ∀ k < n, P ((m'.world.start op).steps k)) :
    m.Later P ((m'.world.start op).steps n) :=
  Later.steps n (h.next hm (.start op (List.isEmpty_iff.mp hs))) hP

theorem Reached.begin {op : Op α} {n : Nat} (h : m.Reached P) (hs : m.stack.isEmpty = true)
    (hm : P m) (hP : ∀ k < n, P ((m.world.start op).steps k)) :
    ((m.world.start op).steps n).Reached P := h.later (Later.refl.begin hs hm hP)

/-- A machine that has carried out operations one after the other, in so many steps each. -/
def carry (fuel : Nat) (m : Machine α) : List (Op α) → Machine α
  | [] => m
  | op :: ops => carry fuel ((m.world.start op).steps fuel) ops

/-- The machines on the way, the last one excepted, pass a test, and each operation ends in time. -/
def passes (test : Machine α → Bool) (fuel : Nat) (m : Machine α) : List (Op α) → Bool
  | [] => true
  | op :: ops =>
    m.stack.isEmpty && test m && (List.range fuel).all (fun k => test ((m.world.start op).steps k))
      && passes test fuel ((m.world.start op).steps fuel) ops

/-- What operations of some kind and steps preserve holds after they have been carried out. -/
theorem carry_induction {test : Machine α → Bool} {K : Op α → Bool} {fuel : Nat}
    {ops : List (Op α)} {Q : Machine α → Prop}
    (hstart : ∀ x op, Q x → test x = true → x.stack = [] → K op = true → Q (x.world.start op))
    (hstep : ∀ x, Q x → test x = true → x.stack ≠ [] → Q x.step) (h : Q m)
    (hops : ops.all K = true) (hp : passes test fuel m ops = true) : Q (m.carry fuel ops) := by
  induction ops generalizing m with
  | nil => exact h
  | cons op ops ih =>
    obtain ⟨hop, hops⟩ := Bool.and_eq_true_iff.mp hops
    simp only [passes, Bool.and_eq_true, List.all_eq_true, List.mem_range] at hp
    obtain ⟨⟨⟨hs, hm⟩, hall⟩, hrest⟩ := hp
    have hbegun := hstart m op h hm (List.isEmpty_iff.mp hs) hop
    exact ih (steps_induction (P := fun x => test x = true) hstep fuel hbegun hall) hops hrest

theorem Later.carry {test : Machine α → Bool} {fuel : Nat} {ops : List (Op α)}
    (h : m.Later (fun m => test m = true) m') (hp : passes test fuel m' ops = true) :
    m.Later (fun m => test m = true) (m'.carry fuel ops) :=
  carry_induction (K := fun _ => true) (fun _ op hx hm hs _ => hx.next hm (.start op hs))
    (fun _ hx hm hs => hx.next hm (.step hs)) h (List.all_eq_true.mpr fun _ _ => rfl) hp

theorem Reached.carry {test : Machine α → Bool} {fuel : Nat} {ops : List (Op α)}
    (h : m.Reached fun m => test m = true) (hp : passes test fuel m ops = true) :
    (m.carry fuel ops).Reached fun m => test m = true := h.later (Later.refl.carry hp)

section Any

/-! ### Where any machines may be on the way -/

variable {fuel n : Nat} {op : Op α} {ops : List (Op α)}

theorem Later.carry_any (h : m.Later (fun _ => True) m')
    (hp : passes (fun _ => true) fuel m' ops = true) :
    m.Later (fun _ => True) (m'.carry fuel ops) :=
  carry_induction (K := fun _ => true) (fun _ op hx _ hs _ => hx.next trivial (.start op hs))
    (fun _ hx _ hs => hx.next trivial (.step hs)) h (List.all_eq_true.mpr fun _ _ => rfl) hp

theorem Reached.carry_any (h : m.Reached fun _ => True)
    (hp : passes (fun _ => true) fuel m ops = true) : (m.carry fuel ops).Reached fun _ => True :=
  h.later (Later.refl.carry_any hp)

theorem Later.begin_any (h : m.Later (fun _ => True) m') (hs : m'.stack.isEmpty = true) :
    m.Later (fun _ => True) ((m'.world.start op).steps n) :=
  h.begin hs trivial fun _ _ => trivial

theorem Reached.begin_any (h : m.Reached fun _ => True) (hs : m.stack.isEmpty = true) :
    ((m.world.start op).steps n).Reached fun _ => True :=
  h.later (Later.refl.begin_any hs)

end Any

end Invariants

end Machine

end WatchTree
