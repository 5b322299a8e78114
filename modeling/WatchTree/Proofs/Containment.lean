import WatchTree.Proofs.InnerStarts
import Mathlib.Data.List.Induction

/-!
# Containment

A subtree whose callbacks operate on no watcher leaves no trace outside: without everything done to
it, the run is the same. The subtree takes part in a delivery outside by the subscriptions of its
topmost watchers; what such a subscription is handed is worked off in a detour (`Machine.Detour`),
and the call that it began with catches every panic.
-/

namespace WatchTree

variable {α : Type}

namespace Machine

variable {below : Name → Bool} {issuer : Name → Option WatcherId} {G : Pairing} {m m' : Machine α}

/-! ## Detours -/

/-- Work inside stands on this stack, and no panic gets down to it: it would have to pass the call
with which the work began. -/
inductive Shielded (below : Name → Bool) (G : Pairing) (stk : List (Frame α)) :
    List (Frame α) → Control α → Prop
  | done {site : Site} {c : Control α} : c.Calm → Shielded below G stk (.script site [] :: stk) c
  | under (fs : List (Frame α)) {t : Task α} {site : Site} {c : Control α} :
      (∀ f ∈ fs, G.InsideFrame below f) →
      Shielded below G stk (fs ++ .calling t :: .script site [] :: stk) c

theorem Shielded.ne_nil {stk stk' : List (Frame α)} {c : Control α}
    (h : Shielded below G stk stk' c) : stk' ≠ [] := by
  cases h with
  | done => exact List.cons_ne_nil _ _
  | under => exact List.append_ne_nil_of_right_ne_nil _ (List.cons_ne_nil _ _)

/-- Work inside is done in the middle of a delivery outside. -/
structure Detour (below : Name → Bool) (issuer : Name → Option WatcherId) (G : Pairing)
    (m m' : Machine α) : Prop where
  world : m.world.Twins below issuer G m'.world
  delivery : ∃ i n s ls stk, G.Stacks below (.fanOut i n s ls :: stk) m'.stack ∧
    Shielded below G (.fanOut i n s ls :: stk) m.stack m.control
  calm : m'.control.Calm

/-- A task for the subscription of a child is run without further ado, or the child is called. -/
theorem run_subscription {t : Task α} (elsewhere : Bool)
    (h : ∀ r, m.world.registration? t.watcher t.listener = some r →
      ∃ c, r.listener = .subscription c) :
    (m.run t elsewhere).stack = m.stack ∧ (m.run t elsewhere).control.Calm ∨
      ∃ label todo c s, (m.run t elsewhere).stack =
        .script (.derivation label) todo :: .applying c s :: .calling t :: m.stack := by
  unfold Machine.run
  cases hr : m.world.registration? t.watcher t.listener with
  | none => exact .inl ⟨rfl, Control.calm_proceed⟩
  | some r =>
    obtain ⟨c, hc⟩ := h r hr
    simp only
    split
    · exact .inl ⟨rfl, Control.calm_proceed⟩
    · split
      · exact .inl ⟨rfl, Control.calm_proceed⟩
      · unfold Machine.call
        simp only [hc]
        split
        · exact .inl ⟨rfl, Control.calm_proceed⟩
        · exact .inr ⟨_, _, _, _, rfl⟩

/-- The subscription of a watcher inside is handed an update. -/
theorem handOver_skipped {w w' : World α} (h : w.Twins below issuer G w') {t : Task α}
    (ht : G.skipped t.watcher t.listener) (stk : List (Frame α)) {n : Machine α}
    (hn : Machine.handOver ⟨w, stk, .proceed⟩ t = n) :
    n.world.Twins below issuer G w' ∧
      (n.stack = stk ∧ n.control.Calm ∨ Shielded below G stk n.stack n.control) := by
  by_cases hactive : ∃ r, w.registration? t.watcher t.listener = some r ∧ r.active = true
  · obtain ⟨r, hr, ha⟩ := hactive
    obtain ⟨-, -, -, he⟩ := h.skippedRegistration ht hr
    rw [handOver_eq _ hr ha] at hn
    simp only [he] at hn
    subst hn
    -- the executor has nothing to do but to run the task
    have hnoted : (w.note (onPoller ⟨w, stk, .proceed⟩) (.handedOver t)).Twins below issuer G w' :=
      h.note_inside _ fun _ heq => by cases heq
    have hcounted : (w.handOver (onPoller ⟨w, stk, .proceed⟩) t).Twins below issuer G w' :=
      hnoted.modifyRegistration_skipped ht (f := fun r => { r with handovers := r.handovers + 1 })
        (fun _ => rfl) (fun _ => rfl) (fun _ => rfl) fun _ => rfl
    have hgiven : Within below issuer G w' stk
        (⟨w.handOver (onPoller ⟨w, stk, .proceed⟩) t,
          .script (.executor t.watcher t.listener) [] :: stk, .proceed⟩ : Machine α) :=
      (hcounted.within stk .proceed).push (f := .script (.executor t.watcher t.listener) [])
        fun _ hop => nomatch hop
    have hrun := hgiven.run (.inr ht) false
    refine ⟨hrun.world, .inr ?_⟩
    rcases run_subscription false fun r hr =>
      (hgiven.world.skippedRegistration ht hr).imp fun _ => And.left with
      ⟨hstk, hcalm⟩ | ⟨label, todo, c, s, hstk⟩
    · rw [hstk]
      exact .done hcalm
    · obtain ⟨fs, hfs, hin⟩ := hrun.stack
      rw [hstk] at hfs ⊢
      have happend : [.script (.derivation label) todo, .applying c s, .calling t,
          .script (.executor t.watcher t.listener) []] ++ stk = fs ++ stk := hfs
      obtain rfl := List.append_cancel_right happend
      refine .under [.script (.derivation label) todo, .applying c s] fun f hf => hin f ?_
      simp only [List.mem_cons, List.not_mem_nil, or_false] at hf ⊢
      exact hf.elim .inl fun heq => .inr (.inl heq)
  · rw [handOver_inactive _ fun r hr => by simpa using fun ha => hactive ⟨r, hr, ha⟩] at hn
    subst hn
    exact ⟨h, .inl ⟨rfl, Control.calm_proceed⟩⟩

section Follow

variable [BEq α]

/-- The subscription of a watcher inside comes next in a delivery outside. -/
theorem InStep.pass (h : InStep below issuer G m m') {i : WatcherId} {n : Nat} {s : Latest α}
    {l : ListenerId} {ls : List ListenerId} {stk : List (Frame α)}
    (hstk : m.stack = .fanOut i n s (l :: ls) :: stk) (hc : m.control.Calm)
    (hl : G.skipped i l) :
    InStep below issuer G m.step m' ∨ Detour below issuer G m.step m' := by
  obtain ⟨w, stk₀, c⟩ := m
  obtain ⟨w', stk', c'⟩ := m'
  obtain ⟨⟨hworld, hstack⟩, hcontrol⟩ := h
  dsimp only at *
  subst hstk
  have hcalm' : c'.Calm := by
    cases hcontrol with
    | proceed => exact Control.calm_proceed
    | answer => exact Control.calm_answer _
    | unwind => exact absurd rfl (hc _)
    | fanOut _ hc' => exact hc'
  have hpassed : G.Stacks below (.fanOut i n s ls :: stk) stk' := by
    cases hstack with
    | cons hf hrest =>
      cases hf with
      | fanOut hi hls =>
        cases hls with
        | skip _ hls => exact .cons (.fanOut hi hls) hrest
        | both hk _ => exact absurd hl (G.listener_apart hk)
  obtain ⟨hnext, hshape⟩ := handOver_skipped hworld (t := ⟨i, l, n, s⟩) hl
    (.fanOut i n s ls :: stk) rfl
  rw [step_fanOut hc]
  rcases hshape with ⟨heq, hcalm⟩ | hshielded
  · refine .inl ⟨⟨hnext, ?_⟩, ?_⟩
    · exact heq ▸ hpassed
    · exact heq ▸ .fanOut hcalm hcalm'
  · exact .inr ⟨hnext, ⟨i, n, s, ls, stk, hpassed, hshielded⟩, hcalm'⟩

/-- A detour goes on, or the delivery does. -/
theorem Detour.step (h : Detour below issuer G m m') (hhosted : G.Hosted m.world)
    (hhosted' : G.Hosted m.step.world) :
    InStep below (m.issue issuer) G m.step m' ∨ Detour below (m.issue issuer) G m.step m' := by
  obtain ⟨w, stk₀, c⟩ := m
  obtain ⟨hworld, ⟨i, n, s, ls, stk, hstack, hshielded⟩, hcalm'⟩ := h
  dsimp only at *
  cases hshielded with
  | @done site _ hc =>
    rw [issue_of_ne rfl (by intro label l heq; cases heq)]
    cases c with
    | proceed => exact .inl ⟨⟨hworld, hstack⟩, .fanOut Control.calm_proceed hcalm'⟩
    | answer a =>
      exact .inr ⟨hworld.note_inside _ fun _ heq => (by cases heq),
        ⟨i, n, s, ls, stk, hstack, .done Control.calm_proceed⟩, hcalm'⟩
    | unwind payload => exact absurd rfl (hc payload)
  | @under fs t site _ hfs =>
    cases fs with
    | nil =>
      -- the call ends, by itself or by catching a panic
      rw [List.nil_append, issue_of_ne rfl (by intro label l heq; cases heq)]
      cases c with
      | unwind payload =>
        exact .inr ⟨hworld.note_inside _ fun _ heq => (by cases heq),
          ⟨i, n, s, ls, stk, hstack, .done Control.calm_proceed⟩, hcalm'⟩
      | _ =>
        exact .inr ⟨hworld, ⟨i, n, s, ls, stk, hstack, .done Control.calm_proceed⟩, hcalm'⟩
    | cons f fs =>
      have hstep : Within below _ G m'.world
          (.calling t :: .script site [] :: .fanOut i n s ls :: stk) _ :=
        Within.step hworld hfs hhosted hhosted'
      obtain ⟨gs, hgs, hin⟩ := hstep.stack
      refine .inr ⟨hstep.world, ⟨i, n, s, ls, stk, hstack, ?_⟩, hcalm'⟩
      rw [List.cons_append, hgs]
      exact .under _ hin

/-- Machines in step make the same step, or the first one goes on alone. -/
theorem InStep.follow (h : InStep below issuer G m m') (hne : m.stack ≠ []) (hw : m.world.Ledger)
    (hw' : m'.world.Ledger) (hhosted : G.Hosted m.world) (hhosted' : G.Hosted m.step.world) :
    InStep below (m.issue issuer) G m.step m'.step ∨
      InStep below (m.issue issuer) G m.step m' ∨ Detour below (m.issue issuer) G m.step m' := by
  by_cases hturn : ∃ i n s l ls stk, m.stack = .fanOut i n s (l :: ls) :: stk ∧ m.control.Calm ∧
      G.skipped i l
  · obtain ⟨i, n, s, l, ls, stk, hstk, hc, hl⟩ := hturn
    rw [issue_of_ne hstk (by intro label l heq; cases heq)]
    exact .inr (h.pass hstk hc hl)
  · exact .inl (h.step hne hw hw' hhosted hhosted' fun i n s l ls stk hstk hc hl =>
      hturn ⟨i, n, s, l, ls, stk, hstk, hc, hl⟩)

end Follow

/-! ## Shadows -/

/-- What the run without the subtree has come to meanwhile; the last operation is one inside or
not. -/
inductive Shadow (below : Name → Bool) (issuer : Name → Option WatcherId) (G : Pairing) :
    Bool → Machine α → Machine α → Prop
  | outside {m m' : Machine α} : InStep below issuer G m m' → Shadow below issuer G false m m'
  | detour {m m' : Machine α} : Detour below issuer G m m' → Shadow below issuer G false m m'
  | inside {m m' : Machine α} : Within below issuer G m'.world [] m → m'.stack = [] →
      Shadow below issuer G true m m'

namespace Shadow

variable {inner : Bool} (h : Shadow below issuer G inner m m')

include h

theorem world : m.world.Twins below issuer G m'.world := by
  cases h with
  | outside h => exact h.world
  | detour h => exact h.world
  | inside h _ => exact h.world

/-- When nothing is under way in the one run, nothing is in the other. -/
theorem at_rest (hs : m.stack = []) : m'.stack = [] := by
  cases h with
  | outside h =>
    have hstack := h.stack
    rw [hs] at hstack
    generalize m'.stack = stk at hstack
    cases hstack
    rfl
  | detour h =>
    obtain ⟨i, n, s, ls, stk, -, hshielded⟩ := h.delivery
    exact absurd hs hshielded.ne_nil
  | inside _ hs' => exact hs'

end Shadow

section Runs

variable [BEq α]

/-- The run goes on by a step. -/
theorem Shadow.step {inner : Bool} (h : Shadow below issuer G inner m m') (hne : m.stack ≠ [])
    (hw : m.world.Ledger) (hw' : m'.world.Ledger) (hhosted : G.Hosted m.world)
    (hhosted' : G.Hosted m.step.world) :
    m'.stack ≠ [] ∧ Shadow below (m.issue issuer) G inner m.step m'.step ∨
      Shadow below (m.issue issuer) G inner m.step m' := by
  cases h with
  | outside h =>
    rcases h.follow hne hw hw' hhosted hhosted' with hboth | hpassed | hdetour
    · refine .inl ⟨fun hs' => ?_, .outside hboth⟩
      have hstack := h.stack
      rw [hs'] at hstack
      generalize m.stack = stk at hstack hne
      cases hstack
      exact hne rfl
    · exact .inr (.outside hpassed)
    · exact .inr (.detour hdetour)
  | detour h =>
    exact .inr ((h.step hhosted hhosted').elim .outside .detour)
  | inside h hs' =>
    obtain ⟨fs, hfs, hin⟩ := h.stack
    obtain ⟨w, stk, c⟩ := m
    dsimp only at *
    rw [List.append_nil] at hfs
    subst hfs
    cases stk with
    | nil => exact absurd rfl hne
    | cons f fs =>
      have hstep : Within below _ G m'.world [] (⟨w, f :: (fs ++ []), c⟩ : Machine α).step :=
        Within.step h.world hin hhosted (by rwa [List.append_nil])
      rw [List.append_nil] at hstep
      exact .inr (.inside hstep hs')

/-! ## Runs -/

/-- A run in which everything is on one side: operations and the ids they present keep to their
side, and watchers outside with children inside have handles. With the operations so far, and who
issued the ids under the labels. -/
inductive Separate (below : Name → Bool) :
    List (Op α) → (Name → Option WatcherId) → Machine α → Prop
  | initial : Separate below [] (fun _ => none) { world := {} }
  | start {ops : List (Op α)} {issuer : Name → Option WatcherId} {m : Machine α} (op : Op α) :
      Separate below ops issuer m → m.world.Held below → m.stack = [] → op.Sided below →
      m.world.PresentsOwn issuer op → Separate below (ops ++ [op]) issuer (m.world.start op)
  | step {ops : List (Op α)} {issuer : Name → Option WatcherId} {m : Machine α} :
      Separate below ops issuer m → m.world.Held below → m.stack ≠ [] →
      Separate below ops (m.issue issuer) m.step

/-- A run with these operations. -/
inductive Plays : List (Op α) → Machine α → Prop
  | initial : Plays [] { world := {} }
  | start {ops : List (Op α)} {m : Machine α} (op : Op α) :
      Plays ops m → m.stack = [] → Plays (ops ++ [op]) (m.world.start op)
  | step {ops : List (Op α)} {m : Machine α} : Plays ops m → m.stack ≠ [] → Plays ops m.step

theorem Separate.plays {ops : List (Op α)} (h : Separate below ops issuer m) : Plays ops m := by
  induction h with
  | initial => exact .initial
  | start op _ _ hs _ _ ih => exact .start op ih hs
  | step _ _ hs ih => exact .step ih hs

theorem Plays.reached {ops : List (Op α)} (h : Plays ops m) : m.Reached fun _ => True := by
  induction h with
  | initial => exact .initial
  | start op _ hs ih => exact ih.next trivial (.start op hs)
  | step _ hs ih => exact ih.next trivial (.step hs)

/-- A machine with work makes a step. -/
def StepsTo (m m' : Machine α) : Prop := m.stack ≠ [] ∧ m' = m.step

/-- A run is at its beginning, or in the course of its last operation. -/
theorem Plays.course {ops : List (Op α)} (h : Plays ops m) :
    ops = [] ∧ m = { world := {} } ∨ ∃ before op m₀, ops = before ++ [op] ∧ Plays before m₀ ∧
      m₀.stack = [] ∧ Relation.ReflTransGen StepsTo (m₀.world.start op) m := by
  induction h with
  | initial => exact .inl ⟨rfl, rfl⟩
  | start op h hs _ => exact .inr ⟨_, op, _, rfl, h, hs, .refl⟩
  | step _ hs ih =>
    rcases ih with ⟨-, rfl⟩ | ⟨before, op, m₀, hops, h, hs₀, hsteps⟩
    · exact absurd rfl hs
    · exact .inr ⟨before, op, m₀, hops, h, hs₀, hsteps.tail ⟨hs, rfl⟩⟩

/-- Operations lead to one machine at rest. -/
theorem Plays.unique {ops : List (Op α)} : ∀ {m m' : Machine α}, Plays ops m → Plays ops m' →
    m.stack = [] → m'.stack = [] → m = m' := by
  have hrest : ∀ {x y : Machine α}, x.stack = [] → Relation.ReflTransGen StepsTo x y → y = x :=
    fun hs hsteps => (Relation.ReflTransGen.cases_head hsteps).elim Eq.symm
      fun ⟨_, hstep, _⟩ => absurd hs hstep.1
  induction ops using List.reverseRecOn with
  | nil =>
    intro m m' h h' _ _
    rcases h.course with ⟨-, rfl⟩ | ⟨_, _, _, hops, -⟩
    · rcases h'.course with ⟨-, rfl⟩ | ⟨_, _, _, hops, -⟩
      · rfl
      · simp at hops
    · simp at hops
  | append_singleton ops op ih =>
    intro m m' h h' hs hs'
    rcases h.course with ⟨hops, -⟩ | ⟨before, o, m₀, hops, h₀, hs₀, hsteps⟩
    · simp at hops
    rcases h'.course with ⟨hops', -⟩ | ⟨before', o', m₀', hops', h₀', hs₀', hsteps'⟩
    · simp at hops'
    obtain ⟨rfl, heq⟩ := List.append_inj' hops rfl
    obtain ⟨rfl, heq'⟩ := List.append_inj' hops' rfl
    obtain rfl := List.singleton_inj.mp heq
    obtain rfl := List.singleton_inj.mp heq'
    obtain rfl := ih h₀ h₀' hs₀ hs₀'
    have hdet : Relator.RightUnique (StepsTo (α := α)) := fun _ _ _ h h' => h.2.trans h'.2.symm
    rcases Relation.ReflTransGen.total_of_right_unique hdet hsteps hsteps' with hle | hle
    · exact (hrest hs hle).symm
    · exact hrest hs' hle

omit [BEq α] in
/-- Hosts have handles now that those with a child inside have. -/
theorem hosted_of_held {w v w' : World α} (h : w.Twins below issuer G w') (hlinked : G.Linked w)
    (hx : w.Extends v) (hheld : v.Held below) : G.Hosted v := by
  intro p l hl
  obtain ⟨c, d, hc, ho⟩ := hlinked p l hl
  obtain ⟨p', hp⟩ := h.hosts hl
  obtain ⟨b, hb, hinside⟩ := h.insides hc
  obtain ⟨q, k, e, hbo, he, -⟩ := hinside.origin
  rw [World.origin?_of_watcher? hb, hbo, Option.some.injEq] at ho
  cases ho
  refine (hheld c p l d (hx.origin (by rw [World.origin?_of_watcher? hb, hbo])) he).resolve_left ?_
  rintro ⟨q, k, e, hqo, he⟩
  obtain ⟨a, a', ha, -⟩ := h.bodies hp
  have hao := hx.origin (World.origin?_of_watcher? ha)
  have hin : w.IsInside below p :=
    ⟨q, k, e, by rw [World.origin?_of_watcher? ha, ← hao, hqo], he⟩
  exact G.pair_apart hp ((h.isInside_iff ha).mp hin)

omit [BEq α] in
theorem InStep.initial (issuer : Name → Option WatcherId) :
    InStep below issuer .blank ({ world := {} } : Machine α) { world := {} } where
  world :=
    { bodies := fun h => h.elim
      insides := fun h => h.elim
      covered := fun _ h => absurd h (Nat.not_lt_zero _)
      onto := fun _ h => absurd h (Nat.not_lt_zero _)
      hosts := fun h => h.elim
      listened := fun h => h.elim
      handles := .nil
      insideHandles := fun _ h => nomatch h
      listeners := .nil
      futures := .nil
      insideFutures := fun _ h => nomatch h
      wakers := .nil
      insideWakers := fun _ h => nomatch h
      waiters := .nil
      queues := .nil
      insideQueues := fun _ h => nomatch h
      stopped := rfl
      calls := fun h => h.elim }
  stack := .nil
  control := .proceed

/-- At every moment the run without the operations inside has come to the shadow of this one. -/
theorem Separate.shadow {ops : List (Op α)} (h : Separate below ops issuer m)
    (hheld : m.world.Held below) :
    ∃ m' G, Plays (ops.filter fun op => !op.isInside below) m' ∧ G.Linked m.world ∧
      Shadow below issuer G (ops.getLast?.any (·.isInside below)) m m' := by
  induction h with
  | initial => exact ⟨_, .blank, .initial, fun _ _ h => h.elim, .outside (.initial _)⟩
  | @start ops issuer m op hm hbefore hs hop hpresents ih =>
    obtain ⟨m', G, hplays, hlinked, hshadow⟩ := ih hbefore
    have hr := hm.plays.reached
    have hr' := hplays.reached
    have hs' := hshadow.at_rest hs
    have hx := (Next.start op hs).extends_world hr.wellFormed
    have hhosted := hosted_of_held hshadow.world hlinked hx hheld
    rw [List.filter_append, List.getLast?_concat]
    cases hin : op.isInside below with
    | false =>
      obtain ⟨H, hle, hskip, hbegun⟩ := hshadow.world.start hr.wellFormed.ledger hr.deliveries
        hr'.wellFormed.ledger hr'.deliveries hop hin hpresents hhosted
      refine ⟨m'.world.start op, H, ?_,
        hlinked.mono hle (fun p l hl => hskip ▸ hl) hx.origin, ?_⟩
      · simpa [hin] using hplays.start op hs'
      · simpa [hin] using Shadow.outside hbegun
    | true =>
      obtain ⟨H, hle, hlinked', hwithin⟩ := hshadow.world.start_inside hr.wellFormed.ledger
        hr.wellFormed.roots hlinked hop hin hx hhosted
      refine ⟨m', H, ?_, hlinked', ?_⟩
      · simpa [hin] using hplays
      · simpa [hin] using Shadow.inside hwithin hs'
  | @step ops issuer m hm hbefore hs ih =>
    obtain ⟨m', G, hplays, hlinked, hshadow⟩ := ih hbefore
    have hr := hm.plays.reached
    have hx := (Next.step hs).extends_world hr.wellFormed
    have hlinked' := hlinked.mono G.le_refl (fun _ _ => id) hx.origin
    rcases hshadow.step hs hr.wellFormed.ledger hplays.reached.wellFormed.ledger
      (hosted_of_held hshadow.world hlinked (.refl _) hbefore)
      (hosted_of_held hshadow.world hlinked hx hheld) with ⟨hs', hboth⟩ | halone
    · exact ⟨m'.step, G, hplays.step hs', hlinked', hboth⟩
    · exact ⟨m', G, hplays, hlinked', halone⟩

end Runs

end Machine

/-! ## What is the same -/

/-- What can be seen of the watchers outside and their listeners is the same. -/
structure World.SameOutside (below : Name → Bool) (G : Pairing) (w w' : World α) : Prop where
  covered : ∀ i < w.watchers.length, w.IsInside below i ∨ ∃ i', G.pair i i'
  outside : ∀ {i i'}, G.pair i i' → ¬ w.IsInside below i
  onto : ∀ i' < w'.watchers.length, ∃ i, G.pair i i'
  /-- The same latest state, first value and closed flag. -/
  watchers : ∀ {i i'}, G.pair i i' → ∃ b b', w.watcher? i = some b ∧ w'.watcher? i' = some b' ∧
    b'.summary = b.summary
  handles : ∀ name, below name = false →
    Option.Rel (fun h h' => h'.face = h.face ∧ G.pair h.target h'.target) (w.handle? name)
      (w'.handle? name)
  /-- All listeners but the subscriptions of watchers inside are there in the other world. -/
  listeners : ∀ {i i'}, G.pair i i' → ∀ l r, w.registration? i l = some r →
    (∃ c, r.listener = .subscription c ∧ w.IsInside below c) ∨
      ∃ l' r', G.listener i l l' ∧ w'.registration? i' l' = some r' ∧
        G.Listeners below r.listener r'.listener
  onto_listeners : ∀ {i i'}, G.pair i i' → ∀ l' r', w'.registration? i' l' = some r' →
    ∃ l r, G.listener i l l' ∧ w.registration? i l = some r
  labels : ∀ label, below label = false → Option.Rel (fun l l' => ∃ i, G.listener i l l')
    (w.listeners.lookup label) (w'.listeners.lookup label)
  /-- They were called with the same states in the same order. -/
  calls : ∀ {i i' l l'}, G.pair i i' → G.listener i l l' →
    (w'.callsTo i' l').map Task.state = (w.callsTo i l).map Task.state

theorem World.Twins.sameOutside {below : Name → Bool} {issuer : Name → Option WatcherId}
    {G : Pairing} {w w' : World α} (h : w.Twins below issuer G w') :
    w.SameOutside below G w' where
  covered i hi := (h.covered i hi).imp_left fun hin => by
    obtain ⟨b, hb, -⟩ := h.insides hin
    exact (h.isInside_iff hb).mpr hin
  outside hi hin := by
    obtain ⟨b, b', hb, -⟩ := h.bodies hi
    exact G.pair_apart hi ((h.isInside_iff hb).mp hin)
  onto := h.onto
  watchers hi := by
    obtain ⟨b, b', hb, hb', hsame⟩ := h.bodies hi
    refine ⟨b, b', hb, hb', ?_⟩
    unfold Watcher.summary
    rw [hsame.name, hsame.closed, hsame.slot, hsame.latest]
  handles _ hname := h.handles.rel_lookup hname
  listeners {i i'} hi l r hr := by
    obtain ⟨b, b', hb, hb', hsame⟩ := h.bodies hi
    have hfound : b.registry.find? l = some r := (registration?_of_watcher? hb l).symm.trans hr
    have hid := Registry.id_of_find? hfound
    rcases hsame.registry.covered r (Registry.mem_records_of_find? hfound) with hskip | ⟨l', hl⟩
    · obtain ⟨c, hlis, hc, -⟩ := h.skippedRegistration (hid ▸ hskip) hr
      obtain ⟨a, ha, -⟩ := h.insides hc
      exact .inl ⟨c, hlis, (h.isInside_iff ha).mpr hc⟩
    · rw [hid] at hl
      rcases Pairing.rel_cases (h.registration? hi hl) with ⟨hnone, -⟩ | ⟨a, a', ha, ha', hthe⟩
      · exact nomatch hnone.symm.trans hr
      · obtain rfl := Option.some.inj (ha.symm.trans hr)
        exact .inr ⟨l', a', hl, ha', hthe.listener⟩
  onto_listeners {i i'} hi l' r' hr' := by
    obtain ⟨b, b', hb, hb', hsame⟩ := h.bodies hi
    have hfound : b'.registry.find? l' = some r' :=
      (registration?_of_watcher? hb' l').symm.trans hr'
    obtain ⟨l, hl⟩ := hsame.registry.onto r' (Registry.mem_records_of_find? hfound)
    rw [Registry.id_of_find? hfound] at hl
    rcases Pairing.rel_cases (h.registration? hi hl) with ⟨-, hnone⟩ | ⟨a, a', ha, -⟩
    · exact nomatch hnone.symm.trans hr'
    · exact ⟨l, a, hl, ha⟩
  labels label hlabel := by
    have hkept : w.listeners.Kept below (fun _ l l' => ∃ i, G.listener i l l') w'.listeners :=
      h.listeners.imp fun _ _ _ _ ⟨i, _, hl⟩ => ⟨i, hl⟩
    exact hkept.rel_lookup hlabel
  calls := h.calls

/-- The call of a listener has caught a panic. -/
def Event.isListenerPanic : Event α → Bool
  | .logged _ _ (.listenerPanicked ..) => true
  | _ => false

namespace Machine

/-- Two machines at rest: the same panic has left them, or the same yes or no was answered. -/
def EndsAlike (m m' : Machine α) : Prop :=
  (∀ v, m.ending = .answered (.bool v) ↔ m'.ending = .answered (.bool v)) ∧
    ∀ payload, m.ending = .panicked payload ↔ m'.ending = .panicked payload

theorem InStep.endsAlike {below : Name → Bool} {issuer : Name → Option WatcherId} {G : Pairing}
    {m m' : Machine α} (h : InStep below issuer G m m') (hs : m.stack = []) (hs' : m'.stack = []) :
    m.EndsAlike m' := by
  obtain ⟨w, stk, c⟩ := m
  obtain ⟨w', stk', c'⟩ := m'
  dsimp only at hs hs'
  subst hs hs'
  cases h.control with
  | proceed => exact ⟨fun _ => Iff.rfl, fun _ => Iff.rfl⟩
  | @answer _ a a' ha =>
    refine ⟨fun v => ?_, fun payload => iff_of_false (fun h => nomatch h) fun h => nomatch h⟩
    simpa [ending] using ha v
  | unwind =>
    exact ⟨fun v => iff_of_false (fun h => nomatch h) (fun h => nomatch h), fun _ => Iff.rfl⟩

section Contained

variable [BEq α] {below : Name → Bool} {issuer : Name → Option WatcherId} {m : Machine α}

/-- A subtree is contained. Its callbacks may fail, panic or succeed, but operate on no watcher, and
share nothing with the rest; the watchers it hangs below have handles. Then the run without all
operations on the subtree gives, at every moment, the same states, first values and closed flags of
the watchers outside and the same calls of their listeners; and whenever an operation outside is
done, it has ended there as it has here. -/
theorem subtree_is_contained {ops : List (Op α)} (h : Separate below ops issuer m)
    (hheld : m.world.Held below) :
    ∃ m' G, Plays (ops.filter fun op => !op.isInside below) m' ∧
      m.world.SameOutside below G m'.world ∧
      (m.stack = [] → m'.stack = [] ∧
        (∀ x, Plays (ops.filter fun op => !op.isInside below) x → x.stack = [] → x = m') ∧
        ∀ op, ops.getLast? = some op → op.isInside below = false → m.EndsAlike m') := by
  obtain ⟨m', G, hplays, -, hshadow⟩ := h.shadow hheld
  refine ⟨m', G, hplays, hshadow.world.sameOutside, fun hs => ?_⟩
  have hs' := hshadow.at_rest hs
  refine ⟨hs', fun x hx hxs => hx.unique hplays hxs hs', fun op hlast hout => ?_⟩
  have hinner : ops.getLast?.any (·.isInside below) = false := by
    rw [hlast]
    exact hout
  rw [hinner] at hshadow
  cases hshadow with
  | outside hstep => exact hstep.endsAlike hs hs'
  | detour hdetour =>
    obtain ⟨_, _, _, _, _, -, hshielded⟩ := hdetour.delivery
    exact absurd hs hshielded.ne_nil

/-- Operations other than `unwatch`, carried out one after the other. -/
theorem Separate.carry (fuel : Nat) (later : List (Op α)) :
    ∀ {ops : List (Op α)} {issuer : Name → Option WatcherId} {m : Machine α},
    Separate below ops issuer m → (∀ op ∈ later, op.Sided below) →
    (∀ op ∈ later, ∀ target label, op ≠ .unwatch target label) →
    passes (fun m => m.world.isHeld below) fuel m later = true →
    ∃ issuer, Separate below (ops ++ later) issuer (m.carry fuel later) := by
  induction later with
  | nil =>
    intro ops issuer m h _ _ _
    exact ⟨issuer, by rwa [List.append_nil]⟩
  | cons op later ih =>
    intro ops issuer m h hsided hother hp
    simp only [passes, Bool.and_eq_true, List.all_eq_true, List.mem_range] at hp
    obtain ⟨⟨⟨hs, hm⟩, hall⟩, hrest⟩ := hp
    have hbegun : Separate below (ops ++ [op]) issuer (m.world.start op) :=
      h.start op (World.held_of_isHeld hm) (List.isEmpty_iff.mp hs) (hsided op (by simp))
        fun target label heq => absurd heq (hother op (by simp) target label)
    have hdone : ∃ issuer, Separate below (ops ++ [op]) issuer ((m.world.start op).steps fuel) :=
      steps_induction (P := fun m => m.world.isHeld below = true)
        (Q := fun x => ∃ issuer, Separate below (ops ++ [op]) issuer x)
        (fun x hx hheld hne => hx.elim fun _ hx => ⟨_, hx.step (World.held_of_isHeld hheld) hne⟩)
        fuel ⟨issuer, hbegun⟩ hall
    obtain ⟨issuer, hdone⟩ := hdone
    obtain ⟨issuer, hlater⟩ := ih hdone (fun o ho => hsided o (List.mem_cons_of_mem _ ho))
      (fun o ho => hother o (List.mem_cons_of_mem _ ho)) hrest
    exact ⟨issuer, by rwa [List.append_assoc] at hlater⟩

end Contained

def annexNames (name : Name) : Bool := name = "a" || name = "x"

/-- A root with a listener, a child of it with a listener whose executor panics, and a push. -/
def annexOps : List (Op Nat) :=
  [.root "r" "r" false, .watch "r" "l" false .inline (fun _ => []) (fun _ => []),
    .child "r" "a" (.ok "") .value (fun _ => []),
    .watch "a" "x" false .inline (fun _ => [.panic .other]) (fun _ => []),
    .push "r" ⟨1⟩ ⟨10, 10⟩]

def annexed : Machine Nat := ({ world := {} } : Machine Nat).carry 24 annexOps

theorem subtree_is_contained_annexed :
    annexed.world.events.any Event.isListenerPanic = true ∧
    annexed.ending = .answered (.bool true) ∧
    ∃ m' G, Plays (annexOps.filter fun op => !op.isInside annexNames) m' ∧
      annexed.world.SameOutside annexNames G m'.world ∧ m'.stack = [] ∧ annexed.EndsAlike m' := by
  have hrun : ∃ issuer, Separate annexNames annexOps issuer annexed :=
    Separate.carry 24 annexOps .initial
      (by simp [annexOps, Op.Sided, Callback, Disposal.OnSide, annexNames, Op.isInert, Op.stops,
        Op.subject?])
      (by simp [annexOps]) (by decide +kernel)
  obtain ⟨issuer, hrun⟩ := hrun
  have hs : annexed.stack = [] := by with_unfolding_all rfl
  obtain ⟨m', G, hplays, hsame, hrest⟩ := subtree_is_contained hrun
    (World.held_of_isHeld (by decide +kernel))
  obtain ⟨hs', -, hends⟩ := hrest hs
  exact ⟨by decide +kernel, by with_unfolding_all rfl, m', G, hplays, hsame, hs', hends _ rfl rfl⟩

end Machine

end WatchTree
