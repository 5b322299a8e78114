import WatchTree.Proofs.OrderlySteps
import WatchTree.Proofs.Serving
import WatchTree.Proofs.WakerSteps

/-!
# Wake-ups

Where no waker panics, no wake-up is lost and none is spurious.

1. Once a slot is decided, the wakers of its watcher that were woken along the run and those that
   are about to be woken are together, in this order, the ones that its futures were polled with
   (`Machine.Attends`).
2. Wakers wait to be woken only above what decided the slot (`Machine.Grounded`), before the first
   update is handed to anyone who was registered when it was accepted.
-/

namespace WatchTree

variable {α : Type}

namespace Machine

/-! ## Where the wakers of a watcher are -/

/-- No panic that leaves a waker has come to the others. -/
theorem Orderly.control_ne_unwind {m : Machine α} (h : m.Orderly) {names : List Name}
    {stk : List (Frame α)} (hstk : m.stack = .waking names :: stk) (payload : Payload) :
    m.control ≠ .unwind payload := by
  intro hc
  have hguard := (h.guarded payload hc).2
  rw [hstk] at hguard
  exact (hguard _ rfl).1 names rfl

/-- Before the slot of a watcher is decided, nobody is woken for it. Afterwards the wakers that were
woken along a run and those that are about to be woken are together the ones that the futures were
polled with, each once, in the order of their first polls. -/
structure Attends (ms : List (Machine α)) (m : Machine α) (id : WatcherId) : Prop where
  pending : (m.world.slot id).isPending = true →
    rousedFor id ms = [] ∧ Frame.summoned id m.stack = []
  decided : (m.world.slot id).isPending = false →
    rousedFor id ms ++ Frame.summoned id m.stack = (m.world.polled id).eraseDups

namespace Attends

variable {ms : List (Machine α)} {m m' : Machine α} {id : WatcherId}

theorem initial (id : WatcherId) : Attends [] ({ world := {} } : Machine α) id :=
  ⟨fun _ => ⟨rfl, rfl⟩, nofun⟩

theorem rousedFor_cons_of_ne (h : ∀ name, m.rousing? ≠ some (id, name)) :
    rousedFor id (m :: ms) = rousedFor id ms := by
  rw [rousedFor_cons]
  cases hr : m.rousing? with
  | none => simp
  | some x =>
    have hne : x.1 ≠ id := fun heq => h x.2 (by rw [hr, ← heq])
    simp [hne]

/-- None of the wakers of the watcher is woken, nor taken out of the slot. -/
theorem keep (h : Attends ms m id) (hquiet : ∀ name, m.rousing? ≠ some (id, name))
    (hsummoned : Frame.summoned id m'.stack = Frame.summoned id m.stack)
    (hslot : (m'.world.slot id).isPending = (m.world.slot id).isPending)
    (hpolled : (m.world.slot id).isPending = false → m'.world.polled id = m.world.polled id) :
    Attends (m :: ms) m' id := by
  constructor
  · rw [rousedFor_cons_of_ne hquiet, hsummoned, hslot]
    exact h.pending
  · rw [rousedFor_cons_of_ne hquiet, hsummoned, hslot]
    intro hdecided
    rw [hpolled hdecided]
    exact h.decided hdecided

/-- The slot is decided, if it has not been: its wakers are taken out. -/
theorem summon (h : Attends ms m id) (hquiet : ∀ name, m.rousing? ≠ some (id, name))
    (hsummoned : Frame.summoned id m'.stack =
      (m.world.slot id).wakers ++ Frame.summoned id m.stack)
    (hslot : (m'.world.slot id).isPending = false)
    (hpolled : m'.world.polled id = m.world.polled id)
    (hleft : (m.world.slot id).isPending = true →
      (m.world.slot id).wakers = (m.world.polled id).eraseDups) : Attends (m :: ms) m' id := by
  refine ⟨fun hpending => absurd (hslot.symm.trans hpending) (by simp), fun _ => ?_⟩
  rw [rousedFor_cons_of_ne hquiet, hsummoned, hpolled]
  cases hpending : (m.world.slot id).isPending with
  | true =>
    obtain ⟨hroused, hnone⟩ := h.pending hpending
    rw [hroused, hnone, List.append_nil, hleft hpending]
    rfl
  | false =>
    rw [Slot.wakers_of_not_pending hpending]
    exact h.decided hpending

/-- The first of the wakers that are about to be woken is woken. -/
theorem rouse {name : Name} {names : List Name} (h : Attends ms m id)
    (hrousing : m.rousing? = some (id, name))
    (hbefore : Frame.summoned id m.stack = name :: names)
    (hafter : Frame.summoned id m'.stack = names) (hslot : m'.world.slot id = m.world.slot id)
    (hpolled : m'.world.polled id = m.world.polled id) : Attends (m :: ms) m' id := by
  have hroused : rousedFor id (m :: ms) = rousedFor id ms ++ [name] := by
    rw [rousedFor_cons, hrousing]
    simp
  constructor
  · intro hpending
    rw [hslot] at hpending
    exact absurd (hbefore.symm.trans (h.pending hpending).2) (List.cons_ne_nil _ _)
  · intro hdecided
    rw [hslot] at hdecided
    rw [hroused, hafter, hpolled, ← h.decided hdecided, hbefore, List.append_assoc]
    rfl

theorem step (h : Attends ms m id) (hstep : m.WakerStep m') (ho : m.Orderly)
    (hleft : (m.world.slot id).isPending = true →
      (m.world.slot id).wakers = (m.world.polled id).eraseDups) : Attends (m :: ms) m' id := by
  have hstill : m.Still → ∀ name, m.rousing? ≠ some (id, name) := by
    intro hs name heq
    rw [hs.rousing?] at heq
    exact nomatch heq
  cases hstep with
  | rests fs hs hstk hfs hslots hwakers =>
    refine h.keep (hstill hs) ?_ (by rw [(hslots id).1]) fun _ => hwakers.polled id
    rw [hstk, Frame.summoned_append id hfs, hs.summoned]
  | @enlists fs j waker hpoll hs hstk hfs hp hslot hpolled hwoken =>
    refine h.keep (hstill hs) ?_ ?_ fun hdecided => ?_
    · rw [hstk, Frame.summoned_append id hfs, hs.summoned]
    · rw [hslot]
      split
      · rename_i hj
        subst hj
        cases m.world.slot j <;> rfl
      · rfl
    · have hj : j ≠ id := by
        rintro rfl
        exact nomatch hp.symm.trans hdecided
      rw [hpolled, if_neg hj, List.append_nil]
  | @completes fs j b g hs hb hg hstk hfs hp hother hwakers =>
    have hsummoned : Frame.summoned id m'.stack =
        (if j = id then b.slot.wakers else []) ++ Frame.summoned id m.stack := by
      rw [hstk, Frame.summoned_waking hg.completes?, Frame.summoned_append id hfs, hs.summoned]
    by_cases hj : j = id
    · subst hj
      rw [if_pos rfl, ← World.slot_of_watcher? hb] at hsummoned
      exact h.summon (hstill hs) hsummoned hp (hwakers.polled j) hleft
    · rw [if_neg hj] at hsummoned
      exact h.keep (hstill hs) hsummoned (by rw [hother id hj]) fun _ => hwakers.polled id
  | @wakes fs j name names g stk hstk hg hrousing hstk' hfs hslots hpolled hwoken =>
    have hsummoned : Frame.summoned id m.stack =
        (if j = id then name :: names else []) ++ Frame.summoned id stk := by
      rw [hstk, Frame.summoned_waking hg]
    have hsummoned' : Frame.summoned id m'.stack =
        (if j = id then names else []) ++ Frame.summoned id stk := by
      rw [hstk', Frame.summoned_append id hfs, Frame.summoned_waking hg]
    by_cases hj : j = id
    · subst hj
      rw [if_pos rfl] at hsummoned hsummoned'
      exact h.rouse hrousing hsummoned hsummoned' (hslots j).1 (hpolled j)
    · rw [if_neg hj] at hsummoned hsummoned'
      refine h.keep ?_ (hsummoned'.trans hsummoned.symm) (by rw [(hslots id).1])
        fun _ => hpolled id
      intro name' heq
      rw [hrousing] at heq
      exact hj (Prod.mk.inj (Option.some.inj heq)).1
  | drops hc hstk => exact absurd hc (ho.control_ne_unwind hstk _)

end Attends

/-! ## What the wakers of a watcher wait above -/

section Grounded

/-- What stands below wakers of a watcher: the announcement of its first state, which it accepted
in this run, to the listeners that were registered then, or its close before it had accepted any. -/
inductive Grounds (run : List (Machine α)) (w : World α) (id : WatcherId) : Frame α → Prop
  | first {y y' : Machine α} {s : Latest α} {ls : List ListenerId} : [y', y] <:+: run →
      y.world.accepted id = [] → y'.world.accepted id = [s] →
      (∀ l, y.world.isRegistered id l = true → l ∈ ls) → Grounds run w id (.announcing id 1 s ls)
  | never {n : Nat} : w.isClosed id = true → w.accepted id = [] → Grounds run w id (.closing id n)

/-- Wherever wakers wait to be woken, there is a reason for it. -/
def Grounded (run : List (Machine α)) (m : Machine α) : Prop :=
  ∀ names g stk id, (.waking names :: g :: stk) <:+ m.stack → names ≠ [] →
    g.completes? = some id → Grounds run m.world id g

theorem suffix_of_suffix_append {f : Frame α} {rest fs stk : List (Frame α)}
    (hf : f.isCompletion = true) (hfs : ∀ g ∈ fs, g.isCompletion = false)
    (h : (f :: rest) <:+ fs ++ stk) : (f :: rest) <:+ stk := by
  induction fs with
  | nil => exact h
  | cons g fs ih =>
    rcases List.suffix_cons_iff.mp h with heq | h
    · have hg := hfs g List.mem_cons_self
      rw [← (List.cons.inj heq).1, hf] at hg
      exact nomatch hg
    · exact ih (fun g hg => hfs g (List.mem_cons_of_mem _ hg)) h

variable [BEq α] {ms : List (Machine α)} {m m' : Machine α} {id : WatcherId}

theorem Grounds.next {f : Frame α} (h : Grounds (m :: ms) m.world id f) (hm : m.WellFormed)
    (hn : m.Next m') : Grounds (m' :: m :: ms) m'.world id f := by
  cases h with
  | first hwithin hnone hfirst hls =>
    exact .first (hwithin.trans (List.suffix_cons _ _).isInfix) hnone hfirst hls
  | never hcl hnone =>
    have hcl' := (hn.extends_world hm).closed hcl
    exact .never hcl' ((hn.accepted_eq_of_closed hm hcl').trans hnone)

/-- The slot of a watcher in which there are wakers is decided. -/
theorem Grounds.decides {b : Watcher α} {g : Frame α} (hm : m.WellFormed) (hn : m.Next m')
    (hd : m.world.Decided) (hb : m.world.watcher? id = some b) (hg : Decides m m' id b g)
    (hne : b.slot.wakers ≠ []) : Grounds (m' :: m :: ms) m'.world id g := by
  have hp : b.slot.isPending = true := by
    by_contra hp
    exact hne (Slot.wakers_of_not_pending (Bool.eq_false_iff.mpr hp))
  have hnone : m.world.accepted id = [] :=
    List.head?_eq_none_iff.mp ((hd.slot hb).isPending_iff.mp hp).2
  cases hg with
  | accepts s hs =>
    have hzero : b.updates = 0 := by
      rw [← World.updates_of_watcher? hb, hm.ledger.updates_eq, hnone]
      rfl
    rw [hzero]
    refine .first ⟨[], ms, rfl⟩ hnone (by rw [hs, hnone]; rfl) fun l hl => ?_
    simpa [World.isRegistered, hb] using hl
  | closes n hcl => exact .never hcl ((hn.accepted_eq_of_closed hm hcl).trans hnone)

theorem Grounded.step (h : Grounded (m :: ms) m) (hstep : m.WakerStep m') (hm : m.WellFormed)
    (hn : m.Next m') (hd : m.world.Decided) : Grounded (m' :: m :: ms) m' := by
  intro names g stk id hsuffix hne hg
  have hold : ∀ {names' : List Name}, names' ≠ [] → (.waking names' :: g :: stk) <:+ m.stack →
      Grounds (m' :: m :: ms) m'.world id g :=
    fun hne' hs => (h _ g stk id hs hne' hg).next hm hn
  have htail : (.waking names :: g :: stk) <:+ m.stack.tail →
      Grounds (m' :: m :: ms) m'.world id g :=
    fun hs => hold hne (hs.trans (List.tail_suffix _))
  cases hstep with
  | rests fs hs hstk hfs hslots hwakers =>
    rw [hstk] at hsuffix
    exact htail (suffix_of_suffix_append rfl hfs hsuffix)
  | @enlists fs j waker hpoll hs hstk hfs hp hslot hpolled hwoken =>
    rw [hstk] at hsuffix
    exact htail (suffix_of_suffix_append rfl hfs hsuffix)
  | completes fs hs hb hg' hstk hfs hp hother hwakers =>
    rw [hstk] at hsuffix
    rcases List.suffix_cons_iff.mp hsuffix with heq | hsuffix
    · obtain ⟨hnames, hrest⟩ := List.cons.inj heq
      obtain rfl := (List.cons.inj hrest).1
      obtain rfl := Option.some.inj (hg.symm.trans hg'.completes?)
      exact Grounds.decides hm hn hd hb hg' (Frame.waking.inj hnames ▸ hne)
    · rcases List.suffix_cons_iff.mp hsuffix with heq | hsuffix
      · rw [← (List.cons.inj heq).1] at hg'
        exact nomatch hg'.completes?
      · exact htail (suffix_of_suffix_append rfl hfs hsuffix)
  | @wakes fs j name names₀ g₀ stk₀ hstk hg' hrousing hstk' hfs hslots hpolled hwoken =>
    rw [hstk'] at hsuffix
    rcases List.suffix_cons_iff.mp (suffix_of_suffix_append rfl hfs hsuffix) with heq | hsuffix
    · refine hold (List.cons_ne_nil name names₀) ?_
      exact (List.cons.inj heq).2 ▸ hstk ▸ List.suffix_refl _
    · exact htail (by rw [hstk]; exact hsuffix)
  | drops hc hstk hworld hstk' =>
    rw [hstk'] at hsuffix
    exact htail (by rw [hstk]; exact hsuffix)

end Grounded

/-! ## Runs in which no waker panics -/

section Runs

variable [BEq α] {ms : List (Machine α)} {m m' : Machine α} {id : WatcherId}

omit [BEq α] in
theorem WakerStep.woken (h : m.WakerStep m')
    (hm : m.world.woken = (roused ms).map Prod.snd) :
    m'.world.woken = (roused (m :: ms)).map Prod.snd := by
  rw [roused_cons, List.map_append, ← hm]
  cases h with
  | rests fs hs hstk hfs hslots hwakers =>
    rw [hs.rousing?, hwakers.woken]
    exact (List.append_nil _).symm
  | enlists fs hpoll hs hstk hfs hp hslot hpolled hwoken =>
    rw [hs.rousing?, hwoken]
    exact (List.append_nil _).symm
  | completes fs hs hb hg hstk hfs hp hother hwakers =>
    rw [hs.rousing?, hwakers.woken]
    exact (List.append_nil _).symm
  | wakes fs hstk hg hrousing hstk' hfs hslots hpolled hwoken =>
    rw [hrousing, hwoken]
    rfl
  | drops hc hstk hworld hstk' =>
    have hnone : m.rousing? = none := by
      unfold rousing?
      rw [hc]
    rw [hnone, hworld]
    exact (List.append_nil _).symm

/-- What is known of the wakers at the end of a run. -/
structure Wakes (ms : List (Machine α)) (m : Machine α) : Prop where
  attends : ∀ id, Attends ms m id
  woken : m.world.woken = (roused ms).map Prod.snd
  grounded : Grounded (m :: ms) m

theorem Run.wakes (h : Run (m :: ms)) (hw : ∀ x ∈ ms, x.wakersCalm = true) : Wakes ms m := by
  generalize hl : m :: ms = l at h
  induction h generalizing m ms with
  | initial =>
    obtain ⟨rfl, rfl⟩ := List.cons.inj hl
    refine ⟨.initial, rfl, fun names g stk id hs => ?_⟩
    simp at hs
  | @next x m' xs hrun hn ih =>
    obtain ⟨rfl, rfl⟩ := List.cons.inj hl
    have hxs : ∀ y ∈ xs, y.wakersCalm = true := fun y hy => hw y (List.mem_cons_of_mem _ hy)
    have hwakes := ih hxs rfl
    have hreached : x.Reached fun y => y.wakersCalm = true := hrun.reached hxs x rfl
    have hm := hreached.wellFormed
    have hstep := hn.wakerStep hm
    have ho := hreached.orderly fun _ hx => hx
    exact ⟨fun id => (hwakes.attends id).step hstep ho hreached.left, hstep.woken hwakes.woken,
      hwakes.grounded.step hstep hm hn hreached.decided⟩

end Runs

/-! ## No wake-up is lost, and none is spurious -/

section Wakeups

variable [BEq α] {ms : List (Machine α)} {m m' : Machine α} {id : WatcherId}

/-- What the first value of a watcher has come to when its wakers are woken. -/
inductive Timely (run : List (Machine α)) (w : World α) (id : WatcherId) :
    Except WatchError (Latest α) → Prop
  /-- It accepted its first state in this run, there is a latest state, and none of the listeners
  that were registered when it did so has been handed the first update. -/
  | first {y y' : Machine α} {s t : Latest α} : [y', y] <:+: run → y.world.accepted id = [] →
      y'.world.accepted id = [s] → w.latest? id = some t →
      (∀ task ∈ Event.handovers w.events, task.watcher = id → task.update = 1 →
        y.world.isRegistered id task.listener = false) → Timely run w id (.ok s)
  /-- It was closed before it had accepted any. -/
  | never : w.isClosed id = true → w.accepted id = [] → Timely run w id (.error .cancelled)

omit [BEq α] in
theorem rousing?_eq_some {name : Name} (h : m.rousing? = some (id, name)) :
    ∃ names g stk, m.stack = .waking (name :: names) :: g :: stk ∧ g.completes? = some id := by
  unfold rousing? at h
  split at h
  · exact nomatch h
  · rename_i name' names g stk hstk _
    obtain ⟨j, hg, heq⟩ := Option.map_eq_some_iff.mp h
    obtain ⟨rfl, rfl⟩ := Prod.mk.inj heq
    exact ⟨names, g, stk, hstk, hg⟩
  · exact nomatch h

omit [BEq α] in
theorem Wakes.timely (h : Wakes ms m) (hm : m.WellFormed) (hs : m.Serving) {name : Name}
    (hr : m.rousing? = some (id, name)) :
    ∃ r, Timely (m :: ms) m.world id r ∧ m.world.initial? id = some r := by
  obtain ⟨names, g, stk, hstk, hg⟩ := rousing?_eq_some hr
  have hsuffix : (.waking (name :: names) :: g :: stk) <:+ m.stack :=
    hstk ▸ List.suffix_refl _
  cases h.grounded _ g stk id hsuffix (List.cons_ne_nil name names) hg with
  | @first y y' s ls hwithin hnone hfirst hls =>
    have hstacked := hm.stacked
    rw [hstk] at hstacked
    have hgenuine : m.world.Genuine id 1 s := hstacked.2.1.1
    obtain ⟨k, hk, hget⟩ := hgenuine
    obtain rfl : k = 0 := by omega
    have hhead : (m.world.accepted id).head? = some s := by rw [List.head?_eq_getElem?, hget]
    have hlast : ((m.world.accepted id).getLast?).isSome = true := by
      rw [List.getLast?_isSome, ← List.isSome_head?, hhead]
      rfl
    obtain ⟨t, ht⟩ := Option.isSome_iff_exists.mp hlast
    refine ⟨.ok s, .first hwithin hnone hfirst ((hm.ledger.latest_eq id).trans ht) ?_, ?_⟩
    · intro task htask hwatcher hupdate
      have hdue : ⟨id, 1, ls⟩ ∈ Frame.dues m.stack := by
        rw [hstk]
        exact List.mem_cons_self
      refine Bool.eq_false_iff.mpr fun hregistered => ?_
      exact (hs.awaits _ hdue).unserved task htask hwatcher hupdate (hls _ hregistered)
    · unfold World.initial?
      rw [hhead]
  | never hcl hnone =>
    refine ⟨.error .cancelled, .never hcl hnone, ?_⟩
    unfold World.initial?
    rw [hnone, hcl]
    rfl

omit [BEq α] in
/-- Once the first value has come to something, that is what a poll answers. -/
theorem poll_of_initial? {w : World α} (hd : w.Decided) (hw : w.Ledger)
    {r : Except WatchError (Latest α)} (hr : w.initial? id = some r) {future : Name}
    (hf : w.futures.lookup future = some id) (waker : Name) (actions : Actions α)
    (stk : List (Frame α)) (c : Control α) :
    (pollFuture ⟨w, stk, c⟩ future waker actions).control = .answer (Query.stateAnswer r) := by
  cases hb : w.watcher? id with
  | none =>
    have hpending := hd.isPending_eq hw id
    unfold World.slot at hpending
    rw [hb, hr] at hpending
    exact nomatch hpending
  | some b =>
    rw [(hd.consults hw hb).poll hf]
    unfold World.report
    rw [hr]

omit [BEq α] in
theorem Polls.polled {waker : Name} (h : m.Polls m' id waker) :
    m'.world.polled id = m.world.polled id ++ [waker] := by
  obtain ⟨x, future, actions, hw, hf, rfl, hc⟩ := h
  rcases deeds_pollFuture x future waker actions with ⟨-, hne⟩ | ⟨j, hfx, hdeeds⟩
  · exact absurd hc hne
  · rw [hw] at hfx hdeeds
    obtain rfl := Option.some.inj (hf.symm.trans hfx)
    rw [World.polled_of_deeds hdeeds]
    simp [Event.enlisted?]

omit [BEq α] in
/-- The polls that answer that the slot is pending are those that leave a waker. -/
theorem WakerStep.polls (h : m.WakerStep m') (id : WatcherId) :
    (∃ waker, m.Polls m' id waker ∧ m'.world.polled id = m.world.polled id ++ [waker]) ∨
      m'.world.polled id = m.world.polled id ∧ ∀ waker, ¬ m.Polls m' id waker := by
  have hnot : m'.world.polled id = m.world.polled id → ∀ waker, ¬ m.Polls m' id waker := by
    intro heq waker hpoll
    exact absurd (hpoll.polled.symm.trans heq) (by simp)
  cases h with
  | rests fs hs hstk hfs hslots hwakers =>
    exact .inr ⟨hwakers.polled id, hnot (hwakers.polled id)⟩
  | @enlists fs j waker hpoll hs hstk hfs hp hslot hpolled hwoken =>
    by_cases hj : j = id
    · subst hj
      exact .inl ⟨waker, hpoll, hpoll.polled⟩
    · have heq : m'.world.polled id = m.world.polled id := by
        rw [hpolled, if_neg hj, List.append_nil]
      exact .inr ⟨heq, hnot heq⟩
  | completes fs hs hb hg hstk hfs hp hother hwakers =>
    exact .inr ⟨hwakers.polled id, hnot (hwakers.polled id)⟩
  | wakes fs hstk hg hrousing hstk' hfs hslots hpolled hwoken =>
    exact .inr ⟨hpolled id, hnot (hpolled id)⟩
  | drops hc hstk hworld hstk' =>
    have heq : m'.world.polled id = m.world.polled id := by rw [hworld]
    exact .inr ⟨heq, hnot heq⟩

/-- What the first value has come to stays. -/
theorem Later.initial?_isSome {P : Machine α → Prop} (h : m.Later P m') (hm : m.WellFormed)
    (hi : (m.world.initial? id).isNone = false) : (m'.world.initial? id).isSome = true := by
  have hx := h.extends_world hm
  obtain ⟨es, he⟩ := hx.events
  have haccepted : m'.world.accepted id = m.world.accepted id ++ Event.accepted id es := by
    unfold World.accepted
    rw [← he, Event.accepted_append]
  unfold World.initial? at hi ⊢
  rw [haccepted]
  cases hstates : m.world.accepted id with
  | cons s states => rfl
  | nil =>
    have hcl : m.world.isClosed id = true := by
      rw [hstates] at hi
      cases hcl : m.world.isClosed id with
      | true => rfl
      | false =>
        rw [hcl] at hi
        exact nomatch hi
    rw [hx.closed hcl]
    cases Event.accepted id es <;> rfl

/-- Who waits in the slots of a machine `m` that comes after the machines `ms`, and who is woken. -/
structure WakesPolled (m : Machine α) (ms : List (Machine α)) : Prop where
  pending : ∀ id, (m.world.slot id).isPending = true →
    (m.world.slot id).wakers = (m.world.polled id).eraseDups ∧ rousedFor id ms = []
  decided : ∀ id, (m.world.slot id).isPending = false →
    rousedFor id ms ++ Frame.summoned id m.stack = (m.world.polled id).eraseDups
  woken : m.world.woken = (roused ms).map Prod.snd
  timely : ∀ id name, m.rousing? = some (id, name) → ∃ r, Timely (m :: ms) m.world id r ∧
    ∀ future, m.world.futures.lookup future = some id → ∀ waker actions stk c,
      (pollFuture ⟨m.world, stk, c⟩ future waker actions).control =
        .answer (Query.stateAnswer r)
  polls : ∀ m' id, m.Next m' →
    (∃ waker, m.Polls m' id waker ∧ m'.world.polled id = m.world.polled id ++ [waker]) ∨
      m'.world.polled id = m.world.polled id ∧ ∀ waker, ¬ m.Polls m' id waker
  ready : ∀ m' id, (m.world.slot id).isPending = false → m.Later (fun _ => True) m' →
    ∀ future, m'.world.futures.lookup future = some id → ∀ waker actions stk c,
      (pollFuture ⟨m'.world, stk, c⟩ future waker actions).control ≠ .answer .pending

/-- In every run in which no waker panics: while the slot of a watcher is pending, it holds the
wakers that its futures were polled with, each once, in the order of their first polls. Those are
the ones that are woken once it is decided, each once, in this order; when nothing is under way, all
of them have been. Nobody else is ever woken. When a waker is about to be woken, a poll is ready,
after a first state there is a latest one, and no listener that was registered when the first state
was accepted has been handed it. No later poll answers that the slot is pending. -/
theorem wakeups_are_exact (h : Run (m :: ms)) (hw : ∀ x ∈ ms, x.wakersCalm = true) :
    m.WakesPolled ms := by
  have hreached : m.Reached fun x => x.wakersCalm = true := h.reached hw m rfl
  have hm := hreached.wellFormed
  have hwakes := h.wakes hw
  have hd := hreached.decided
  refine
    { pending := fun id hp => ⟨hreached.left hp, ((hwakes.attends id).pending hp).1⟩
      decided := fun id => (hwakes.attends id).decided
      woken := hwakes.woken
      timely := fun id name hr => ?_
      polls := fun m' id hn => (hn.wakerStep hm).polls id
      ready := fun m' id hp hl future hf waker actions stk c => ?_ }
  · obtain ⟨r, htimely, hinitial⟩ := hwakes.timely hm hreached.serving hr
    exact ⟨r, htimely, fun future hf waker actions stk c =>
      poll_of_initial? hd hm.ledger hinitial hf waker actions stk c⟩
  · have hreached' := (hreached.mono fun _ _ => trivial).later hl
    have hdecided := hl.initial?_isSome hm ((hd.isPending_eq hm.ledger id).symm.trans hp)
    obtain ⟨r, hr⟩ := Option.isSome_iff_exists.mp hdecided
    rw [poll_of_initial? hreached'.decided hreached'.wellFormed.ledger hr hf]
    cases r <;> simp [Query.stateAnswer]

end Wakeups

/-! ### Wakers that push, poll and close -/

/-- A root with a listener and two wakers in its slot: the first pushes a newer state and polls
again, the second closes the root. -/
def polledTwice : Machine Nat :=
  ({ world := {} } : Machine Nat).carry 8
    [.root "r" "r" false, .watch "r" "l" false .inline (fun _ => []) (fun _ => []),
      .future "f" (.watcher "r"), .future "g" (.future "f"),
      .futurePoll "f" "k" fun _ => [.push "r" ⟨2⟩ ⟨20, 20⟩, .futurePoll "f" "i" fun _ => []],
      .futurePoll "g" "j" fun _ => [.close "r"], .futurePoll "g" "k" fun _ => []]

def firstPush (n : Nat) : Machine Nat :=
  (polledTwice.world.start (.push "r" ⟨1⟩ ⟨10, 10⟩)).steps n

theorem reached_firstPush {n : Nat} (hn : n ≤ 26) :
    (firstPush n).Reached fun m => m.wakersCalm = true := by
  have hpolled : polledTwice.Reached fun m => m.wakersCalm = true :=
    Reached.carry .initial (by decide +kernel)
  have hcalm : ∀ k < 26, (firstPush k).wakersCalm = true := by decide +kernel
  exact hpolled.begin (by decide +kernel) (by decide +kernel) fun k hk => hcalm k (by omega)

theorem wakeups_are_exact_reentrant :
    (∃ ms, Run (firstPush 14 :: ms) ∧ rousedFor 0 ms = ["k"] ∧
      (∃ r, Timely (firstPush 14 :: ms) (firstPush 14).world 0 r) ∧
      ((firstPush 14).world.callsTo 0 ⟨1⟩).map Task.update = [2]) ∧
    ∃ ms, Run (firstPush 26 :: ms) ∧ (firstPush 26).stack.isEmpty = true ∧
      (firstPush 26).world.polled 0 = ["k", "j", "k"] ∧ rousedFor 0 ms = ["k", "j"] ∧
      (firstPush 26).world.woken = ["k", "j"] := by
  obtain ⟨ms, hrun, hcalm⟩ := (reached_firstPush (n := 14) (by decide)).run
  obtain ⟨ms', hrun', hcalm'⟩ := (reached_firstPush (Nat.le_refl 26)).run
  have hwakes := wakeups_are_exact hrun hcalm
  have hwakes' := wakeups_are_exact hrun' hcalm'
  have hstack : (firstPush 26).stack.isEmpty = true := by decide +kernel
  refine ⟨⟨ms, hrun, ?_, ?_, by with_unfolding_all rfl⟩, ms', hrun', hstack,
    by with_unfolding_all rfl, ?_, by with_unfolding_all rfl⟩
  · have heq := hwakes.decided 0 (by decide +kernel)
    have hleft : Frame.summoned 0 (firstPush 14).stack = ["j"] := by with_unfolding_all rfl
    have hall : ((firstPush 14).world.polled 0).eraseDups = ["k", "j"] := by decide +kernel
    rw [hleft, hall] at heq
    exact List.append_cancel_right (heq.trans (show ["k", "j"] = ["k"] ++ ["j"] from rfl))
  · obtain ⟨r, hr, -⟩ := hwakes.timely 0 "j" (by with_unfolding_all rfl)
    exact ⟨r, hr⟩
  · have heq := hwakes'.decided 0 (by decide +kernel)
    have hall : ((firstPush 26).world.polled 0).eraseDups = ["k", "j"] := by decide +kernel
    rw [List.isEmpty_iff.mp hstack, hall] at heq
    exact (List.append_nil _).symm.trans heq

end Machine

end WatchTree
