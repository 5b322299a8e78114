import WatchTree.Proofs.Removal

/-!
# The first value

The slot of a watcher's first value is changed by two operations, and is a cell of its own beside
the latest state, the number of updates and whether the watcher is closed.

1. `Slot.Decided` says what the slot is, given the first accepted state and whether the watcher is
   closed; all moves and runs preserve it (`Reached.decided`).
2. What is accepted only grows, and a closed watcher accepts nothing, so a decided slot stays.
3. Everything that reads the slot answers by `World.initial?`, which does not mention it, and so
   does a thread that waits for it while others act (`WakesUp.awaits`).
-/

namespace WatchTree

variable {α : Type}

/-- The slot is what it should be, given the first accepted state and whether the watcher is
closed. -/
def Slot.Decided : Slot α → Option (Latest α) → Bool → Prop
  | .pending _, first, closed => first = none ∧ closed = false
  | .set s, first, _ => first = some s
  | .abandoned, first, closed => first = none ∧ closed = true

namespace Slot.Decided

variable {slot : Slot α} {first : Option (Latest α)} {closed : Bool}

theorem enlist (h : slot.Decided first closed) (waker : Name) :
    (slot.enlist waker).Decided first closed := by
  cases slot <;> exact h

theorem abandon (h : slot.Decided first closed) : slot.abandon.Decided first true := by
  cases slot with
  | pending ws => exact ⟨h.1, rfl⟩
  | set s => exact h
  | abandoned => exact ⟨h.1, rfl⟩

/-- An open watcher accepts a state, which may be its first. -/
theorem complete {states : List (Latest α)} (h : slot.Decided states.head? false)
    (s : Latest α) : (slot.complete s).Decided (states ++ [s]).head? false := by
  cases slot with
  | pending ws =>
    obtain rfl := List.head?_eq_none_iff.mp h.1
    rfl
  | set first =>
    show (states ++ [s]).head? = some first
    have hfirst : states.head? = some first := h
    rw [List.head?_append, hfirst]
    rfl
  | abandoned => exact nomatch h.2

theorem first?_eq (h : slot.Decided first closed) : slot.first? = first := by
  cases slot with
  | pending ws => exact h.1.symm
  | set s => exact h.symm
  | abandoned => exact h.1.symm

theorem set_iff (h : slot.Decided first closed) (s : Latest α) :
    slot = .set s ↔ first = some s := by
  cases slot with
  | pending ws => simp [h.1]
  | set t =>
    obtain rfl : first = some t := h
    simp
  | abandoned => simp [h.1]

theorem abandoned_iff (h : slot.Decided first closed) :
    slot = .abandoned ↔ closed = true ∧ first = none := by
  cases slot with
  | pending ws => simp [h.2]
  | set s =>
    obtain rfl : first = some s := h
    simp
  | abandoned => simp [h.1, h.2]

theorem isPending_iff (h : slot.Decided first closed) :
    slot.isPending = true ↔ closed = false ∧ first = none := by
  cases slot with
  | pending ws => simp [isPending, h.1, h.2]
  | set s =>
    obtain rfl : first = some s := h
    simp [isPending]
  | abandoned => simp [isPending, h.2]

end Slot.Decided

namespace Slot

theorem outcome?_eq_none_iff {slot : Slot α} : slot.outcome? = none ↔ slot.isPending = true := by
  cases slot <;> simp [outcome?, isPending]

theorem outcome?_eq_ok_iff {slot : Slot α} {s : Latest α} :
    slot.outcome? = some (.ok s) ↔ slot = .set s := by
  cases slot <;> simp [outcome?]

theorem outcome?_eq_cancelled_iff {slot : Slot α} :
    slot.outcome? = some (.error .cancelled) ↔ slot = .abandoned := by
  cases slot <;> simp [outcome?]

theorem outcome?_ne_timeout (slot : Slot α) (d : Duration) :
    slot.outcome? ≠ some (.error (.timeout d)) := by
  cases slot <;> simp [outcome?]

/-! ## Waiting -/

/-- A wait ends for want of time where its bound has run out for the first time, if the slot is
pending there and was so whenever the thread had woken before. -/
theorem await_eq_timeout_iff {slot : Slot α} {limit : Option Duration}
    {found : List (Wakeup α)} {d : Duration} :
    slot.await limit found = some (.error (.timeout d)) ↔
      limit = some d ∧ slot.isPending = true ∧ ∃ before x after, found = before ++ x :: after ∧
        x.timedOut = true ∧ x.slot.isPending = true ∧
        ∀ y ∈ before, y.timedOut = false ∧ y.slot.isPending = true := by
  induction found generalizing slot with
  | nil => simp [await, outcome?_ne_timeout]
  | cons a rest ih =>
    have hsplit : (∃ before x after, a :: rest = before ++ x :: after ∧ x.timedOut = true ∧
        x.slot.isPending = true ∧ ∀ y ∈ before, y.timedOut = false ∧ y.slot.isPending = true) ↔
        (a.timedOut = true ∧ a.slot.isPending = true) ∨
          (a.timedOut = false ∧ a.slot.isPending = true ∧ ∃ before x after,
            rest = before ++ x :: after ∧ x.timedOut = true ∧ x.slot.isPending = true ∧
            ∀ y ∈ before, y.timedOut = false ∧ y.slot.isPending = true) := by
      constructor
      · rintro ⟨before, x, after, heq, hx, hpend, hbefore⟩
        cases before with
        | nil =>
          obtain ⟨rfl, rfl⟩ := List.cons.inj heq
          exact .inl ⟨hx, hpend⟩
        | cons y before =>
          obtain ⟨rfl, rfl⟩ := List.cons.inj heq
          obtain ⟨ha, hrest⟩ := List.forall_mem_cons.mp hbefore
          exact .inr ⟨ha.1, ha.2, before, x, after, rfl, hx, hpend, hrest⟩
      · rintro (⟨ha, hpend⟩ | ⟨ha, hpend, before, x, after, rfl, hx, hxpend, hbefore⟩)
        · exact ⟨[], a, rest, rfl, ha, hpend, by simp⟩
        · exact ⟨a :: before, x, after, rfl, hx, hxpend, List.forall_mem_cons.mpr
            ⟨⟨ha, hpend⟩, hbefore⟩⟩
    rw [hsplit]
    cases hs : slot.outcome? with
    | some r =>
      have hpend : slot.isPending = false := by
        rw [← Bool.not_eq_true, ← outcome?_eq_none_iff, hs]
        exact Option.some_ne_none r
      have hne := outcome?_ne_timeout slot d
      rw [hs] at hne
      simp [await, hs, hpend, hne]
    | none =>
      have hpend := outcome?_eq_none_iff.mp hs
      cases limit with
      | none => simp [await, hs, ih]
      | some limit =>
        cases ha : a.timedOut with
        | false => simp [await, hs, ha, ih, hpend]
        | true =>
          cases hout : a.slot.outcome? with
          | none => simp [await, hs, ha, hout, hpend, outcome?_eq_none_iff.mp hout]
          | some r =>
            have hne := outcome?_ne_timeout a.slot d
            rw [hout] at hne
            have hdecided : a.slot.isPending = false := by
              rw [← Bool.not_eq_true, ← outcome?_eq_none_iff, hout]
              exact Option.some_ne_none r
            simp [await, hs, ha, hout, hdecided, hne]

end Slot

namespace World

/-! ## Slots after a change -/

/-- The slot of a watcher's first value. A watcher that does not exist has none yet. -/
def slot (w : World α) (id : WatcherId) : Slot α :=
  ((w.watcher? id).map Watcher.slot).getD (.pending [])

theorem slot_of_watcher? {w : World α} {id : WatcherId} {b : Watcher α}
    (h : w.watcher? id = some b) : w.slot id = b.slot := by
  unfold slot
  rw [h]
  rfl

theorem slot_modify (w : World α) (id j : WatcherId) {f : Watcher α → Watcher α}
    (hf : ∀ b, (f b).slot = b.slot) : (w.modify id f).slot j = w.slot j := by
  unfold slot
  rw [map_watcher?_modify hf]

theorem slot_addWatcher (w : World α) (b : Watcher α) (j : WatcherId)
    (hb : b.slot = .pending []) : (w.addWatcher b).slot j = w.slot j := by
  unfold slot
  rw [watcher?_addWatcher]
  split
  · subst j
    rw [watcher?_length]
    exact hb
  · rfl

/-- The slots are the same, and the same watchers are closed. -/
def SameSlots (w w' : World α) : Prop :=
  ∀ id, w'.slot id = w.slot id ∧ w'.isClosed id = w.isClosed id

namespace SameSlots

variable {w w' w'' : World α}

theorem refl (w : World α) : w.SameSlots w := fun _ => ⟨rfl, rfl⟩

theorem trans (h : w.SameSlots w') (h' : w'.SameSlots w'') : w.SameSlots w'' :=
  fun id => ⟨(h' id).1.trans (h id).1, (h' id).2.trans (h id).2⟩

theorem of_eq (h : w'.watchers = w.watchers) : w.SameSlots w' := by
  intro id
  unfold slot isClosed watcher?
  rw [h]
  exact ⟨rfl, rfl⟩

theorem modify (w : World α) (id : WatcherId) {f : Watcher α → Watcher α}
    (hslot : ∀ b, (f b).slot = b.slot) (hclosed : ∀ b, (f b).closed = b.closed) :
    w.SameSlots (w.modify id f) :=
  fun j => ⟨slot_modify w id j hslot, isClosed_modify w id j hclosed⟩

theorem drop (w : World α) (id : WatcherId) :
    w.SameSlots (w.modify id fun b => { b with dropped := true }) :=
  .modify w id (fun _ => rfl) fun _ => rfl

theorem addWatcher (w : World α) (name : String) (origin : Origin α) :
    w.SameSlots (w.addWatcher { name, origin }) :=
  fun j => ⟨slot_addWatcher w _ j rfl, isClosed_addWatcher w _ j rfl⟩

theorem joins {id : WatcherId} {b : Watcher α} {listener : Listener α} {executor : Executor α}
    (h : w.Joins id b listener executor w') : w.SameSlots w' := by
  cases h with
  | observer => exact .refl w
  | child name d => exact .addWatcher w name _

theorem dispatches {stk stk' : List (Frame α)} {t : Task α} (h : w.Dispatches stk t w' stk') :
    w.SameSlots w' := by
  cases h with
  | spread => exact .modify _ _ (fun _ => rfl) fun _ => rfl
  | @replay id b s listener executor w₁ stk p todo hb hcl hl hjoin hreg =>
    have henrol : w₁.SameSlots (w₁.enrol id listener executor) :=
      .modify _ _ (fun _ => rfl) fun _ => rfl
    exact ((joins hjoin).trans henrol).trans (.modify _ _ (fun _ => rfl) fun _ => rfl)

theorem takes {stk stk' : List (Frame α)} {t : Task α} (h : w.Takes stk t w' stk') :
    w.SameSlots w' := by
  cases h with
  | dispatched hd => exact dispatches hd
  | drained => exact .refl w
  | picked => exact .refl w

theorem ran {t : Task α} {frames : List (Frame α)} (h : w.Ran t w' frames) : w.SameSlots w' := by
  cases h with
  | inactive => exact .of_eq rfl
  | stale => exact .of_eq rfl
  | called => exact .modify _ _ (fun _ => rfl) fun _ => rfl

theorem detaches {id : WatcherId} {message : String → Diagnostic}
    (h : w.Detaches id message w') : w.SameSlots w' := by
  cases h with
  | @found p l d q name parent =>
    have hout : w.SameSlots (w.unregister p l) := .modify w p (fun _ => rfl) fun _ => rfl
    exact hout.trans (.of_eq rfl)
  | missing => exact .refl w

theorem rebuffs [BEq α] {id : WatcherId} {b : Watcher α} {s : Latest α} {reception : Reception}
    (h : w.Rebuffs id b s reception w') : w.SameSlots w' := by
  cases h <;> exact .of_eq rfl

end SameSlots

/-! ## Every slot is what it should be -/

/-- Every slot is what it should be. -/
def Decided (w : World α) : Prop :=
  ∀ id, (w.slot id).Decided (w.accepted id).head? (w.isClosed id)

namespace Decided

variable {w w' : World α} (h : w.Decided)

include h

theorem keep (hsame : w.SameSlots w') (haccepted : ∀ id, w'.accepted id = w.accepted id) :
    w'.Decided := by
  intro id
  rw [(hsame id).1, (hsame id).2, haccepted]
  exact h id

theorem enlist (id : WatcherId) (waker : Name) :
    (w.modify id fun b => { b with slot := b.slot.enlist waker }).Decided := by
  intro j
  have hold := h j
  have hclosed : (w.modify id fun b => { b with slot := b.slot.enlist waker }).isClosed j =
      w.isClosed j := isClosed_modify w id j fun _ => rfl
  rw [hclosed]
  show Slot.Decided _ (w.accepted j).head? _
  unfold slot at hold ⊢
  rw [watcher?_modify]
  split
  · cases hb : w.watcher? j with
    | none =>
      rw [hb] at hold
      exact hold
    | some b =>
      rw [hb] at hold
      exact Slot.Decided.enlist hold waker
  · exact hold

theorem close (id : WatcherId) : (w.modify id Watcher.close).Decided := by
  intro j
  have hold := h j
  show Slot.Decided _ (w.accepted j).head? _
  unfold slot isClosed at hold ⊢
  rw [watcher?_modify]
  split
  · cases hb : w.watcher? j with
    | none =>
      rw [hb] at hold
      exact hold
    | some b =>
      rw [hb] at hold
      exact Slot.Decided.abandon hold
  · exact hold

theorem adopt (p q : Bool) (name : String) {id : WatcherId} {b : Watcher α} (s : Latest α)
    (hb : w.watcher? id = some b) (hcl : b.closed = false) :
    (w.adopt p q name id b s).Decided := by
  intro j
  have hold := h j
  have hslot : (w.adopt p q name id b s).slot j =
      ((w.note p (.offered id s .accepted)).modify id (·.accept s)).slot j := by
    unfold World.adopt
    simp only
    split <;> rfl
  have hclosed : (w.adopt p q name id b s).isClosed j = w.isClosed j :=
    ((alike_adopt w p q name id b s).closed j).trans
      (isClosed_modify _ id j fun b => Watcher.accept_closed b s)
  rw [hslot, hclosed, accepted_adopt]
  by_cases hj : id = j
  · subst hj
    rw [isClosed_of_watcher? hb, hcl, slot_of_watcher? hb] at hold
    rw [isClosed_of_watcher? hb, hcl, if_pos rfl,
      slot_of_watcher? (watcher?_modify_self (w := w.note p _) hb _)]
    exact hold.complete s
  · rw [if_neg hj, List.append_nil]
    unfold slot at hold ⊢
    rw [watcher?_modify_of_ne _ hj]
    exact hold

end Decided

end World

/-! ## Moves and runs -/

section Moves

variable [BEq α] {P : Machine α → Prop} {m m' : Machine α}

theorem Move.decided (h : Move P m m') (hd : m.world.Decided) : m'.world.Decided := by
  have hnote : ∀ (w : World α) (p : Bool) {e : Event α}, e.isQuiet = true → w.Decided →
      (w.note p e).Decided := fun w p _ he hw =>
    hw.keep (.of_eq rfl) (World.Alike.note w p he).accepted
  cases h with
  | remark p he => exact hnote _ p (Event.isQuiet_of_isIdle he) hd
  | rename hw hq hh hr =>
    exact hd.keep (.of_eq hw) (World.accepted_of_events_eq (World.events_eq_of_history hh))
  | enlist p waker hb hp => exact (hnote _ p rfl hd).enlist _ waker
  | drop ho hdr hdet =>
    exact hd.keep ((World.SameSlots.drop _ _).trans (.detaches hdet)) hdet.accepted_eq
  | plant name => exact hd.keep (.addWatcher _ name _) fun _ => rfl
  | enrol hb hcl hl hj =>
    exact hd.keep ((World.SameSlots.joins hj).trans (.modify _ _ (fun _ => rfl) fun _ => rfl))
      (World.accepted_of_events_eq (by rw [World.events_enrol, hj.events_eq]))
  | reserve hb hcl hj =>
    exact hd.keep ((World.SameSlots.joins hj).trans (.modify _ _ (fun _ => rfl) fun _ => rfl))
      (World.accepted_of_events_eq (by rw [World.events_reserve, hj.events_eq]))
  | unwatch p hr =>
    exact (hnote _ p rfl hd).keep (.modify _ _ (fun _ => rfl) fun _ => rfl) fun _ => rfl
  | miss p hr => exact hnote _ p rfl hd
  | close hc hb hcl hs => exact hd.close _
  | finish q name hc hdet => exact (hnote _ q rfl hd).keep (.detaches hdet) hdet.accepted_eq
  | wake p hc => exact hnote _ p rfl hd
  | rebuff hb ho hr => exact hd.keep (.rebuffs hr) hr.alike.accepted
  | accept p q name hc hb ho hcl hr hs => exact hd.adopt p q name _ hb hcl
  | fail p q name ho hout hy => exact hnote _ q rfl (hnote _ p rfl hd)
  | suppress p hc hb ho hy hr => exact (hnote _ p rfl hd).keep (.rebuffs hr) hr.alike.accepted
  | announce q name hc => exact hnote _ q rfl hd
  | derive o p q name hok hc hb ho hy hcl hr =>
    exact (hnote _ o rfl hd).adopt p q name _ hb hcl
  | defer hc hd' hr hi => exact hd.keep (.dispatches hd') hd'.accepted_eq
  | _ => exact hd

omit [BEq α] in
theorem Runs.decided {t : Task α} (h : Runs m t m') (hd : m.world.Decided) :
    m'.world.Decided := by
  refine hd.keep ?_ h.accepted_eq
  cases h with
  | mk hc ht hr => exact (World.SameSlots.takes ht).trans (.ran hr)

theorem Machine.Reached.decided (h : m.Reached P) : m.world.Decided :=
  (h.invariant (I := fun m => m.world.Decided) (fun _ => ⟨rfl, rfl⟩)
    (fun _ hd hmove => hmove.decided hd) fun _ hd hruns => hruns.decided hd).2

end Moves

/-! ## What is decided stays decided -/

namespace World

/-- The three states of a slot, by what the watcher has accepted and whether it is closed. -/
structure Lifecycle (w : World α) (id : WatcherId) (b : Watcher α) : Prop where
  set_iff_latest : (∃ s, b.slot = .set s) ↔ b.latest.isSome = true
  set_iff_updates : (∃ s, b.slot = .set s) ↔ 0 < b.updates
  set_iff_first : ∀ s, b.slot = .set s ↔ (w.accepted id).head? = some s
  abandoned_iff : b.slot = .abandoned ↔ b.closed = true ∧ w.accepted id = []
  pending_iff : b.slot.isPending = true ↔ b.closed = false ∧ w.accepted id = []

variable {w : World α} {id : WatcherId} {b : Watcher α}

theorem Decided.slot (h : w.Decided) (hb : w.watcher? id = some b) :
    b.slot.Decided (w.accepted id).head? b.closed := by
  rw [← slot_of_watcher? hb, ← isClosed_of_watcher? hb]
  exact h id

theorem Decided.lifecycle (h : w.Decided) (hw : w.Ledger) (hb : w.watcher? id = some b) :
    w.Lifecycle id b := by
  have hslot := h.slot hb
  have hset : (∃ s, b.slot = .set s) ↔ w.accepted id ≠ [] := by
    simp only [hslot.set_iff]
    rw [← Option.isSome_iff_exists, List.isSome_head?]
  exact
    { set_iff_latest := by
        rw [hset, ← latest?_of_watcher? hb, hw.latest_eq, List.getLast?_isSome]
      set_iff_updates := by
        rw [hset, ← updates_of_watcher? hb, hw.updates_eq, List.length_pos_iff]
      set_iff_first := hslot.set_iff
      abandoned_iff := by rw [hslot.abandoned_iff, List.head?_eq_none_iff]
      pending_iff := by rw [hslot.isPending_iff, List.head?_eq_none_iff] }

end World

/-! ## Who reads the slot -/

namespace World

/-- What the first value has come to, if anything: the first accepted state, or no state any more
once the watcher was closed without one. -/
def initial? (w : World α) (id : WatcherId) : Option (Except WatchError (Latest α)) :=
  match (w.accepted id).head? with
  | some s => some (.ok s)
  | none => if w.isClosed id then some (.error .cancelled) else none

theorem Decided.outcome?_slot {w : World α} (h : w.Decided) (id : WatcherId) :
    (w.slot id).outcome? = w.initial? id := by
  have hslot := h id
  unfold initial?
  cases hs : w.slot id with
  | pending ws =>
    rw [hs] at hslot
    rw [hslot.1, hslot.2]
    rfl
  | set s =>
    rw [hs] at hslot
    have hfirst : (w.accepted id).head? = some s := hslot
    rw [hfirst]
    rfl
  | abandoned =>
    rw [hs] at hslot
    rw [hslot.1, hslot.2]
    rfl

theorem Decided.outcome?_eq {w : World α} (h : w.Decided) {id : WatcherId} {b : Watcher α}
    (hb : w.watcher? id = some b) : b.slot.outcome? = w.initial? id := by
  rw [← slot_of_watcher? hb]
  exact h.outcome?_slot id

/-- The answer about a first value, if it is decided, and another one if it is not. -/
def report (w : World α) (id : WatcherId) (decided : Except WatchError (Latest α) → Answer α)
    (undecided : Answer α) : Answer α :=
  match w.initial? id with
  | some r => decided r
  | none => undecided

/-- What a wait for a first value answers while there is none: the fallback, or an error, if there
is a bound and it runs out; it lasts otherwise. -/
def waitInVain (limit : Option Bound) (fallback : Option α) : Answer α :=
  match limit, fallback with
  | some ⟨_, true⟩, some v => .value v
  | some ⟨d, true⟩, none => .failed (.timeout d)
  | _, _ => .blocked

/-- All that reads the first value of a watcher answers by what it has come to. -/
structure Consults (w : World α) (id : WatcherId) (b : Watcher α) : Prop where
  /-- A future stands for the slot of its watcher, -/
  future : ∀ {f}, w.futures.lookup f = some id → w.future? f = some b.slot
  /-- also one that was taken from another. -/
  cloned : ∀ {f}, w.futures.lookup f = some id → ∀ name stk c,
    (Machine.nameFuture ⟨w, stk, c⟩ name (.future f)).world.futures.lookup name = some id
  taken : ∀ {watcher h}, w.resolve? watcher = some (h, b) → h.target = id → ∀ name stk c,
    (Machine.nameFuture ⟨w, stk, c⟩ name (.watcher watcher)).world.futures.lookup name = some id
  done : ∀ {f}, w.futures.lookup f = some id →
    (Query.futureDone f).answer w = .bool (w.accepted id).head?.isSome
  get : ∀ {f}, w.futures.lookup f = some id →
    (Query.futureGet f).answer w =
      match (w.accepted id).head? with
      | some s => .state s
      | none => .noState
  poll : ∀ {f}, w.futures.lookup f = some id → ∀ waker actions stk c,
    (Machine.pollFuture ⟨w, stk, c⟩ f waker actions).control =
      .answer (w.report id Query.stateAnswer .pending)
  /-- A thread that begins to wait for a future waits for the slot of its watcher. -/
  started : ∀ {f name}, w.futures.lookup f = some id → w.waiters.lookup name = none → ∀ stk c,
    (Machine.addWaiter ⟨w, stk, c⟩ name f).control = .answer .done ∧
      (Machine.addWaiter ⟨w, stk, c⟩ name f).world.waiters.lookup name = some id
  join : ∀ {name}, w.waiters.lookup name = some id → ∀ stk c,
    (Machine.joinWaiter ⟨w, stk, c⟩ name).control =
      .answer (w.report id Query.stateAnswer .blocked)
  wait : ∀ limit, Query.waitFor b.slot limit none =
    w.report id Query.stateAnswer (waitInVain limit none)
  waitOr : ∀ bound v, Query.waitFor b.slot (some bound) (some v) =
    w.report id Query.valueAnswer (waitInVain (some bound) (some v))
  /-- Waiting at a watcher is waiting for its slot. -/
  waiting : ∀ {name h}, w.resolve? name = some (h, b) → ∀ limit fallback,
    (Query.wait name limit fallback).answer w =
      Query.waitFor b.slot limit (fallback.map (·.on h.face))
  latestOr : ∀ {name h}, w.resolve? name = some (h, b) → ∀ fallback,
    (Query.latestValueOr name fallback).answer w =
      match Query.latestOf b with
      | .ok s => .value s.value
      | .error _ => .value (fallback.on h.face)

section Consults

variable {w : World α} {id : WatcherId} {b : Watcher α}

theorem future?_of_lookup (hb : w.watcher? id = some b) {f : Name}
    (hf : w.futures.lookup f = some id) : w.future? f = some b.slot := by
  unfold future?
  rw [hf]
  show (w.watcher? id).bind _ = _
  rw [hb]
  rfl

theorem Decided.consults (h : w.Decided) (hw : w.Ledger) (hb : w.watcher? id = some b) :
    w.Consults id b where
  future := future?_of_lookup hb
  cloned hf name stk c := by
    simp only [Machine.nameFuture, hf]
    exact (Bindings.lookup_bind ..).trans (if_pos rfl)
  taken hr hid name stk c := by
    simp only [Machine.nameFuture, hr, Option.map_some, hid]
    exact (Bindings.lookup_bind ..).trans (if_pos rfl)
  done hf := by
    show Query.answer.onFuture w _ _ = _
    unfold Query.answer.onFuture
    rw [future?_of_lookup hb hf, ← (h.slot hb).first?_eq]
  get {f} hf := by
    have hanswer : (Query.futureGet f).answer w =
        Query.answer.onFuture w f fun slot =>
          match slot.first? with
          | some s => .state s
          | none => .noState := rfl
    unfold Query.answer.onFuture at hanswer
    rw [future?_of_lookup hb hf] at hanswer
    rw [← (h.slot hb).first?_eq]
    exact hanswer
  poll hf waker actions stk c := by
    simp only [Machine.pollFuture, hf, future?_of_lookup hb hf, report, ← h.outcome?_eq hb]
    cases b.slot.outcome? <;> rfl
  started hf hnone stk c := by
    simp only [Machine.addWaiter, hf, hnone]
    exact ⟨rfl, (Bindings.lookup_bind ..).trans (if_pos rfl)⟩
  join hf stk c := by
    simp only [Machine.joinWaiter, hf, Option.bind_some, hb, report, ← h.outcome?_eq hb]
    cases b.slot.outcome? <;> rfl
  wait limit := by
    rw [report, ← h.outcome?_eq hb]
    unfold Query.waitFor waitInVain
    rcases limit with _ | ⟨d, _ | _⟩ <;> cases b.slot <;> rfl
  waitOr bound v := by
    rw [report, ← h.outcome?_eq hb]
    unfold Query.waitFor waitInVain
    obtain ⟨d, _ | _⟩ := bound <;> cases b.slot <;> rfl
  waiting hr limit fallback := by
    show Query.answer.watching w _ _ = _
    unfold Query.answer.watching
    rw [hr]
  latestOr hr fallback := by
    show Query.answer.watching w _ _ = _
    unfold Query.answer.watching Query.latestOf
    rw [hr]
    simp only
    cases hl : b.latest with
    | none => cases b.slot.first? <;> rfl
    | some s =>
      have hsome : b.latest.isSome = true := by rw [hl]; rfl
      obtain ⟨t, ht⟩ := (h.lifecycle hw hb).set_iff_latest.mpr hsome
      rw [ht]
      rfl

end Consults

end World

namespace Machine

variable [BEq α] {m m' : Machine α} {id : WatcherId} {b : Watcher α}

/-! ## What has come of a first value stays so -/

theorem Reached.initial?_later (h : m.Reached fun _ => True) (hl : m.Later (fun _ => True) m')
    {r : Except WatchError (Latest α)} (hr : m.world.initial? id = some r) :
    m'.world.initial? id = some r := by
  have hm := h.wellFormed
  have hx := hl.extends_world hm
  unfold World.initial? at hr ⊢
  cases hfirst : (m.world.accepted id).head? with
  | some s =>
    obtain ⟨es, he⟩ := hx.events
    have hfirst' : (m'.world.accepted id).head? = some s := by
      unfold World.accepted
      rw [← he, Event.accepted_append, List.head?_append]
      exact congrArg (Option.or · _) hfirst
    rw [hfirst] at hr
    rw [hfirst']
    exact hr
  | none =>
    rw [hfirst] at hr
    have hclosed : m.world.isClosed id = true := by
      by_contra hopen
      exact nomatch (if_neg hopen).symm.trans hr
    rw [hl.accepted_eq_of_closed hm hclosed, hfirst, hx.closed hclosed]
    rw [hclosed] at hr
    exact hr

/-- A thread that waits for a first value while others act wakes in these machines, with its bound
run out or not; the last one is where it stands. -/
inductive WakesUp (id : WatcherId) : Machine α → List (Slot.Wakeup α) → Machine α → Prop
  | nil (m : Machine α) : WakesUp id m [] m
  | cons {m m' m'' : Machine α} {found : List (Slot.Wakeup α)} (timedOut : Bool) :
      m.Later (fun _ => True) m' → WakesUp id m' found m'' →
      WakesUp id m ({ slot := m'.world.slot id, timedOut } :: found) m''

/-- What a thread that waits for a slot, and wakes as it says, has got when it stands in the
machine. -/
structure Awaits (id : WatcherId) (slot : Slot α) (limit : Option Duration)
    (found : List (Slot.Wakeup α)) (m : Machine α) : Prop where
  /-- The wait lasts as long as nothing has come of the first value and no bound has run out. -/
  lasts : slot.await limit found = none ↔
    m.world.initial? id = none ∧ (limit.isSome → ∀ x ∈ found, x.timedOut = false)
  /-- It ends for want of time exactly where its bound runs out while the slot is pending. -/
  expires : ∀ d, slot.await limit found = some (.error (.timeout d)) ↔
    limit = some d ∧ slot.isPending = true ∧ ∃ before x after, found = before ++ x :: after ∧
      x.timedOut = true ∧ x.slot.isPending = true ∧
      ∀ y ∈ before, y.timedOut = false ∧ y.slot.isPending = true
  /-- Otherwise the thread gets what has come of the first value, whatever the bound. -/
  gets : ∀ r, slot.await limit found = some r → (∀ d, r ≠ .error (.timeout d)) →
    m.world.initial? id = some r

theorem WakesUp.later {found : List (Slot.Wakeup α)} (h : WakesUp id m found m') :
    m.Later (fun _ => True) m' := by
  induction h with
  | nil => exact .refl
  | cons _ hl _ ih => exact hl.trans ih

section WakesUp

variable {found : List (Slot.Wakeup α)} (hw : WakesUp id m found m') (h : m.Reached fun _ => True)
  {slot : Slot α} (hslot : slot.outcome? = m.world.initial? id) (limit : Option Duration)

include hw h hslot

theorem WakesUp.await_eq_none_iff : slot.await limit found = none ↔
    m'.world.initial? id = none ∧ (limit.isSome → ∀ x ∈ found, x.timedOut = false) := by
  induction hw generalizing slot with
  | nil m => simp [Slot.await, hslot]
  | @cons m m₁ m' found timedOut hl hw ih =>
    have h₁ := h.later hl
    specialize ih h₁ (h₁.decided.outcome?_slot id)
    cases hs : slot.outcome? with
    | some r =>
      have hlast := h.initial?_later (hl.trans hw.later) (hslot.symm.trans hs)
      simp [Slot.await, hs, hlast]
    | none =>
      cases limit with
      | none => simpa [Slot.await, hs] using ih
      | some d => cases timedOut <;> simp [Slot.await, hs, ih]

theorem WakesUp.await_eq_some {r : Except WatchError (Latest α)}
    (hr : slot.await limit found = some r) (hne : ∀ d, r ≠ .error (.timeout d)) :
    m'.world.initial? id = some r := by
  induction hw generalizing slot with
  | nil m => exact hslot.symm.trans hr
  | @cons m m₁ m' found timedOut hl hw ih =>
    have h₁ := h.later hl
    have hout₁ := h₁.decided.outcome?_slot id
    specialize ih h₁ hout₁
    cases hs : slot.outcome? with
    | some r' =>
      obtain rfl : r' = r := by simpa [Slot.await, hs] using hr
      exact h.initial?_later (hl.trans hw.later) (hslot.symm.trans hs)
    | none =>
      cases limit with
      | none => exact ih (by simpa [Slot.await, hs] using hr)
      | some d =>
        cases timedOut with
        | false => exact ih (by simpa [Slot.await, hs] using hr)
        | true =>
          -- The thread looks at the slot once more before it gives up.
          cases hlast : (m₁.world.slot id).outcome? with
          | none =>
            obtain rfl : .error (.timeout d) = r := by simpa [Slot.await, hs, hlast] using hr
            exact absurd rfl (hne d)
          | some r' =>
            obtain rfl : r' = r := by simpa [Slot.await, hs, hlast] using hr
            exact h₁.initial?_later hw.later (hout₁.symm.trans hlast)

theorem WakesUp.awaits : Awaits id slot limit found m' where
  lasts := hw.await_eq_none_iff h hslot limit
  expires _ := Slot.await_eq_timeout_iff
  gets _ := hw.await_eq_some h hslot limit

end WakesUp

/-- In every machine that can be reached, also in the middle of an operation or after a panic, the
slot of a watcher is set exactly when it has accepted something, abandoned exactly when it was
closed before that, and pending otherwise; from then on a slot that is set or abandoned stays as it
is, and all that reads it agrees. A thread that waits for it while others act gets the same, or
nothing if its bound runs out before. -/
theorem first_value_is_decided_once (h : m.Reached fun _ => True)
    (hl : m.Later (fun _ => True) m') (hb : m.world.watcher? id = some b) :
    m.world.Lifecycle id b ∧
      (∃ b', m'.world.watcher? id = some b' ∧
        (∀ s, b.slot = .set s → b'.slot = .set s) ∧
        (b.slot = .abandoned → b'.slot = .abandoned)) ∧
      m.world.Consults id b ∧
      ∀ found limit, WakesUp id m found m' → Awaits id b.slot limit found m' := by
  have hm := h.wellFormed
  have hd := h.decided
  have hout := hd.outcome?_eq hb
  obtain ⟨b', hb', -⟩ := World.exists_watcher?_of_origin?
    ((hl.extends_world hm).origin (World.origin?_of_watcher? hb))
  have hout' := (h.later hl).decided.outcome?_eq hb'
  refine ⟨hd.lifecycle hm.ledger hb, ⟨b', hb', fun s hs => ?_, fun habandoned => ?_⟩,
    hd.consults hm.ledger hb, fun found limit hw => hw.awaits h hout limit⟩
  · rw [← Slot.outcome?_eq_ok_iff] at hs ⊢
    exact hout'.trans (h.initial?_later hl (hout.symm.trans hs))
  · rw [← Slot.outcome?_eq_cancelled_iff] at habandoned ⊢
    exact hout'.trans (h.initial?_later hl (hout.symm.trans habandoned))

/-! ### A waker that pushes, closes and panics -/

/-- A future of a root, its clone, and a waker in the slot: it pushes a further state, closes the
root and panics. -/
def polledFuture : Machine Nat :=
  ({ world := {} } : Machine Nat).carry 8
    [.root "r" "r" false, .future "f" (.watcher "r"), .future "g" (.future "f"),
      .futurePoll "f" "k"
        fun _ => [.push "r" ⟨2⟩ ⟨20, 20⟩, .close "r", .panic (.text "no")]]

def beforeWaker : Machine Nat := polledFuture.world.start (.push "r" ⟨1⟩ ⟨10, 10⟩)

def afterWaker : Machine Nat := beforeWaker.steps 24

theorem reached_polledFuture : polledFuture.Reached fun _ => True :=
  Reached.initial.carry_any (by decide +kernel)

theorem reached_beforeWaker : beforeWaker.Reached fun _ => True :=
  reached_polledFuture.next trivial (.start _ (by with_unfolding_all rfl))

theorem first_value_is_decided_once_nested :
    (∃ b b', beforeWaker.world.watcher? 0 = some b ∧ afterWaker.world.watcher? 0 = some b' ∧
      afterWaker.stack.isEmpty = true ∧ b'.closed = true ∧ b'.updates = 2 ∧
      b'.slot = .set ⟨⟨1⟩, 10⟩ ∧ beforeWaker.world.Lifecycle 0 b ∧
      beforeWaker.world.Consults 0 b) ∧
    -- A thread that waits meanwhile wakes for no reason, and then because its bound has run out.
    ∃ b, polledFuture.world.watcher? 0 = some b ∧ b.slot.isPending = true ∧
      Awaits 0 b.slot (some ⟨5⟩)
        [⟨polledFuture.world.slot 0, false⟩, ⟨afterWaker.world.slot 0, true⟩]
        afterWaker := by
  have hset : (beforeWaker.world.watcher? 0).map Watcher.slot = some (.set ⟨⟨1⟩, 10⟩) := by
    with_unfolding_all rfl
  have hafter : (afterWaker.world.watcher? 0).map (fun b => (b.closed, b.updates)) =
      some (true, 2) := by
    decide +kernel
  have hpending : (polledFuture.world.watcher? 0).map (·.slot.isPending) = some true := by
    decide +kernel
  have hlater : beforeWaker.Later (fun _ => True) afterWaker :=
    Later.refl.steps 24 fun _ _ => trivial
  constructor
  · obtain ⟨b, hb, hslot⟩ := Option.map_eq_some_iff.mp hset
    obtain ⟨hlife, ⟨b', hb', hstays, -⟩, hconsults, -⟩ :=
      first_value_is_decided_once reached_beforeWaker hlater hb
    rw [hb'] at hafter
    obtain ⟨hcl, hn⟩ := Prod.mk.inj (Option.some.inj hafter)
    exact ⟨b, b', hb, hb', by decide +kernel, hcl, hn, hstays _ hslot, hlife, hconsults⟩
  · obtain ⟨b, hb, hpend⟩ := Option.map_eq_some_iff.mp hpending
    have hbegun : polledFuture.Later (fun _ => True) beforeWaker :=
      Later.refl.next trivial (.start _ (by with_unfolding_all rfl))
    obtain ⟨-, -, -, hawaits⟩ :=
      first_value_is_decided_once reached_polledFuture (hbegun.trans hlater) hb
    exact ⟨b, hb, hpend,
      hawaits _ _ (.cons false .refl (.cons true (hbegun.trans hlater) (.nil _)))⟩

end Machine

end WatchTree
