import WatchTree.Proofs.Cascade

/-!
# The machine delivers depth first

The stack of the machine comes to the same as the recursion over the tree. A callback that is
passive runs to its end, or to its panic, without anything else happening (`Machine.carryOut_goes`);
so each listener is informed, with all that follows from it, before the next one is
(`Machine.inform_goes`), and an accepted state is delivered as `World.deliver` says
(`Machine.follows_deliver`), whatever is on the stack below it.
-/

namespace WatchTree

variable {α : Type}

namespace Machine

variable [BEq α]

/-! ## Many steps -/

/-- So many steps lead from one machine to the other. -/
def Goes (m m' : Machine α) : Prop := ∃ k, m.steps k = m'

theorem steps_of_isEmpty {m : Machine α} (h : m.stack.isEmpty = true) (k : Nat) :
    m.steps k = m := by
  cases k with
  | zero => rfl
  | succ k => exact if_pos h

theorem steps_add (m : Machine α) (j k : Nat) : m.steps (j + k) = (m.steps j).steps k := by
  induction j generalizing m with
  | zero => rw [Nat.zero_add]; rfl
  | succ j ih =>
    rw [Nat.succ_add, steps, steps]
    split
    · rename_i h
      exact (steps_of_isEmpty h k).symm
    · exact ih m.step

namespace Goes

variable {m m₁ m' : Machine α}

theorem refl (m : Machine α) : m.Goes m := ⟨0, rfl⟩

theorem trans (h : m.Goes m₁) (h' : m₁.Goes m') : m.Goes m' := by
  obtain ⟨j, rfl⟩ := h
  obtain ⟨k, rfl⟩ := h'
  exact ⟨j + k, steps_add m j k⟩

theorem of_step {w : World α} {f : Frame α} {stk : List (Frame α)} {c : Control α}
    (h : step ⟨w, f :: stk, c⟩ = m') : Goes ⟨w, f :: stk, c⟩ m' :=
  ⟨1, h⟩

/-- What the first step leads to. -/
theorem head {w : World α} {f : Frame α} {stk : List (Frame α)} {c : Control α}
    (h : step ⟨w, f :: stk, c⟩ = m₁) (h' : m₁.Goes m') : Goes ⟨w, f :: stk, c⟩ m' :=
  (of_step h).trans h'

end Goes

/-! ## Callbacks -/

omit [BEq α] in
theorem log_eq (m : Machine α) (id : WatcherId) (message : Diagnostic) :
    m.log id message = ⟨m.world.log m.onPoller id message, m.stack, m.control⟩ := by
  unfold log nameOf World.log
  cases m.world.watcher? id with
  | none => rfl
  | some b => rfl

/-- What a callback leaves: its panic, or nothing. -/
def left (stk : List (Frame α)) : World α × Option Payload → Machine α
  | (w, none) => ⟨w, stk, .proceed⟩
  | (w, some payload) => ⟨w, stk, .unwind payload⟩

variable {stk : List (Frame α)}

theorem carryOut_goes (stk : List (Frame α)) (site : Site) {ops : List (Op α)}
    (h : ∀ op ∈ ops, op.isPassive = true) (w : World α) :
    Goes ⟨w, .script site ops :: stk, .proceed⟩
      (left stk (w.carryOut (stk.any Frame.onPoller) site.label ops)) := by
  induction ops generalizing w with
  | nil => exact .of_step rfl
  | cons op ops ih =>
    have hstep : step ⟨w, .script site (op :: ops) :: stk, .proceed⟩ = _ :=
      perform_passive (h op (List.mem_cons_self ..)) w (.script site ops :: stk) .proceed
    refine .head hstep ?_
    have hrest := ih fun op hop => h op (List.mem_cons_of_mem _ hop)
    unfold World.carryOut
    rcases w.start op with ⟨w₁, -, c⟩
    cases c with
    | proceed => exact hrest w₁
    | answer a => exact .head rfl (hrest _)
    | unwind payload => exact .of_step rfl

/-- A callback that does not panic either. -/
theorem carryOut_goes_calm (stk : List (Frame α)) (site : Site) {ops : List (Op α)}
    (h : ∀ op ∈ ops, op.isPassive = true ∧ op.panic? = none) (w : World α) :
    Goes ⟨w, .script site ops :: stk, .proceed⟩
      ⟨(w.carryOut (stk.any Frame.onPoller) site.label ops).1, stk, .proceed⟩ := by
  have hpassive := fun op hop => (h op hop).1
  have hgoes := carryOut_goes stk site hpassive w
  have hcalm := World.panic_carryOut (w := w) (p := stk.any Frame.onPoller) site.label hpassive
  rw [List.findSome?_eq_none_iff.mpr fun op hop => (h op hop).2] at hcalm
  rcases hout : w.carryOut (stk.any Frame.onPoller) site.label ops with ⟨w₁, panic⟩
  rw [hout] at hgoes hcalm
  obtain rfl : panic = none := hcalm
  exact hgoes

/-! ## Wakers -/

omit [BEq α] in
theorem wake_eq {m : Machine α} {name : Name} {waker : Waker α}
    (h : m.world.wakers.lookup name = some waker) :
    m.wake name = ⟨(m.world.note m.onPoller (.woken name)).countWake name waker,
      .script (.waker name) (waker.actions (waker.wakes + 1)) :: m.stack, .proceed⟩ := by
  unfold wake
  simp only [record, recordOn, inWorld, h]
  rfl

theorem rouse_goes {name : Name} {names : List Name} {w : World α} (h : w.Gentle [name]) :
    Goes ⟨w, .waking (name :: names) :: stk, .proceed⟩
      ⟨w.rouse (stk.any Frame.onPoller) name, .waking names :: stk, .proceed⟩ := by
  have hstep : step ⟨w, .waking (name :: names) :: stk, .proceed⟩ =
      wake ⟨w, .waking names :: stk, .proceed⟩ name := rfl
  refine .head hstep ?_
  unfold World.rouse
  cases hwaker : w.wakers.lookup name with
  | none =>
    unfold wake
    simp only [record, recordOn, inWorld, hwaker]
    exact .refl _
  | some waker =>
    have hactions := h name (List.mem_singleton_self _) waker hwaker (waker.wakes + 1)
    rw [wake_eq hwaker]
    exact carryOut_goes_calm (.waking names :: stk) (.waker name) hactions _

theorem awaken_goes {names : List Name} {w : World α} (h : w.Gentle names) :
    Goes ⟨w, .waking names :: stk, .proceed⟩
      ⟨names.foldl (World.rouse (stk.any Frame.onPoller)) w, stk, .proceed⟩ := by
  induction names generalizing w with
  | nil => exact .of_step rfl
  | cons name names ih =>
    have hflows : w.Flows (fun _ => False) (w.rouse (stk.any Frame.onPoller) name) :=
      .rouse h.cons.1
    exact (rouse_goes h.cons.1).trans (ih (h.cons.2.flows hflows))

/-! ## Listeners -/

/-- The machine does with a state that a watcher accepts what `take` says, as long as there are only
so many watchers after it. -/
def Follows (p : Bool) (depth : Nat) (take : World α → WatcherId → Latest α → World α) : Prop :=
  ∀ {w : World α} {c : WatcherId} {b : Watcher α} {s : Latest α} {stk : List (Frame α)}
    {ctl : Control α}, w.Primed c → w.watcher? c = some b → b.closed = false →
    b.refusal s = none → w.watchers.length ≤ c + depth → stk.any Frame.onPoller = p →
    Goes (offer ⟨w, stk, ctl⟩ c s) ⟨take w c s, stk, .answer (.bool true)⟩

variable {p : Bool} {depth : Nat} {take : World α → WatcherId → Latest α → World α}
  (htake : Follows p depth take) {w : World α} (hp : stk.any Frame.onPoller = p)

include htake hp

theorem propose_goes {c : WatcherId} (h : w.Primed c) (hlen : w.watchers.length ≤ c + depth)
    (s : Latest α) (ctl : Control α) :
    ∃ a, Goes (offer ⟨w, stk, ctl⟩ c s) ⟨w.propose p take c s, stk, .answer a⟩ := by
  subst hp
  unfold World.propose
  cases hb : w.watcher? c with
  | none =>
    refine ⟨.bool false, ?_⟩
    unfold offer
    simp only [hb]
    exact .refl _
  | some b =>
    simp only
    split
    · rename_i hcl
      rw [offer_closed (m := ⟨w, stk, ctl⟩) hb hcl]
      exact ⟨_, .refl _⟩
    · rename_i hcl
      rw [Bool.not_eq_true] at hcl
      cases hr : b.refusal s with
      | some refusal =>
        rw [offer_refused (m := ⟨w, stk, ctl⟩) hb hcl hr]
        simp only [World.log, World.watcher?_note, hb]
        exact ⟨_, .refl _⟩
      | none => exact ⟨_, htake h hb hcl hr hlen rfl⟩

theorem conclude_goes {c : WatcherId} (h : w.Primed c) (hlen : w.watchers.length ≤ c + depth)
    (revision : Revision) (outcome : Outcome α) (ctl : Control α) :
    ∃ ctl', ctl'.Calm ∧ Goes (settle ⟨w, stk, ctl⟩ c revision outcome)
      ⟨w.conclude p take c revision outcome, stk, ctl'⟩ := by
  cases outcome with
  | value v =>
    have hnote : w.Flows (fun _ => False) (w.note p (.applied c revision (.value v))) :=
      .note w p _
    obtain ⟨a, hgoes⟩ := propose_goes htake hp (h.flows hnote) hlen ⟨revision, v⟩ ctl
    subst hp
    exact ⟨.answer a, Control.calm_answer a, hgoes⟩
  | failed error =>
    subst hp
    refine ⟨.proceed, Control.calm_proceed, ?_⟩
    unfold settle
    simp only [log_eq]
    exact .refl _
  | panicked payload =>
    subst hp
    refine ⟨.proceed, Control.calm_proceed, ?_⟩
    unfold settle
    simp only [log_eq]
    exact .refl _

omit htake hp in
/-- A listener that has been called is done with, however calmly. -/
theorem calling_goes (t : Task α) {ctl : Control α} (hctl : ctl.Calm) :
    Goes ⟨w, .calling t :: stk, ctl⟩ ⟨w, stk, .proceed⟩ := by
  cases ctl with
  | unwind payload => exact absurd rfl (hctl payload)
  | _ => exact .of_step rfl

theorem notify_goes {t : Task α} {r : Registration α} (h : w.Primed t.watcher)
    (hr : w.registration? t.watcher t.listener = some r) (ha : r.active = true)
    (hle : t.update ≤ w.updates t.watcher)
    (hlen : w.watchers.length ≤ t.watcher + (depth + 1)) (ctl : Control α) :
    Goes (call ⟨w, stk, ctl⟩ t r false) ⟨w.notify p take t r, stk, .proceed⟩ := by
  cases hl : r.listener with
  | observer label valueOnly actions =>
    obtain ⟨w₁, panic, hops, hout, hnotify, -⟩ := h.notify_observer hr ha hl p take
    rw [hnotify, call_observer _ _ _ hl, Bool.not_false, Bool.and_true]
    have hgoes := carryOut_goes (.calling t :: stk) (.observer label) hops
      ((w.tell t).note p (.called (.observer label valueOnly) t false))
    subst hp
    refine hgoes.trans ?_
    show Goes (left _ (World.carryOut (stk.any Frame.onPoller) label _ _)) _
    rw [hout]
    cases panic with
    | none => exact calling_goes t Control.calm_proceed
    | some payload => exact .of_step (congrArg proceed (log_eq ⟨w₁, stk, _⟩ t.watcher _))
  | subscription c =>
    obtain ⟨d, w₁, panic, hd, hops, hout, hnotify, -, htree, hprimed, hlen₁⟩ :=
      h.notify_subscription hr ha hl hle hlen p take
    rw [hnotify, call_subscription _ _ _ hl hd, Bool.not_false, Bool.and_true]
    have hgoes := carryOut_goes (.applying c t.state :: .calling t :: stk)
      (.derivation d.label) hops ((w.tell t).note p (.called (.child c) t false))
    subst hp
    refine hgoes.trans ?_
    show Goes (left _ (World.carryOut (stk.any Frame.onPoller) d.label _ _)) _
    rw [hout]
    -- Whatever the transformation comes to, the child takes it and the call is over.
    have hsettled : ∀ ctl, Goes
        (settle ⟨w₁, .calling t :: stk, ctl⟩ c t.state.revision (d.outcome panic t.state.value))
        ⟨w₁.conclude (stk.any Frame.onPoller) take c t.state.revision
          (d.outcome panic t.state.value), stk, .proceed⟩ := by
      intro ctl
      have habove : (Frame.calling t :: stk).any Frame.onPoller = stk.any Frame.onPoller := rfl
      obtain ⟨ctl', hcalm, hgoes⟩ := conclude_goes htake habove hprimed hlen₁ t.state.revision
        (d.outcome panic t.state.value) ctl
      exact hgoes.trans (calling_goes t hcalm)
    cases panic with
    | none =>
      have hstep : step ⟨w₁, .applying c t.state :: .calling t :: stk, .proceed⟩ =
          settle ⟨w₁, .calling t :: stk, .proceed⟩ c t.state.revision
            (d.apply t.state.value) := by
        rw [← outcomeOf_eq (m := ⟨w₁, .calling t :: stk, .proceed⟩)
          ((htree.origin?_eq c).trans hd)]
        rfl
      exact .head hstep (hsettled .proceed)
    | some payload => exact .head rfl (hsettled (.unwind payload))

omit [BEq α] htake in
/-- A task that is newer than all that its listener was called with leads to a call. -/
theorem run_newer {t : Task α} {r : Registration α}
    (hr : w.registration? t.watcher t.listener = some r) (ha : r.active = true)
    (hlt : r.delivered < t.update) (ctl : Control α) :
    run ⟨w, stk, ctl⟩ t false = call ⟨w.note p (.ran t true), stk, ctl⟩ t r false := by
  subst hp
  unfold run
  simp only [hr]
  rw [if_neg (by simp [ha]), if_neg (Nat.not_le_of_lt hlt), ha]
  rfl

/-- A listener is informed, and the next one is up. -/
theorem inform_goes {t : Task α} {ls : List ListenerId}
    (h : w.Handing t.watcher t.update (t.listener :: ls))
    (hlen : w.watchers.length ≤ t.watcher + (depth + 1)) :
    Goes ⟨w, .fanOut t.watcher t.update t.state (t.listener :: ls) :: stk, .proceed⟩
      ⟨w.inform p take t, .fanOut t.watcher t.update t.state ls :: stk, .proceed⟩ := by
  obtain ⟨r, hr, ha, hlt, hr₁, hinform⟩ := h.registration p take
  obtain ⟨hinline, hidle⟩ := h.primed.passive.inline .refl hr ha
  have hpassed : w.Flows (fun _ => True) (w.passOn p t) := .passOn p trivial
  have hstep : step ⟨w, .fanOut t.watcher t.update t.state (t.listener :: ls) :: stk, .proceed⟩ =
      call ⟨w.passOn p t, .script (.executor t.watcher t.listener) [] ::
        .fanOut t.watcher t.update t.state ls :: stk, .proceed⟩ t
        { r with handovers := r.handovers + 1 } false := by
    have hhand := handOver_eq ⟨w, .fanOut t.watcher t.update t.state ls :: stk, .proceed⟩ hr ha
    simp only [hinline, hidle] at hhand
    subst hp
    exact hhand.trans (run_newer (w := w.handOver (stk.any Frame.onPoller) t) rfl hr₁ ha hlt _)
  have habove : (Frame.script (.executor t.watcher t.listener) [] ::
      Frame.fanOut t.watcher t.update t.state ls :: stk).any Frame.onPoller = p := hp
  have hnotified := notify_goes htake habove (h.primed.flows hpassed) hr₁ ha (h.updates_passOn p)
    (hpassed.length ▸ hlen) .proceed
  rw [hinform]
  exact .head hstep (hnotified.trans (.of_step rfl))

theorem informAll_goes (htakes : World.Confines depth take) {id : WatcherId} {n : Nat}
    {ls : List ListenerId} (h : w.Handing id n ls) (hlen : w.watchers.length ≤ id + (depth + 1))
    (s : Latest α) :
    Goes ⟨w, .fanOut id n s ls :: stk, .proceed⟩
      ⟨ls.foldl (fun w l => w.inform p take ⟨id, l, n, s⟩) w, stk, .answer (.bool true)⟩ := by
  induction ls generalizing w with
  | nil => exact .of_step rfl
  | cons l ls ih =>
    obtain ⟨hflows, -, hrest⟩ := World.Handing.inform (p := p) htakes (t := ⟨id, l, n, s⟩) h hlen
    exact (inform_goes (t := ⟨id, l, n, s⟩) htake hp h hlen).trans
      (ih hrest (hflows.length ▸ hlen))

omit htake hp in
theorem announce_goes {id : WatcherId} {b : Watcher α} {s : Latest α} (h : w.Primed id)
    (hb : w.watcher? id = some b) (hcl : b.closed = false) (hr : b.refusal s = none)
    (ctl : Control α) :
    Goes (offer ⟨w, stk, ctl⟩ id s)
      ⟨w.announce (stk.any Frame.onPoller) id b s,
        .fanOut id (b.updates + 1) s b.registry.entries :: stk, .proceed⟩ := by
  rw [offer_adopted (m := ⟨w, stk, ctl⟩) hb hcl hr]
  exact (awaken_goes (h.gentle_adopt hb _ s)).trans (.of_step (log_eq _ id _))

omit htake hp in
/-- An accepted state is delivered as the recursion says. -/
theorem follows_deliver (p : Bool) (depth : Nat) :
    Follows p depth (World.deliver p depth : World α → WatcherId → Latest α → World α) := by
  induction depth with
  | zero =>
    intro w c b s stk ctl _ hb _ _ hlen
    exact absurd (World.lt_length hb) (Nat.not_lt_of_le hlen)
  | succ depth ih =>
    intro w c b s stk ctl h hb hcl hr hlen hp
    obtain ⟨hflows, -, hhanding⟩ := h.announce hb p s
    have hall := informAll_goes ih hp (World.confines_deliver p depth) hhanding
      (hflows.length ▸ hlen) s
    subst hp
    unfold World.deliver
    rw [hb]
    exact (announce_goes h hb hcl hr ctl).trans hall

end Machine

end WatchTree
