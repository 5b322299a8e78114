import WatchTree.Proofs.Turns

/-!
# Every step is a turn

An operation that begins, a frame that goes on and a panic that reaches a frame each make a turn of
a well-formed machine. `step_turn` and `start_turn` are all that an invariant of runs uses of the
machine's code.
-/

namespace WatchTree

variable {α : Type}

open Relation

namespace World

theorem resolve?_eq_some {w : World α} {name : Name} {h : Handle} {b : Watcher α}
    (hr : w.resolve? name = some (h, b)) :
    (name, h) ∈ w.handles ∧ w.watcher? h.target = some b := by
  unfold resolve? at hr
  obtain ⟨h', hh, hr⟩ := Option.bind_eq_some_iff.mp hr
  obtain ⟨b', hb, hr⟩ := Option.bind_eq_some_iff.mp hr
  obtain ⟨rfl, rfl⟩ := Prod.mk.inj (Option.some.inj hr)
  obtain ⟨l₁, l₂, hl, -⟩ := List.lookup_eq_some_iff.mp hh
  exact ⟨by rw [hl]; simp, hb⟩

theorem RootHandles.unbind {w : World α} {hs : Bindings Handle} (h : w.RootHandles hs)
    (name : Name) : w.RootHandles (hs.unbind name) :=
  fun b hb => h b (List.mem_of_mem_filter hb)

theorem RootHandles.bind {w : World α} {hs : Bindings Handle} (h : w.RootHandles hs) (name : Name)
    {hd : Handle} (hhd : hd.face = .root ∨ hd.face = .plainRoot → w.IsRoot hd.target) :
    w.RootHandles (hs.bind name hd) := by
  intro b hb
  rcases List.mem_cons.mp hb with rfl | hb
  · exact hhd
  · exact h.unbind name b hb

theorem RootHandles.addWatcher {w : World α} {hs : Bindings Handle} (h : w.RootHandles hs)
    (b : Watcher α) : (w.addWatcher b).RootHandles hs := by
  intro x hx hf
  obtain ⟨a, ha, ho⟩ := exists_watcher?_of_origin? (h x hx hf)
  unfold IsRoot
  rw [origin?_addWatcher, if_neg]
  · exact h x hx hf
  · intro heq
    rw [heq, watcher?_length] at ha
    exact nomatch ha

end World

namespace Machine

variable [BEq α] {P : Machine α → Prop}

/-! ## Operations -/

section Operations

variable {w : World α} {stk : List (Frame α)} {c : Control α}
  (hroots : w.RootHandles w.handles) (hop : w.Operable stk)

theorem withHandle_turn {m : Machine α} (name : Name) {f : Handle → Watcher α → Machine α}
    (h : ∀ hd b, (name, hd) ∈ m.world.handles → m.world.watcher? hd.target = some b →
      Turn P m (f hd b)) : Turn P m (m.withHandle name f) := by
  unfold withHandle
  cases hr : m.world.resolve? name with
  | none => exact turn_steer .refl (Control.calm_answer _)
  | some x =>
    obtain ⟨hmem, hb⟩ := World.resolve?_eq_some hr
    exact h x.1 x.2 hmem hb

include hroots in
theorem share_turn (watcher name : Name) (bare : Bool) :
    Turn P ⟨w, stk, c⟩ (share ⟨w, stk, c⟩ watcher name bare) := by
  refine withHandle_turn watcher ?_
  intro hd b hmem hb
  split
  · exact turn_steer .refl (Control.calm_answer _)
  · refine turn_steer (.single (.rename rfl rfl rfl (hroots.bind name ?_))) (Control.calm_answer _)
    cases bare with
    | false => exact hroots _ hmem
    | true => rintro (h | h) <;> exact nomatch h

include hroots in
theorem addRoot_turn (name label : Name) (plain : Bool) :
    Turn P ⟨w, stk, c⟩ (addRoot ⟨w, stk, c⟩ name label plain) := by
  unfold addRoot
  split
  · exact turn_steer .refl (Control.calm_answer _)
  · refine turn_steer (.tail (.single (.plant label)) (.rename rfl rfl rfl
      ((hroots.addWatcher _).bind name fun _ => ?_))) (Control.calm_answer _)
    unfold World.IsRoot
    rw [World.origin?_addWatcher, if_pos rfl]

include hop in
theorem addChild_turn (hw : w.Ledger) (watcher name : Name) (label : Except WatchError String)
    (apply : α → Outcome α) (actions : Actions α) :
    Turn P ⟨w, stk, c⟩ (addChild ⟨w, stk, c⟩ watcher name label apply actions) := by
  refine withHandle_turn watcher ?_
  intro hd b hmem hb
  split
  · exact turn_steer .refl (Control.calm_answer _)
  · cases label with
    | error e => exact turn_steer .refl (Control.calm_answer _)
    | ok label =>
      refine push_turn (.holding hd.target) rfl hop ?_
      refine push_turn (.constructing name w.watchers.length) rfl trivial ?_
      exact register_turn hw Control.calm_proceed hb
        (.child (b.name ++ " -> " ++ label) ⟨name, apply, actions⟩) trivial

include hop in
theorem watch_turn (hw : w.Ledger) (watcher label : Name) (valueOnly : Bool) (disposal : Disposal)
    (onHandover actions : Actions α) :
    Turn P ⟨w, stk, c⟩
      (perform ⟨w, stk, c⟩ (.watch watcher label valueOnly disposal onHandover actions)) := by
  refine withHandle_turn watcher ?_
  intro hd b hmem hb
  refine push_turn (.holding hd.target) rfl hop ?_
  refine push_turn (.watching label b.registry.nextId) rfl trivial ?_
  exact register_turn hw Control.calm_proceed hb
    (.observer _ _ _ _) trivial

include hroots in
theorem dropHandle_turn (name : Name) :
    Turn P ⟨w, stk, c⟩ (dropHandle ⟨w, stk, c⟩ name) := by
  unfold dropHandle
  split
  · exact turn_steer .refl (Control.calm_answer _)
  · rename_i h _
    have hfirst : ReflTransGen (Move P) ⟨w, stk, c⟩
        ⟨{ w with handles := w.handles.unbind name }, stk, c⟩ :=
      .single (.rename rfl rfl rfl (hroots.unbind name))
    obtain ⟨w', heq, hmoves⟩ := release_moves (P := P) h.target
      ⟨{ w with handles := w.handles.unbind name }, stk, c⟩
    show Turn P _ (answer (release ⟨{ w with handles := w.handles.unbind name }, stk, c⟩ _) _)
    rw [heq]
    have hrest := hmoves c
    rw [heq] at hrest
    exact turn_steer (hfirst.trans hrest) (Control.calm_answer _)

theorem unwatch_turn (id : WatcherId) (l : ListenerId) :
    Turn P ⟨w, stk, c⟩ (unwatch ⟨w, stk, c⟩ id l) := by
  unfold unwatch
  simp only
  cases hr : w.isRegistered id l with
  | true => exact turn_steer (.single (.unwatch _ hr)) (Control.calm_answer _)
  | false => exact turn_steer (.single (.miss _ hr)) (Control.calm_answer _)

include hroots in
theorem pollFuture_turn (future waker : Name) (actions : Actions α) :
    Turn P ⟨w, stk, c⟩ (pollFuture ⟨w, stk, c⟩ future waker actions) := by
  unfold pollFuture
  split
  · rename_i id slot hid hslot
    have hwaker : ReflTransGen (Move P) ⟨w, stk, c⟩
        ⟨if (w.wakers.lookup waker).isSome then w
          else { w with wakers := w.wakers.bind waker { actions } }, stk, c⟩ := by
      split
      · exact .refl
      · exact .single (.rename rfl rfl rfl hroots)
    split
    · exact turn_steer hwaker (Control.calm_answer _)
    · rename_i hout
      have hb : ∃ b, w.watcher? id = some b ∧ b.slot = slot := by
        simp only [World.future?] at hslot
        obtain ⟨id', hid', hslot⟩ := Option.bind_eq_some_iff.mp hslot
        obtain ⟨b, hb, hs⟩ := Option.bind_eq_some_iff.mp hslot
        rw [hid] at hid'
        obtain rfl := Option.some.inj hid'
        exact ⟨b, hb, Option.some.inj hs⟩
      obtain ⟨b, hb, rfl⟩ := hb
      have hpend : b.slot.isPending = true := by
        cases hs : b.slot <;> simp_all [Slot.outcome?, Slot.isPending]
      refine turn_steer (hwaker.tail (.enlist (b := b) _ waker ?_ hpend)) (Control.calm_answer _)
      split <;> exact hb
  · exact turn_steer .refl (Control.calm_answer _)

include hroots in
theorem nameFuture_turn (name : Name) (source : FutureSource) :
    Turn P ⟨w, stk, c⟩ (nameFuture ⟨w, stk, c⟩ name source) := by
  unfold nameFuture
  simp only
  split
  · exact turn_steer (.single (.rename rfl rfl rfl hroots)) (Control.calm_answer _)
  · exact turn_steer .refl (Control.calm_answer _)

include hroots in
theorem addWaiter_turn (name future : Name) :
    Turn P ⟨w, stk, c⟩ (addWaiter ⟨w, stk, c⟩ name future) := by
  unfold addWaiter
  split
  · exact turn_steer (.single (.rename rfl rfl rfl hroots)) (Control.calm_answer _)
  · exact turn_steer .refl (Control.calm_answer _)

include hroots in
theorem joinWaiter_turn (name : Name) :
    Turn P ⟨w, stk, c⟩ (joinWaiter ⟨w, stk, c⟩ name) := by
  unfold joinWaiter
  split
  · exact turn_steer .refl (Control.calm_answer _)
  · split
    · exact turn_steer .refl (Control.calm_answer _)
    · exact turn_steer (.single (.rename rfl rfl rfl hroots)) (Control.calm_answer _)

include hop in
theorem runQueue_turn (hq : ∀ name, ∀ t ∈ w.queue name, w.Queued t) (queue : Name)
    (order : QueueOrder) : Turn P ⟨w, stk, c⟩ (runQueue ⟨w, stk, c⟩ queue order) := by
  have hsteer : ReflTransGen (Move P) ⟨w, stk, c⟩ ⟨w, stk, .proceed⟩ :=
    .single (.steer Control.calm_proceed)
  cases order with
  | forward =>
    have hdrain : (Frame.draining (w.queue queue) 0).Stands w stk := ⟨hop, hq queue⟩
    exact turn_of_moves (.tail (moves_push hsteer rfl hdrain) (.dequeue queue (by simp)))
  | backward =>
    have hdrain : (Frame.draining (w.queue queue).reverse 0).Stands w stk :=
      ⟨hop, fun t ht => hq queue t (List.mem_reverse.mp ht)⟩
    exact turn_of_moves (.tail (moves_push hsteer rfl hdrain) (.dequeue queue (by simp)))
  | picked positions => exact turn_of_moves (moves_push hsteer rfl hop)

include hroots in
theorem setStopped_moves (stopped : Bool) :
    ReflTransGen (Move P) ⟨w, stk, c⟩ (setStopped ⟨w, stk, c⟩ stopped) :=
  .single (.rename rfl rfl rfl hroots)

include hroots in
theorem stopPoller_turn : Turn P ⟨w, stk, c⟩ (stopPoller ⟨w, stk, c⟩) := by
  unfold stopPoller
  split
  · exact turn_steer (setStopped_moves hroots true) (Control.calm_answer _)
  · exact turn_steer .refl (Control.calm_answer _)

include hroots hop in
theorem startPoller_turn (watcher : Name) (config : PollConfig) (script : Script α)
    (ending : PollEnd) :
    Turn P ⟨w, stk, c⟩ (startPoller ⟨w, stk, c⟩ watcher config script ending) := by
  refine withHandle_turn watcher ?_
  intro hd b hmem hb
  split
  · exact turn_steer .refl (Control.calm_answer _)
  · have hpoll : w.IsRoot hd.target →
        Turn P ⟨w, stk, c⟩ ((((⟨w, stk, c⟩ : Machine α).setStopped false).push
          (.holding hd.target)).push (.polling
            { root := hd.target, face := hd.face, config, script, ending
              since := w.history.length })) := fun hroot =>
      turn_of_moves (moves_push (moves_push
        ((setStopped_moves hroots false).tail (.steer Control.calm_proceed)) rfl hop) rfl
        ⟨hroot, trivial⟩)
    split
    · rename_i hf _
      exact hpoll (hroots _ hmem (.inl hf))
    · rename_i hf _
      exact hpoll (hroots _ hmem (.inr hf))
    · exact turn_of_moves (.single (.raise _ hop))
    · exact turn_of_moves (.single (.raise _ hop))
    · exact turn_steer .refl (Control.calm_answer _)

include hroots hop in
/-- An operation that begins. -/
theorem perform_turn (hw : w.Ledger) (hq : ∀ name, ∀ t ∈ w.queue name, w.Queued t) (op : Op α) :
    Turn P ⟨w, stk, c⟩ (perform ⟨w, stk, c⟩ op) := by
  cases op with
  | invalid => exact turn_steer .refl (Control.calm_answer _)
  | ask query => exact turn_steer .refl (Control.calm_answer _)
  | root name label plain => exact addRoot_turn hroots name label plain
  | push watcher revision value =>
    refine withHandle_turn watcher ?_
    intro hd b hmem hb
    have hoffer : w.IsRoot hd.target → Turn P ⟨w, stk, c⟩
        (offer ⟨w, .holding hd.target :: stk, .proceed⟩ hd.target ⟨revision, value.on hd.face⟩) :=
      fun hroot => push_turn (.holding hd.target) rfl hop
        (offer_turn _ Control.calm_proceed hroot trivial)
    split
    · rename_i hf
      exact hoffer (hroots _ hmem (.inl hf))
    · rename_i hf
      exact hoffer (hroots _ hmem (.inr hf))
    · exact turn_steer .refl (Control.calm_answer _)
  | child watcher name label apply actions =>
    exact addChild_turn hop hw watcher name label apply actions
  | share watcher name bare => exact share_turn hroots watcher name bare
  | drop watcher => exact dropHandle_turn hroots watcher
  | watch watcher label valueOnly disposal onHandover actions =>
    exact watch_turn hop hw watcher label valueOnly disposal onHandover actions
  | unwatch watcher label =>
    refine withHandle_turn watcher ?_
    intro hd b hmem hb
    split
    · exact turn_steer .refl (Control.calm_answer _)
    · exact unwatch_turn _ _
  | close watcher =>
    refine withHandle_turn watcher ?_
    intro hd b hmem hb
    exact push_turn (.holding hd.target) rfl hop (close_turn _ Control.calm_proceed trivial)
  | future name source => exact nameFuture_turn hroots name source
  | futurePoll future waker actions => exact pollFuture_turn hroots future waker actions
  | waiter name future => exact addWaiter_turn hroots name future
  | join waiter => exact joinWaiter_turn hroots waiter
  | queueRun queue order => exact runQueue_turn hop hq queue order
  | queueDrop queue =>
    exact turn_steer (.single (.dequeue queue (List.nil_subset _))) (Control.calm_answer _)
  | poll watcher config script ending =>
    exact startPoller_turn hroots hop watcher config script ending
  | stop => exact stopPoller_turn hroots
  | panic payload => exact turn_of_moves (.single (.raise _ hop))

end Operations

/-! ## Pollers -/

section Pollers

variable {w : World α} {stk : List (Frame α)} {c : Control α} {p : Polling α}

theorem finish_turn (c' : Control α) : Turn P ⟨w, stk, c⟩ (finish ⟨w, stk, c'⟩ p) :=
  turn_steer (.single (.remark true rfl)) (Control.calm_answer _)

variable (hp : w.IsRoot p.root ∧ Frame.OnHolding stk)

include hp

theorem succeed_turn (c' : Control α) : Turn P ⟨w, stk, c⟩ (succeed ⟨w, stk, c'⟩ p) :=
  push_turn (.polling { p with backoff := none }) rfl hp (turn_of_moves (.single (.remark _ rfl)))

theorem fail_turn (c' : Control α) (error : String) :
    Turn P ⟨w, stk, c⟩ (fail ⟨w, stk, c'⟩ p error) :=
  push_turn (.polling { p with backoff := some (p.config.nextBackoff p.backoff) }) rfl hp
    (turn_of_moves (.tail (.single (.remark _ rfl)) (.remark _ rfl)))

theorem fetchNext_turn (hroots : w.RootHandles w.handles) (c' : Control α) :
    Turn P ⟨w, stk, c⟩ (fetchNext ⟨w, stk, c'⟩ p) := by
  unfold fetchNext
  split
  · exact finish_turn c'
  · split
    · exact finish_turn c'
    · split
      · split
        · exact push_turn (.ending p) rfl hp (close_turn _ Control.calm_proceed trivial)
        · exact turn_trans (setStopped_moves hroots true) (finish_turn c')
      · rename_i actions reply rest _
        refine push_turn (.fetching { p with script := rest } reply) rfl hp ?_
        refine turn_of_moves (moves_push (.single (.remark _ rfl)) rfl ?_)
        exact ⟨{ p with script := rest }, reply, stk, rfl⟩
      · rename_i actions reply rest _ _
        exact push_turn (.polling { p with script := ⟨[], actions, reply⟩ :: rest }) rfl hp
          (turn_of_moves (moves_push .refl rfl ⟨_, stk, rfl⟩))

theorem takeReply_turn (c' : Control α) (reply : Reply α) :
    Turn P ⟨w, stk, c⟩ (takeReply ⟨w, stk, c'⟩ p reply) := by
  cases reply with
  | state revision value =>
    exact push_turn (.pushing p) rfl hp (offer_turn _ Control.calm_proceed hp.1 trivial)
  | nothing => exact succeed_turn hp c'
  | failed error => exact fail_turn hp c' error
  | panicked payload => exact fail_turn hp c' _

end Pollers

/-! ## Frames -/

section Frames

variable {w : World α} {f : Frame α} {stk : List (Frame α)} {c : Control α}

theorem leave_turn {m : Machine α} (hc : c.Calm) (hf : f.isDone = true)
    (h : Turn P ⟨w, stk, c⟩ m) : Turn P ⟨w, f :: stk, c⟩ m :=
  turn_trans (.single (.leave hc hf)) h

theorem release_turn (id : WatcherId) : Turn P ⟨w, stk, c⟩ (release ⟨w, stk, c⟩ id) :=
  turn_of_moves (release_moves id _).moves

/-- Running a task that was queued. -/
theorem run_turn {stk' : List (Frame α)} {t : Task α} (hw : w.Ledger) (hc : c.Calm)
    (hq : w.Queued t) (ht : w.Takes stk t w stk') :
    Turn P ⟨w, stk, c⟩ (run ⟨w, stk', c⟩ t false) := by
  obtain ⟨-, r, -, hr, -⟩ := hq
  obtain ⟨w', frames, hran, heq⟩ := run_eq stk' c hr (fun child hl => hw.fed hr hl) false
  rw [heq]
  exact ⟨_, .refl, .inr ⟨t, .mk hc ht hran⟩⟩

theorem constructing_turn (hroots : w.RootHandles w.handles) (name : Name) (child : WatcherId) :
    Turn P ⟨w, stk, c⟩ (resume ⟨w, stk, c⟩ (.constructing name child)) := by
  have hbind : ReflTransGen (Move P) ⟨w, stk, c⟩
      ⟨{ w with handles := w.handles.bind name ⟨child, .child⟩ }, stk, c⟩ :=
    .single (.rename rfl rfl rfl (hroots.bind name (by rintro (h | h) <;> exact nomatch h)))
  unfold resume
  simp only
  split
  · rename_i h _
    obtain ⟨w', heq, hmoves⟩ := release_moves (P := P) h.target
      ⟨{ w with handles := w.handles.bind name ⟨child, .child⟩ }, stk, c⟩
    have hrest := hmoves c
    simp only [inWorld]
    rw [heq] at hrest ⊢
    exact turn_steer (hbind.trans hrest) (Control.calm_answer _)
  · exact turn_steer hbind (Control.calm_answer _)

/-- A frame that goes on. -/
theorem resume_turn (h : WellFormed ⟨w, f :: stk, c⟩) (hc : c.Calm) (hok : P ⟨w, f :: stk, c⟩) :
    Turn P ⟨w, f :: stk, c⟩ (resume ⟨w, stk, c⟩ f) := by
  obtain ⟨hstands, -⟩ := h.stacked
  have hledger : w.Ledger := h.ledger
  have hqueued : ∀ name, ∀ t ∈ w.queue name, w.Queued t := h.queued
  have hroots : w.RootHandles w.handles := h.roots
  cases f with
  | holding id => exact leave_turn hc rfl (release_turn id)
  | script site todo =>
    cases todo with
    | nil => exact leave_turn hc rfl (turn_steer .refl Control.calm_proceed)
    | cons op rest =>
      refine leave_turn hc rfl (push_turn (.script site rest) rfl ?_ ?_)
      · cases site with
        | derivation label => exact ⟨hstands.1, fun _ => hstands.2 (by simp)⟩
        | _ => exact hstands
      · refine perform_turn hroots ?_ hledger hqueued op
        cases site with
        | derivation label => exact hstands.2 (by simp)
        | _ => trivial
  | waking names =>
    cases names with
    | nil => exact leave_turn hc rfl (turn_steer .refl Control.calm_proceed)
    | cons waker rest => exact wake_turn hc hroots
  | announcing id n s ls =>
    exact turn_steer (.single (.announce _ _ hc)) Control.calm_proceed
  | fanOut id n s ls =>
    cases ls with
    | nil => exact leave_turn hc rfl (turn_steer .refl (Control.calm_answer _))
    | cons l ls => exact spread_turn hledger hc
  | calling t => exact leave_turn hc rfl (turn_steer .refl Control.calm_proceed)
  | applying child s =>
    obtain ⟨t, rest, rfl, rfl, d, ho⟩ := hstands
    refine settle_turn hok ho (.inl ⟨hc, ?_⟩)
    unfold outcomeOf
    rw [World.parent?_eq_some_iff.mpr ho]
  | watching label id =>
    exact leave_turn hc rfl (turn_steer (.single (.rename rfl rfl rfl hroots))
      (Control.calm_answer _))
  | constructing name child => exact leave_turn hc rfl (constructing_turn hroots name child)
  | closing id n =>
    obtain ⟨w', heq, hdetaches⟩ := detach_detaches (log ⟨w, stk, c⟩ id (.closed n)) id .detached
    show Turn P _ (answer (detach (log ⟨w, stk, c⟩ id (.closed n)) id _) _)
    rw [heq]
    exact turn_steer (.single (.finish _ _ hc hdetaches)) (Control.calm_answer _)
  | draining ts k =>
    cases ts with
    | nil => exact leave_turn hc rfl (turn_steer .refl (Control.calm_answer _))
    | cons t ts =>
      have hq : w.Queued t := hstands.2 t (by simp)
      exact run_turn hledger hc hq (.drained hq)
  | picking q is k =>
    cases is with
    | nil => exact leave_turn hc rfl (turn_steer .refl (Control.calm_answer _))
    | cons i is =>
      unfold resume
      simp only
      cases ht : (w.queue q)[i]? with
      | none =>
        exact leave_turn hc rfl (push_turn (.picking q is k) rfl hstands (turn_of_moves .refl))
      | some t =>
        have hq : w.Queued t := hqueued q t (List.mem_of_getElem? ht)
        have hless : (w.queue q).eraseIdx i ⊆ w.queue q := List.eraseIdx_subset
        refine turn_trans (.single (.dequeue q hless)) ?_
        exact run_turn (hledger.of_eq rfl rfl) hc hq (.picked hq)
  | polling p => exact leave_turn hc rfl (fetchNext_turn hstands hroots c)
  | fetching p reply => exact leave_turn hc rfl (takeReply_turn hstands c reply)
  | pushing p => exact leave_turn hc rfl (succeed_turn hstands c)
  | ending p => exact leave_turn hc rfl (finish_turn c)

/-- A panic that reaches a frame. -/
theorem unwound_turn {payload : Payload} (h : WellFormed ⟨w, f :: stk, .unwind payload⟩)
    (hok : P ⟨w, f :: stk, .unwind payload⟩) :
    Turn P ⟨w, f :: stk, .unwind payload⟩ (unwound ⟨w, stk, .unwind payload⟩ payload f) := by
  obtain ⟨hstands, -⟩ := h.stacked
  have hpass : ReflTransGen (Move P) ⟨w, f :: stk, .unwind payload⟩ ⟨w, stk, .unwind payload⟩ :=
    .single (.unwind hok)
  cases f with
  | holding id => exact turn_trans hpass (release_turn id)
  | calling t => exact turn_steer (hpass.tail (.remark _ rfl)) Control.calm_proceed
  | applying child s =>
    obtain ⟨t, rest, rfl, rfl, d, ho⟩ := hstands
    exact settle_turn hok ho (.inr ⟨payload, rfl, rfl⟩)
  | polling p => exact turn_trans hpass (fetchNext_turn hstands h.roots .proceed)
  | fetching p reply => exact turn_trans hpass (fail_turn hstands _ _)
  | pushing p => exact turn_trans hpass (fail_turn hstands _ _)
  | ending p => exact turn_of_moves (hpass.tail (.remark true rfl))
  | _ => exact turn_of_moves hpass

end Frames

/-- A step of a machine with unfinished work. -/
theorem step_turn {m : Machine α} (h : m.WellFormed) (hok : P m) (hm : m.stack ≠ []) :
    Turn P m m.step := by
  obtain ⟨w, stk, c⟩ := m
  cases stk with
  | nil => exact absurd rfl hm
  | cons f stk =>
    cases c with
    | unwind payload => exact unwound_turn h hok
    | proceed => exact resume_turn h Control.calm_proceed hok
    | answer a =>
      cases f with
      | script site todo =>
        exact turn_steer (.single (.remark _ rfl)) Control.calm_proceed
      | holding id => exact leave_turn (Control.calm_answer a) rfl (release_turn id)
      | _ => exact resume_turn h (Control.calm_answer a) hok

/-- An operation that is begun from outside. -/
theorem start_turn {m : Machine α} (h : m.WellFormed) (hm : m.stack = []) (op : Op α) :
    Turn P m (m.world.start op) := by
  obtain ⟨w, stk, c⟩ := m
  subst hm
  have hop : w.Operable [] := trivial
  exact turn_trans (.single (.steer Control.calm_proceed))
    (perform_turn h.roots hop h.ledger h.queued op)

end Machine

end WatchTree
