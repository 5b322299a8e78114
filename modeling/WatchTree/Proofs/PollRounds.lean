import WatchTree.Proofs.OnTop
import WatchTree.Proofs.Order

/-!
# The rounds of a poller

A round is a fetch and what comes of it, up to the pause: `PollRound` is a round of a reference in
which only the rules of polling occur, and `PollRound.allNews` what the reference tells of rounds:
what a fetch is told, what counts as a failure, and how long the pause is. `Machine.Round` is a
round between two machines. What fetches, listeners, wakers and others do in between is left open:
they are steps taken above the poller's frame (`Machine.Above`), which tell nothing in a poller's
name. A round of the machine tells what the reference says (`Machine.Round.ends`).
-/

namespace WatchTree

variable {α : Type}

/-! ## The reference -/

/-- The backoff after so many failures in a row. -/
def PollConfig.backoffAfter (c : PollConfig) : Nat → Option Duration
  | 0 => none
  | k + 1 => some (c.nextBackoff (c.backoffAfter k))

/-- What a fetch was told. -/
def PollNews.told? : PollNews → Option (Option Revision)
  | fetched lastKnown => some lastKnown
  | _ => none

/-- What a fetch, and the push of what it returned, came to. -/
inductive PollResult (α : Type)
  | nothing
  | failed (error : String)
  | panicked (payload : Payload)
  | pushed (state : Latest α) (accepted : Bool)
  /-- The value was accepted, and a panic left the push. -/
  | unwound (state : Latest α) (payload : Payload)

/-- The error text of a failure. -/
def PollResult.failure? : PollResult α → Option String
  | nothing | pushed .. => none
  | failed error => some error
  | panicked payload | unwound _ payload => some (Machine.pollPanic payload)

/-- What a poller tells of a result and the pause after it, given its backoff. -/
def PollResult.told (c : PollConfig) (root : WatcherId) (backoff : Option Duration)
    (r : PollResult α) : List PollNews :=
  match r.failure? with
  | none => [.paused root c.delay]
  | some error => [.failed root error (c.nextBackoff backoff), .paused root (c.nextBackoff backoff)]

/-- A round of a poller: what the fetch was told, and what came of it. -/
structure PollRound (α : Type) where
  known : Option Revision
  result : PollResult α

namespace PollRound

/-- The failures in a row after a round, given those before. -/
def failuresAfter (r : PollRound α) (k : Nat) : Nat :=
  match r.result.failure? with
  | none => 0
  | some _ => k + 1

/-- The failures in a row after some rounds, given those before. -/
def failures : Nat → List (PollRound α) → Nat
  | k, [] => k
  | k, r :: rs => failures (r.failuresAfter k) rs

/-- What a poller tells of a round, after so many failures in a row. -/
def news (c : PollConfig) (root : WatcherId) (k : Nat) (r : PollRound α) : List PollNews :=
  .fetched r.known :: r.result.told c root (c.backoffAfter k)

/-- What a poller tells of some rounds, after so many failures in a row. -/
def allNews (c : PollConfig) (root : WatcherId) : Nat → List (PollRound α) → List PollNews
  | _, [] => []
  | k, r :: rs => r.news c root k ++ allNews c root (r.failuresAfter k) rs

theorem failures_concat (k : Nat) (rs : List (PollRound α)) (r : PollRound α) :
    failures k (rs ++ [r]) = r.failuresAfter (failures k rs) := by
  induction rs generalizing k with
  | nil => rfl
  | cons a rs ih => exact ih _

theorem allNews_concat (c : PollConfig) (root : WatcherId) (k : Nat) (rs : List (PollRound α))
    (r : PollRound α) :
    allNews c root k (rs ++ [r]) = allNews c root k rs ++ r.news c root (failures k rs) := by
  induction rs generalizing k with
  | nil => exact List.append_nil _
  | cons a rs ih =>
    show a.news c root k ++ allNews c root _ (rs ++ [r]) = a.news c root k ++ _ ++ _
    rw [ih, List.append_assoc]
    rfl

end PollRound

/-- A revision that may be missing, and one that is no older. -/
def Revision.NoLater (a b : Option Revision) : Prop := ∀ x ∈ a, ∃ y ∈ b, x ≤ y

theorem Revision.NoLater.trans {a b c : Option Revision} (h : NoLater a b) (h' : NoLater b c) :
    NoLater a c := by
  intro x hx
  obtain ⟨y, hy, hxy⟩ := h x hx
  obtain ⟨z, hz, hyz⟩ := h' y hy
  exact ⟨z, hz, Revision.le_trans hxy hyz⟩

namespace World

/-- A root would accept the state: it is open, and the state no older than its own. -/
def Admits (w : World α) (id : WatcherId) (s : Latest α) : Prop :=
  w.isClosed id = false ∧ ∀ current, w.latest? id = some current → ¬ s.revision < current.revision

def known (w : World α) (id : WatcherId) : Option Revision := (w.latest? id).map Latest.revision

end World

namespace Machine

/-! ## Rounds -/

section Definitions

variable [BEq α]

/-- Steps that are taken while there is work above a stack. -/
inductive Above (base : List (Frame α)) (m : Machine α) : Machine α → Prop
  | refl : Above base m m
  | step {m' : Machine α} {f : Frame α} {fs : List (Frame α)} :
      Above base m m' → m'.stack = f :: (fs ++ base) → Above base m m'.step

variable (stk : List (Frame α))

/-- A poller looks whether it is to go on: its root is open, and its signal is not set. -/
structure GoesOn (q : Polling α) (x : Machine α) : Prop where
  between : x.stack = .polling q :: stk
  isOpen : x.world.isClosed q.root = false
  unstopped : x.world.stopped = false

/-- Others act before the next fetch; they are at work in the second machine, or have finished
there, and then the poller looks again. -/
structure Pausing (q q' : Polling α) (x y : Machine α) : Prop extends GoesOn stk q x where
  script : ∃ op ops actions reply rest,
    q.script = ⟨op :: ops, actions, reply⟩ :: rest ∧
      q' = { q with script := ⟨[], actions, reply⟩ :: rest }
  above : Above (.polling q' :: stk) x.step y

/-- A poller comes to where it looks whether a fetch is to begin, others having acted or not. -/
inductive Waits (x : Machine α) (q : Polling α) : Machine α → Polling α → Prop
  | none : x.stack = .polling q :: stk → Waits x q x q
  | others {y : Machine α} {q' : Polling α} :
      Pausing stk q q' x y → y.stack = .polling q' :: stk → Waits x q y q'

/-- The next fetch begins; it is under way in the second machine, or has ended there. -/
structure Fetching (q : Polling α) (reply : Reply α) (rest : Script α)
    (x z : Machine α) : Prop extends GoesOn stk q x where
  script : ∃ actions, q.script = ⟨[], actions, reply⟩ :: rest
  above : Above (.fetching { q with script := rest } reply :: stk) x.step z

/-- A fetch has returned a state, which is pushed and accepted or not; the push is under way in the
second machine, or has ended there. -/
structure Pushing (q : Polling α) (s : Latest α) (accepted : Bool) (z u : Machine α) : Prop where
  calm : z.control.Calm
  admitted : accepted = true ↔ z.world.Admits q.root s
  accepts : z.step.world.accepted q.root = z.world.accepted q.root ++ if accepted then [s] else []
  above : Above (.pushing q :: stk) z.step u

/-- What comes of a fetch that has ended in the first machine: the second one is about to pause. -/
inductive Yields (q : Polling α) (z : Machine α) :
    Reply α → PollResult α → Machine α → Prop
  | panicked {reply : Reply α} {payload : Payload} :
      z.control = .unwind payload → Yields q z reply (.panicked payload) z
  | nothing : z.control.Calm → Yields q z .nothing .nothing z
  | failed {error : String} : z.control.Calm → Yields q z (.failed error) (.failed error) z
  | raised {payload : Payload} :
      z.control.Calm → Yields q z (.panicked payload) (.panicked payload) z
  | pushed {revision : Revision} {value : Given α} {accepted : Bool} {u : Machine α} :
      Pushing stk q ⟨revision, value.on q.face⟩ accepted z u → u.stack = .pushing q :: stk →
      u.control.Calm →
      Yields q z (.state revision value) (.pushed ⟨revision, value.on q.face⟩ accepted) u
  | unwound {revision : Revision} {value : Given α} {u : Machine α} {payload : Payload} :
      Pushing stk q ⟨revision, value.on q.face⟩ true z u → u.stack = .pushing q :: stk →
      u.control = .unwind payload →
      Yields q z (.state revision value) (.unwound ⟨revision, value.on q.face⟩ payload) u

/-- A round, from one point between two fetches to the next. -/
inductive Round (x : Machine α) (q : Polling α) :
    PollRound α → Machine α → Polling α → Prop
  | mk {reply : Reply α} {rest : Script α} {y z u : Machine α} {q' : Polling α}
      {result : PollResult α} :
      Waits stk x q y q' → Fetching stk q' reply rest y z →
      z.stack = .fetching { q' with script := rest } reply :: stk →
      Yields stk { q' with script := rest } z reply result u →
      Round x q ⟨y.world.known q.root, result⟩ u.step
        { q with
          script := rest
          backoff := result.failure?.map fun _ => q.config.nextBackoff q.backoff }

/-- Rounds, one after the other. -/
inductive Rounds (m : Machine α) (p : Polling α) :
    List (PollRound α) → Machine α → Polling α → Prop
  | nil : Rounds m p [] m p
  | concat {rs : List (PollRound α)} {r : PollRound α} {x y : Machine α} {q q' : Polling α} :
      Rounds m p rs x q → Round stk x q r y q' → Rounds m p (rs ++ [r]) y q'

/-- Where a poller is after some rounds, and what the fetch under way was told: between two
fetches, while others act or not, in a fetch, in a push, or at the end. The end comes when the
poller finds its root closed or its signal set, or its script has ended. -/
inductive Stage (x : Machine α) (q : Polling α) : Machine α → Option (Option Revision) → Prop
  | between : x.stack = .polling q :: stk → Stage x q x none
  | pausing {q' : Polling α} {y : Machine α} : Pausing stk q q' x y → Stage x q y none
  | fetching {reply : Reply α} {rest : Script α} {y z : Machine α} {q' : Polling α} :
      Waits stk x q y q' → Fetching stk q' reply rest y z →
      Stage x q z (some (y.world.known q.root))
  | pushing {revision : Revision} {value : Given α} {rest : Script α}
      {accepted : Bool} {y z u : Machine α} {q' : Polling α} :
      Waits stk x q y q' → Fetching stk q' (.state revision value) rest y z →
      z.stack = .fetching { q' with script := rest } (.state revision value) :: stk →
      Pushing stk { q' with script := rest } ⟨revision, value.on q'.face⟩ accepted z u →
      Stage x q u (some (y.world.known q.root))
  | ended {y m : Machine α} {q' : Polling α} :
      Waits stk x q y q' →
      y.world.isClosed q.root = true ∨ y.world.stopped = true ∨ q'.script = [] →
      Above stk y.step m → Stage x q m none

end Definitions

/-! ## Work above a poller -/

section Above

variable [BEq α] {base stk : List (Frame α)} {m m' : Machine α}

theorem Above.later (h : Above base m m') : m.Later (fun _ => True) m' := by
  induction h with
  | refl => exact .refl
  | step _ hstk ih => exact ih.next trivial (.step (by rw [hstk]; exact List.cons_ne_nil _ _))

theorem Above.trans {m'' : Machine α} (h : Above base m m') (h' : Above base m' m'') :
    Above base m m'' := by
  induction h' with
  | refl => exact h
  | step _ hstk ih => exact ih.step hstk

omit [BEq α] in
theorem cons_append_ne (f : Frame α) (fs stk : List (Frame α)) : f :: (fs ++ stk) ≠ stk :=
  fun heq => absurd (congrArg List.length heq) (by simp; omega)

/-- Nothing is done above a stack that has nothing on it. -/
theorem Above.eq_of_stack (h : Above base m m') (hstk : m.stack = base) : m' = m := by
  induction h with
  | refl => rfl
  | step _ hwork ih =>
    rw [ih, hstk] at hwork
    exact absurd hwork.symm (cons_append_ne _ _ _)

/-- Steps are taken above a stack as long as the stacks are longer. -/
theorem Above.steps {n : Nat} (h : Above stk m m') (hsuffix : stk <:+ m'.stack)
    (hlong : ∀ k < n, decide (stk.length < (m'.steps k).stack.length) = true) :
    Above stk m (m'.steps n) := by
  refine (steps_induction (Q := fun x => Above stk m x ∧ stk <:+ x.stack)
    (P := fun x => decide (stk.length < x.stack.length) = true) ?_ n ⟨h, hsuffix⟩ hlong).1
  rintro x ⟨habove, fs, hfs⟩ hlt -
  cases fs with
  | nil =>
    rw [← hfs] at hlt
    simp at hlt
  | cons f fs =>
    refine ⟨habove.step hfs.symm, suffix_step ?_⟩
    rw [← hfs]
    exact ⟨fs, rfl⟩

/-- What stands on a poller's frame is no poller's. -/
def OverPoller (g : Frame α) (stk : List (Frame α)) (m : Machine α) : Prop :=
  ∃ fs, m.stack = fs ++ g :: stk ∧ ∀ f ∈ fs, f.hasPoller = false

omit [BEq α] in
theorem isPollers_of_hasPoller {f : Frame α} (h : f.hasPoller = false) : f.isPollers = false := by
  cases f <;> first | rfl | exact nomatch h

section OverPoller

variable {g f : Frame α} {fs : List (Frame α)} (hg : g.hasPoller = true)

include hg

/-- A step above a poller puts no other poller on, and tells nothing in a poller's name. -/
theorem OverPoller.step (hstk : m.stack = f :: (fs ++ g :: stk))
    (hnone : ∀ a ∈ f :: fs, a.hasPoller = false) :
    OverPoller g stk m.step ∧ m.step.world.news = m.world.news := by
  obtain ⟨hf, hfs⟩ := List.forall_mem_cons.mp hnone
  have hbuilds := step_builds hstk
  have hquiet := isPollers_of_hasPoller hf
  obtain ⟨new, hnew, hnewnone⟩ := hbuilds.frames
  have hany : (fs ++ g :: stk).any Frame.hasPoller = true := by
    rw [List.any_append, List.any_cons, hg, Bool.true_or, Bool.or_true]
  refine ⟨⟨new ++ fs, by rw [hnew, List.append_assoc], fun a ha => ?_⟩, hbuilds.news hquiet⟩
  rcases List.mem_append.mp ha with ha | ha
  · exact hnewnone hquiet hany a ha
  · exact hfs a ha

theorem Above.overPoller (h : Above (g :: stk) m m') (hm : OverPoller g stk m) :
    OverPoller g stk m' ∧ m'.world.news = m.world.news := by
  induction h with
  | refl => exact ⟨hm, rfl⟩
  | @step x f fs _ hwork ih =>
    obtain ⟨⟨fs', hfs', hnone⟩, hnews⟩ := ih
    obtain rfl : fs' = f :: fs :=
      List.append_cancel_right (hfs'.symm.trans (hwork.trans (List.cons_append ..).symm))
    obtain ⟨hover, hsame⟩ := OverPoller.step hg hwork hnone
    exact ⟨hover, hsame.trans hnews⟩

end OverPoller

end Above

/-! ## Single steps of a poller -/

section Steps

variable [BEq α] {stk : List (Frame α)} {q : Polling α} {x : Machine α}

omit [BEq α] in
theorem exists_root (hm : x.WellFormed) {f : Frame α} (hstk : x.stack = f :: stk)
    (hroot : f.Stands x.world stk → x.world.IsRoot q.root) :
    ∃ b, x.world.watcher? q.root = some b ∧ b.origin = .root := by
  have hstacked := hm.stacked
  rw [hstk] at hstacked
  exact World.exists_watcher?_of_origin? (hroot hstacked.1)

/-- A frame of a poller that no panic reaches goes on. -/
theorem step_of_hasPoller {f : Frame α} (hf : f.hasPoller = true) (hstk : x.stack = f :: stk)
    (hc : x.control.Calm) : x.step = resume { x with stack := stk } f := by
  obtain ⟨w, stk', c⟩ := x
  obtain rfl : stk' = f :: stk := hstk
  cases c with
  | unwind payload => exact absurd rfl (hc payload)
  | proceed => rfl
  | answer a => cases f <;> first | rfl | exact nomatch hf

theorem step_of_unwind {f : Frame α} (hstk : x.stack = f :: stk) {payload : Payload}
    (hc : x.control = .unwind payload) : x.step = unwound { x with stack := stk } payload f := by
  obtain ⟨w, stk', c⟩ := x
  obtain rfl : stk' = f :: stk := hstk
  obtain rfl : c = .unwind payload := hc
  rfl

/-- Whatever others leave behind, a poller between two fetches looks whether it is to go on. -/
theorem step_of_polling (hstk : x.stack = .polling q :: stk) :
    x.step = fetchNext ⟨x.world, stk, .proceed⟩ q := by
  have hsame : ∀ c, fetchNext ⟨x.world, stk, c⟩ q = fetchNext ⟨x.world, stk, .proceed⟩ q :=
    fun c => rfl
  obtain ⟨w, stk', c⟩ := x
  obtain rfl : stk' = .polling q :: stk := hstk
  cases c with
  | unwind payload => rfl
  | proceed | answer => exact hsame _

section GoesOn

variable (h : GoesOn stk q x) (hm : x.WellFormed)

include h hm

omit [BEq α] in
theorem GoesOn.exists_watcher : ∃ b, x.world.watcher? q.root = some b ∧ b.closed = false := by
  obtain ⟨b, hb, -⟩ := exists_root (q := q) hm h.between (·.1)
  exact ⟨b, hb, (World.isClosed_of_watcher? hb).symm.trans h.isOpen⟩

/-- A fetch begins: it is told the revision known last. -/
theorem GoesOn.step_fetch {actions : List (Op α)} {reply : Reply α} {rest : Script α}
    (hscript : q.script = ⟨[], actions, reply⟩ :: rest) :
    x.step.stack =
        .script .fetch actions :: .fetching { q with script := rest } reply :: stk ∧
      x.step.world.news = x.world.news ++ [.fetched (x.world.known q.root)] := by
  obtain ⟨b, hb, hclosed⟩ := h.exists_watcher hm
  have hstep : x.step = (((⟨x.world, stk, .proceed⟩ : Machine α).push
      (.fetching { q with script := rest } reply)).record
        (.fetched (b.latest.map Latest.revision))).push (.script .fetch actions) := by
    rw [step_of_polling h.between]
    unfold fetchNext
    simp only [hb, hclosed, h.unstopped, hscript]
    rfl
  rw [hstep]
  refine ⟨rfl, ?_⟩
  unfold World.known
  rw [World.latest?_of_watcher? hb]
  exact World.news_note ..

/-- Others begin to act, and the poller will look again. -/
theorem GoesOn.step_pause {op : Op α} {ops actions : List (Op α)} {reply : Reply α}
    {rest : Script α} (hscript : q.script = ⟨op :: ops, actions, reply⟩ :: rest) :
    x.step.stack = .script .elsewhere (op :: ops) ::
        .polling { q with script := ⟨[], actions, reply⟩ :: rest } :: stk ∧
      x.step.world.news = x.world.news := by
  obtain ⟨b, hb, hclosed⟩ := h.exists_watcher hm
  have hstep : x.step = ((⟨x.world, stk, .proceed⟩ : Machine α).push
      (.polling { q with script := ⟨[], actions, reply⟩ :: rest })).push
        (.script .elsewhere (op :: ops)) := by
    rw [step_of_polling h.between]
    unfold fetchNext
    simp only [hb, hclosed, h.unstopped, hscript]
    rfl
  rw [hstep]
  exact ⟨rfl, rfl⟩

end GoesOn

omit [BEq α] in
/-- After a failure the poller tells of it and pauses as long as the backoff says. -/
theorem fail_eq (m : Machine α) (q : Polling α) (error : String) :
    (m.fail q error).stack =
        .polling { q with backoff := some (q.config.nextBackoff q.backoff) } :: m.stack ∧
      (m.fail q error).world.news = m.world.news ++
        [.failed q.root error (q.config.nextBackoff q.backoff),
          .paused q.root (q.config.nextBackoff q.backoff)] := by
  refine ⟨rfl, ?_⟩
  show (World.note (World.note _ _ _) _ _).news = _
  rw [World.news_note, World.news_note, List.append_assoc]
  rfl

omit [BEq α] in
/-- After anything else it pauses for the delay, and there is no backoff. -/
theorem succeed_eq (m : Machine α) (q : Polling α) :
    (m.succeed q).stack = .polling { q with backoff := none } :: m.stack ∧
      (m.succeed q).world.news = m.world.news ++ [.paused q.root q.config.delay] :=
  ⟨rfl, World.news_note ..⟩

theorem admits_iff {w : World α} {id : WatcherId} {b : Watcher α}
    (hb : w.watcher? id = some b) (hroot : b.origin = .root) (s : Latest α) :
    w.Admits id s ↔ b.closed = false ∧ b.refusal s = none := by
  unfold World.Admits Watcher.refusal
  rw [World.latest?_of_watcher? hb, World.isClosed_of_watcher? hb, hroot]
  refine and_congr_right fun _ => ?_
  cases b.latest with
  | none => simp
  | some current => simp

/-- A root accepts what is offered exactly if it is open and the revision no older than its own;
else the offer is over at once. -/
theorem offer_root (m : Machine α) {id : WatcherId} {b : Watcher α}
    (hb : m.world.watcher? id = some b) (hroot : b.origin = .root) (s : Latest α) :
    (m.world.Admits id s ∧ (m.offer id s).world.accepted id = m.world.accepted id ++ [s] ∧
      ∃ names n ls, (m.offer id s).stack =
        .waking names :: .announcing id n s ls :: m.stack) ∨
    (¬ m.world.Admits id s ∧ (m.offer id s).world.accepted id = m.world.accepted id ∧
      (m.offer id s).stack = m.stack ∧ (m.offer id s).control.Calm) := by
  rw [admits_iff hb hroot]
  rcases m.offer_or hb s with ⟨reception, w, hrebuffs, heq⟩ | ⟨hcl, hr⟩
  · right
    rw [heq]
    refine ⟨fun ⟨hcl, hr⟩ => ?_, hrebuffs.alike.accepted id, rfl, Control.calm_answer _⟩
    cases hrebuffs with
    | closed p hclosed => exact nomatch hcl.symm.trans hclosed
    | refused p q name hopen hrefused => exact nomatch hr.symm.trans hrefused
  · left
    rw [offer_adopted hb hcl hr]
    exact ⟨⟨hcl, hr⟩, (World.accepted_adopt ..).trans (by rw [if_pos rfl]), _, _, _, rfl⟩

/-- A push begins: it is over at once if the state is not accepted. -/
theorem step_push {z : Machine α} (hm : z.WellFormed) {revision : Revision} {value : Given α}
    (hstk : z.stack = .fetching q (.state revision value) :: stk) (hc : z.control.Calm) :
    ∃ accepted, Pushing stk q ⟨revision, value.on q.face⟩ accepted z z.step ∧
      OverPoller (.pushing q) stk z.step ∧ z.step.world.news = z.world.news ∧
      (accepted = false → z.step.stack = .pushing q :: stk ∧ z.step.control.Calm) := by
  obtain ⟨b, hb, hroot⟩ := exists_root (q := q) hm hstk (·.1)
  have hstep : z.step = (({ z with stack := stk } : Machine α).push (.pushing q)).offer q.root
      ⟨revision, value.on q.face⟩ := step_of_hasPoller rfl hstk hc
  have hnews : z.step.world.news = z.world.news := hstep ▸ (Builds.offer _ _ _).news rfl
  rcases offer_root (({ z with stack := stk } : Machine α).push (.pushing q)) hb hroot
      ⟨revision, value.on q.face⟩ with
    ⟨hadmits, haccepted, names, n, ls, hstack⟩ | ⟨hrejects, hsame, hstack, hcalm⟩
  · rw [← hstep] at haccepted hstack
    refine ⟨true, ⟨hc, iff_of_true rfl hadmits, haccepted, .refl⟩, ⟨[_, _], hstack, ?_⟩, hnews,
      Bool.noConfusion⟩
    simp [Frame.hasPoller]
  · rw [← hstep] at hsame hstack hcalm
    refine ⟨false, ⟨hc, iff_of_false Bool.false_ne_true hrejects, ?_, .refl⟩,
      ⟨[], hstack, List.forall_mem_nil _⟩, hnews, fun _ => ⟨hstack, hcalm⟩⟩
    exact hsame.trans (List.append_nil _).symm

/-- A poller that finds its root closed or its signal set ends. -/
theorem step_halted (hstk : x.stack = .polling q :: stk)
    (hhalt : x.world.isClosed q.root = true ∨ x.world.stopped = true) :
    x.step.stack = stk ∧ x.step.world.news = x.world.news := by
  have hfinish : (fetchNext ⟨x.world, stk, .proceed⟩ q) = finish ⟨x.world, stk, .proceed⟩ q := by
    unfold fetchNext
    split
    · rfl
    · rename_i b hb
      rw [if_pos]
      rcases hhalt with hclosed | hstopped
      · rw [← World.isClosed_of_watcher? hb, hclosed, Bool.or_true]
      · rw [hstopped, Bool.true_or]
  rw [step_of_polling hstk, hfinish]
  exact ⟨rfl, (Changes.finish (E := fun _ => False) ⟨x.world, stk, .proceed⟩ q).news id⟩

theorem step_ending (hstk : x.stack = .ending q :: stk) :
    x.step.world.news = x.world.news ∧ x.step.stack = stk ∧
      x.step.world.stopped = x.world.stopped := by
  by_cases hc : x.control.Calm
  · rw [step_of_hasPoller rfl hstk hc]
    exact ⟨(Changes.finish (E := fun _ => False) { x with stack := stk } q).news id, rfl, rfl⟩
  · obtain ⟨payload, hc⟩ := not_forall_not.mp hc
    rw [step_of_unwind hstk hc]
    exact ⟨World.news_note_of_none _ true rfl, rfl, rfl⟩

end Steps

/-! ## Rounds -/

section Rounds

variable [BEq α] {stk : List (Frame α)} {q : Polling α} {reply : Reply α}
  {rest : Script α} {x y z u : Machine α} {q' : Polling α} {r : PollRound α}
  {result : PollResult α}

theorem GoesOn.later (h : GoesOn stk q x) : x.Later (fun _ => True) x.step :=
  Later.refl.next trivial (.step (by rw [h.between]; exact List.cons_ne_nil _ _))

theorem Pausing.later (h : Pausing stk q q' x y) : x.Later (fun _ => True) y :=
  h.toGoesOn.later.trans h.above.later

theorem Pausing.news (h : Pausing stk q q' x y) (hm : x.WellFormed) :
    OverPoller (.polling q') stk y ∧ y.world.news = x.world.news := by
  obtain ⟨op, ops, actions, reply, rest, hscript, rfl⟩ := h.script
  obtain ⟨hstk, hnews⟩ := h.toGoesOn.step_pause hm hscript
  have hscripted : OverPoller
      (.polling { q with script := ⟨[], actions, reply⟩ :: rest }) stk x.step :=
    ⟨[_], hstk, by simp [Frame.hasPoller]⟩
  obtain ⟨hover, hquiet⟩ := h.above.overPoller rfl hscripted
  exact ⟨hover, hquiet.trans hnews⟩

section Waits

variable (h : Waits stk x q y q')

include h

theorem Waits.later : x.Later (fun _ => True) y := by
  cases h with
  | none => exact .refl
  | others hp => exact hp.later

theorem Waits.stack : y.stack = .polling q' :: stk := by
  cases h with
  | none hstk => exact hstk
  | others _ hstk => exact hstk

/-- Only what others are to do is taken off the script. -/
theorem Waits.same : q' = { q with script := q'.script } := by
  cases h with
  | none => rfl
  | others hp =>
    obtain ⟨_, _, _, _, _, -, rfl⟩ := hp.script
    rfl

theorem Waits.root : q'.root = q.root := by rw [h.same]

theorem Waits.news (hm : x.WellFormed) : y.world.news = x.world.news := by
  cases h with
  | none => rfl
  | others hp => exact (hp.news hm).2

end Waits

theorem Fetching.later (h : Fetching stk q reply rest x z) : x.Later (fun _ => True) z :=
  h.toGoesOn.later.trans h.above.later

theorem Fetching.news (h : Fetching stk q reply rest x z) (hm : x.WellFormed) :
    OverPoller (.fetching { q with script := rest } reply) stk z ∧
      z.world.news = x.world.news ++ [.fetched (x.world.known q.root)] := by
  obtain ⟨actions, hscript⟩ := h.script
  obtain ⟨hstk, hnews⟩ := h.toGoesOn.step_fetch hm hscript
  have hscripted : OverPoller (.fetching { q with script := rest } reply) stk x.step :=
    ⟨[_], hstk, by simp [Frame.hasPoller]⟩
  obtain ⟨hover, hquiet⟩ := h.above.overPoller rfl hscripted
  exact ⟨hover, hquiet.trans hnews⟩

section Pushing

variable {revision : Revision} {value : Given α} {accepted : Bool}
  (h : Pushing stk q ⟨revision, value.on q.face⟩ accepted z u) (hm : z.WellFormed)
  (hstk : z.stack = .fetching q (.state revision value) :: stk)

include h hstk

theorem Pushing.later : z.Later (fun _ => True) u :=
  (Later.refl.next trivial (.step (by rw [hstk]; exact List.cons_ne_nil _ _))).trans h.above.later

include hm

theorem Pushing.news : OverPoller (.pushing q) stk u ∧ u.world.news = z.world.news := by
  obtain ⟨-, -, hover, hnews, -⟩ := step_push hm hstk h.calm
  obtain ⟨hover', hquiet⟩ := h.above.overPoller rfl hover
  exact ⟨hover', hquiet.trans hnews⟩

/-- A panic leaves the push only if the state was accepted. -/
theorem Pushing.accepted_of_unwind {payload : Payload} (hu : u.control = .unwind payload) :
    accepted = true := by
  obtain ⟨accepted', hpush, -, -, hrejected⟩ := step_push hm hstk h.calm
  have hsame : accepted = accepted' :=
    Bool.eq_iff_iff.mpr (h.admitted.trans hpush.admitted.symm)
  rw [← hsame] at hrejected
  cases accepted with
  | true => rfl
  | false =>
    obtain ⟨hstack, hcalm⟩ := hrejected rfl
    rw [h.above.eq_of_stack hstack] at hu
    exact absurd hu (hcalm payload)

end Pushing

section Yields

variable (h : Yields stk q z reply result u) (hm : z.WellFormed)
  (hstk : z.stack = .fetching q reply :: stk)

include h hstk

theorem Yields.later : z.Later (fun _ => True) u := by
  cases h with
  | pushed hp | unwound hp => exact hp.later hstk
  | _ => exact .refl

/-- What comes of a fetch decides what the poller does next. -/
theorem Yields.step :
    u.step = match result.failure? with
      | none => succeed { u with stack := stk } q
      | some error => fail { u with stack := stk } q error := by
  cases h with
  | panicked hc => exact step_of_unwind hstk hc
  | nothing hc | failed hc | raised hc => exact step_of_hasPoller rfl hstk hc
  | pushed hp hu hc => exact step_of_hasPoller rfl hu hc
  | unwound hp hu hc => exact step_of_unwind hu hc

include hm

theorem Yields.news : u.world.news = z.world.news := by
  cases h with
  | pushed hp | unwound hp => exact (hp.news hm hstk).2
  | _ => rfl

/-- The poller tells of the result and pauses. -/
theorem Yields.pauses :
    u.step.stack = .polling { q with
        backoff := result.failure?.map fun _ => q.config.nextBackoff q.backoff } :: stk ∧
      u.step.world.news = z.world.news ++ result.told q.config q.root q.backoff := by
  rw [h.step hstk, ← h.news hm hstk]
  unfold PollResult.told
  cases result.failure? with
  | none => exact succeed_eq _ q
  | some error => exact fail_eq _ q error

end Yields

theorem Round.later (h : Round stk x q r y q') : x.Later (fun _ => True) y := by
  cases h with
  | mk hw hf hz hu =>
    refine (hw.later.trans (hf.later.trans (hu.later hz))).next trivial (.step ?_)
    cases hu with
    | pushed hp hu | unwound hp hu => rw [hu]; exact List.cons_ne_nil _ _
    | _ => rw [hz]; exact List.cons_ne_nil _ _

/-- A fetch is told the revision of the moment at which it begins. -/
theorem Round.known (h : Round stk x q r y q') :
    ∃ w, x.Later (fun _ => True) w ∧ w.Later (fun _ => True) y ∧
      r.known = w.world.known q.root := by
  cases h with
  | mk hw hf hz hu =>
    refine ⟨_, hw.later, (hf.later.trans (hu.later hz)).next trivial (.step ?_), rfl⟩
    cases hu with
    | pushed hp hu | unwound hp hu => rw [hu]; exact List.cons_ne_nil _ _
    | _ => rw [hz]; exact List.cons_ne_nil _ _

theorem Round.same (h : Round stk x q r y q') : q'.root = q.root ∧ q'.config = q.config := by
  cases h
  exact ⟨rfl, rfl⟩

/-- The backoff counts the failures in a row. -/
theorem Round.backoff (h : Round stk x q r y q') {k : Nat}
    (hk : q.backoff = q.config.backoffAfter k) :
    q'.backoff = q.config.backoffAfter (r.failuresAfter k) := by
  cases h with
  | @mk reply rest w z u q₁ result =>
    show result.failure?.map _ = q.config.backoffAfter (PollRound.failuresAfter ⟨_, result⟩ k)
    unfold PollRound.failuresAfter
    rw [hk]
    cases result.failure? <;> rfl

/-- A round tells what the reference says, and ends between two fetches. -/
theorem Round.ends (h : Round stk x q r y q') (hm : x.WellFormed) :
    y.stack = .polling q' :: stk ∧
      y.world.news = x.world.news ++
        .fetched r.known :: r.result.told q.config q.root q.backoff := by
  cases h with
  | @mk reply rest w z u q₁ result hw hf hz hu =>
    have hmw := hw.later.wellFormed hm
    obtain ⟨hstk, hnews⟩ := hu.pauses (hf.later.wellFormed hmw) hz
    rw [(hf.news hmw).2, hw.news hm, List.append_assoc] at hnews
    rw [hw.same] at hstk hnews
    exact ⟨hstk, hnews⟩

/-- Where a poller is after some rounds. -/
structure Arrives (stk : List (Frame α)) (m : Machine α) (p : Polling α) (rs : List (PollRound α))
    (x : Machine α) (q : Polling α) : Prop where
  later : m.Later (fun _ => True) x
  stack : x.stack = .polling q :: stk
  root : q.root = p.root
  config : q.config = p.config
  backoff : q.backoff = p.config.backoffAfter (PollRound.failures 0 rs)
  news : x.world.news = m.world.news ++ PollRound.allNews p.config p.root 0 rs

theorem Rounds.arrives {m : Machine α} {p : Polling α} {rs : List (PollRound α)}
    (h : Rounds stk m p rs x q) (hm : m.WellFormed) (hstk : m.stack = .polling p :: stk)
    (hp : p.backoff = none) : Arrives stk m p rs x q := by
  induction h with
  | nil => exact ⟨.refl, hstk, rfl, rfl, hp, (List.append_nil _).symm⟩
  | @concat rs r x y q q' _ hround ih =>
    obtain ⟨hstk', hnews⟩ := hround.ends (ih.later.wellFormed hm)
    obtain ⟨hroot, hconfig⟩ := hround.same
    have hbackoff : q.backoff = q.config.backoffAfter (PollRound.failures 0 rs) := by
      rw [ih.config]
      exact ih.backoff
    refine ⟨ih.later.trans hround.later, hstk', hroot.trans ih.root,
      hconfig.trans ih.config, ?_, ?_⟩
    · rw [PollRound.failures_concat, ← ih.config]
      exact hround.backoff hbackoff
    · rw [hnews, ih.news, PollRound.allNews_concat, List.append_assoc, hbackoff, ih.config, ih.root]
      rfl

end Rounds

end Machine

end WatchTree
