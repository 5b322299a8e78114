import WatchTree.Proofs.Additions
import WatchTree.Proofs.Effects

/-!
# Work is done on top

A step takes the innermost frame off and works above those that are left: `Machine.step_builds`. So
an operation that is waiting for the work above it is still there when that work is done. Closing a
watcher and accepting a state are the last things that a step does: the wakers are about to be woken
then, and the listeners wait below. What a poller tells of its work, it tells in a turn of its own.
All this can be read off the effects that a step has.
-/

namespace WatchTree

variable {α : Type}

/-! ## Events -/

/-- What a poller tells of its work. -/
inductive PollNews
  /-- A fetch was called with the revision known last. -/
  | fetched (lastKnown : Option Revision)
  | failed (root : WatcherId) (error : String) (pause : Duration)
  | paused (root : WatcherId) (pause : Duration)

/-- What a poller tells with an event. -/
def Event.news? : Event α → Option PollNews
  | .fetched lastKnown => some (.fetched lastKnown)
  | .logged root _ (.fetchFailed error pause) => some (.failed root error pause)
  | .paused root pause => some (.paused root pause)
  | _ => none

/-- The work of a poller that has not come to its end. -/
def Frame.isPollers : Frame α → Bool
  | .polling _ | .fetching .. | .pushing _ => true
  | _ => false

/-- What pollers have told, oldest first. -/
def World.news (w : World α) : List PollNews := w.events.filterMap Event.news?

theorem World.news_note (w : World α) (p : Bool) (e : Event α) :
    (w.note p e).news = w.news ++ e.news?.toList := by
  unfold news
  rw [events_note, List.filterMap_append, List.filterMap_cons, List.filterMap_nil]
  cases e.news? <;> rfl

theorem World.news_note_of_none (w : World α) (p : Bool) {e : Event α} (he : e.news? = none) :
    (w.note p e).news = w.news := by
  rw [news_note, he]
  exact List.append_nil _

theorem World.news_adopt (w : World α) (p q : Bool) (name : String) (id : WatcherId)
    (b : Watcher α) (s : Latest α) : (w.adopt p q name id b s).news = w.news := by
  have hoffer : ((w.note p (.offered id s .accepted)).modify id (·.accept s)).news = w.news :=
    w.news_note_of_none p rfl
  unfold adopt
  simp only
  split
  · exact (news_note_of_none _ q rfl).trans hoffer
  · exact hoffer

theorem World.accepted_note (w : World α) (p : Bool) {e : Event α} {id : WatcherId}
    (he : e.acceptance? id = none) : (w.note p e).accepted id = w.accepted id := by
  unfold World.accepted
  rw [events_note, Event.accepted_append]
  show _ ++ [e].filterMap _ = _
  rw [List.filterMap_cons_none he]
  exact List.append_nil _

theorem Event.acceptance?_of_effect? {e : Event α} (he : e.effect? ≠ some .accepts)
    (id : WatcherId) : e.acceptance? id = none := by
  cases e with
  | offered j s reception => cases reception <;> first | rfl | exact absurd rfl he
  | _ => rfl

theorem Event.effect?_of_news? {e : Event α} (he : e.news? ≠ none) : e.effect? = some .polls := by
  cases e with
  | logged id name d => cases d <;> first | rfl | exact absurd rfl he
  | fetched | paused => rfl
  | offered id s reception => exact absurd rfl he
  | _ => exact absurd rfl he

theorem Frame.effect?_of_hasPoller {f : Frame α} (hf : f.hasPoller = true) :
    f.effect? = some .polls := by
  cases f <;> first | rfl | exact nomatch hf

/-! ## Effects of pollers, offers and closes -/

/-- An operation may start a poller, and is no work of one. -/
theorem Op.not_polls (op : Op α) : ¬ op.effects .polls := by
  cases op <;> exact id

/-- What offers a state leaves the watchers alone until the state is accepted. -/
theorem Op.alters_of_accepts {op : Op α} (h : op.effects .accepts) {e : Effect}
    (he : op.effects e) : e.alters = false := by
  cases op <;> cases e <;> first | rfl | exact h.elim | exact he.elim

namespace Frame

theorem isPollers_of_polls {f : Frame α} (h : f.effects .polls) : f.isPollers = true := by
  cases f with
  | script site todo =>
    cases todo with
    | nil => exact h.elim
    | cons op rest => exact (op.not_polls h).elim
  | polling | fetching | pushing => rfl
  | _ => exact h.elim

theorem isPollers_of_starts {f : Frame α} (h : f.effects .starts) : f.isPollers = false := by
  cases f <;> first | rfl | exact h.elim

theorem alters_of_accepts {f : Frame α} (h : f.effects .accepts) {e : Effect}
    (he : f.effects e) : e.alters = false := by
  cases f with
  | script site todo =>
    cases todo with
    | nil => exact h.elim
    | cons op rest => exact Op.alters_of_accepts h he
  | applying | fetching => cases e <;> first | rfl | exact he.elim
  | _ => exact h.elim

end Frame

namespace Machine

variable {m m' m'' : Machine α} {E : Effect → Prop}

namespace Changes

/-- Nothing is accepted in the course of changes. -/
theorem accepted (h : m.Changes E m') (id : WatcherId) :
    m'.world.accepted id = m.world.accepted id := by
  obtain ⟨es, hes, hE⟩ := h.events
  have hnone : es.filterMap (Event.acceptance? id) = [] := List.filterMap_eq_nil_iff.mpr
    fun e he => Event.acceptance?_of_effect? (fun h => (hE e he _ h).2 rfl) id
  unfold World.accepted
  rw [hes, Event.accepted_append]
  show _ ++ es.filterMap _ = _
  rw [hnone, List.append_nil]

/-- Only what is the work of a poller tells of it. -/
theorem news (h : m.Changes E m') (hE : ¬ E .polls) : m'.world.news = m.world.news := by
  obtain ⟨es, hes, hes'⟩ := h.events
  have hnone : es.filterMap Event.news? = [] := List.filterMap_eq_nil_iff.mpr fun e he => by
    by_contra hnews
    exact hE (hes' e he _ (Event.effect?_of_news? hnews)).1
  unfold World.news
  rw [hes, List.filterMap_append, hnone, List.append_nil]

/-- Only what is the work of a poller puts a poller on. -/
theorem hasPoller (h : m.Changes E m') (hE : ¬ E .polls) :
    ∃ fs, m'.stack = fs ++ m.stack ∧ ∀ f ∈ fs, f.hasPoller = false := by
  obtain ⟨fs, hfs, hfs'⟩ := h.frames
  refine ⟨fs, hfs, fun f hf => ?_⟩
  by_contra hpoller
  exact hE (hfs' f hf _ (Frame.effect?_of_hasPoller ((Bool.not_eq_false _).mp hpoller)))

end Changes

/-! ## What an operation or a frame leads to -/

/-- Frames may have been put on. A watcher may have been closed, or a state been accepted, and then
the wakers of the slot are about to be woken; an accepted state is waiting there to be handed to
the listeners registered. Only in a turn of its own has a poller told anything, and only a poller
that starts finds a stop signal unset that was set. -/
structure Builds (polling : Bool) (m m' : Machine α) : Prop where
  frames : ∃ fs, m'.stack = fs ++ m.stack ∧ (polling = false → m.stack.any Frame.hasPoller = true →
    ∀ f ∈ fs, f.hasPoller = false)
  closed : ∀ id, m'.world.isClosed id = m.world.isClosed id ∨
    ∃ wakers n stk, m'.stack = .waking wakers :: .closing id n :: stk
  accepted : ∀ id, m'.world.accepted id = m.world.accepted id ∨
    ∃ b s stk, m.world.watcher? id = some b ∧
      m'.world.accepted id = m.world.accepted id ++ [s] ∧
      m'.stack = .waking b.slot.wakers ::
        .announcing id (b.updates + 1) s b.registry.entries :: stk
  news : polling = false → m'.world.news = m.world.news
  stopped : m.world.stopped = true → m'.world.stopped = true ∨
    polling = false ∧ m.stack.any Frame.hasPoller = false

theorem Builds.stack {polling : Bool} (h : m.Builds polling m') : m.stack <:+ m'.stack := by
  obtain ⟨fs, hfs, -⟩ := h.frames
  exact ⟨fs, hfs.symm⟩

section Steps

variable [BEq α] {polling : Bool}

/-- The last thing that a function does. -/
theorem Finale.builds (h : m.Finale E m') (hstarts : E .starts → polling = false) :
    m.Builds polling m' := by
  cases h with
  | @accept id b s _ hb hcl hr =>
    refine ⟨⟨[_, _], rfl, fun _ _ => by simp [Frame.hasPoller]⟩,
      fun j => .inl (World.isClosed_adopt ..), fun j => ?_, fun _ => World.news_adopt ..,
      fun hs => .inl ?_⟩
    · by_cases hj : id = j
      · subst hj
        refine .inr ⟨b, s, _, hb, (World.accepted_adopt ..).trans ?_, rfl⟩
        rw [if_pos rfl]
      · refine .inl ((World.accepted_adopt ..).trans ?_)
        rw [if_neg hj, List.append_nil]
    · show (World.adopt ..).stopped = true
      unfold World.adopt
      simp only
      split <;> exact hs
  | @close id b _ hb hcl =>
    refine ⟨⟨[_, _], rfl, fun _ _ => by simp [Frame.hasPoller]⟩, fun j => ?_, fun _ => .inl rfl,
      fun _ => rfl, .inl⟩
    by_cases hj : id = j
    · subst hj
      exact .inr ⟨_, _, _, rfl⟩
    · left
      show (m.world.modify id Watcher.close).isClosed j = _
      unfold World.isClosed
      rw [World.watcher?_modify_of_ne _ hj]
  | start hs hnone =>
    exact ⟨⟨[_, _], rfl, fun _ hany => nomatch hnone.symm.trans hany⟩, fun _ => .inl rfl,
      fun _ => .inl rfl, fun _ => rfl, fun _ => .inr ⟨hstarts hs, hnone⟩⟩

/-- A function without the work of pollers, or a poller's turn; one that offers a state leaves the
watchers alone before. -/
theorem Walk.builds (h : m.Walk E m') (hpolls : polling = false → ¬ E .polls)
    (hstarts : E .starts → polling = false)
    (haccepts : E .accepts → ∀ e, E e → e.alters = false) : m.Builds polling m' := by
  obtain ⟨x, hx, hlast⟩ := h
  have hbefore : m.Builds polling x := by
    obtain ⟨fs, hfs, -⟩ := hx.frames
    refine ⟨⟨fs, hfs, fun hp _ => ?_⟩, fun id => .inl (hx.closed id),
      fun id => .inl (hx.accepted id), fun hp => hx.news (hpolls hp),
      fun hs => .inl (hx.stopped hs)⟩
    obtain ⟨fs', hfs', hnone⟩ := hx.hasPoller (hpolls hp)
    rwa [← List.append_cancel_right (hfs'.symm.trans hfs)]
  rcases hlast with rfl | hlast
  · exact hbefore
  obtain ⟨fs, hfs, hnone⟩ := hbefore.frames
  have hafter : x.Builds polling m' := hlast.builds hstarts
  obtain ⟨fs', hfs', hnone'⟩ := hafter.frames
  have hany : m.stack.any Frame.hasPoller = true → x.stack.any Frame.hasPoller = true := fun h => by
    rw [hfs, List.any_append, h, Bool.or_true]
  refine ⟨⟨fs' ++ fs, by rw [hfs', hfs, List.append_assoc], fun hp h f hf => ?_⟩, fun id => ?_,
    fun id => ?_, fun hp => (hafter.news hp).trans (hbefore.news hp), fun hs => ?_⟩
  · exact (List.mem_append.mp hf).elim (hnone' hp (hany h) f) (hnone hp h f)
  · rw [← hx.closed id]
    exact hafter.closed id
  · rw [← hx.accepted id]
    cases hlast with
    | accept he =>
      have hsame : x.world.watcher? id = m.world.watcher? id := by
        unfold World.watcher?
        rw [hx.watchers (haccepts he)]
      rw [← hsame]
      exact hafter.accepted id
    | close | start => exact .inl rfl
  · refine (hafter.stopped (hx.stopped hs)).imp_right fun ⟨hp, hxany⟩ => ⟨hp, ?_⟩
    exact (Bool.not_eq_true _).mp fun h => nomatch (hany h).symm.trans hxany

/-- A function that accepts nothing. -/
theorem Walk.accepted (h : m.Walk E m') (hE : ¬ E .accepts) (id : WatcherId) :
    m'.world.accepted id = m.world.accepted id := by
  obtain ⟨x, hx, rfl | hlast⟩ := h
  · exact hx.accepted id
  · cases hlast with
    | accept he => exact absurd he hE
    | close | start => exact hx.accepted id

namespace Builds

/-- A frame that goes on. -/
theorem resume (m : Machine α) (f : Frame α) : m.Builds f.isPollers (m.resume f) :=
  (Walk.resume m f fun _ he => he).builds
    (fun hf he => nomatch hf.symm.trans (Frame.isPollers_of_polls he)) Frame.isPollers_of_starts
    fun h _ => Frame.alters_of_accepts h

/-- A panic that reaches a frame. -/
theorem unwound (m : Machine α) (payload : Payload) (f : Frame α) :
    m.Builds f.isPollers (m.unwound payload f) :=
  (Walk.unwound m payload f fun _ he => he).builds
    (fun hf he => nomatch hf.symm.trans (Frame.isPollers_of_polls he)) Frame.isPollers_of_starts
    fun h _ => Frame.alters_of_accepts h

/-- An operation that begins. -/
theorem perform (m : Machine α) (op : Op α) : m.Builds false (m.perform op) :=
  (Walk.perform m fun _ he => he).builds (fun _ => op.not_polls) (fun _ => rfl)
    fun h _ => Op.alters_of_accepts h

theorem release (m : Machine α) (id : WatcherId) : m.Builds false (m.release id) :=
  resume m (.holding id)

theorem offer (m : Machine α) (id : WatcherId) (s : Latest α) : m.Builds false (m.offer id s) :=
  (Walk.offer (E := fun e => e = .offers ∨ e = .accepts) m id s (.inl rfl) (.inr rfl)).builds
    (by simp) (fun _ => rfl) (by simp [Effect.alters])

theorem close (m : Machine α) (id : WatcherId) : m.Builds false (m.close id) :=
  (Walk.close (E := (· = .closes)) m id rfl).builds nofun (fun _ => rfl) nofun

end Builds

/-! ## Steps -/

/-- A step takes the innermost frame off and builds on those that are left. -/
theorem step_builds {f : Frame α} {stk : List (Frame α)} (h : m.stack = f :: stk) :
    Builds f.isPollers { m with stack := stk } m.step := by
  obtain ⟨w, stk', c⟩ := m
  obtain rfl : stk' = f :: stk := h
  cases c with
  | unwind payload => exact .unwound _ payload f
  | proceed => exact .resume _ f
  | answer a =>
    cases f with
    | script site todo =>
      have hreport : Walk (fun _ => False) ⟨w, stk, .answer a⟩
          (step ⟨w, .script site todo :: stk, .answer a⟩) :=
        (((Changes.push _ (f := .script site todo) nofun).trans
          (.recordOn _ _ (e := .did site.label a) nofun)).trans (.proceed _)).walk
      exact hreport.builds (fun _ => id) (fun h => h.elim) fun h => h.elim
    | holding id => exact .release ⟨w, stk, .answer a⟩ id
    | _ => exact .resume _ _

/-- What stands below the innermost frame outlasts the step. -/
theorem suffix_step {stk : List (Frame α)} (h : stk <:+ m.stack.tail) : stk <:+ m.step.stack := by
  cases hs : m.stack with
  | nil =>
    rw [hs, List.tail_nil, List.suffix_nil] at h
    rw [h]
    exact List.nil_suffix
  | cons f rest =>
    rw [hs] at h
    exact h.trans (step_builds hs).stack

theorem Next.builds (h : m.Next m') : ∃ polling stk, Builds polling { m with stack := stk } m' := by
  cases h with
  | start op hs =>
    have hbuilds := Builds.perform (⟨m.world, [], .proceed⟩ : Machine α) op
    exact ⟨false, [], hbuilds.frames, hbuilds.closed, hbuilds.accepted, hbuilds.news,
      hbuilds.stopped⟩
  | step hs =>
    obtain ⟨f, stk, hstk⟩ := List.exists_cons_of_ne_nil hs
    exact ⟨_, stk, step_builds hstk⟩

/-- A watcher is closed only where its own close begins. -/
theorem Next.closed (h : m.Next m') (id : WatcherId) :
    m'.world.isClosed id = m.world.isClosed id ∨
      ∃ wakers n stk, m'.stack = .waking wakers :: .closing id n :: stk := by
  obtain ⟨polling, stk, hbuilds⟩ := h.builds
  exact hbuilds.closed id

/-- A state is accepted only where its delivery to the wakers and listeners of the moment begins. -/
theorem Next.accepted (h : m.Next m') (id : WatcherId) :
    m'.world.accepted id = m.world.accepted id ∨
      ∃ b s stk, m.world.watcher? id = some b ∧
        m'.world.accepted id = m.world.accepted id ++ [s] ∧
        m'.stack = .waking b.slot.wakers ::
          .announcing id (b.updates + 1) s b.registry.entries :: stk := by
  obtain ⟨polling, stk, hbuilds⟩ := h.builds
  exact hbuilds.accepted id

end Steps

end Machine

end WatchTree
