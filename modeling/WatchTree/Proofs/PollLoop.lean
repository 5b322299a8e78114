import WatchTree.Proofs.PollRounds

/-!
# The loop of a poller

`Machine.Stage` says where in a round, or after the last one, a machine is. A step in a stage leads
to a stage of the same round or of the next, so every machine of the loop is in one
(`Machine.Above.stage`), and the poller has told what the reference tells of the rounds that are
over. A root accepts no state older than its own, so what fetches are told never goes back.
-/

namespace WatchTree

variable {α : Type}

namespace Machine

/-! ## Stages -/

section Stages

variable [BEq α] {stk : List (Frame α)} {q : Polling α} {x : Machine α}

/-- Where a poller looks whether a fetch is to begin, a fetch or a pause begins, or the end. -/
theorem Waits.stage_step {y : Machine α} {q' : Polling α} (hw : Waits stk x q y q') :
    ∃ told, Stage stk x q y.step told := by
  cases hclosed : y.world.isClosed q.root with
  | true => exact ⟨_, .ended hw (.inl hclosed) .refl⟩
  | false =>
    cases hstopped : y.world.stopped with
    | true => exact ⟨_, .ended hw (.inr (.inl hstopped)) .refl⟩
    | false =>
      have hgoes : GoesOn stk q' y := ⟨hw.stack, by rwa [hw.root], hstopped⟩
      cases hscript : q'.script with
      | nil => exact ⟨_, .ended hw (.inr (.inr hscript)) .refl⟩
      | cons fetch rest =>
        obtain ⟨before, actions, reply⟩ := fetch
        cases before with
        | nil => exact ⟨_, .fetching hw ⟨hgoes, ⟨actions, hscript⟩, .refl⟩⟩
        | cons op ops =>
          cases hw with
          | none =>
            exact ⟨_, .pausing ⟨hgoes, ⟨op, ops, actions, reply, rest, hscript, rfl⟩, .refl⟩⟩
          | others hp =>
            obtain ⟨_, _, _, _, _, -, rfl⟩ := hp.script
            exact nomatch hscript

theorem Stage.step {m' : Machine α} {told : Option (Option Revision)} (h : Stage stk x q m' told)
    (hm : x.WellFormed) {f : Frame α} {fs : List (Frame α)} (hwork : m'.stack = f :: (fs ++ stk)) :
    (∃ told', Stage stk x q m'.step told') ∨
      ∃ r q', Round stk x q r m'.step q' ∧ Stage stk m'.step q' m'.step none := by
  have hends : ∀ {r q'}, Round stk x q r m'.step q' →
      ∃ r q', Round stk x q r m'.step q' ∧ Stage stk m'.step q' m'.step none := fun hr =>
    ⟨_, _, hr, .between (hr.ends hm).1⟩
  cases h with
  | between hstk => exact .inl (Waits.none hstk).stage_step
  | pausing hp =>
    obtain ⟨gs, hgs, -⟩ := (hp.news hm).1
    cases gs with
    | cons g gs => exact .inl ⟨_, .pausing { hp with above := hp.above.step hgs }⟩
    | nil => exact .inl (Waits.others hp hgs).stage_step
  | @fetching reply rest y _ q' hw hf =>
    have hmy := hw.later.wellFormed hm
    obtain ⟨gs, hgs, -⟩ := (hf.news hmy).1
    cases gs with
    | cons g gs => exact .inl ⟨_, .fetching hw { hf with above := hf.above.step hgs }⟩
    | nil =>
      cases hc : m'.control with
      | unwind payload => exact .inr (hends (.mk hw hf hgs (.panicked hc)))
      | proceed | answer =>
        have hcalm : m'.control.Calm := by rw [hc]; exact fun _ h => nomatch h
        cases reply with
        | nothing => exact .inr (hends (.mk hw hf hgs (.nothing hcalm)))
        | failed error => exact .inr (hends (.mk hw hf hgs (.failed hcalm)))
        | panicked payload => exact .inr (hends (.mk hw hf hgs (.raised hcalm)))
        | state revision value =>
          obtain ⟨accepted, hpush, -⟩ := step_push (hf.later.wellFormed hmy) hgs hcalm
          exact .inl ⟨_, .pushing hw hf hgs hpush⟩
  | @pushing revision value rest accepted y z _ q' hw hf hz hp =>
    have hmz := hf.later.wellFormed (hw.later.wellFormed hm)
    obtain ⟨gs, hgs, -⟩ := (hp.news hmz hz).1
    cases gs with
    | cons g gs => exact .inl ⟨_, .pushing hw hf hz { hp with above := hp.above.step hgs }⟩
    | nil =>
      right
      cases hc : m'.control with
      | unwind payload =>
        obtain rfl := hp.accepted_of_unwind hmz hz hc
        exact hends (.mk hw hf hz (.unwound hp hgs hc))
      | proceed | answer =>
        exact hends (.mk hw hf hz (.pushed hp hgs (by rw [hc]; exact fun _ h => nomatch h)))
  | ended hw hend habove => exact .inl ⟨none, .ended hw hend (habove.step hwork)⟩

/-- A poller that ends tells nothing any more. -/
theorem Above.ending {m m' : Machine α} (h : Above stk m m')
    (hm : OverPoller (.ending q) stk m ∨ m.stack = stk) :
    (OverPoller (.ending q) stk m' ∨ m'.stack = stk) ∧ m'.world.news = m.world.news := by
  induction h with
  | refl => exact ⟨hm, rfl⟩
  | @step x f fs _ hwork ih =>
    obtain ⟨⟨gs, hgs, hnone⟩ | hstk, hnews⟩ := ih
    · cases gs with
      | cons g gs =>
        obtain ⟨hover, hsame⟩ := OverPoller.step rfl hgs hnone
        exact ⟨.inl hover, hsame.trans hnews⟩
      | nil =>
        obtain ⟨hsame, hgone, -⟩ := step_ending hgs
        exact ⟨.inr hgone, hsame.trans hnews⟩
    · exact absurd hstk (hwork ▸ cons_append_ne f fs stk)

/-- A poller whose root is closed, whose signal is set or whose script has ended fetches no more. -/
theorem step_over (hstk : x.stack = .polling q :: stk)
    (hend : x.world.isClosed q.root = true ∨ x.world.stopped = true ∨ q.script = []) :
    (OverPoller (.ending q) stk x.step ∨ x.step.stack = stk) ∧
      x.step.world.news = x.world.news := by
  by_cases hhalt : x.world.isClosed q.root = true ∨ x.world.stopped = true
  · obtain ⟨hgone, hnews⟩ := step_halted hstk hhalt
    exact ⟨.inr hgone, hnews⟩
  · have hscript : q.script = [] := (or_assoc.mpr hend).resolve_left hhalt
    let m : Machine α := ⟨x.world, stk, .proceed⟩
    have hnext : fetchNext m q = m.finish q ∨ fetchNext m q = (m.push (.ending q)).close q.root ∨
        fetchNext m q = (m.setStopped true).finish q := by
      unfold fetchNext
      rw [hscript]
      split
      · exact .inl rfl
      · split
        · exact .inl rfl
        · simp only
          split
          · exact .inr (.inl rfl)
          · exact .inr (.inr rfl)
    rw [step_of_polling hstk]
    rcases hnext with heq | heq | heq <;> rw [heq]
    · exact ⟨.inr rfl, (Changes.finish (E := fun _ => False) m q).news id⟩
    · have hclose := Builds.close (m.push (.ending q)) q.root
      obtain ⟨fs, hfs, hnone⟩ := hclose.frames
      exact ⟨.inl ⟨fs, hfs, hnone rfl rfl⟩, hclose.news rfl⟩
    · exact ⟨.inr rfl, (Changes.finish (E := fun _ => False) (m.setStopped true) q).news id⟩

theorem Waits.over {y : Machine α} {q' : Polling α} (hw : Waits stk x q y q')
    (hend : y.world.isClosed q.root = true ∨ y.world.stopped = true ∨ q'.script = []) :
    (OverPoller (.ending q') stk y.step ∨ y.step.stack = stk) ∧
      y.step.world.news = y.world.news :=
  step_over hw.stack (by rwa [hw.root])

section News

variable {m' : Machine α} {told : Option (Option Revision)} (h : Stage stk x q m' told)

include h

/-- A fetch under way was told the revision of the moment at which it began. -/
theorem Stage.told_eq :
    ∀ k ∈ told, ∃ y, x.Later (fun _ => True) y ∧ k = y.world.known q.root := by
  rintro k hk
  cases h with
  | between | pausing | ended => exact nomatch hk
  | fetching hw | pushing hw => exact ⟨_, hw.later, (Option.some.inj hk).symm⟩

variable (hm : x.WellFormed)

include hm

/-- What the poller has told of the fetch under way. -/
theorem Stage.news : m'.world.news = x.world.news ++ told.toList.map PollNews.fetched := by
  have hfetched : ∀ {y z q' reply rest}, Waits stk x q y q' → Fetching stk q' reply rest y z →
      z.world.news = x.world.news ++ [.fetched (y.world.known q.root)] := fun hw hf => by
    rw [← hw.root, ← hw.news hm]
    exact (hf.news (hw.later.wellFormed hm)).2
  cases h with
  | between => exact (List.append_nil _).symm
  | pausing hp => exact (hp.news hm).2.trans (List.append_nil _).symm
  | fetching hw hf => exact hfetched hw hf
  | pushing hw hf hz hp =>
    have hmz := hf.later.wellFormed (hw.later.wellFormed hm)
    exact (hp.news hmz hz).2.trans (hfetched hw hf)
  | ended hw hend habove =>
    obtain ⟨hover, hquiet⟩ := hw.over hend
    rw [(habove.ending hover).2, hquiet, hw.news hm]
    exact (List.append_nil _).symm

/-- A poller that has not ended has a frame of its own; one between two fetches is on its root. -/
theorem Stage.frame : m'.stack = stk ∨ ∃ g, OverPoller g stk m' ∧ g.hasPoller = true ∧
    ∀ q', g = .polling q' → q'.root = q.root := by
  cases h with
  | between hstk => exact .inr ⟨_, ⟨[], hstk, nofun⟩, rfl, fun _ hg => by cases hg; rfl⟩
  | pausing hp =>
    refine .inr ⟨_, (hp.news hm).1, rfl, fun _ hg => ?_⟩
    obtain ⟨_, _, _, _, _, -, rfl⟩ := hp.script
    cases hg
    rfl
  | fetching hw hf => exact .inr ⟨_, (hf.news (hw.later.wellFormed hm)).1, rfl, nofun⟩
  | pushing hw hf hz hp =>
    have hmz := hf.later.wellFormed (hw.later.wellFormed hm)
    exact .inr ⟨_, (hp.news hmz hz).1, rfl, nofun⟩
  | ended hw hend habove =>
    rcases (habove.ending (hw.over hend).1).1 with hover | hgone
    · exact .inr ⟨_, hover, rfl, nofun⟩
    · exact .inl hgone

end News

/-- Every machine of a poller's loop is in some stage after some rounds. -/
theorem Above.stage {m m' : Machine α} {p : Polling α} (h : Above stk m m') (hm : m.WellFormed)
    (hstk : m.stack = .polling p :: stk) (hp : p.backoff = none) :
    ∃ rs x q told, Rounds stk m p rs x q ∧ Stage stk x q m' told := by
  induction h with
  | refl => exact ⟨[], m, p, none, .nil, .between hstk⟩
  | step _ hwork ih =>
    obtain ⟨rs, x, q, told, hrounds, hstage⟩ := ih
    have harrives := hrounds.arrives hm hstk hp
    rcases hstage.step (harrives.later.wellFormed hm) hwork with
      ⟨told', hstage'⟩ | ⟨r, q', hround, hbetween⟩
    · exact ⟨rs, x, q, told', hrounds, hstage'⟩
    · exact ⟨rs ++ [r], _, q', none, hrounds.concat hround, hbetween⟩

end Stages

/-! ## The end -/

section Halted

variable [BEq α] {stk : List (Frame α)} {m m' m'' : Machine α} {p : Polling α}

end Halted

/-! ## What fetches are told -/

section Known

variable [BEq α] {P : Machine α → Prop} {m m' : Machine α} {stk : List (Frame α)}
  {p q : Polling α} {rs : List (PollRound α)} {x : Machine α}

/-- Watchers that are no children, roots among them, accept no state older than their own. -/
def RootsInOrder (w : World α) : Prop :=
  ∀ id, (∀ parent l d, w.origin? id ≠ some (.child parent l d)) → Latest.InOrder (w.accepted id)

omit [BEq α] in
theorem RootsInOrder.keep {w w' : World α} (h : RootsInOrder w) (hx : w.Extends w')
    (hacc : ∀ id, w'.accepted id = w.accepted id) : RootsInOrder w' := by
  intro id hid
  rw [hacc id]
  exact h id fun parent l d ho => hid parent l d (hx.origin ho)

theorem RootsInOrder.move (hm : m.WellFormed) (h : RootsInOrder m.world) (hmove : Move P m m') :
    RootsInOrder m'.world := by
  have hx := (hm.ledger.rearranges (hmove.rearranges hm)).2
  rcases hmove.accepted_or with hsame | ⟨_, _, _, id, b, s, hb, ho, _, hr, heq⟩ |
    ⟨-, o, _, _, _, id, parent, b, s, l, d, y, _, -, -, hb, ho, -, -, -, heq⟩
  · exact h.keep hx hsame
  · intro j hj
    rw [heq, World.accepted_adopt]
    have hold := h j fun parent l d hoj => hj parent l d (hx.origin hoj)
    split
    · rename_i hid
      subst hid
      refine hold.concat fun a ha => ?_
      rw [← hm.ledger.latest_eq] at ha
      exact Watcher.le_of_root_accepts hb ho hr ha
    · rw [List.append_nil]
      exact hold
  · intro j hj
    have hne : id ≠ j := by
      rintro rfl
      exact hj parent l d (hx.origin ((World.origin?_of_watcher? hb).trans (congrArg some ho)))
    have hnoted : (m.world.note o (.applied id s.revision (.value y))).accepted j =
        m.world.accepted j := m.world.accepted_note o rfl
    rw [heq, World.accepted_adopt, if_neg hne, List.append_nil, hnoted]
    exact h j fun parent l d hoj => hj parent l d (hx.origin hoj)

theorem Reached.rootsInOrder (h : m.Reached P) : RootsInOrder m.world :=
  (h.invariant (I := fun m => RootsInOrder m.world) (fun _ _ => List.Pairwise.nil)
    (fun hm h hmove => h.move hm hmove)
    fun hm h hruns => h.keep (hruns.ledger hm).2 hruns.accepted_eq).2

/-- The revision of a root only grows. -/
theorem Reached.known_noLater {id : WatcherId} (h : m.Reached (fun _ => True))
    (hl : m.Later (fun _ => True) m') (hroot : m.world.IsRoot id) :
    Revision.NoLater (m.world.known id) (m'.world.known id) := by
  have hx := hl.extends_world h.wellFormed
  have hreached := h.later hl
  have horder := hreached.rootsInOrder id fun parent l d ho => by
    rw [hx.origin hroot] at ho
    exact nomatch ho
  intro v hv
  obtain ⟨a, ha, rfl⟩ := Option.map_eq_some_iff.mp hv
  rw [h.wellFormed.ledger.latest_eq] at ha
  obtain ⟨es, hes⟩ := hx.events
  have hmem : a ∈ m'.world.accepted id := by
    unfold World.accepted
    rw [← hes, Event.accepted_append]
    exact List.mem_append_left _ (List.mem_of_getLast? ha)
  obtain ⟨b, hb⟩ := Option.ne_none_iff_exists'.mp fun hnone =>
    List.ne_nil_of_mem hmem (List.getLast?_eq_none_iff.mp hnone)
  refine ⟨b.revision, ?_, horder.le_getLast hmem hb⟩
  unfold World.known
  rw [hreached.wellFormed.ledger.latest_eq, hb]
  rfl

/-- What the fetches of some rounds were told never goes back, and is no later than what the root
has after them. -/
theorem Rounds.known (h : Rounds stk m p rs x q) (hm : m.Reached (fun _ => True))
    (hstk : m.stack = .polling p :: stk) (hp : p.backoff = none) (hroot : m.world.IsRoot p.root) :
    (rs.map PollRound.known).Pairwise Revision.NoLater ∧
      ∀ r ∈ rs, Revision.NoLater r.known (x.world.known p.root) := by
  induction h with
  | nil => exact ⟨.nil, fun _ h => nomatch h⟩
  | @concat rs r x y q q' hrounds hround ih =>
    have harrives := hrounds.arrives hm.wellFormed hstk hp
    obtain ⟨w, hbefore, hafter, hknown⟩ := hround.known
    rw [harrives.root] at hknown
    have hx := hm.later harrives.later
    have hrootx := (harrives.later.extends_world hm.wellFormed).origin hroot
    have hrootw := (hbefore.extends_world hx.wellFormed).origin hrootx
    have hgrows : Revision.NoLater (x.world.known p.root) r.known :=
      hknown ▸ hx.known_noLater hbefore hrootx
    have hlast : Revision.NoLater r.known (y.world.known p.root) :=
      hknown ▸ (hx.later hbefore).known_noLater hafter hrootw
    refine ⟨?_, fun a ha => ?_⟩
    · rw [List.map_append]
      refine List.pairwise_append.mpr ⟨ih.1, List.pairwise_singleton _ _, ?_⟩
      intro v hv v' hv'
      obtain ⟨a, ha, rfl⟩ := List.mem_map.mp hv
      rw [List.map_singleton, List.mem_singleton] at hv'
      rw [hv']
      exact (ih.2 a ha).trans hgrows
    · rcases List.mem_append.mp ha with ha | ha
      · exact ((ih.2 a ha).trans hgrows).trans hlast
      · rw [List.mem_singleton] at ha
        rw [ha]
        exact hlast

end Known

/-! ## The whole loop -/

section Loop

variable [BEq α] {m m' : Machine α} {stk : List (Frame α)} {p : Polling α}

omit [BEq α] in
/-- A poller starts with its configuration and its script, without a backoff, and its signal is not
set. -/
theorem startPoller_or (m : Machine α) (watcher : Name) (config : PollConfig)
    (script : Script α) (ending : PollEnd) :
    (m.startPoller watcher config script ending).control ≠ .proceed ∨
      ∃ root face since, m.startPoller watcher config script ending =
        ((m.setStopped false).push (.holding root)).push
          (.polling { root, face, config, script, ending, since }) := by
  unfold startPoller withHandle
  split
  · simp only
    split
    · exact .inl fun h => nomatch h
    · split
      · exact .inr ⟨_, _, _, rfl⟩
      · exact .inr ⟨_, _, _, rfl⟩
      · exact .inl fun h => nomatch h
      · exact .inl fun h => nomatch h
      · exact .inl fun h => nomatch h
  · exact .inl fun h => nomatch h

omit [BEq α] in
theorem polling_of_startPoller {m₀ : Machine α} {watcher : Name} {config : PollConfig}
    {script : Script α} {ending : PollEnd} (hm : m = m₀.startPoller watcher config script ending)
    (hc : m.control = .proceed) (hstk : m.stack = .polling p :: stk) :
    p.config = config ∧ p.script = script ∧ p.backoff = none ∧ m.world.stopped = false := by
  rcases startPoller_or m₀ watcher config script ending with hno | ⟨root, face, since, heq⟩
  · exact absurd (hm ▸ hc) hno
  · obtain ⟨hp, -⟩ := List.cons.inj (hstk.symm.trans (congrArg Machine.stack (hm.trans heq)))
    cases hp
    exact ⟨rfl, rfl, rfl, congrArg (fun m => m.world.stopped) (hm.trans heq)⟩

end Loop

/-! ### A poller that meets with everything -/

/-- A root with a listener, whose executor panics the fourth time. -/
def pollable : Machine Nat :=
  ({ world := {} } : Machine Nat).carry 8
    [.root "r" "r" false, .watch "r" "l" false .inline
      (fun n => if n = 4 then [.panic .other] else []) fun _ => []]

theorem reached_pollable : pollable.Reached fun _ => True :=
  Reached.initial.carry_any (by decide +kernel)

end Machine

end WatchTree
