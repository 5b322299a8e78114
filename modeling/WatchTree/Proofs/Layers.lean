import WatchTree.Proofs.Freshness
import WatchTree.Proofs.Effects

/-!
# Deliveries in layers

As long as callbacks push nothing, a root accepts a state only where no delivery is under way, and a
child only inside the delivery of its parent, which is an older watcher. So of two deliveries under
way the inner one is always of the younger watcher: `Frame.Layered`. It follows that a watcher
accepts nothing while its own update is being delivered, and one state at most in a step:
`Machine.StaysLayered`. Most functions of the machine accept nothing at all and put on frames that
leave the layers alone: `Machine.KeepsLayers`.
-/

namespace WatchTree

variable {α : Type}

/-! ## Passive callbacks -/

/-- It may offer states to a root. -/
def Op.pushes : Op α → Bool
  | .push .. | .poll .. => true
  | _ => false

/-- No callback pushes anything in what it has left to do. -/
def Frame.isPassive : Frame α → Bool
  | .script _ todo => todo.all fun op => !op.pushes
  | _ => true

/-- No callback at work has a push left to carry out. -/
def Machine.passive (m : Machine α) : Bool := m.stack.all Frame.isPassive

namespace Frame

/-! ## Layers -/

/-- What a frame asks of the deliveries under way below it. -/
def Fits : Frame α → List Due → Prop
  | announcing id _ _ _, ds | fanOut id _ _ _, ds | applying id _, ds => ∀ d ∈ ds, d.watcher < id
  | polling _, ds | fetching _ _, ds | pushing _, ds => ds = []
  | _, _ => True

/-- Inner deliveries and applications are of younger watchers, and pollers work outside of all
deliveries. -/
def Layered : List (Frame α) → Prop
  | [] => True
  | f :: stk => f.Fits (dues stk) ∧ Layered stk

theorem dues_append_of_none {fs : List (Frame α)} (h : ∀ f ∈ fs, f.due? = none)
    (stk : List (Frame α)) : dues (fs ++ stk) = dues stk := by
  unfold dues
  rw [List.filterMap_append, List.filterMap_eq_nil_iff.mpr h, List.nil_append]

theorem layered_append {fs stk : List (Frame α)} (h : Layered stk)
    (hfs : ∀ f ∈ fs, f.due? = none ∧ f.Fits (dues stk)) : Layered (fs ++ stk) := by
  induction fs with
  | nil => exact h
  | cons f fs ih =>
    have hrest : ∀ g ∈ fs, g.due? = none ∧ g.Fits (dues stk) :=
      fun g hg => hfs g (List.mem_cons_of_mem _ hg)
    have hfit : f.Fits (dues (fs ++ stk)) := by
      rw [dues_append_of_none fun g hg => (hrest g hg).1]
      exact (hfs f (List.mem_cons_self ..)).2
    exact ⟨hfit, ih hrest⟩

end Frame

/-- A delivery under way is of a watcher that there is. -/
theorem World.Stacked.due_lt {w : World α} (hw : w.Ledger) {stk : List (Frame α)}
    (hs : w.Stacked stk) {d : Due} (hd : d ∈ Frame.dues stk) : d.watcher < w.watchers.length := by
  have hlt : ∀ {id : WatcherId} {n : Nat} {s : Latest α}, w.Genuine id n s →
      id < w.watchers.length := by
    intro id n s hg
    by_contra hge
    have hnone : w.watcher? id = none := List.getElem?_eq_none (Nat.le_of_not_lt hge)
    have hzero : w.updates id = 0 := by
      unfold World.updates
      rw [hnone]
      rfl
    obtain ⟨hpos, hle⟩ := hw.genuine_bounds hg
    omega
  induction stk with
  | nil => exact absurd hd List.not_mem_nil
  | cons f stk ih =>
    cases f with
    | announcing id n s ls =>
      rcases List.mem_cons.mp hd with rfl | hd
      · exact hlt hs.1.1
      · exact ih hs.2 hd
    | fanOut id n s ls =>
      rcases List.mem_cons.mp hd with rfl | hd
      · exact hlt hs.1.1
      · exact ih hs.2 hd
    | _ => exact ih hs.2 hd

/-- It puts no delivery on, and what it puts on fits the deliveries under way. -/
def Effect.fits (ds : List Due) : Effect → Prop
  | accepts | delivers => False
  | polls | starts => ds = []
  | applies child => ∀ d ∈ ds, d.watcher < child
  | _ => True

theorem Frame.fits_of_effect? {f : Frame α} {ds : List Due} (h : ∀ e ∈ f.effect?, e.fits ds) :
    f.due? = none ∧ f.Fits ds := by
  cases f with
  | announcing | fanOut => exact (h _ rfl).elim
  | applying | polling | fetching | pushing => exact ⟨rfl, h _ rfl⟩
  | _ => exact ⟨rfl, trivial⟩

open WatchTree.Frame

namespace Machine

/-! ## Layers that are kept -/

/-- No state was accepted, and frames that leave the layers alone may have been put on. -/
structure KeepsLayers (m m' : Machine α) : Prop where
  updates : ∀ id, m'.world.updates id = m.world.updates id
  frames : ∃ fs, m'.stack = fs ++ m.stack ∧ ∀ f ∈ fs, f.due? = none ∧ f.Fits (dues m.stack)

section Walks

variable {m m' m'' : Machine α}

namespace KeepsLayers

theorem dues_eq (h : m.KeepsLayers m') : dues m'.stack = dues m.stack := by
  obtain ⟨fs, hfs, hnone⟩ := h.frames
  rw [hfs, dues_append_of_none fun f hf => (hnone f hf).1]

theorem layered (h : m.KeepsLayers m') (hm : Layered m.stack) : Layered m'.stack := by
  obtain ⟨fs, hfs, hfit⟩ := h.frames
  rw [hfs]
  exact layered_append hm hfit

theorem trans (h : m.KeepsLayers m') (h' : m'.KeepsLayers m'') : m.KeepsLayers m'' := by
  obtain ⟨fs, hfs, hfit⟩ := h.frames
  obtain ⟨fs', hfs', hfit'⟩ := h'.frames
  rw [h.dues_eq] at hfit'
  refine ⟨fun id => (h'.updates id).trans (h.updates id), fs' ++ fs, ?_, fun f hf => ?_⟩
  · rw [hfs', hfs, List.append_assoc]
  · exact (List.mem_append.mp hf).elim (hfit' f) (hfit f)

end KeepsLayers

/-- Changes that leave the layers alone. -/
theorem Changes.keepsLayers (h : m.Changes (Effect.fits (dues m.stack)) m') :
    m.KeepsLayers m' where
  updates id := by
    refine h.lift (R := fun x y => y.world.updates id = x.world.updates id) (fun _ => rfl)
      (fun h h' => h'.trans h) ?_
    intro x y hchange
    have hsame : y.world.watchers = x.world.watchers →
        y.world.updates id = x.world.updates id := fun hw => by
      unfold World.updates World.watcher?
      rw [hw]
    cases hchange with
    | beside hwatchers | rename _ hwatchers => exact hsame hwatchers
    | grow name origin _ hwatchers =>
      refine Eq.trans ?_ (World.updates_addWatcher x.world { name, origin } id rfl)
      unfold World.updates World.watcher?
      rw [inWorld, hwatchers]
      rfl
    | count | enlist | register | unregister | drop =>
      exact World.updates_modify x.world _ id fun _ => rfl
    | _ => rfl
  frames := by
    obtain ⟨fs, hfs, hfs'⟩ := h.frames
    exact ⟨fs, hfs, fun f hf => Frame.fits_of_effect? (hfs' f hf)⟩

theorem Walk.keepsLayers [BEq α] (h : m.Walk (Effect.fits (dues m.stack)) m') :
    m.KeepsLayers m' := by
  obtain ⟨x, hx, rfl | hlast⟩ := h
  · exact hx.keepsLayers
  · refine hx.keepsLayers.trans ?_
    cases hlast with
    | accept he => exact he.elim
    | close =>
      exact ⟨fun id => World.updates_modify x.world _ id fun _ => rfl, [_, _], rfl,
        by simp [Frame.due?, Frame.Fits]⟩
    | start he =>
      have hds : dues x.stack = [] := hx.keepsLayers.dues_eq.trans he
      exact ⟨fun _ => rfl, [_, _], rfl, by simp [Frame.due?, Frame.Fits, hds]⟩

/-! ### Listeners that join -/

theorem register_keepsLayers {w w' : World α} {stk : List (Frame α)} {c : Control α}
    {id : WatcherId} {b : Watcher α} {listener : Listener α} {executor : Executor α}
    (hw : w.Ledger) (hb : w.watcher? id = some b) (hj : w.Joins id b listener executor w')
    (h : ∀ child, listener = .subscription child → ∀ d ∈ dues stk, d.watcher < child) :
    KeepsLayers ⟨w', stk, c⟩ (register ⟨w', stk, c⟩ id b listener executor) := by
  refine Changes.keepsLayers ?_
  unfold register
  split
  · exact ((Changes.single (.register id Registry.reserve trivial)).trans (.log _ _ rfl)).trans
      (.proceed _)
  · have henrol : Changes (Effect.fits (dues stk)) ⟨w', stk, c⟩
        (inWorld ⟨w', stk, c⟩ (·.enrol id listener executor)) :=
      .single (.register id (·.insert listener executor) trivial)
    simp only
    split
    · exact henrol.trans (.proceed _)
    · refine henrol.trans (.handOver _ _ trivial ?_)
      intro r child hr hl
      have hnew := World.registration?_joined hw.sound hb hj id b.registry.nextId
      rw [if_pos ⟨rfl, rfl⟩] at hnew
      obtain rfl := Option.some.inj (hnew.symm.trans hr)
      exact h child hl

/-- A child that joins comes after all watchers that have been there. -/
theorem addChild_keepsLayers (m : Machine α) (hw : m.world.Ledger)
    (hlt : ∀ d ∈ dues m.stack, d.watcher < m.world.watchers.length) (watcher name : Name)
    (label : Except WatchError String) (apply : α → Outcome α) (actions : Actions α) :
    m.KeepsLayers (m.addChild watcher name label apply actions) := by
  unfold addChild withHandle
  cases hr : m.world.resolve? watcher with
  | none => exact (Changes.answer m _).keepsLayers
  | some x =>
    obtain ⟨hd, b⟩ := x
    simp only
    split
    · exact (Changes.answer m _).keepsLayers
    · cases label with
      | error e => exact (Changes.answer m _).keepsLayers
      | ok label =>
        let d : Derivation α := ⟨name, apply, actions⟩
        have hgrown : m.Changes (Effect.fits (dues m.stack)) (m.inWorld (·.addWatcher
            { name := b.name ++ " -> " ++ label
              origin := .child hd.target b.registry.nextId d })) :=
          .single (.grow _ _ trivial rfl rfl rfl)
        have hframes := ((hgrown.trans (.push _ (f := .holding hd.target)
          (by rintro _ ⟨⟩; trivial))).trans
          (.push _ (f := .constructing name m.world.watchers.length)
            (by rintro _ ⟨⟩; trivial))).keepsLayers
        refine hframes.trans (register_keepsLayers hw (World.resolve?_eq_some hr).2 (.child _ d) ?_)
        intro child hl
        cases hl
        exact hlt

/-- An operation that pushes nothing. -/
theorem perform_keepsLayers [BEq α] (m : Machine α) (hw : m.world.Ledger)
    (hlt : ∀ d ∈ dues m.stack, d.watcher < m.world.watchers.length) {op : Op α}
    (hop : op.pushes = false) : m.KeepsLayers (m.perform op) := by
  cases op with
  | push | poll => exact nomatch hop
  | child watcher name label apply actions =>
    exact addChild_keepsLayers m hw hlt watcher name label apply actions
  | watch watcher label valueOnly disposal onHandover actions =>
    show m.KeepsLayers (m.withHandle watcher _)
    unfold withHandle
    cases hr : m.world.resolve? watcher with
    | none => exact (Changes.answer m _).keepsLayers
    | some x =>
      obtain ⟨hd, b⟩ := x
      have hframes := ((Changes.push_of m (.holding hd.target) rfl trivial).trans
        (.push _ (f := .watching label b.registry.nextId) nofun)).keepsLayers
      exact hframes.trans (register_keepsLayers hw (World.resolve?_eq_some hr).2
        (.observer label valueOnly actions _) nofun)
  | _ =>
    refine (Walk.perform m fun e he => ?_).keepsLayers
    cases e <;> trivial

end Walks

/-! ## What a step accepts -/

/-- What a step makes of the layers and the numbers of updates: a watcher accepts one state at most,
and only where no update of its own was being delivered. -/
structure StaysLayered (w : World α) (ds : List Due) (m' : Machine α) : Prop where
  layered : Layered m'.stack
  updates : ∀ id, m'.world.updates id = w.updates id ∨
    m'.world.updates id = w.updates id + 1 ∧ ∀ d ∈ ds, d.watcher ≠ id

section Accepting

variable {m m' : Machine α} {ds : List Due}

theorem KeepsLayers.staysLayered (h : m.KeepsLayers m') (hm : Layered m.stack) :
    StaysLayered m.world ds m' :=
  ⟨h.layered hm, fun id => .inl (h.updates id)⟩

theorem KeepsLayers.then_staysLayered {m₁ : Machine α} (h : m.KeepsLayers m₁)
    (h' : StaysLayered m₁.world ds m') : StaysLayered m.world ds m' := by
  refine ⟨h'.layered, fun id => ?_⟩
  rw [← h.updates id]
  exact h'.updates id

variable [BEq α]

/-- A state is offered to a watcher that is younger than those of all deliveries under way. -/
theorem offer_staysLayered (hm : Layered m.stack) {id : WatcherId} (s : Latest α)
    (hlt : ∀ d ∈ dues m.stack, d.watcher < id) (hds : ∀ d ∈ ds, d.watcher ≠ id) :
    StaysLayered m.world ds (m.offer id s) := by
  have hkeeps : ∀ {m' : Machine α}, m.Changes (Effect.fits (dues m.stack)) m' →
      StaysLayered m.world ds m' := fun h => h.keepsLayers.staysLayered hm
  cases hb : m.world.watcher? id with
  | none =>
    unfold offer
    simp only [hb]
    exact hkeeps (.answer _ _)
  | some b =>
    cases hcl : b.closed with
    | true =>
      unfold offer
      simp only [hb, if_pos hcl]
      exact hkeeps ((Changes.record_of _ (.offered id s .watcherClosed) rfl ⟨trivial, nofun⟩).trans
        (.answer _ _))
    | false =>
      cases hr : b.refusal s with
      | some refusal =>
        unfold offer
        simp only [hb, hcl, hr]
        exact hkeeps (((Changes.record_of _ (.offered id s .refused) rfl ⟨trivial, nofun⟩).trans
          (.log _ _ (by cases refusal <;> rfl))).trans (.answer _ _))
      | none =>
        rw [offer_adopted hb hcl hr]
        refine ⟨⟨trivial, hlt, hm⟩, fun j => ?_⟩
        simp only [World.updates_adopt hb]
        by_cases hj : id = j
        · subst hj
          exact .inr ⟨by rw [if_pos rfl], hds⟩
        · exact .inl (by rw [if_neg hj]; rfl)

theorem settle_staysLayered (hm : Layered m.stack) {child : WatcherId} (revision : Revision)
    (outcome : Outcome α) (hlt : ∀ d ∈ dues m.stack, d.watcher < child) :
    StaysLayered m.world (dues m.stack) (m.settle child revision outcome) := by
  cases outcome with
  | value y =>
    have hrecord : m.KeepsLayers (m.record (.applied child revision (.value y))) :=
      (Changes.record_of m (.applied child revision (.value y)) rfl ⟨trivial, nofun⟩).keepsLayers
    have hoffer := offer_staysLayered (m := m.record (.applied child revision (.value y))) hm
      ⟨revision, y⟩ hlt fun d hd => Nat.ne_of_lt (hlt d hd)
    exact hrecord.then_staysLayered hoffer
  | failed error | panicked payload =>
    exact (((Changes.record m (by rintro _ ⟨⟩; exact ⟨trivial, nofun⟩)).trans
      (.log _ _ rfl)).trans (.proceed _)).keepsLayers.staysLayered hm

theorem takeReply_staysLayered (hm : Layered m.stack) (hds : dues m.stack = []) (p : Polling α)
    (reply : Reply α) : StaysLayered m.world (dues m.stack) (m.takeReply p reply) := by
  cases reply with
  | state revision value =>
    have hpush := (Changes.push_of m (.pushing p) rfl hds).keepsLayers
    refine hpush.then_staysLayered (offer_staysLayered (hpush.layered hm) _ ?_ ?_)
    · rw [hpush.dues_eq, hds]
      exact fun d hd => absurd hd List.not_mem_nil
    · rw [hds]
      exact fun d hd => absurd hd List.not_mem_nil
  | nothing => exact (Changes.succeed m p hds).keepsLayers.staysLayered hm
  | failed error => exact (Changes.fail m p error hds).keepsLayers.staysLayered hm
  | panicked payload => exact (Changes.fail m p _ hds).keepsLayers.staysLayered hm

/-- An operation that begins from outside. -/
theorem start_staysLayered {w : World α} (hw : w.Ledger) (op : Op α) :
    StaysLayered w [] (w.start op) := by
  let m : Machine α := { world := w }
  have hnone : ∀ {Q : Due → Prop}, ∀ d ∈ ([] : List Due), Q d :=
    fun d hd => absurd hd List.not_mem_nil
  by_cases hop : op.pushes = true
  · cases op with
    | push watcher revision value =>
      have hoffer : ∀ id s,
          StaysLayered m.world [] ((m.push (.holding id)).offer id s) := fun id s =>
        (Changes.push_of m (.holding id) rfl trivial).keepsLayers.then_staysLayered
          (offer_staysLayered (m := m.push (.holding id)) ⟨trivial, trivial⟩ s hnone hnone)
      show StaysLayered m.world [] (m.withHandle watcher _)
      unfold withHandle
      split
      · simp only
        split
        · exact hoffer _ _
        · exact hoffer _ _
        · exact (Changes.answer m _).keepsLayers.staysLayered trivial
      · exact (Changes.answer m _).keepsLayers.staysLayered trivial
    | poll watcher config script ending =>
      have hstart : m.KeepsLayers (m.startPoller watcher config script ending) :=
        (Walk.startPoller (E := Effect.fits (dues m.stack)) m watcher config script ending trivial
          rfl).keepsLayers
      exact hstart.staysLayered trivial
    | _ => exact nomatch hop
  · exact (perform_keepsLayers m hw hnone ((Bool.not_eq_true _).mp hop)).staysLayered trivial

end Accepting

section Steps

variable [BEq α] {w : World α} {f : Frame α} {stk : List (Frame α)} {c : Control α}

/-- A frame that goes on. -/
theorem resume_staysLayered (hm : WellFormed ⟨w, f :: stk, c⟩) (hl : Layered (f :: stk))
    (hp : f.isPassive = true) : StaysLayered w (dues (f :: stk)) (resume ⟨w, stk, c⟩ f) := by
  have hw : w.Ledger := hm.ledger
  obtain ⟨hfit, hstk⟩ := hl
  have hkeeps : ∀ {m' : Machine α}, Changes (Effect.fits (dues stk)) ⟨w, stk, c⟩ m' →
      StaysLayered w (dues (f :: stk)) m' := fun {m'} h =>
    KeepsLayers.staysLayered (m := ⟨w, stk, c⟩) h.keepsLayers hstk
  have hqueued : ∀ {t : Task α}, w.Queued t → ∀ r child,
      w.registration? t.watcher t.listener = some r → r.listener = .subscription child →
        ∀ d ∈ dues stk, d.watcher < child := by
    rintro t ⟨-, r', q, hr', hq⟩ r child hr hl
    obtain rfl := Option.some.inj (hr.symm.trans hr')
    obtain ⟨d, ho⟩ := hw.fed hr hl
    exact nomatch hq.symm.trans (hw.subscription ho hr).2
  cases f with
  | script site todo =>
    cases todo with
    | nil => exact hkeeps (.proceed _)
    | cons op rest =>
      have hop : op.pushes = false := by
        have hall := List.all_eq_true.mp hp op (List.mem_cons_self ..)
        simpa using hall
      have hpush : KeepsLayers ⟨w, stk, c⟩ (push ⟨w, stk, c⟩ (.script site rest)) :=
        (Changes.push _ nofun).keepsLayers
      exact (hpush.trans (perform_keepsLayers _ hw (fun d hd => hm.stacked.2.due_lt hw hd)
        hop)).staysLayered hstk
  | announcing id n s ls =>
    have hlog : KeepsLayers (push ⟨w, stk, c⟩ (.fanOut id n s ls))
        (resume ⟨w, stk, c⟩ (.announcing id n s ls)) := (Changes.log _ _ rfl).keepsLayers
    exact hlog.staysLayered ⟨hfit, hstk⟩
  | fanOut id n s ls =>
    cases ls with
    | nil => exact hkeeps (.answer _ _)
    | cons l ls =>
      have hgive := (Changes.handOver (E := Effect.fits _) (push ⟨w, stk, c⟩ (.fanOut id n s ls))
        ⟨id, l, n, s⟩ trivial ?_).keepsLayers
      · exact hgive.staysLayered ⟨hfit, hstk⟩
      · -- The child is younger than its parent, whose update this is, and than all those below.
        intro r child hr hl d hd
        obtain ⟨dv, ho⟩ := hw.fed hr hl
        have hlt := (hw.parent ho).1
        rcases List.mem_cons.mp hd with rfl | hd
        · exact hlt
        · exact Nat.lt_trans (hfit d hd) hlt
  | applying child s => exact settle_staysLayered (m := ⟨w, stk, c⟩) hstk s.revision _ hfit
  | draining ts k =>
    cases ts with
    | nil => exact hkeeps (.answer _ _)
    | cons t ts =>
      have hq : w.Queued t := hm.stacked.1.2 t (List.mem_cons_self ..)
      exact hkeeps ((Changes.push _ (f := .draining ts (k + 1)) nofun).trans
        (.run _ t false trivial (hqueued hq)))
  | picking q is k =>
    cases is with
    | nil => exact hkeeps (.answer _ _)
    | cons i is =>
      unfold resume
      simp only
      split
      · exact hkeeps (.push _ nofun)
      · rename_i t ht
        have hq : w.Queued t := hm.queued q t (List.mem_of_getElem? ht)
        exact hkeeps (((Changes.beside _ rfl rfl rfl rfl).trans
          (.push _ (f := .picking q is (k + 1)) nofun)).trans (.run _ t false trivial (hqueued hq)))
  | fetching p reply => exact takeReply_staysLayered (m := ⟨w, stk, c⟩) hstk hfit p reply
  | polling p =>
    exact (Walk.fetchNext ⟨w, stk, c⟩ p hfit trivial).keepsLayers.staysLayered hstk
  | pushing p => exact hkeeps (.succeed _ p hfit)
  | _ =>
    refine (Walk.resume ⟨w, stk, c⟩ _ fun e he => ?_).keepsLayers.staysLayered hstk
    cases e <;> trivial

/-- A panic that reaches a frame. -/
theorem unwound_staysLayered {payload : Payload} (hl : Layered (f :: stk)) :
    StaysLayered w (dues (f :: stk)) (unwound ⟨w, stk, .unwind payload⟩ payload f) := by
  obtain ⟨hfit, hstk⟩ := hl
  have hkeeps : ∀ {m' : Machine α}, Walk (Effect.fits (dues stk)) ⟨w, stk, .unwind payload⟩ m' →
      StaysLayered w (dues (f :: stk)) m' := fun {m'} h =>
    KeepsLayers.staysLayered (m := ⟨w, stk, .unwind payload⟩) h.keepsLayers hstk
  cases f with
  | applying child s =>
    exact settle_staysLayered (m := ⟨w, stk, .unwind payload⟩) hstk s.revision (.panicked payload)
      hfit
  | polling p =>
    exact hkeeps ((Changes.proceed _).then_walk (.fetchNext _ p hfit trivial))
  | fetching p | pushing p => exact hkeeps (Changes.fail _ p _ hfit).walk
  | holding | calling | ending =>
    refine hkeeps (Walk.unwound _ payload _ fun e he => ?_)
    cases e <;> trivial
  | _ => exact hkeeps (Changes.refl _).walk

theorem step_staysLayered {m : Machine α} (hm : m.WellFormed) (hl : Layered m.stack)
    (hp : m.passive = true) (hs : m.stack ≠ []) : StaysLayered m.world (dues m.stack) m.step := by
  obtain ⟨w, stk, c⟩ := m
  cases stk with
  | nil => exact absurd rfl hs
  | cons f stk =>
    have hf : f.isPassive = true := List.all_eq_true.mp hp f (List.mem_cons_self ..)
    cases c with
    | unwind payload => exact unwound_staysLayered hl
    | proceed => exact resume_staysLayered hm hl hf
    | answer a =>
      cases f with
      | script site todo =>
        have hrecord := Changes.record (⟨w, .script site todo :: stk, .answer a⟩ : Machine α)
          (E := Effect.fits (dues stk)) (e := .did site.label a) nofun
        exact (hrecord.trans (.proceed _)).keepsLayers.staysLayered hl
      | holding id => exact resume_staysLayered hm hl hf
      | _ => exact resume_staysLayered hm hl hf

variable {P : Machine α → Prop} {m m' : Machine α}

theorem Next.staysLayered (h : m.Next m') (hm : m.WellFormed) (hl : Layered m.stack)
    (hp : m.passive = true) : StaysLayered m.world (dues m.stack) m' := by
  cases h with
  | start op hs =>
    rw [hs]
    exact start_staysLayered hm.ledger op
  | step hs => exact step_staysLayered hm hl hp hs

/-- As long as callbacks push nothing, deliveries are in layers. -/
theorem Reached.layered (h : m.Reached P) (hP : ∀ m, P m → m.passive = true) :
    Layered m.stack := by
  induction h with
  | initial => trivial
  | next hr hm hn ih => exact (hn.staysLayered hr.wellFormed ih (hP _ hm)).layered

end Steps

end Machine

end WatchTree
