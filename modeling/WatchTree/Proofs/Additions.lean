import WatchTree.Proofs.OrderlySteps
import WatchTree.Proofs.Layers

/-!
# Runs that take nothing away

Where callbacks operate on no watcher, and outside of them states are pushed and listeners
registered, everything that was open and registered stays so:
`Machine.Additive.sameSubscriptions`. What is under way in such a run is `Frame.TakesNothing`: it
neither constructs nor closes nor polls, and keeps only watchers alive that have a handle.
-/

namespace WatchTree

variable {α : Type}

/-! ## Operations that take nothing away -/

namespace Op

/-- It operates on no watcher. -/
def isAloof : Op α → Bool
  | .invalid | .ask _ | .future .. | .futurePoll .. | .waiter .. | .join _ | .queueRun ..
  | .queueDrop _ | .panic _ => true
  | _ => false

/-- It pushes a state, registers a listener or operates on no watcher. -/
def isAdditive : Op α → Bool
  | .push .. | .watch .. => true
  | op => op.isAloof

theorem pushes_of_isAloof {op : Op α} (h : op.isAloof = true) : op.pushes = false := by
  cases op <;> first | rfl | exact nomatch h

end Op

/-- Subscriptions are spared, and no poller works. -/
def Effect.takesNothing : Effect → Prop
  | polls => False
  | e => e.sparesSubscriptions

theorem Effect.sparesSubscriptions_of_takesNothing (e : Effect) (h : e.takesNothing) :
    e.sparesSubscriptions := by
  cases e <;> trivial

namespace Frame

/-- No callback operates on a watcher in what it has left to do. -/
def isAloof : Frame α → Bool
  | .script _ todo => todo.all Op.isAloof
  | _ => true

theorem isPassive_of_isAloof {f : Frame α} (h : f.isAloof = true) : f.isPassive = true := by
  cases f with
  | script site todo =>
    refine List.all_eq_true.mpr fun op hop => ?_
    rw [Op.pushes_of_isAloof (List.all_eq_true.mp h op hop)]
    rfl
  | _ => rfl

/-- It constructs, closes and polls nothing, and keeps only a watcher alive that has a handle. -/
def TakesNothing (w : World α) : Frame α → Prop
  | holding id => w.hasHandle id = true
  | constructing .. | closing .. | polling _ | fetching .. | pushing _ | ending _ => False
  | _ => True

theorem TakesNothing.of_handles {w w' : World α} {f : Frame α} (h : f.TakesNothing w)
    (hh : w'.handles = w.handles) : f.TakesNothing w' := by
  cases f with
  | holding id =>
    exact (World.hasHandle_congr hh id).trans h
  | _ => exact h

theorem takesNothing_of_effect? {w : World α} {f : Frame α}
    (h : ∀ e ∈ f.effect?, e.takesNothing) : f.TakesNothing w := by
  cases f with
  | holding | constructing | closing | polling | fetching | pushing | ending => exact (h _ rfl).elim
  | _ => trivial

end Frame

namespace Machine

/-- No callback at work operates on a watcher in what it has left to do. -/
def aloof (m : Machine α) : Bool := m.stack.all Frame.isAloof

theorem passive_of_aloof {m : Machine α} (h : m.aloof = true) : m.passive = true :=
  List.all_eq_true.mpr fun f hf => Frame.isPassive_of_isAloof (List.all_eq_true.mp h f hf)

/-- What is reached by way of machines that satisfy `P` if nothing is begun from outside but what
takes nothing away. -/
inductive Additive [BEq α] (P : Machine α → Prop) (m : Machine α) : Machine α → Prop
  | refl : Additive P m m
  | start {m' : Machine α} {op : Op α} : Additive P m m' → P m' → m'.stack = [] →
      op.isAdditive = true → Additive P m (m'.world.start op)
  | step {m' : Machine α} : Additive P m m' → P m' → m'.stack ≠ [] → Additive P m m'.step

theorem Additive.later [BEq α] {P : Machine α → Prop} {m m' : Machine α} (h : m.Additive P m') :
    m.Later P m' := by
  induction h with
  | refl => exact .refl
  | start _ hP hs _ ih => exact ih.next hP (.start _ hs)
  | step _ hP hs ih => exact ih.next hP (.step hs)

theorem Additive.trans [BEq α] {P : Machine α → Prop} {m m' m'' : Machine α}
    (h : m.Additive P m') (h' : m'.Additive P m'') : m.Additive P m'' := by
  induction h' with
  | refl => exact h
  | start _ hP hs hop ih => exact ih.start hP hs hop
  | step _ hP hs ih => exact ih.step hP hs

theorem Additive.carry [BEq α] {test : Machine α → Bool} {m m' : Machine α} {fuel : Nat}
    {ops : List (Op α)} (h : m.Additive (fun m => test m = true) m')
    (hops : ops.all Op.isAdditive = true) (hp : passes test fuel m' ops = true) :
    m.Additive (fun m => test m = true) (m'.carry fuel ops) :=
  carry_induction (fun _ _ hx hm hs hop => hx.start hm hs hop) (fun _ hx hm hs => hx.step hm hs) h
    hops hp

/-! ## What a step takes away -/

/-- The subscriptions are the same, and everything under way takes nothing away. -/
structure NothingTaken (w : World α) (m' : Machine α) : Prop where
  subscriptions : w.SameSubscriptions m'.world
  frames : ∀ f ∈ m'.stack, f.TakesNothing m'.world

section Steps

variable [BEq α] {m m' : Machine α} {w : World α} {f : Frame α} {stk : List (Frame α)}
  {c : Control α}

/-- What spares subscriptions, and is no work of a poller, puts on frames that take nothing away. -/
theorem Walk.nothingTaken (h : m.Walk Effect.takesNothing m')
    (hm : ∀ f ∈ m.stack, f.TakesNothing m.world) : NothingTaken m.world m' := by
  have hsame := (h.mono Effect.sparesSubscriptions_of_takesNothing).keepsTidy.subscriptions
  refine ⟨hsame, fun f hf => Frame.TakesNothing.of_handles ?_ hsame.handles⟩
  obtain ⟨x, hx, hlast⟩ := h
  obtain ⟨fs, hfs, hfs'⟩ := hx.frames
  have hbefore : ∀ f ∈ x.stack, f.TakesNothing m.world := fun f hf => by
    rw [hfs] at hf
    exact (List.mem_append.mp hf).elim (fun hf => Frame.takesNothing_of_effect? (hfs' f hf)) (hm f)
  rcases hlast with rfl | hlast
  · exact hbefore f hf
  · cases hlast with
    | accept =>
      rcases List.mem_cons.mp hf with rfl | hf
      · trivial
      · rcases List.mem_cons.mp hf with rfl | hf
        · trivial
        · exact hbefore f hf
    | close he | start he => exact he.elim

/-- An operation on no watcher. -/
theorem perform_nothingTaken (m : Machine α) {op : Op α} (hop : op.isAloof = true)
    (hm : ∀ f ∈ m.stack, f.TakesNothing m.world) : NothingTaken m.world (m.perform op) := by
  cases op with
  | panic => exact ⟨.refl _, hm⟩
  | invalid | ask | future | futurePoll | waiter | join | queueRun | queueDrop =>
    refine (Walk.perform m fun e he => ?_).nothingTaken hm
    cases e <;> trivial
  | _ => exact nomatch hop

/-- A frame that goes on. -/
theorem resume_nothingTaken (hf : f.TakesNothing w) (hstk : ∀ g ∈ stk, g.TakesNothing w)
    (ha : f.isAloof = true) : NothingTaken w (resume ⟨w, stk, c⟩ f) := by
  cases f with
  | holding id =>
    have hrelease : resume ⟨w, stk, c⟩ (.holding id) = ⟨w, stk, c⟩ :=
      release_of_hasHandle (m := ⟨w, stk, c⟩) hf
    rw [hrelease]
    exact ⟨.refl _, hstk⟩
  | script site todo =>
    cases todo with
    | nil => exact ⟨.refl _, hstk⟩
    | cons op rest =>
      exact perform_nothingTaken (push ⟨w, stk, c⟩ (.script site rest))
        (List.all_eq_true.mp ha op (List.mem_cons_self ..))
        (List.forall_mem_cons.mpr ⟨trivial, hstk⟩)
  | constructing | closing | polling | fetching | pushing | ending => exact hf.elim
  | _ =>
    refine (Walk.resume ⟨w, stk, c⟩ _ fun e he => ?_).nothingTaken hstk
    cases e <;> trivial

/-- A panic that reaches a frame. -/
theorem unwound_nothingTaken {payload : Payload} (hf : f.TakesNothing w)
    (hstk : ∀ g ∈ stk, g.TakesNothing w) :
    NothingTaken w (unwound ⟨w, stk, .unwind payload⟩ payload f) := by
  cases f with
  | holding id =>
    have hrelease : unwound ⟨w, stk, .unwind payload⟩ payload (.holding id) =
        ⟨w, stk, .unwind payload⟩ := release_of_hasHandle (m := ⟨w, stk, .unwind payload⟩) hf
    rw [hrelease]
    exact ⟨.refl _, hstk⟩
  | script => exact ⟨.refl _, hstk⟩
  | constructing | closing | polling | fetching | pushing | ending => exact hf.elim
  | _ =>
    refine (Walk.unwound ⟨w, stk, .unwind payload⟩ payload _ fun e he => ?_).nothingTaken hstk
    cases e <;> trivial

theorem step_nothingTaken {m : Machine α} (ha : m.aloof = true)
    (hm : ∀ f ∈ m.stack, f.TakesNothing m.world) (hs : m.stack ≠ []) :
    NothingTaken m.world m.step := by
  obtain ⟨w, stk, c⟩ := m
  cases stk with
  | nil => exact absurd rfl hs
  | cons f stk =>
    have haloof : f.isAloof = true := List.all_eq_true.mp ha f (List.mem_cons_self ..)
    obtain ⟨hf, hstk⟩ := List.forall_mem_cons.mp hm
    cases c with
    | unwind payload => exact unwound_nothingTaken hf hstk
    | proceed => exact resume_nothingTaken hf hstk haloof
    | answer a =>
      cases f with
      | script site todo => exact ⟨.note _ _ _, fun b hb => hm b hb⟩
      | holding id => exact resume_nothingTaken (c := .answer a) hf hstk haloof
      | _ => exact resume_nothingTaken hf hstk haloof

end Steps

/-! ## Runs -/

section Runs

variable [BEq α]

omit [BEq α] in
theorem takesNothing_nil {w : World α} : ∀ f ∈ ([] : List (Frame α)), f.TakesNothing w :=
  fun _ hf => absurd hf List.not_mem_nil

/-- A state that is offered on behalf of a handle. -/
theorem offer_nothingTaken {w : World α} {id : WatcherId} (hh : w.hasHandle id = true)
    (s : Latest α) :
    NothingTaken w (offer (push ({ world := w } : Machine α) (.holding id)) id s) :=
  (Walk.offer (push ({ world := w } : Machine α) (.holding id)) id s trivial trivial).nothingTaken
    (List.forall_mem_singleton.mpr hh)

omit [BEq α] in
theorem withHandle_nothingTaken {w : World α} (name : Name) {f : Handle → Watcher α → Machine α}
    (hf : ∀ hd b, w.hasHandle hd.target = true → w.watcher? hd.target = some b →
      NothingTaken w (f hd b)) : NothingTaken w (withHandle { world := w } name f) := by
  unfold withHandle
  cases hr : w.resolve? name with
  | none => exact ⟨.refl _, takesNothing_nil⟩
  | some x => exact hf x.1 x.2 (World.hasHandle_of_resolve? hr) (World.resolve?_eq_some hr).2

/-- An operation from outside. -/
theorem start_nothingTaken {w : World α} (hw : w.Ledger) {op : Op α}
    (ha : op.isAdditive = true) : NothingTaken w (w.start op) := by
  cases op with
  | push watcher revision value =>
    refine withHandle_nothingTaken watcher fun hd b hh _ => ?_
    split
    · exact offer_nothingTaken hh _
    · exact offer_nothingTaken hh _
    · exact ⟨.refl _, takesNothing_nil⟩
  | watch watcher label valueOnly disposal onHandover actions =>
    refine withHandle_nothingTaken watcher fun hd b hh hb => ?_
    let m : Machine α := (({ world := w } : Machine α).push (.holding hd.target)).push
      (.watching label b.registry.nextId)
    let listener : Listener α := .observer label valueOnly actions
    have hsame := (KeepsTidy.register (m := m) hw hb listener ⟨disposal, onHandover⟩).subscriptions
    obtain ⟨fs, hfs, hfs'⟩ := (Changes.register (E := fun e => e = .registers ∨ e.ofTask) m
      hd.target b listener ⟨disposal, onHandover⟩ (.inl rfl) (.inr trivial)
      fun _ => .inr trivial).frames
    refine ⟨hsame, fun f hf => Frame.TakesNothing.of_handles ?_ hsame.handles⟩
    rw [hfs] at hf
    rcases List.mem_append.mp hf with hf | hf
    · cases f with
      | holding | constructing | closing | polling | fetching | pushing | ending =>
        exact (hfs' _ hf _ rfl).elim nofun False.elim
      | _ => trivial
    · rcases List.mem_cons.mp hf with rfl | hf
      · trivial
      · obtain rfl := List.mem_singleton.mp hf
        exact hh
  | _ => exact perform_nothingTaken { world := w } ha takesNothing_nil

/-- Where callbacks operate on no watcher, what takes nothing away is done by frames that take
nothing away. -/
theorem Additive.nothingTaken {P : Machine α → Prop} {m m' : Machine α} (h : m.Additive P m')
    (hreach : m.Reached P) (hP : ∀ m, P m → m.aloof = true) (hs : m.stack = []) :
    NothingTaken m.world m' := by
  induction h with
  | refl => exact ⟨.refl _, hs ▸ takesNothing_nil⟩
  | @start m' op hfirst hPm hs' hop ih =>
    have hstart := start_nothingTaken (hreach.later hfirst.later).wellFormed.ledger hop
    exact ⟨ih.subscriptions.trans hstart.subscriptions, hstart.frames⟩
  | @step m' hfirst hPm hs' ih =>
    have hstep := step_nothingTaken (hP _ hPm) ih.frames hs'
    exact ⟨ih.subscriptions.trans hstep.subscriptions, hstep.frames⟩

/-- Where callbacks operate on no watcher, everything that was open and registered stays so. -/
theorem Additive.sameSubscriptions {P : Machine α → Prop} {m m' : Machine α} (h : m.Additive P m')
    (hreach : m.Reached P) (hP : ∀ m, P m → m.aloof = true) (hs : m.stack = []) :
    m.world.SameSubscriptions m'.world := (h.nothingTaken hreach hP hs).subscriptions

end Runs

end Machine

end WatchTree
