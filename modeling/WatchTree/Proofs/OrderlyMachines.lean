import WatchTree.Proofs.References
import WatchTree.Proofs.Effects

/-!
# Orderly machines

`Machine.Orderly` adds to a tidy world that no panic can take off a construction or a close: what
stands on a construction is an executor without operations, on which only a call stands, and a call
catches panics; what stands on a close are wakers, which do not panic. Most functions of the machine
leave subscriptions alone and put on no marks: `Machine.KeepsTidy`.
-/

namespace WatchTree

variable {α : Type}

namespace Frame

/-! ## Constructions -/

/-- A child is under construction on top, or an executor is handing it its first update. -/
def Sensitive : List (Frame α) → Prop
  | constructing .. :: _ => True
  | script .. :: constructing .. :: _ => True
  | _ => False

/-- Where a child is under construction, a frame leaves no room for a panic. -/
def SitsOn (f : Frame α) : List (Frame α) → Prop
  | constructing .. :: _ => ∃ site, f = script site []
  | script .. :: constructing .. :: _ => ∃ t, f = calling t
  | _ => True

/-- No frame of the stack leaves room for a panic where a child is under construction. -/
def Hushed : List (Frame α) → Prop
  | [] => True
  | f :: stk => f.SitsOn stk ∧ Hushed stk

theorem sitsOn_of_not_sensitive {stk : List (Frame α)} (h : ¬ Sensitive stk) (f : Frame α) :
    f.SitsOn stk := by
  unfold SitsOn
  split
  · exact absurd trivial h
  · exact absurd trivial h
  · trivial

/-- Only scripts at their end and calls sit on a construction. -/
theorem not_sensitive_of_sitsOn {f : Frame α} {stk : List (Frame α)} (h : f.SitsOn stk)
    (hscript : ∀ site, f ≠ script site []) (hcall : ∀ t, f ≠ calling t) : ¬ Sensitive stk := by
  unfold SitsOn at h
  split at h
  · obtain ⟨site, rfl⟩ := h
    exact absurd rfl (hscript site)
  · obtain ⟨t, rfl⟩ := h
    exact absurd rfl (hcall t)
  · rename_i h₁ h₂
    unfold Sensitive
    split
    · exact absurd rfl (h₁ _ _ _)
    · exact absurd rfl (h₂ _ _ _ _ _)
    · exact id

/-- Frames that are no marks can be put on where no child is under construction. -/
theorem hushed_append {fs stk : List (Frame α)} (h : Hushed stk) (hs : ¬ Sensitive stk)
    (hfs : ∀ f ∈ fs, f.isMark = false) : Hushed (fs ++ stk) ∧ ¬ Sensitive (fs ++ stk) := by
  induction fs with
  | nil => exact ⟨h, hs⟩
  | cons f fs ih =>
    obtain ⟨hhushed, hstill⟩ := ih fun g hg => hfs g (List.mem_cons_of_mem _ hg)
    refine ⟨⟨sitsOn_of_not_sensitive hstill f, hhushed⟩, ?_⟩
    have hf := hfs f (List.mem_cons_self ..)
    unfold Sensitive
    split
    · rename_i heq
      rw [(List.cons.inj heq).1] at hf
      exact nomatch hf
    · rename_i heq
      rw [List.cons_append, List.cons.injEq] at heq
      rw [heq.2] at hstill
      exact absurd trivial hstill
    · exact id

/-- A panic may be under way here. -/
def Guarded (stk : List (Frame α)) : Prop :=
  ¬ Sensitive stk ∧ ∀ f ∈ stk.head?, (∀ ws, f ≠ waking ws) ∧ ∀ id n, f ≠ closing id n

end Frame

/-! ## Names of handles -/

namespace Bindings

variable {β : Type}

/-- No name has two meanings. -/
def Unambiguous (bs : Bindings β) : Prop := (bs.map Prod.fst).Nodup

theorem Unambiguous.unbind {bs : Bindings β} (h : bs.Unambiguous) (name : Name) :
    (bs.unbind name).Unambiguous := h.sublist (List.filter_sublist.map Prod.fst)

theorem Unambiguous.bind {bs : Bindings β} (h : bs.Unambiguous) (name : Name) (x : β) :
    (bs.bind name x).Unambiguous := by
  refine List.nodup_cons.mpr ⟨?_, h.unbind name⟩
  rw [List.mem_map]
  rintro ⟨b, hb, hname⟩
  exact absurd hname (of_decide_eq_true (List.mem_filter.mp hb).2)

theorem Unambiguous.eq_of_lookup {bs : Bindings β} (h : bs.Unambiguous) {name : Name} {x : β}
    (hx : bs.lookup name = some x) {b : Name × β} (hb : b ∈ bs) (hname : b.1 = name) :
    b.2 = x := by
  obtain ⟨l₁, l₂, hl, -⟩ := List.lookup_eq_some_iff.mp hx
  have hmem : (name, x) ∈ bs := by rw [hl]; simp
  exact congrArg Prod.snd (List.inj_on_of_nodup_map h hb hmem hname)

theorem ne_of_lookup_none {bs : Bindings β} {name : Name} (h : bs.lookup name = none)
    {b : Name × β} (hb : b ∈ bs) : b.1 ≠ name := by
  rintro rfl
  exact absurd (List.lookup_eq_none_iff.mp h b hb) (by simp)

end Bindings

namespace World

theorem hasHandle_iff (w : World α) (id : WatcherId) :
    w.hasHandle id = true ↔ ∃ b ∈ w.handles, b.2.target = id := by
  unfold hasHandle
  simp only [List.any_eq_true, decide_eq_true_eq]

theorem hasHandle_unbind_iff (w : World α) (name : Name) (id : WatcherId) :
    hasHandle { w with handles := w.handles.unbind name } id = true ↔
      ∃ b ∈ w.handles, b.1 ≠ name ∧ b.2.target = id := by
  rw [hasHandle_iff]
  constructor
  · rintro ⟨b, hb, ht⟩
    obtain ⟨hb, hname⟩ := List.mem_filter.mp hb
    exact ⟨b, hb, of_decide_eq_true hname, ht⟩
  · rintro ⟨b, hb, hname, ht⟩
    exact ⟨b, List.mem_filter.mpr ⟨hb, decide_eq_true hname⟩, ht⟩

theorem hasHandle_bind_iff (w : World α) (name : Name) (h : Handle) (id : WatcherId) :
    hasHandle { w with handles := w.handles.bind name h } id = true ↔
      id = h.target ∨ ∃ b ∈ w.handles, b.1 ≠ name ∧ b.2.target = id := by
  rw [← hasHandle_unbind_iff, hasHandle_iff, hasHandle_iff]
  constructor
  · rintro ⟨b, hb, ht⟩
    rcases List.mem_cons.mp hb with rfl | hb
    · exact .inl ht.symm
    · exact .inr ⟨b, hb, ht⟩
  · rintro (rfl | ⟨b, hb, ht⟩)
    · exact ⟨_, List.mem_cons_self .., rfl⟩
    · exact ⟨b, List.mem_cons_of_mem _ hb, ht⟩

/-- A handle under a name that was not taken. -/
theorem hasHandle_bind_of_none {w : World α} {name : Name} (hnone : w.handle? name = none)
    (h : Handle) (id : WatcherId) :
    hasHandle { w with handles := w.handles.bind name h } id = true ↔
      id = h.target ∨ w.hasHandle id = true := by
  rw [hasHandle_bind_iff, hasHandle_iff]
  refine or_congr Iff.rfl ⟨fun ⟨b, hb, _, ht⟩ => ⟨b, hb, ht⟩, fun ⟨b, hb, ht⟩ => ⟨b, hb, ?_, ht⟩⟩
  exact Bindings.ne_of_lookup_none hnone hb

/-- A name that is forgotten, or given to another, leaves at most the watcher it stood for without
a handle. -/
theorem hasHandle_or_of_handle? {w : World α} (hw : w.handles.Unambiguous) {name : Name}
    {h : Handle} (hh : w.handle? name = some h) {id : WatcherId} (hid : w.hasHandle id = true) :
    id = h.target ∨ ∃ b ∈ w.handles, b.1 ≠ name ∧ b.2.target = id := by
  obtain ⟨b, hb, ht⟩ := (hasHandle_iff w id).mp hid
  by_cases hname : b.1 = name
  · exact .inl (by rw [← ht, hw.eq_of_lookup hh hb hname])
  · exact .inr ⟨b, hb, hname, ht⟩

theorem hasHandle_of_handle? {w : World α} {name : Name} {h : Handle}
    (hh : w.handle? name = some h) : w.hasHandle h.target = true := by
  obtain ⟨l₁, l₂, hl, -⟩ := List.lookup_eq_some_iff.mp hh
  exact (hasHandle_iff w _).mpr ⟨(name, h), by rw [hl]; simp, rfl⟩

end World

open WatchTree.Frame

/-- The tree, the subscriptions, the handles and the marks stay, and no panic is raised. -/
def Effect.sparesSubscriptions : Effect → Prop
  | raises | renames | holds | starts | grows | registers | unregisters | drops | closes => False
  | _ => True

theorem Effect.sparesSubscriptions_of_ofTask (e : Effect) (h : e.ofTask) :
    e.sparesSubscriptions := by
  cases e <;> trivial

theorem Frame.not_isMark {f : Frame α} (h : ∀ e ∈ f.effect?, e.sparesSubscriptions) :
    f.isMark = false := by
  cases f with
  | holding | constructing | closing => exact (h _ rfl).elim
  | _ => rfl

namespace Machine

/-- The world is tidy, and will be after a panic. -/
structure Orderly (m : Machine α) : Prop where
  tidy : m.world.Tidy (marks m.stack) none
  named : m.world.handles.Unambiguous
  hushed : Hushed m.stack
  guarded : ∀ payload, m.control = .unwind payload → Guarded m.stack

/-- The world is tidy, no panic is under way and no child under construction on top. -/
structure Settled (m : Machine α) : Prop where
  tidy : m.world.Tidy (marks m.stack) none
  named : m.world.handles.Unambiguous
  hushed : Hushed m.stack
  still : ¬ Sensitive m.stack
  calm : m.control.Calm

theorem Settled.orderly {m : Machine α} (h : m.Settled) : m.Orderly :=
  ⟨h.tidy, h.named, h.hushed, fun payload hc => absurd hc (h.calm payload)⟩

/-! ## Subscriptions that are kept -/

/-- The subscriptions are the same, frames that are no marks may have been put on, and no panic is
under way that was not. -/
structure KeepsTidy (m m' : Machine α) : Prop where
  subscriptions : m.world.SameSubscriptions m'.world
  frames : ∃ fs, m'.stack = fs ++ m.stack ∧ ∀ f ∈ fs, f.isMark = false
  calm : m.control.Calm → m'.control.Calm

variable {m m' m'' : Machine α}

namespace KeepsTidy

theorem trans (h : m.KeepsTidy m') (h' : m'.KeepsTidy m'') : m.KeepsTidy m'' := by
  obtain ⟨fs, hfs, hmark⟩ := h.frames
  obtain ⟨fs', hfs', hmark'⟩ := h'.frames
  refine ⟨h.subscriptions.trans h'.subscriptions,
    ⟨fs' ++ fs, by rw [hfs', hfs, List.append_assoc], ?_⟩, h'.calm ∘ h.calm⟩
  exact fun f hf => (List.mem_append.mp hf).elim (hmark' f) (hmark f)

theorem tidy (h : m.KeepsTidy m') (hm : m.world.Tidy (marks m.stack) none) :
    m'.world.Tidy (marks m'.stack) none := by
  obtain ⟨fs, hfs, hmark⟩ := h.frames
  rw [hfs, marks_append_of_unmarked hmark]
  exact hm.sameSubscriptions h.subscriptions

theorem named (h : m.KeepsTidy m') (hm : m.world.handles.Unambiguous) :
    m'.world.handles.Unambiguous := by
  rw [h.subscriptions.handles]
  exact hm

theorem settled (h : m.KeepsTidy m') (hm : m.Settled) : m'.Settled := by
  obtain ⟨fs, hfs, hmark⟩ := h.frames
  obtain ⟨hhushed, hstill⟩ := hushed_append hm.hushed hm.still hmark
  exact ⟨h.tidy hm.tidy, h.named hm.named, by rwa [hfs], by rwa [hfs], h.calm hm.calm⟩

end KeepsTidy

/-- Changes that do not concern subscriptions. -/
theorem Changes.keepsTidy (h : m.Changes Effect.sparesSubscriptions m') : m.KeepsTidy m' where
  subscriptions := by
    refine h.lift (R := fun x y => x.world.SameSubscriptions y.world) (fun x => .refl _)
      (fun h h' => h.trans h') ?_
    intro x y hchange
    cases hchange with
    | note p => exact .note x.world p _
    | beside hwatchers hhandles hhistory => exact .of_eq hwatchers hhandles hhistory
    | count | enlist =>
      exact .modify x.world _ (fun _ => rfl) (fun _ => rfl) (fun _ => rfl) fun _ => rfl
    | rename he | grow _ _ he | register _ _ he | unregister _ _ he | drop _ he => exact he.elim
    | _ => exact .refl _
  frames := by
    obtain ⟨fs, hfs, hfs'⟩ := h.frames
    exact ⟨fs, hfs, fun f hf => Frame.not_isMark (hfs' f hf)⟩
  calm := by
    refine h.lift (R := fun x y => x.control.Calm → y.control.Calm) (fun _ => id)
      (fun h h' => h' ∘ h) ?_
    intro x y hchange hc
    cases hchange with
    | control hcalm => exact hcalm
    | raise _ he => exact he.elim
    | enter => exact Control.calm_proceed
    | _ => exact hc

theorem Walk.keepsTidy [BEq α] (h : m.Walk Effect.sparesSubscriptions m') : m.KeepsTidy m' := by
  obtain ⟨x, hx, rfl | hlast⟩ := h
  · exact hx.keepsTidy
  · refine hx.keepsTidy.trans ?_
    cases hlast with
    | accept =>
      exact ⟨.adopt .., ⟨[_, _], rfl, by simp [Frame.isMark]⟩, fun _ => Control.calm_proceed⟩
    | close he | start he => exact he.elim

/-- Who registers is no child's subscription. -/
theorem KeepsTidy.register {m : Machine α} (hw : m.world.Ledger) {id : WatcherId} {b : Watcher α}
    (hb : m.world.watcher? id = some b) (listener : Listener α) (executor : Executor α) :
    m.KeepsTidy (m.register id b listener executor) := by
  have hinWorld : ∀ {f : World α → World α}, m.world.SameSubscriptions (f m.world) →
      m.KeepsTidy (m.inWorld f) := fun h => ⟨h, ⟨[], rfl, by simp⟩, fun hc => hc⟩
  unfold Machine.register
  split
  · exact (hinWorld (.reserve m.world id)).trans
      ((Changes.log _ _ rfl).trans (.proceed _)).keepsTidy
  · have henrol : m.KeepsTidy (m.inWorld (·.enrol id listener executor)) :=
      hinWorld (.enrol hw hb listener executor)
    simp only
    split
    · exact henrol.trans (Changes.proceed _).keepsTidy
    · exact henrol.trans
        ((Changes.handOver_ofTask _ _).mono Effect.sparesSubscriptions_of_ofTask).keepsTidy

theorem Settled.changes (hm : m.Settled) (h : m.Changes Effect.sparesSubscriptions m') :
    m'.Settled :=
  h.keepsTidy.settled hm

theorem Settled.walk [BEq α] (hm : m.Settled) (h : m.Walk Effect.sparesSubscriptions m') :
    m'.Settled :=
  h.keepsTidy.settled hm

/-- Who registers is no new watcher and moves none. -/
theorem origin?_register (m : Machine α) (id : WatcherId) (b : Watcher α) (listener : Listener α)
    (executor : Executor α) (j : WatcherId) :
    (m.register id b listener executor).world.origin? j = m.world.origin? j := by
  unfold register
  split
  · exact World.origin?_reserve ..
  · split
    · exact World.origin?_enrol ..
    · exact (((Changes.handOver_ofTask _ _).mono
        Effect.sparesSubscriptions_of_ofTask).keepsTidy.subscriptions.origin j).trans
          (World.origin?_enrol ..)

end Machine

end WatchTree
