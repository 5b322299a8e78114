import WatchTree.Proofs.Acceptance
import WatchTree.Proofs.Fusion

/-!
# What a root is fed

A root takes a state that is no older than its own (`Latest.intake`). Where callbacks operate on no
watcher, nothing but the push that has begun offers anything to a root, so it has accepted what it
takes of the states that were pushed: `Machine.Fed.accepted_eq`.
-/

namespace WatchTree

variable {α : Type}

/-! ## What a root takes -/

namespace Latest

/-- What a root has accepted, when one more state has been pushed into it while it was open. -/
def intake (ss : List (Latest α)) (s : Latest α) : List (Latest α) :=
  if ∃ current ∈ ss.getLast?, s.revision < current.revision then ss else ss ++ [s]

theorem intake_of_older {ss : List (Latest α)} {s current : Latest α}
    (hcurrent : ss.getLast? = some current) (h : s.revision < current.revision) :
    intake ss s = ss := if_pos ⟨current, hcurrent, h⟩

theorem intake_of_newer {ss : List (Latest α)} {s : Latest α}
    (h : ∀ current, ss.getLast? = some current → ¬ s.revision < current.revision) :
    intake ss s = ss ++ [s] := if_neg fun ⟨current, hcurrent, hlt⟩ => h current hcurrent hlt

theorem intake_ne_nil (ss : List (Latest α)) (s : Latest α) : intake ss s ≠ [] := by
  unfold intake
  split
  · rename_i h
    obtain ⟨current, hcurrent, -⟩ := h
    rintro rfl
    exact nomatch hcurrent
  · simp

/-- Only the last state decides what is taken. -/
theorem intake_append {older ss : List (Latest α)} (h : ss = [] → older = []) (s : Latest α) :
    intake (older ++ ss) s = older ++ intake ss s := by
  have hlast : (older ++ ss).getLast? = ss.getLast? := by
    cases ss with
    | nil => rw [h rfl, List.nil_append]
    | cons a ss => exact List.getLast?_append_of_ne_nil _ (List.cons_ne_nil _ _)
  unfold intake
  rw [hlast]
  split
  · rfl
  · exact List.append_assoc ..

theorem foldl_intake_append {older : List (Latest α)} (fed : List (Latest α)) :
    ∀ {ss : List (Latest α)}, (ss = [] → older = []) →
      fed.foldl intake (older ++ ss) = older ++ fed.foldl intake ss := by
  induction fed with
  | nil => exact fun _ => rfl
  | cons s fed ih =>
    intro ss h
    rw [List.foldl_cons, List.foldl_cons, intake_append h]
    exact ih fun hnil => absurd hnil (intake_ne_nil ss s)

end Latest

namespace Machine

/-! ## What is offered to a root -/

section Offers

variable [BEq α] {m : Machine α} {r : WatcherId}

/-- An open root takes what is offered to it or leaves it. -/
theorem accepted_offer (hw : m.world.Ledger) (hroot : m.world.IsRoot r)
    (hcl : m.world.isClosed r = false) (s : Latest α) :
    (m.offer r s).world.accepted r = Latest.intake (m.world.accepted r) s := by
  obtain ⟨b, hb, ho⟩ := World.exists_watcher?_of_origin? hroot
  have hlatest := hw.latest_eq r
  rcases m.offer_root hb ho s with ⟨hadmits, heq, -⟩ | ⟨hrejects, heq, -⟩
  · rw [heq, Latest.intake_of_newer]
    rw [← hlatest]
    exact hadmits.2
  · have holder : ∃ current, m.world.latest? r = some current ∧ s.revision < current.revision := by
      by_contra hnone
      exact hrejects ⟨hcl, fun current hcurrent hlt => hnone ⟨current, hcurrent, hlt⟩⟩
    obtain ⟨current, hcurrent, hlt⟩ := holder
    rw [heq, Latest.intake_of_older (hlatest.symm.trans hcurrent) hlt]

end Offers

section Steps

variable [BEq α] {w : World α} {f : Frame α} {stk : List (Frame α)} {c : Control α}
  {r : WatcherId}

omit [BEq α] in
/-- Deeds that accept nothing. -/
theorem accepted_of_deeds {w' : World α} (es : List (Event α)) (h : w'.deeds = w.deeds ++ es)
    {id : WatcherId} (hes : ∀ e ∈ es, e.acceptance? id = none) :
    w'.accepted id = w.accepted id := by
  rw [World.accepted_eq_deeds, World.accepted_eq_deeds, h, List.filterMap_append,
    List.filterMap_eq_nil_iff.mpr hes, List.append_nil]

/-- What a child makes of a state is not offered to a root. -/
theorem accepted_settle {child : WatcherId} {o : Origin α} (ho : w.origin? child = some o)
    (hne : child ≠ r) (revision : Revision) (outcome : Outcome α) :
    (settle ⟨w, stk, c⟩ child revision outcome).world.accepted r = w.accepted r := by
  obtain ⟨b, hb, -⟩ := World.exists_watcher?_of_origin? ho
  refine accepted_of_deeds _ (deeds_settle (m := ⟨w, stk, c⟩) hb revision outcome) fun e he => ?_
  rcases List.mem_cons.mp he with rfl | he
  · rfl
  · obtain ⟨x, -, rfl⟩ := List.mem_map.mp he
    cases b.reception x with
    | accepted => exact if_neg hne
    | refused | watcherClosed => rfl

/-- An operation on no watcher offers nothing. -/
theorem accepted_perform (m : Machine α) {op : Op α} (hop : op.isAloof = true) (id : WatcherId) :
    (m.perform op).world.accepted id = m.world.accepted id := by
  refine (Walk.perform m fun _ he => he).accepted (fun haccepts => ?_) id
  cases op with
  | push => exact nomatch hop
  | _ => exact haccepts

/-- A frame that takes nothing away, of a callback that operates on no watcher, offers nothing to a
root. -/
theorem resume_accepted (hm : WellFormed ⟨w, f :: stk, c⟩) (hf : f.TakesNothing w)
    (ha : f.isAloof = true) (hroot : w.IsRoot r) :
    (resume ⟨w, stk, c⟩ f).world.accepted r = w.accepted r := by
  cases f with
  | script site todo =>
    cases todo with
    | nil => rfl
    | cons op rest =>
      exact accepted_perform (push ⟨w, stk, c⟩ (.script site rest))
        (List.all_eq_true.mp ha op (List.mem_cons_self ..)) r
  | applying child s =>
    obtain ⟨t, rest, -, -, d, ho⟩ := hm.stacked.1
    refine accepted_settle ho ?_ s.revision _
    rintro rfl
    exact nomatch ho.symm.trans hroot
  | fetching => exact hf.elim
  | _ => exact (Walk.resume ⟨w, stk, c⟩ _ fun _ he => he).accepted id r

theorem unwound_accepted {payload : Payload} (hm : WellFormed ⟨w, f :: stk, .unwind payload⟩)
    (hf : f.TakesNothing w) (hroot : w.IsRoot r) :
    (unwound ⟨w, stk, .unwind payload⟩ payload f).world.accepted r = w.accepted r := by
  cases f with
  | script => rfl
  | applying child s =>
    obtain ⟨t, rest, -, -, d, ho⟩ := hm.stacked.1
    refine accepted_settle ho ?_ s.revision _
    rintro rfl
    exact nomatch ho.symm.trans hroot
  | fetching => exact hf.elim
  | _ => exact (Walk.unwound ⟨w, stk, .unwind payload⟩ payload _ fun _ he => he).accepted id r

/-- A step offers nothing to a root. -/
theorem step_accepted {m : Machine α} (hm : m.WellFormed) (ha : m.aloof = true)
    (hframes : ∀ f ∈ m.stack, f.TakesNothing m.world) (hroot : m.world.IsRoot r) :
    m.step.world.accepted r = m.world.accepted r := by
  obtain ⟨w, stk, c⟩ := m
  cases stk with
  | nil => rfl
  | cons f stk =>
    have haloof : f.isAloof = true := List.all_eq_true.mp ha f (List.mem_cons_self ..)
    have hf : f.TakesNothing w := hframes f (List.mem_cons_self ..)
    cases c with
    | unwind payload => exact unwound_accepted hm hf hroot
    | proceed => exact resume_accepted hm hf haloof hroot
    | answer a =>
      cases f with
      | script site todo => exact World.accepted_note _ _ rfl
      | holding id => exact resume_accepted hm hf haloof hroot
      | _ => exact resume_accepted hm hf haloof hroot

end Steps

/-! ## Pushes one after the other -/

section Fed

variable [BEq α] {m x : Machine α} {r : WatcherId} {face : Face}

/-- Values are pushed into a root by way of such a handle, with nothing else from outside, and each
push comes to its end undisturbed. -/
inductive Fed (r : WatcherId) (face : Face) (m : Machine α) :
    List (Revision × Given α) → Machine α → Prop
  | nil : Fed r face m [] m
  | push {fed : List (Revision × Given α)} {x : Machine α} {name : Name} {b : Watcher α}
      {revision : Revision} {value : Given α} {n : Nat} : Fed r face m fed x → x.stack = [] →
      x.world.resolve? name = some (⟨r, face⟩, b) →
      (∀ k < n, ((x.world.start (.push name revision value)).steps k).undisturbed = true) →
      ((x.world.start (.push name revision value)).steps n).stack = [] →
      Fed r face m (fed ++ [(revision, value)])
        ((x.world.start (.push name revision value)).steps n)

/-- The state that a push offers. -/
def pushed (face : Face) (push : Revision × Given α) : Latest α := ⟨push.1, push.2.on face⟩

omit [BEq α] in
theorem undisturbed_of_quiet (hs : m.stack = []) : m.undisturbed = true := by
  unfold undisturbed calm aloof
  rw [hs]
  cases m.control <;> rfl

/-- A push begins with the offer of what it means to the root. -/
theorem start_push {w : World α} (hw : WellFormed ({ world := w } : Machine α)) {name : Name}
    {b : Watcher α} (hresolve : w.resolve? name = some (⟨r, face⟩, b))
    (hface : face = .root ∨ face = .plainRoot) (hcl : w.isClosed r = false) (revision : Revision)
    (value : Given α) : w.IsRoot r ∧ (w.start (.push name revision value)).world.accepted r =
      Latest.intake (w.accepted r) (pushed face (revision, value)) := by
  have hroot : w.IsRoot r := by
    have hmem := (World.resolve?_eq_some hresolve).1
    exact hw.roots _ hmem hface
  refine ⟨hroot, ?_⟩
  have hoffer : w.start (.push name revision value) =
      offer ⟨w, [.holding r], .proceed⟩ r (pushed face (revision, value)) := by
    show withHandle _ name _ = _
    unfold withHandle
    rcases hface with rfl | rfl <;> (simp only [hresolve]; rfl)
  rw [hoffer]
  exact accepted_offer (m := ⟨w, [.holding r], .proceed⟩) hw.ledger hroot hcl _

theorem Fed.quiet {fed : List (Revision × Given α)} (h : m.Fed r face fed x) (hs : m.stack = []) :
    x.stack = [] := by
  cases h with
  | nil => exact hs
  | push _ _ _ _ hend => exact hend

theorem Fed.additive {fed : List (Revision × Given α)} (h : m.Fed r face fed x) :
    m.Additive (·.undisturbed = true) x := by
  induction h with
  | nil => exact .refl
  | push _ hs _ hrun _ ih =>
    exact steps_induction (P := (·.undisturbed = true)) (fun _ hy hP hne => hy.step hP hne) _
      (ih.start (undisturbed_of_quiet hs) hs rfl) hrun

/-- An open root has accepted what it takes of what was pushed. -/
theorem Fed.accepted_eq {fed : List (Revision × Given α)} (h : m.Fed r face fed x)
    (hreach : m.Reached (·.undisturbed = true)) (hs : m.stack = [])
    (hface : face = .root ∨ face = .plainRoot) (hcl : m.world.isClosed r = false) :
    x.world.accepted r = (fed.map (pushed face)).foldl Latest.intake (m.world.accepted r) := by
  induction h with
  | nil => rfl
  | @push fed x name b revision value n hfirst hquiet hresolve hrun hend ih =>
    have hadd := hfirst.additive
    have hm := (hreach.later hadd.later).wellFormed
    have hopen := ((hadd.sameSubscriptions hreach aloof_of_undisturbed hs).closed r).trans hcl
    obtain ⟨hroot, hoffered⟩ := start_push ⟨hm.ledger, trivial, hm.queued, hm.roots⟩ hresolve hface
      hopen revision value
    have hbegun : m.Additive (·.undisturbed = true) (x.world.start (.push name revision value)) :=
      hadd.start (undisturbed_of_quiet hquiet) hquiet rfl
    have hkept := steps_induction (P := (·.undisturbed = true))
      (Q := fun y => m.Additive (·.undisturbed = true) y ∧ y.world.IsRoot r ∧
        y.world.accepted r = (x.world.start (.push name revision value)).world.accepted r)
      (fun y ⟨hy, hr, heq⟩ hP hne => by
        have hwell := (hreach.later hy.later).wellFormed
        have hframes := (hy.nothingTaken hreach aloof_of_undisturbed hs).frames
        exact ⟨hy.step hP hne, ((Next.step hne).extends_world hwell).origin hr,
          (step_accepted hwell (aloof_of_undisturbed _ hP) hframes hr).trans heq⟩)
      n ⟨hbegun, ((Next.start _ hquiet).extends_world hm).origin hroot, rfl⟩ hrun
    rw [hkept.2.2, hoffered, ih, List.map_append, List.foldl_append]
    rfl

/-- Pushes that are carried out one after the other. -/
theorem Fed.carry {fuel : Nat} {name : Name} (hreach : m.Reached (·.undisturbed = true))
    (hs : m.stack = []) (hhandle : m.world.handle? name = some ⟨r, face⟩)
    (hface : face = .root ∨ face = .plainRoot) {more : List (Revision × Given α)} :
    ∀ {fed : List (Revision × Given α)} {x : Machine α}, m.Fed r face fed x →
      passes undisturbed fuel x (more.map fun d => .push name d.1 d.2) = true →
      (x.carry fuel (more.map fun d => .push name d.1 d.2)).stack = [] →
      m.Fed r face (fed ++ more) (x.carry fuel (more.map fun d => .push name d.1 d.2)) := by
  induction more with
  | nil =>
    intro fed x h _ _
    rw [List.append_nil]
    exact h
  | cons d more ih =>
    intro fed x h hp hend
    obtain ⟨hpasses, hrest⟩ := Bool.and_eq_true_iff.mp hp
    obtain ⟨hfirst, hrun⟩ := Bool.and_eq_true_iff.mp hpasses
    have hquiet := (Bool.and_eq_true_iff.mp hfirst).1
    obtain ⟨b, hresolve⟩ : ∃ b, x.world.resolve? name = some (⟨r, face⟩, b) := by
      have hsame := h.additive.sameSubscriptions hreach aloof_of_undisturbed hs
      have hx : x.world.handle? name = some ⟨r, face⟩ := by
        unfold World.handle? at hhandle ⊢
        rw [hsame.handles, hhandle]
      have hroots := (hreach.later h.additive.later).wellFormed.roots
      have hroot := hroots _ (Bindings.mem_of_lookup hx) hface
      obtain ⟨b, hb, -⟩ := World.exists_watcher?_of_origin? hroot
      exact ⟨b, by simp [World.resolve?, hx, hb]⟩
    have hpushed : ((x.world.start (.push name d.1 d.2)).steps fuel).stack = [] := by
      cases more with
      | nil => exact hend
      | cons d' more =>
        simp only [List.map_cons, passes, Bool.and_eq_true] at hrest
        exact List.isEmpty_iff.mp hrest.1.1.1
    have hnext := ih (h.push (List.isEmpty_iff.mp hquiet) hresolve
      (fun k hk => List.all_eq_true.mp hrun k (List.mem_range.mpr hk)) hpushed) hrest hend
    rw [List.append_assoc] at hnext
    exact hnext

end Fed

end Machine

end WatchTree
