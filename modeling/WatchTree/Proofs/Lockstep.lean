import WatchTree.Proofs.TwinSteps

/-!
# Twins in lockstep

Machines in step make the same step (`Machine.InStep.step`), unless the subscription of a watcher
inside is about to be handed an update.
-/

namespace WatchTree

variable {α : Type}

/-! ## Queues -/

namespace Pairing

theorem rel_getElem? {β γ : Type} {R : β → γ → Prop} {xs : List β} {ys : List γ}
    (h : List.Forall₂ R xs ys) (i : Nat) : Option.Rel R xs[i]? ys[i]? := by
  induction h generalizing i with
  | nil => exact .none
  | cons hx _ ih =>
    cases i with
    | zero => exact .some hx
    | succ i => exact ih i

theorem rel_eraseIdx {β γ : Type} {R : β → γ → Prop} {xs : List β} {ys : List γ}
    (h : List.Forall₂ R xs ys) (i : Nat) : List.Forall₂ R (xs.eraseIdx i) (ys.eraseIdx i) := by
  induction h generalizing i with
  | nil => exact .nil
  | cons hx hrest ih =>
    cases i with
    | zero => exact hrest
    | succ i => exact .cons hx (ih i)

end Pairing

namespace Machine

variable {below : Name → Bool} {issuer : Name → Option WatcherId} {G : Pairing} {m m' : Machine α}

/-! ## Who issued the id under a label -/

/-- When a registration is complete, its label stands for an id issued by the watcher. -/
def issue (m : Machine α) (issuer : Name → Option WatcherId) : Name → Option WatcherId :=
  match m.control, m.stack with
  | .unwind _, _ => issuer
  | _, .watching label _ :: .holding id :: _ => Function.update issuer label (some id)
  | _, _ => issuer

theorem issue_of_unwind {payload : Payload} (h : m.control = .unwind payload) :
    m.issue issuer = issuer := by
  unfold issue
  rw [h]

theorem issue_of_ne {f : Frame α} {stk : List (Frame α)} (h : m.stack = f :: stk)
    (hf : ∀ label l, f ≠ .watching label l) : m.issue issuer = issuer := by
  unfold issue
  rw [h]
  cases f with
  | watching label l => exact absurd rfl (hf label l)
  | _ => cases m.control <;> rfl

theorem issue_watching {label : Name} {l : ListenerId} {id : WatcherId} {stk : List (Frame α)}
    (h : m.stack = .watching label l :: .holding id :: stk) (hc : m.control.Calm) :
    m.issue issuer = Function.update issuer label (some id) := by
  unfold issue
  rw [h]
  cases hcontrol : m.control with
  | unwind payload => exact absurd hcontrol (hc payload)
  | proceed => rfl
  | answer => rfl

/-! ## Frames -/

/-- A delivery goes on in the same way after any call that was no panic. -/
theorem step_fanOut [BEq α] {w : World α} {i : WatcherId} {n : Nat} {s : Latest α}
    {ls : List ListenerId} {stk : List (Frame α)} {c : Control α} (hc : c.Calm) :
    (⟨w, .fanOut i n s ls :: stk, c⟩ : Machine α).step =
      resume ⟨w, stk, .proceed⟩ (.fanOut i n s ls) := by
  cases c with
  | unwind payload => exact absurd rfl (hc payload)
  | _ => cases ls <;> rfl

/-- A child gets its handle, in the place of any that had its name. -/
theorem Abreast.construct [BEq α] (h : Abreast below issuer G m m') (hw : m.world.Ledger)
    (hw' : m'.world.Ledger) {name : Name} (hname : below name = false) {c c' : WatcherId}
    (hc : G.pair c c') (hhosted : G.Hosted (m.resume (.constructing name c)).world) :
    InStep below issuer G (m.resume (.constructing name c))
      (m'.resume (.constructing name c')) := by
  have hbound := h.inWorld
    (f := fun w => { w with handles := w.handles.bind name ⟨c, .child⟩ })
    (g := fun w => { w with handles := w.handles.bind name ⟨c', .child⟩ })
    (h.world.bindHandle hname rfl hc)
  have htext : ∀ a a' : String, ∀ b : Bool,
      (Answer.text a : Answer α) = .bool b ↔ (Answer.text a' : Answer α) = .bool b := fun _ _ _ =>
    iff_of_false (fun h => nomatch h) fun h => nomatch h
  unfold Machine.resume World.handle? at hhosted ⊢
  rcases h.world.handles.lookup hname with ⟨hnone, hnone'⟩ | ⟨hd, hd', hh, hh', -, hp⟩
  · simp only [hnone, hnone']
    exact hbound.answer (htext _ _)
  · simp only [hh, hh'] at hhosted ⊢
    exact (hbound.release hd.target (hhosted.of_eq (release_handles _ _).symm)
      (hw.of_eq rfl rfl) (hw'.of_eq rfl rfl) hp).answer (htext _ _)

/-- A task is picked from a queue and run. -/
theorem Abreast.pick [BEq α] (h : Abreast below issuer G m m') {q : Name} (hq : below q = false)
    (is : List Nat) (k k' : Nat) :
    InStep below issuer G (m.resume (.picking q is k)) (m'.resume (.picking q is k')) := by
  cases is with
  | nil => exact h.answer fun _ => iff_of_false (fun h => nomatch h) fun h => nomatch h
  | cons i rest =>
    unfold Machine.resume
    have hqueue := h.queue hq
    rcases Pairing.rel_cases (Pairing.rel_getElem? hqueue i) with
      ⟨hnone, hnone'⟩ | ⟨t, t', ht, ht', hsame⟩
    · simp only [hnone, hnone']
      exact h.push (.picking hq)
    · simp only [ht, ht']
      exact ((h.setQueue hq (Pairing.rel_eraseIdx hqueue i)).push
        (.picking hq)).toAbreast.run hsame false

namespace InStep

variable [BEq α] (h : InStep below issuer G m m') {f f' : Frame α}

include h

theorem unwound (hw : m.world.Ledger) (hw' : m'.world.Ledger) (hhosted : G.Hosted m.world)
    (hf : G.Frames below f f') (payload : Payload) :
    InStep below issuer G (m.unwound payload f) (m'.unwound payload f') := by
  cases hf with
  | holding hi => exact h.release hhosted hw hw' hi
  | calling => exact (h.toAbreast.log ..).proceed
  | @applying _ _ s hc => exact h.toAbreast.settle hc s.revision (.panicked payload)
  | polling hq => exact h.toAbreast.proceed.toAbreast.fetchNext hq
  | fetching hq => exact h.toAbreast.fail hq _
  | pushing hq => exact h.toAbreast.fail hq _
  | ending => exact ⟨h.toAbreast.recordOn rfl rfl .., h.control⟩
  | _ => exact h

omit h in
/-- A frame goes on; a subscription of a watcher inside is not about to be handed an update. -/
theorem resume (h : InStep below issuer G m m') (hw : m.world.Ledger) (hw' : m'.world.Ledger)
    (hf : G.Frames below f f') (hhosted : G.Hosted (m.resume f).world)
    (hturn : ∀ i n s l ls, f = .fanOut i n s (l :: ls) → ¬ G.skipped i l) :
    InStep below issuer G (m.resume f) (m'.resume f') := by
  cases hf with
  | @holding i i' hi =>
    exact h.release (hhosted.of_eq (release_handles i m).symm) hw hw' hi
  | @script site site' todo htodo =>
    cases todo with
    | nil => exact h.toAbreast.proceed
    | cons op rest =>
      have hop := htodo op (List.mem_cons_self ..)
      exact (h.toAbreast.push (.script fun o ho =>
        htodo o (List.mem_cons_of_mem _ ho))).toAbreast.perform_inert hop.1 hop.2.2
  | @waking names hnames =>
    cases names with
    | nil => exact h.toAbreast.proceed
    | cons k rest =>
      have hpushed := h.toAbreast.push (.waking fun j hj => hnames j (List.mem_cons_of_mem _ hj))
      exact hpushed.toAbreast.wake (hnames k (List.mem_cons_self ..))
  | @announcing i i' n s ls ls' hi hls =>
    have hpushed := h.toAbreast.push (.fanOut (n := n) (s := s) hi hls)
    exact ⟨hpushed.toAbreast.log .., hpushed.control⟩
  | fanOut hi hls =>
    cases hls with
    | nil => exact h.toAbreast.answer fun _ => Iff.rfl
    | skip hl => exact absurd hl (hturn _ _ _ _ _ rfl)
    | both hl hrest =>
      exact (h.toAbreast.push (.fanOut hi hrest)).toAbreast.handOver ⟨hi, hl, rfl, rfl⟩
  | calling => exact h.toAbreast.proceed
  | @applying c c' s hc =>
    show InStep below issuer G (m.settle c s.revision (m.outcomeOf c s.value))
      (m'.settle c' s.revision (m'.outcomeOf c' s.value))
    rw [h.toAbreast.outcomeOf hc]
    exact h.toAbreast.settle hc _ _
  | constructing hname hc => exact h.toAbreast.construct hw hw' hname hc hhosted
  | closing hi =>
    exact ((h.toAbreast.log ..).detach hi .detached).answer fun _ => Iff.rfl
  | draining hts =>
    cases hts with
    | nil => exact h.toAbreast.answer fun _ => iff_of_false (fun h => nomatch h) fun h => nomatch h
    | cons ht hrest => exact (h.toAbreast.push (.draining hrest)).toAbreast.run ht false
  | picking hq => exact h.toAbreast.pick hq _ _ _
  | polling hq => exact h.toAbreast.fetchNext hq
  | fetching hq => exact h.toAbreast.takeReply hq _
  | pushing hq => exact h.toAbreast.succeed hq
  | ending => exact h.toAbreast.finish ..

omit h in
/-- Machines in step make the same step; a subscription of a watcher inside is not about to be
handed an update. -/
theorem step (h : InStep below issuer G m m') (hne : m.stack ≠ []) (hw : m.world.Ledger)
    (hw' : m'.world.Ledger) (hhosted : G.Hosted m.world) (hhosted' : G.Hosted m.step.world)
    (hturn : ∀ i n s l ls stk, m.stack = .fanOut i n s (l :: ls) :: stk → m.control.Calm →
      ¬ G.skipped i l) : InStep below (m.issue issuer) G m.step m'.step := by
  obtain ⟨w, stk, c⟩ := m
  obtain ⟨w', stk', c'⟩ := m'
  obtain ⟨⟨hworld, hstack⟩, hcontrol⟩ := h
  dsimp only at *
  cases hstack with
  | nil => exact absurd rfl hne
  | @cons f f' stk stk' hf hrest =>
    have hissue : ∀ c, (⟨w, f :: stk, c⟩ : Machine α).issue issuer = issuer := fun c =>
      issue_of_ne rfl (by rintro label l rfl; cases hf)
    rw [hissue]
    have hpopped : ∀ {c c'}, Control.Same stk c c' →
        InStep below issuer G ⟨w, stk, c⟩ ⟨w', stk', c'⟩ := fun hc => ⟨⟨hworld, hrest⟩, hc⟩
    cases hcontrol with
    | unwind => exact (hpopped .unwind).unwound hw hw' hhosted hf _
    | proceed =>
      exact (hpopped .proceed).resume hw hw' hf hhosted' fun i n s l ls heq =>
        hturn i n s l ls stk (by rw [heq]) Control.calm_proceed
    | @answer _ a a' ha =>
      have hresumed := (hpopped (.answer ha)).resume hw hw' hf
      have hnext := fun i n s l ls (heq : f = .fanOut i n s (l :: ls)) =>
        hturn i n s l ls stk (by rw [heq]) (Control.calm_answer a)
      cases hf with
      | @script site site' todo htodo =>
        have hunpopped : Abreast below issuer G
            (⟨w, .script site todo :: stk, .answer a⟩ : Machine α)
            ⟨w', .script site' todo :: stk', .answer a'⟩ := ⟨hworld, .cons (.script htodo) hrest⟩
        exact (hunpopped.record rfl rfl).proceed
      | holding hi => exact (hpopped (.answer ha)).release hhosted hw hw' hi
      | _ => exact hresumed hhosted' hnext
    | @fanOut i n s ls _ _ _ hc hc' =>
      -- what is done next does not depend on how the delivery before has ended
      have hgoes := fun hhosted => (hpopped .proceed).resume hw hw' hf hhosted fun i n s l ls heq =>
        hturn i n s l ls stk (by rw [heq]) hc
      cases hf with
      | @fanOut _ i' _ _ _ ls' hi hls =>
        rw [step_fanOut hc] at hhosted' ⊢
        rw [step_fanOut hc']
        exact hgoes hhosted'
  | @watching label i i' l l' stk stk' hlabel hi hl hrest =>
    have hbelow : G.Stacks below (.holding i :: stk) (.holding i' :: stk') :=
      .cons (.holding hi) hrest
    have hbound : ∀ c c' : Control α, c.Calm → c'.Calm → InStep below
        ((⟨w, .watching label l :: .holding i :: stk, c⟩ : Machine α).issue issuer) G
        (Machine.resume ⟨w, .holding i :: stk, c⟩ (.watching label l))
        (Machine.resume ⟨w', .holding i' :: stk', c'⟩ (.watching label l')) := fun c c' hc hc' => by
      rw [issue_watching rfl hc]
      have hlabelled : Abreast below (Function.update issuer label (some i)) G
          (⟨{ w with listeners := w.listeners.bind label l }, .holding i :: stk, c⟩ : Machine α)
          ⟨{ w' with listeners := w'.listeners.bind label l' }, .holding i' :: stk', c'⟩ :=
        { world :=
            { hworld with
              listeners := hworld.listeners.bind hlabel ⟨i, Function.update_self .., hl⟩
                fun n _ _ hne ⟨p, hp, hlp⟩ => ⟨p, (Function.update_of_ne hne ..).trans hp, hlp⟩ }
          stack := hbelow }
      exact hlabelled.answer fun b => iff_of_false (fun h => nomatch h) fun h => nomatch h
    cases hcontrol with
    | unwind =>
      rw [issue_of_unwind rfl]
      exact ⟨⟨hworld, hbelow⟩, .unwind⟩
    | proceed => exact hbound _ _ Control.calm_proceed Control.calm_proceed
    | @answer _ a a' ha => exact hbound _ _ (Control.calm_answer a) (Control.calm_answer a')

end InStep

end Machine

end WatchTree
