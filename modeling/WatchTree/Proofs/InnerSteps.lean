import WatchTree.Proofs.Lockstep

/-!
# Steps inside

Work inside changes only what the twin world lacks (`Machine.Within`): whatever it does and however
it ends, the worlds stay twins, and what was below it on the stack is left alone.
-/

namespace WatchTree

variable {α : Type}

/-! ## Work inside -/

namespace Pairing

/-- Work inside. What is made inside of a watcher outside holds that one meanwhile. -/
def InsideFrame (G : Pairing) (below : Name → Bool) : Frame α → Prop
  | .holding id => G.inside id ∨ ∃ l, G.skipped id l
  | .script _ todo => Callback below true todo
  | .waking names => ∀ k ∈ names, below k = true
  | .announcing id .. | .fanOut id .. | .closing id _ => G.inside id
  | .calling _ => True
  | .applying c _ => G.inside c
  | .watching label _ => below label = true
  | .constructing name c => below name = true ∧ G.inside c
  | .draining ts _ => ∀ t ∈ ts, G.inside t.watcher
  | .picking q .. => below q = true
  | .polling _ | .fetching .. | .pushing _ | .ending _ => False

/-- A task for a listener inside. -/
def InsideTask (G : Pairing) (t : Task α) : Prop :=
  G.inside t.watcher ∨ G.skipped t.watcher t.listener

variable {G : Pairing} {below : Name → Bool} {r s : Registration α}

theorem InsideRegistration.of_ite {p : Prop} [Decidable p] (hr : G.InsideRegistration below r)
    (hs : G.InsideRegistration below s) : G.InsideRegistration below (if p then r else s) := by
  split
  · exact hr
  · exact hs

theorem InsideRegistration.retire (h : G.InsideRegistration below r) :
    G.InsideRegistration below r.retire := ⟨h.listener, h.disposal, h.actions⟩

end Pairing

namespace World.Twins

variable {below : Name → Bool} {issuer : Name → Option WatcherId} {G : Pairing} {w w' : World α}
  (h : w.Twins below issuer G w') {t : Task α}

include h

/-- A registration that is passed over is that of a watcher inside, whose executor does nothing but
run tasks at once. -/
theorem skippedRegistration {i : WatcherId} {l : ListenerId} (hl : G.skipped i l)
    {r : Registration α} (hr : w.registration? i l = some r) :
    ∃ c, r.listener = .subscription c ∧ G.inside c ∧ r.executor = ⟨.inline, fun _ => []⟩ := by
  obtain ⟨i', hi⟩ := h.hosts hl
  obtain ⟨b, b', hb, -, hsame⟩ := h.bodies hi
  rw [registration?_of_watcher? hb] at hr
  exact hsame.registry.skipped_records r (Registry.mem_records_of_find? hr)
    (by rwa [Registry.id_of_find? hr])

/-- A registration inside calls, runs and queues only what is inside. -/
theorem insideRegistration (ht : G.InsideTask t) {r : Registration α}
    (hr : w.registration? t.watcher t.listener = some r) :
    G.InsideRegistration below r ∧ (G.inside t.watcher ∨ r.executor = ⟨.inline, fun _ => []⟩) := by
  rcases ht with hin | hskip
  · obtain ⟨b, hb, hinside⟩ := h.insides hin
    rw [registration?_of_watcher? hb] at hr
    exact ⟨hinside.records r (Registry.mem_records_of_find? hr), .inl hin⟩
  · obtain ⟨c, hl, hc, he⟩ := h.skippedRegistration hskip hr
    refine ⟨⟨hl ▸ .subscription hc, he ▸ trivial, fun n => ?_⟩, .inr he⟩
    rw [he]
    exact fun op hop => nomatch hop

/-- A registration inside is told something. -/
theorem modifyRegistration_inside (ht : G.InsideTask t) {f : Registration α → Registration α}
    (hid : ∀ r, (f r).id = r.id) (hactive : ∀ r, (f r).active = r.active)
    (hlistener : ∀ r, (f r).listener = r.listener) (hexecutor : ∀ r, (f r).executor = r.executor) :
    (w.modifyRegistration t.watcher t.listener f).Twins below issuer G w' := by
  rcases ht with hin | hskip
  · refine h.modify_inside hin fun b hb =>
      { hb with records := List.forall_mem_map.mpr fun a ha => ?_ }
    have hinside := hb.records a ha
    exact .of_ite ⟨hlistener a ▸ hinside.listener, hexecutor a ▸ hinside.disposal,
      hexecutor a ▸ hinside.actions⟩ hinside
  · exact h.modifyRegistration_skipped hskip hid hactive hlistener hexecutor

/-- Who issued the ids under labels inside does not matter. -/
theorem reissue {issuer' : Name → Option WatcherId}
    (hsame : ∀ name, below name = false → issuer' name = issuer name) :
    w.Twins below issuer' G w' :=
  { h with
    listeners := h.listeners.imp fun n hn _ _ ⟨p, hp, hl⟩ => ⟨p, (hsame n hn).trans hp, hl⟩ }

theorem setQueue_inside {q : Name} (hq : below q = true) {ts : List (Task α)}
    (hts : ∀ t ∈ ts, G.inside t.watcher) : (w.setQueue q ts).Twins below issuer G w' :=
  { h with
    queues := h.queues.bind_inside hq
    insideQueues := Bindings.forall_bind h.insideQueues fun _ => hts }

theorem queue_inside {q : Name} (hq : below q = true) : ∀ t ∈ w.queue q, G.inside t.watcher := by
  unfold World.queue
  cases hl : w.queues.lookup q with
  | none => exact fun t ht => nomatch ht
  | some ts => exact h.insideQueues (q, ts) (Bindings.mem_of_lookup hl) hq

end World.Twins

namespace Machine

/-- The twin of the world is that one, and work inside stands on the stack. -/
structure Within (below : Name → Bool) (issuer : Name → Option WatcherId) (G : Pairing)
    (w' : World α) (stk : List (Frame α)) (m : Machine α) : Prop where
  world : m.world.Twins below issuer G w'
  stack : ∃ fs, m.stack = fs ++ stk ∧ ∀ f ∈ fs, G.InsideFrame below f

namespace Within

variable {below : Name → Bool} {issuer : Name → Option WatcherId} {G : Pairing} {w' : World α}
  {stk : List (Frame α)} {m : Machine α} (h : Within below issuer G w' stk m)

include h

theorem inWorld {f : World α → World α} (hw : (f m.world).Twins below issuer G w') :
    Within below issuer G w' stk (m.inWorld f) := ⟨hw, h.stack⟩

theorem modify {i : WatcherId} (hi : G.inside i) {f : Watcher α → Watcher α}
    (hf : ∀ b, G.InsideWatcher below b → G.InsideWatcher below (f b)) :
    Within below issuer G w' stk (m.inWorld (·.modify i f)) :=
  h.inWorld (h.world.modify_inside hi hf)

theorem proceed : Within below issuer G w' stk m.proceed := ⟨h.world, h.stack⟩

theorem answer (a : Answer α) : Within below issuer G w' stk (m.answer a) := ⟨h.world, h.stack⟩

theorem unwind (payload : Payload) : Within below issuer G w' stk (m.unwind payload) :=
  ⟨h.world, h.stack⟩

theorem push {f : Frame α} (hf : G.InsideFrame below f) :
    Within below issuer G w' stk (m.push f) := by
  obtain ⟨fs, hfs, hin⟩ := h.stack
  refine ⟨h.world, f :: fs, congrArg (f :: ·) hfs, fun g hg => ?_⟩
  rcases List.mem_cons.mp hg with rfl | hg
  · exact hf
  · exact hin g hg

theorem recordOn (p : Bool) {e : Event α} (he : e.invocation? = none) :
    Within below issuer G w' stk (m.recordOn p e) :=
  h.inWorld (h.world.note_inside p fun _ ht => nomatch he.symm.trans ht)

theorem record {e : Event α} (he : e.invocation? = none) :
    Within below issuer G w' stk (m.record e) := h.recordOn _ he

theorem log (i : WatcherId) (d : Diagnostic) : Within below issuer G w' stk (m.log i d) :=
  h.record rfl

/-! ## Deliveries -/

theorem call {t : Task α} (ht : G.InsideTask t) {r : Registration α}
    (hr : G.InsideRegistration below r) (elsewhere : Bool) :
    Within below issuer G w' stk (m.call t r elsewhere) := by
  have htold := h.inWorld (f := (·.modifyRegistration t.watcher t.listener fun r =>
      { r with delivered := t.update, calls := r.calls + 1 }))
    (h.world.modifyRegistration_inside ht (fun _ => rfl) (fun _ => rfl) (fun _ => rfl) fun _ => rfl)
  have hcalled : ∀ (a : Audience) (p : Bool), Within below issuer G w' stk
      (((m.inWorld _).recordOn p (.called a t elsewhere)).push (.calling t)) := fun a p =>
    (htold.inWorld (htold.world.note_inside p fun _ heq => by cases heq; exact ht)).push
      (f := .calling t) trivial
  obtain ⟨id, listener, executor, active, delivered, calls, handovers⟩ := r
  unfold Machine.call
  cases hr.listener with
  | observer ha => exact (hcalled _ _).push (ha _)
  | @subscription c hc =>
    simp only
    split
    · exact htold.proceed
    · rename_i p l d hp
      obtain ⟨b, hb, hinside⟩ := htold.world.insides hc
      obtain ⟨p', l', d', ho, -, ha, -⟩ := hinside.origin
      rw [World.parent?_eq_some_iff, World.origin?_of_watcher? hb, ho, Option.some.injEq] at hp
      cases hp
      exact ((hcalled _ _).push (f := .applying c t.state) hc).push (ha _)

theorem run {t : Task α} (ht : G.InsideTask t) (elsewhere : Bool) :
    Within below issuer G w' stk (m.run t elsewhere) := by
  unfold Machine.run
  split
  · exact h.proceed
  · rename_i r hr
    have hnoted : Within below issuer G w' stk (m.record (.ran t r.active)) := h.record rfl
    simp only
    split
    · exact hnoted.proceed
    · split
      · exact (hnoted.recordOn _ rfl).proceed
      · exact hnoted.call ht (h.world.insideRegistration ht hr).1 elsewhere

theorem handOver {t : Task α} (ht : G.InsideTask t) :
    Within below issuer G w' stk (m.handOver t) := by
  unfold Machine.handOver
  split
  · exact h.proceed
  · rename_i r hr
    obtain ⟨hin, hwhere⟩ := h.world.insideRegistration ht hr
    simp only
    split
    · exact h.proceed
    · have hnoted : Within below issuer G w' stk (m.record (.handedOver t)) := h.record rfl
      have hgiven := (hnoted.inWorld (f := (·.modifyRegistration t.watcher t.listener fun r =>
          { r with handovers := r.handovers + 1 }))
        (hnoted.world.modifyRegistration_inside ht (fun _ => rfl) (fun _ => rfl) (fun _ => rfl)
          fun _ => rfl)).push (f := .script (.executor t.watcher t.listener) _)
        (hin.actions (r.handovers + 1))
      have hdisposal := hin.disposal
      split
      · exact hgiven.run ht false
      · exact hgiven.run ht true
      · rename_i q hd
        rw [hd] at hdisposal
        have htask : G.inside t.watcher := hwhere.resolve_right fun he => by
          rw [he] at hd
          exact nomatch hd
        refine hgiven.inWorld (hgiven.world.setQueue_inside hdisposal fun a ha => ?_)
        rcases List.mem_append.mp ha with ha | ha
        · exact hgiven.world.queue_inside hdisposal a ha
        · exact List.mem_singleton.mp ha ▸ htask
      · exact hgiven

/-! ## Wakers -/

theorem wake {k : Name} (hk : below k = true) : Within below issuer G w' stk (m.wake k) := by
  have hnoted : Within below issuer G w' stk (m.record (.woken k)) := h.record rfl
  unfold Machine.wake
  simp only
  split
  · exact hnoted.proceed
  · rename_i a ha
    have hactions := hnoted.world.insideWakers (k, a) (Bindings.mem_of_lookup ha) hk
    have hwoken := hnoted.world.bindWaker_inside (a := { a with wakes := a.wakes + 1 }) hk hactions
    exact (hnoted.inWorld hwoken).push (hactions _)

/-! ## Offers -/

section Offers

variable [BEq α]

theorem offer {i : WatcherId} (hi : G.inside i) (s : Latest α) :
    Within below issuer G w' stk (m.offer i s) := by
  obtain ⟨b, hb, hinside⟩ := h.world.insides hi
  unfold Machine.offer
  rw [hb]
  simp only
  split
  · exact (h.record rfl).answer _
  · split
    · exact ((h.record rfl).log ..).answer _
    · have hnoted : Within below issuer G w' stk (m.record (.offered i s .accepted)) := h.record rfl
      have haccepted := hnoted.modify hi (f := (·.accept s)) fun a ha =>
        { ha with
          wakers := fun k hk => by
            rw [Watcher.accept, Slot.wakers_complete] at hk
            exact absurd hk List.not_mem_nil }
      have hlogged : Within below issuer G w' stk
          (if b.slot.isPending then ((m.record (.offered i s .accepted)).inWorld
            (·.modify i (·.accept s))).log i (.initialized s.revision)
            else (m.record (.offered i s .accepted)).inWorld (·.modify i (·.accept s))) := by
        split
        · exact haccepted.log ..
        · exact haccepted
      exact (hlogged.push (f := .announcing ..) hi).push hinside.wakers

theorem settle {c : WatcherId} (hc : G.inside c) (r : Revision) (outcome : Outcome α) :
    Within below issuer G w' stk (m.settle c r outcome) := by
  have hnoted : Within below issuer G w' stk (m.record (.applied c r outcome)) := h.record rfl
  cases outcome with
  | value v => exact hnoted.offer hc _
  | failed error => exact (hnoted.log ..).proceed
  | panicked payload => exact (hnoted.log ..).proceed

end Offers

/-! ## Closing, detaching and releasing -/

theorem close {i : WatcherId} (hi : G.inside i) : Within below issuer G w' stk (m.close i) := by
  obtain ⟨b, hb, hinside⟩ := h.world.insides hi
  unfold Machine.close
  rw [hb]
  simp only
  split
  · exact h.answer _
  · have hclosed := h.modify hi (f := (·.close)) fun a ha =>
      { ha with
        wakers := fun k hk => by
          rw [Watcher.close, Slot.wakers_abandon] at hk
          exact absurd hk List.not_mem_nil
        records := List.forall_mem_map.mpr fun e he =>
          .of_ite (ha.records e he).retire (ha.records e he) }
    exact (hclosed.push (f := .closing ..) hi).push hinside.wakers

theorem unregister {i : WatcherId} {l : ListenerId} (hil : G.inside i ∨ G.skipped i l) :
    Within below issuer G w' stk (m.inWorld (·.unregister i l)) := by
  rcases hil with hin | hskip
  · exact h.modify hin fun b hb =>
      { hb with
        records := List.forall_mem_map.mpr fun e he =>
          .of_ite (hb.records e he).retire (hb.records e he) }
  · exact h.inWorld (h.world.unregister_skipped hskip)

theorem detach {c : WatcherId} (hc : G.inside c) (message : String → Diagnostic) :
    Within below issuer G w' stk (m.detach c message) := by
  obtain ⟨b, hb, hinside⟩ := h.world.insides hc
  obtain ⟨p, l, d, ho, -, -, hp⟩ := hinside.origin
  have hparent : m.world.parent? c = some (p, l, d) := by
    rw [World.parent?_eq_some_iff, World.origin?_of_watcher? hb, ho]
  unfold Machine.detach
  rw [hparent]
  simp only
  split
  · exact (h.unregister hp).log ..
  · exact h

theorem dropChild {c : WatcherId} (hc : G.inside c) :
    Within below issuer G w' stk (m.dropChild c) :=
  Within.detach (h.modify hc (f := fun b => { b with dropped := true }) fun _ ha => { ha with }) hc
    .droppedUnclosed

omit h in
/-- What can be released on this side is inside, unless it has a handle. -/
theorem inside_of_not_referenced {m : Machine α} (hhosted : G.Hosted m.world) {c : WatcherId}
    (hc : G.inside c ∨ ∃ l, G.skipped c l) (href : m.isReferenced c = false) : G.inside c := by
  refine hc.resolve_right ?_
  rintro ⟨l, hskip⟩
  unfold isReferenced at href
  rw [hhosted c l hskip] at href
  exact nomatch href

theorem release (c : WatcherId) (hhosted : G.Hosted m.world)
    (hc : G.inside c ∨ ∃ l, G.skipped c l) : Within below issuer G w' stk (m.release c) := by
  refine release_induction (R := fun c m x => Within below issuer G w' stk m →
    G.Hosted m.world → (G.inside c ∨ ∃ l, G.skipped c l) → Within below issuer G w' stk x)
    (fun _ h _ _ => h) ?_ ?_ c m h hhosted hc
  · intro i p l d m ho hd href hnot h hhosted hi
    exact h.dropChild (inside_of_not_referenced hhosted hi href)
  · intro i p l d m ho hd href hlt ih h hhosted hi
    have hin := inside_of_not_referenced hhosted hi href
    obtain ⟨b, hb, hinside⟩ := h.world.insides hin
    obtain ⟨p', l', d', ho', -, -, hp⟩ := hinside.origin
    have heq : some (Origin.child p l d) = some (.child p' l' d') := by
      rw [← ho, World.origin?_of_watcher? hb, ho']
    obtain ⟨rfl, rfl, -⟩ := Origin.child.inj (Option.some.inj heq)
    exact ih (h.dropChild hin) (hhosted.of_eq (detach_handles ..)) (hp.imp_right fun hs => ⟨l, hs⟩)

/-! ## Operations of callbacks -/

section Steps

variable [BEq α]

/-- An operation of a callback inside. -/
theorem perform_inert {op : Op α} (hop : op.isInert = true) (hstop : op.stops = false)
    (hside : ∀ name ∈ op.subject?, below name = true) :
    Within below issuer G w' stk (m.perform op) := by
  cases op with
  | invalid => exact h.answer _
  | ask q => exact h.answer _
  | queueRun q order =>
    have hq : below q = true := hside q rfl
    have htasks := h.world.queue_inside hq
    have hemptied : Within below issuer G w' stk (m.inWorld (·.setQueue q [])) :=
      h.inWorld (h.world.setQueue_inside hq fun _ ht => nomatch ht)
    cases order with
    | forward => exact hemptied.push (f := .draining ..) htasks
    | backward =>
      exact hemptied.push (f := .draining ..) fun t ht => htasks t (List.mem_reverse.mp ht)
    | picked positions => exact h.push (f := .picking ..) hq
  | queueDrop q =>
    exact (h.inWorld (h.world.setQueue_inside (hside q rfl) fun _ ht =>
      absurd ht List.not_mem_nil)).answer _
  | stop => exact nomatch hstop
  | panic payload => exact h.unwind payload
  | _ => exact nomatch hop

/-! ## Frames -/

/-- A child inside gets its handle, in the place of any that had its name. -/
theorem construct {name : Name} (hname : below name = true) {c : WatcherId} (hc : G.inside c)
    (hhosted : G.Hosted (m.resume (.constructing name c)).world) :
    Within below issuer G w' stk (m.resume (.constructing name c)) := by
  have hbound := h.inWorld (f := fun w => { w with handles := w.handles.bind name ⟨c, .child⟩ })
    (h.world.bindHandle_inside hname hc)
  unfold Machine.resume World.handle? at hhosted ⊢
  cases hl : m.world.handles.lookup name with
  | none =>
    simp only [hl]
    exact hbound.answer _
  | some hd =>
    simp only [hl] at hhosted ⊢
    have hin := h.world.insideHandles (name, hd) (Bindings.mem_of_lookup hl) hname
    exact (hbound.release hd.target (hhosted.of_eq (release_handles _ _).symm)
      (.inl hin)).answer _

/-- A task is picked from a queue inside and run. -/
theorem pick {q : Name} (hq : below q = true) (is : List Nat) (k : Nat) :
    Within below issuer G w' stk (m.resume (.picking q is k)) := by
  cases is with
  | nil => exact h.answer _
  | cons i rest =>
    unfold Machine.resume
    have htasks := h.world.queue_inside hq
    simp only
    split
    · exact h.push (f := .picking ..) hq
    · rename_i t ht
      exact ((h.inWorld (h.world.setQueue_inside hq fun a ha =>
        htasks a (List.mem_of_mem_eraseIdx ha))).push (f := .picking ..) hq).run
          (.inl (htasks t (List.mem_of_getElem? ht))) false

theorem unwound (hhosted : G.Hosted m.world) {f : Frame α} (hf : G.InsideFrame below f)
    (payload : Payload) : Within below issuer G w' stk (m.unwound payload f) := by
  cases f with
  | holding i => exact h.release i hhosted hf
  | calling t => exact (h.log ..).proceed
  | applying c s => exact h.settle hf s.revision (.panicked payload)
  | polling | fetching | pushing | ending => exact hf.elim
  | _ => exact h

theorem resume {f : Frame α} (hf : G.InsideFrame below f)
    (hhosted : G.Hosted (m.resume f).world) : Within below issuer G w' stk (m.resume f) := by
  cases f with
  | holding i => exact h.release i (hhosted.of_eq (release_handles i m).symm) hf
  | script site todo =>
    cases todo with
    | nil => exact h.proceed
    | cons op rest =>
      have hop := hf op (List.mem_cons_self ..)
      exact (h.push (f := .script site rest) fun o ho =>
        hf o (List.mem_cons_of_mem _ ho)).perform_inert hop.1
          (Bool.eq_false_iff.mpr fun hstop => nomatch hop.2.1 hstop) hop.2.2
  | waking names =>
    cases names with
    | nil => exact h.proceed
    | cons k rest =>
      exact (h.push (f := .waking rest) fun j hj => hf j (List.mem_cons_of_mem _ hj)).wake
        (hf k (List.mem_cons_self ..))
  | announcing i n s ls => exact (h.push (f := .fanOut i n s ls) hf).log ..
  | fanOut i n s ls =>
    cases ls with
    | nil => exact h.answer _
    | cons l rest => exact (h.push (f := .fanOut i n s rest) hf).handOver (.inl hf)
  | calling t => exact h.proceed
  | applying c s => exact h.settle hf s.revision _
  | watching label l =>
    exact (h.inWorld
      { h.world with listeners := h.world.listeners.bind_inside hf }).answer (.listener l)
  | constructing name c => exact h.construct hf.1 hf.2 hhosted
  | closing i n => exact ((h.log ..).detach hf .detached).answer _
  | draining ts k =>
    cases ts with
    | nil => exact h.answer _
    | cons t rest =>
      exact (h.push (f := .draining rest (k + 1)) fun a ha =>
        hf a (List.mem_cons_of_mem _ ha)).run (.inl (hf t (List.mem_cons_self ..))) false
  | picking q is k => exact h.pick hf is k
  | polling | fetching | pushing | ending => exact hf.elim

omit h [BEq α] in
/-- Who issued the ids under labels outside is not changed by what is done inside. -/
theorem issue_of_inside {w : World α} {f : Frame α} (hf : G.InsideFrame below f)
    (rest : List (Frame α)) (c : Control α) {name : Name} (hname : below name = false) :
    (⟨w, f :: rest, c⟩ : Machine α).issue issuer name = issuer name := by
  cases f with
  | watching label l =>
    have hne : name ≠ label := by
      rintro rfl
      exact nomatch hname.symm.trans hf
    cases c with
    | unwind payload => rfl
    | _ =>
      cases rest with
      | nil => rfl
      | cons g rest =>
        cases g with
        | holding i => exact Function.update_of_ne hne ..
        | _ => rfl
  | _ => exact congrFun (issue_of_ne rfl (by intro label l heq; cases heq)) name

omit h in
/-- What is done inside leaves the twin world the twin, and the stack below as it is. -/
theorem step {w : World α} {f : Frame α} {fs : List (Frame α)} {c : Control α}
    (hw : w.Twins below issuer G w') (hfs : ∀ g ∈ f :: fs, G.InsideFrame below g)
    (hhosted : G.Hosted w)
    (hhosted' : G.Hosted (⟨w, f :: (fs ++ stk), c⟩ : Machine α).step.world) :
    Within below ((⟨w, f :: (fs ++ stk), c⟩ : Machine α).issue issuer) G w' stk
      (⟨w, f :: (fs ++ stk), c⟩ : Machine α).step := by
  have hf := hfs f (List.mem_cons_self ..)
  have hissued : w.Twins below ((⟨w, f :: (fs ++ stk), c⟩ : Machine α).issue issuer) G w' :=
    hw.reissue fun name hname => issue_of_inside hf (fs ++ stk) c hname
  have hpopped : ∀ c, Within below _ G w' stk ⟨w, fs ++ stk, c⟩ := fun c =>
    ⟨hissued, fs, rfl, fun g hg => hfs g (List.mem_cons_of_mem _ hg)⟩
  cases c with
  | unwind payload => exact (hpopped _).unwound hhosted hf payload
  | proceed => exact (hpopped _).resume hf hhosted'
  | answer a =>
    have hresumed := (hpopped (.answer a)).resume hf
    cases f with
    | script site todo =>
      exact (Within.record (m := ⟨w, .script site todo :: (fs ++ stk), .answer a⟩)
        ⟨hissued, .script site todo :: fs, rfl, hfs⟩ rfl).proceed
    | holding i => exact (hpopped _).release i hhosted hf
    | _ => exact hresumed hhosted'

end Steps

end Within

end Machine

end WatchTree
