import WatchTree.Proofs.Twins

/-!
# Steps outside

Machines whose worlds are twins and whose stacks hold the same work outside (`Machine.Abreast`) stay
so: each function that works outside does the same in both.
-/

namespace WatchTree

variable {α : Type}

/-! ## Queries -/

namespace Query

/-- The answer is yes or no. -/
def isYesNo : Query α → Bool
  | .isClosed _ | .futureDone _ => true
  | _ => false

theorem watching_ne_bool {w : World α} {name : Name} {f : Handle → Watcher α → Answer α} {v : Bool}
    (hf : ∀ hd b, f hd b ≠ .bool v) : answer.watching w name f ≠ .bool v := by
  unfold answer.watching
  split
  · exact hf _ _
  · exact fun h => nomatch h

theorem stateAnswer_ne_bool (r : Except WatchError (Latest α)) (v : Bool) :
    stateAnswer r ≠ .bool v := by
  cases r <;> exact fun h => nomatch h

theorem valueAnswer_ne_bool (r : Except WatchError (Latest α)) (v : Bool) :
    valueAnswer r ≠ .bool v := by
  cases r <;> exact fun h => nomatch h

theorem waitFor_ne_bool (slot : Slot α) (limit : Option Bound) (fallback : Option α)
    (v : Bool) : waitFor slot limit fallback ≠ .bool v := by
  unfold waitFor
  simp only
  split
  · exact fun h => nomatch h
  · exact fun h => nomatch h
  · exact valueAnswer_ne_bool _ v
  · exact stateAnswer_ne_bool _ v

theorem answer_ne_bool {w : World α} (q : Query α) (hq : q.isYesNo = false) (v : Bool) :
    q.answer w ≠ .bool v := by
  cases q with
  | isClosed | futureDone => exact nomatch hq
  | name => exact watching_ne_bool fun _ _ h => nomatch h
  | describe =>
    refine watching_ne_bool fun hd b => ?_
    split <;> exact fun h => nomatch h
  | parent =>
    refine watching_ne_bool fun hd b => ?_
    split
    · split <;> exact fun h => nomatch h
    · exact fun h => nomatch h
  | latest => exact watching_ne_bool fun _ _ => stateAnswer_ne_bool _ v
  | latestValue => exact watching_ne_bool fun _ _ => valueAnswer_ne_bool _ v
  | latestValueOr =>
    refine watching_ne_bool fun hd b => ?_
    split <;> exact fun h => nomatch h
  | wait => exact watching_ne_bool fun _ _ => waitFor_ne_bool _ _ _ v
  | futureGet f =>
    show answer.onFuture w f _ ≠ _
    unfold answer.onFuture
    split
    · dsimp only
      split <;> exact fun h => nomatch h
    · exact fun h => nomatch h
  | ids | queueLength | dump => exact fun h => nomatch h

end Query

namespace Pairing

variable (G : Pairing) (below : Name → Bool)

/-! ## The same work -/

structure Pollers (q q' : Polling α) : Prop where
  root : G.pair q.root q'.root
  face : q'.face = q.face
  config : q'.config = q.config
  backoff : q'.backoff = q.backoff
  script : q'.script = q.script
  sided : ∀ x ∈ q.script, Callback below false x.before ∧ Callback below false x.actions
  ending : q'.ending = q.ending

/-- The same frame outside; what it only reports may differ. -/
inductive Frames : Frame α → Frame α → Prop
  | holding {i i' : WatcherId} : G.pair i i' → Frames (.holding i) (.holding i')
  | script {site site' : Site} {todo : List (Op α)} :
      Callback below false todo → Frames (.script site todo) (.script site' todo)
  | waking {names : List Name} :
      (∀ k ∈ names, below k = false) → Frames (.waking names) (.waking names)
  | announcing {i i' : WatcherId} {n : Nat} {s : Latest α} {ls ls' : List ListenerId} :
      G.pair i i' → G.Matches i ls ls' → Frames (.announcing i n s ls) (.announcing i' n s ls')
  | fanOut {i i' : WatcherId} {n : Nat} {s : Latest α} {ls ls' : List ListenerId} :
      G.pair i i' → G.Matches i ls ls' → Frames (.fanOut i n s ls) (.fanOut i' n s ls')
  | calling {t t' : Task α} : Frames (.calling t) (.calling t')
  | applying {c c' : WatcherId} {s : Latest α} :
      G.pair c c' → Frames (.applying c s) (.applying c' s)
  | constructing {name : Name} {c c' : WatcherId} :
      below name = false → G.pair c c' → Frames (.constructing name c) (.constructing name c')
  | closing {i i' : WatcherId} {n n' : Nat} : G.pair i i' → Frames (.closing i n) (.closing i' n')
  | draining {ts ts' : List (Task α)} {k k' : Nat} :
      List.Forall₂ G.Tasks ts ts' → Frames (.draining ts k) (.draining ts' k')
  | picking {q : Name} {is : List Nat} {k k' : Nat} :
      below q = false → Frames (.picking q is k) (.picking q is k')
  | polling {q q' : Polling α} : G.Pollers below q q' → Frames (.polling q) (.polling q')
  | fetching {q q' : Polling α} {reply : Reply α} :
      G.Pollers below q q' → Frames (.fetching q reply) (.fetching q' reply)
  | pushing {q q' : Polling α} : G.Pollers below q q' → Frames (.pushing q) (.pushing q')
  | ending {q q' : Polling α} : G.Pollers below q q' → Frames (.ending q) (.ending q')

/-- The same work outside. A listener that is being registered stands on what holds its watcher. -/
inductive Stacks : List (Frame α) → List (Frame α) → Prop
  | nil : Stacks [] []
  | cons {f f' : Frame α} {stk stk' : List (Frame α)} :
      G.Frames below f f' → Stacks stk stk' → Stacks (f :: stk) (f' :: stk')
  | watching {label : Name} {i i' : WatcherId} {l l' : ListenerId} {stk stk' : List (Frame α)} :
      below label = false → G.pair i i' → G.listener i l l' → Stacks stk stk' →
      Stacks (.watching label l :: .holding i :: stk) (.watching label l' :: .holding i' :: stk')

variable {G} {below} in
theorem Pollers.pause {q q' : Polling α} (h : G.Pollers below q q') (backoff : Option Duration) :
    G.Pollers below { q with backoff } { q' with backoff } := { h with backoff := rfl }

variable {G} {below} in
theorem Pollers.rest {q q' : Polling α} (h : G.Pollers below q q') (rest : Script α)
    (hrest : rest ⊆ q.script) :
    G.Pollers below { q with script := rest } { q' with script := rest } :=
  { h with
    script := rfl
    sided := fun x hx => h.sided x (hrest hx) }

end Pairing

/-- The same control; answers may differ, but not in what they say yes or no to. A delivery goes on
in any way that is no panic. -/
inductive Control.Same : List (Frame α) → Control α → Control α → Prop
  | proceed {stk : List (Frame α)} : Same stk .proceed .proceed
  | answer {stk : List (Frame α)} {a a' : Answer α} :
      (∀ b, a = .bool b ↔ a' = .bool b) → Same stk (.answer a) (.answer a')
  | unwind {stk : List (Frame α)} {payload : Payload} : Same stk (.unwind payload) (.unwind payload)
  | fanOut {i : WatcherId} {n : Nat} {s : Latest α} {ls : List ListenerId} {stk : List (Frame α)}
      {c c' : Control α} : c.Calm → c'.Calm → Same (.fanOut i n s ls :: stk) c c'

namespace Machine

/-- Twin worlds and the same work. -/
structure Abreast (below : Name → Bool) (issuer : Name → Option WatcherId) (G : Pairing)
    (m m' : Machine α) : Prop where
  world : m.world.Twins below issuer G m'.world
  stack : G.Stacks below m.stack m'.stack

/-- Twin worlds, the same work and the same control. -/
structure InStep (below : Name → Bool) (issuer : Name → Option WatcherId) (G : Pairing)
    (m m' : Machine α) : Prop extends Abreast below issuer G m m' where
  control : Control.Same m.stack m.control m'.control

variable {below : Name → Bool} {issuer : Name → Option WatcherId} {G : Pairing} {m m' : Machine α}

namespace Abreast

variable (h : Abreast below issuer G m m')

include h

theorem inWorld {f g : World α → World α}
    (hw : (f m.world).Twins below issuer G (g m'.world)) :
    Abreast below issuer G (m.inWorld f) (m'.inWorld g) := ⟨hw, h.stack⟩

theorem modify {i i' : WatcherId} (hi : G.pair i i') {f g : Watcher α → Watcher α}
    (hf : ∀ b b', G.Watchers below i b b' → G.Watchers below i (f b) (g b')) :
    Abreast below issuer G (m.inWorld (·.modify i f)) (m'.inWorld (·.modify i' g)) :=
  h.inWorld (f := (·.modify i f)) (g := (·.modify i' g)) (h.world.modify hi hf)

theorem recordOn {e k : Event α} (he : e.invocation? = none) (hk : k.invocation? = none)
    (p p' : Bool) : Abreast below issuer G (m.recordOn p e) (m'.recordOn p' k) :=
  h.inWorld (h.world.note he hk p p')

theorem record {e k : Event α} (he : e.invocation? = none) (hk : k.invocation? = none) :
    Abreast below issuer G (m.record e) (m'.record k) := h.recordOn he hk _ _

theorem log (i i' : WatcherId) (d d' : Diagnostic) :
    Abreast below issuer G (m.log i d) (m'.log i' d') := h.record rfl rfl

theorem proceed : InStep below issuer G m.proceed m'.proceed := ⟨⟨h.world, h.stack⟩, .proceed⟩

theorem answer {a a' : Answer α} (ha : ∀ b, a = .bool b ↔ a' = .bool b) :
    InStep below issuer G (m.answer a) (m'.answer a') := ⟨⟨h.world, h.stack⟩, .answer ha⟩

theorem unwind (payload : Payload) : InStep below issuer G (m.unwind payload) (m'.unwind payload) :=
  ⟨⟨h.world, h.stack⟩, .unwind⟩

theorem push {f g : Frame α} (hf : G.Frames below f g) :
    InStep below issuer G (m.push f) (m'.push g) := ⟨⟨h.world, .cons hf h.stack⟩, .proceed⟩

/-! ## Deliveries -/

theorem call {t t' : Task α} (ht : G.Tasks t t') {r r' : Registration α}
    (hr : G.Registrations below r r') (elsewhere : Bool) :
    InStep below issuer G (m.call t r elsewhere) (m'.call t' r' elsewhere) := by
  have htold : Abreast below issuer G
      (m.inWorld (·.modifyRegistration t.watcher t.listener fun r =>
        { r with delivered := t.update, calls := r.calls + 1 }))
      (m'.inWorld (·.modifyRegistration t'.watcher t'.listener fun r =>
        { r with delivered := t'.update, calls := r.calls + 1 })) :=
    h.inWorld (h.world.modifyRegistration ht.watcher ht.listener (fun _ => rfl) (fun _ => rfl)
      (fun _ => rfl) (fun _ => rfl) fun a a' ha =>
        { ha with delivered := ht.update, calls := congrArg (· + 1) ha.calls })
  have hcalled : ∀ {a a' : Audience} {p p' : Bool}, Abreast below issuer G
      ((m.inWorld _).recordOn p (.called a t elsewhere))
      ((m'.inWorld _).recordOn p' (.called a' t' elsewhere)) :=
    htold.inWorld (htold.world.note_called ht ..)
  obtain ⟨id, listener, executor, active, delivered, calls, handovers⟩ := r
  obtain ⟨id', listener', executor', active', delivered', calls', handovers'⟩ := r'
  obtain rfl : calls' = calls := hr.calls
  unfold Machine.call
  cases hr.listener with
  | observer ha =>
    exact (hcalled.push (f := .calling t) .calling).toAbreast.push (.script (ha _))
  | @subscription c c' hc =>
    rcases htold.world.parent? hc with ⟨hnone, hnone'⟩ | ⟨p, p', l, l', d, hp, hp', -, -, ha⟩
    · simp only [hnone, hnone']
      exact htold.proceed
    · simp only [hp, hp']
      rw [ht.state]
      exact ((hcalled.push (f := .calling t) .calling).toAbreast.push
        (.applying hc)).toAbreast.push (.script (ha _))

theorem run {t t' : Task α} (ht : G.Tasks t t') (elsewhere : Bool) :
    InStep below issuer G (m.run t elsewhere) (m'.run t' elsewhere) := by
  unfold Machine.run
  rcases Pairing.rel_cases (h.world.registration? ht.watcher ht.listener) with
    ⟨hnone, hnone'⟩ | ⟨r, r', hr, hr', hsame⟩
  · rw [hnone, hnone']
    exact h.proceed
  · rw [hr, hr']
    simp only
    have hnoted : Abreast below issuer G (m.record (.ran t r.active))
        (m'.record (.ran t' r'.active)) := h.record rfl rfl
    rw [hsame.active, hsame.delivered, ht.update] at *
    split
    · exact hnoted.proceed
    · split
      · exact (hnoted.recordOn rfl rfl ..).proceed
      · exact hnoted.call ht hsame elsewhere

theorem setQueue {q : Name} (hq : below q = false) {ts ts' : List (Task α)}
    (hts : List.Forall₂ G.Tasks ts ts') :
    Abreast below issuer G (m.inWorld (·.setQueue q ts)) (m'.inWorld (·.setQueue q ts')) :=
  h.inWorld
    { h.world with
      queues := h.world.queues.bind hq hts fun _ _ _ _ h => h
      insideQueues := Bindings.forall_bind h.world.insideQueues fun hin =>
        absurd (hq.symm.trans hin) Bool.false_ne_true }

theorem queue {q : Name} (hq : below q = false) :
    List.Forall₂ G.Tasks (m.world.queue q) (m'.world.queue q) := by
  unfold World.queue
  rcases h.world.queues.lookup hq with ⟨hnone, hnone'⟩ | ⟨ts, ts', hts, hts', hsame⟩
  · rw [hnone, hnone']
    exact .nil
  · rw [hts, hts']
    exact hsame

theorem handOver {t t' : Task α} (ht : G.Tasks t t') :
    InStep below issuer G (m.handOver t) (m'.handOver t') := by
  unfold Machine.handOver
  rcases Pairing.rel_cases (h.world.registration? ht.watcher ht.listener) with
    ⟨hnone, hnone'⟩ | ⟨r, r', hr, hr', hsame⟩
  · rw [hnone, hnone']
    exact h.proceed
  · rw [hr, hr']
    simp only
    rw [hsame.active, hsame.executor, hsame.handovers]
    split
    · exact h.proceed
    · have hnoted : Abreast below issuer G (m.record (.handedOver t))
          (m'.record (.handedOver t')) := h.record rfl rfl
      have hcounted : Abreast below issuer G
          ((m.record (.handedOver t)).inWorld (·.modifyRegistration t.watcher t.listener fun r =>
            { r with handovers := r.handovers + 1 }))
          ((m'.record (.handedOver t')).inWorld (·.modifyRegistration t'.watcher t'.listener
            fun r => { r with handovers := r.handovers + 1 })) :=
        hnoted.inWorld (hnoted.world.modifyRegistration ht.watcher ht.listener (fun _ => rfl)
          (fun _ => rfl) (fun _ => rfl) (fun _ => rfl) fun a a' ha =>
            { ha with handovers := congrArg (· + 1) ha.handovers })
      have hgiven := hcounted.push (f := .script (.executor t.watcher t.listener) _)
        (g := .script (.executor t'.watcher t'.listener) _)
        (.script (hsame.actions (r.handovers + 1)))
      have hdisposal := hsame.disposal
      cases hd : r.executor.disposal with
      | inline => exact hgiven.toAbreast.run ht false
      | thread => exact hgiven.toAbreast.run ht true
      | queue q =>
        rw [hd] at hdisposal
        have hq : below q = false := hdisposal
        have hqueued := hgiven.toAbreast.setQueue hq
          (List.rel_append (hgiven.toAbreast.queue hq) (.cons ht .nil))
        exact ⟨hqueued, hgiven.control⟩
      | discard => exact hgiven

/-! ## Wakers -/

theorem wake {k : Name} (hk : below k = false) :
    InStep below issuer G (m.wake k) (m'.wake k) := by
  have hnoted : Abreast below issuer G (m.record (.woken k)) (m'.record (.woken k)) :=
    h.record rfl rfl
  unfold Machine.wake
  rcases hnoted.world.wakers.lookup hk with ⟨hnone, hnone'⟩ | ⟨a, a', ha, ha', rfl, hactions⟩
  · simp only [hnone, hnone']
    exact hnoted.proceed
  · simp only [ha, ha']
    have hwoken := hnoted.world.bindWaker (a := { a' with wakes := a'.wakes + 1 }) hk hactions
    exact (hnoted.inWorld
      (f := fun w => { w with wakers := w.wakers.bind k { a' with wakes := a'.wakes + 1 } })
      (g := fun w => { w with wakers := w.wakers.bind k { a' with wakes := a'.wakes + 1 } })
      hwoken).push (.script (hactions _))

/-! ## Offers -/

section Offers

variable [BEq α]

omit h in
theorem refusal_eq {i : WatcherId} {b b' : Watcher α} (hsame : G.Watchers below i b b')
    (s : Latest α) : b'.refusal s = b.refusal s := by
  unfold Watcher.refusal
  obtain ⟨name, o, latest⟩ := b
  obtain ⟨name', o', latest'⟩ := b'
  obtain rfl : latest' = latest := hsame.latest
  have horigin : G.Origins below o o' := hsame.origin
  cases latest' with
  | none => rfl
  | some current => cases horigin <;> rfl

theorem offer {i i' : WatcherId} (hi : G.pair i i') (s : Latest α) :
    InStep below issuer G (m.offer i s) (m'.offer i' s) := by
  obtain ⟨b, b', hb, hb', hsame⟩ := h.world.bodies hi
  unfold Machine.offer
  rw [hb, hb']
  simp only
  rw [hsame.closed, refusal_eq hsame]
  split
  · exact (h.record rfl rfl).answer fun _ => Iff.rfl
  · split
    · exact ((h.record rfl rfl).log ..).answer fun _ => Iff.rfl
    · have hnoted : Abreast below issuer G (m.record (.offered i s .accepted))
          (m'.record (.offered i' s .accepted)) := h.record rfl rfl
      have haccepted := hnoted.modify hi (f := (·.accept s)) (g := (·.accept s)) fun a a' ha =>
        { ha with
          latest := rfl
          updates := congrArg (· + 1) ha.updates
          slot := congrArg (Slot.complete s) ha.slot
          wakers := fun k hk => by
            rw [Watcher.accept, Slot.wakers_complete] at hk
            exact nomatch hk }
      rw [hsame.slot, hsame.updates]
      have hlogged : Abreast below issuer G
          (if b.slot.isPending then ((m.record (.offered i s .accepted)).inWorld
            (·.modify i (·.accept s))).log i (.initialized s.revision)
            else (m.record (.offered i s .accepted)).inWorld (·.modify i (·.accept s)))
          (if b.slot.isPending then ((m'.record (.offered i' s .accepted)).inWorld
            (·.modify i' (·.accept s))).log i' (.initialized s.revision)
            else (m'.record (.offered i' s .accepted)).inWorld (·.modify i' (·.accept s))) := by
        split
        · exact haccepted.log ..
        · exact haccepted
      exact (hlogged.push (.announcing hi hsame.registry.entries)).toAbreast.push
        (.waking hsame.wakers)

theorem settle {c c' : WatcherId} (hc : G.pair c c') (r : Revision) (outcome : Outcome α) :
    InStep below issuer G (m.settle c r outcome) (m'.settle c' r outcome) := by
  have hnoted : Abreast below issuer G (m.record (.applied c r outcome))
      (m'.record (.applied c' r outcome)) := h.record rfl rfl
  cases outcome with
  | value v => exact hnoted.offer hc _
  | failed error => exact (hnoted.log ..).proceed
  | panicked payload => exact (hnoted.log ..).proceed

omit [BEq α] in
theorem outcomeOf {c c' : WatcherId} (hc : G.pair c c') (v : α) :
    m'.outcomeOf c' v = m.outcomeOf c v := by
  unfold Machine.outcomeOf
  rcases h.world.parent? hc with ⟨hnone, hnone'⟩ | ⟨p, p', l, l', d, hp, hp', -⟩
  · rw [hnone, hnone']
  · rw [hp, hp']

end Offers

/-! ## Closing and detaching -/

theorem close {i i' : WatcherId} (hi : G.pair i i') :
    InStep below issuer G (m.close i) (m'.close i') := by
  obtain ⟨b, b', hb, hb', hsame⟩ := h.world.bodies hi
  unfold Machine.close
  rw [hb, hb']
  simp only
  rw [hsame.closed, hsame.slot]
  split
  · exact h.answer fun _ => Iff.rfl
  · have hclosed := h.modify hi (f := (·.close)) (g := (·.close)) fun a a' ha =>
      { ha with
        closed := rfl
        slot := congrArg Slot.abandon ha.slot
        wakers := fun k hk => by
          rw [Watcher.close, Slot.wakers_abandon] at hk
          exact nomatch hk
        registry := ha.registry.clear }
    exact (hclosed.push (.closing hi)).toAbreast.push (.waking hsame.wakers)

theorem detach {c c' : WatcherId} (hc : G.pair c c') (message : String → Diagnostic) :
    Abreast below issuer G (m.detach c message) (m'.detach c' message) := by
  unfold Machine.detach
  rcases h.world.parent? hc with ⟨hnone, hnone'⟩ | ⟨p, p', l, l', d, hp, hp', hpp, hl, -⟩
  · rw [hnone, hnone']
    exact h
  · rw [hp, hp']
    simp only
    rw [h.world.isRegistered hpp hl]
    split
    · exact (h.inWorld (h.world.unregister hpp hl)).log ..
    · exact h

/-! ## Releasing -/

theorem holds_eq {i i' : WatcherId} (hi : G.pair i i') :
    m'.stack.any (·.holds i') = m.stack.any (·.holds i) := by
  have hholds : ∀ {j j'}, G.pair j j' →
      (Frame.holding (α := α) j').holds i' = (Frame.holding (α := α) j).holds i := fun hj => by
    rw [Bool.eq_iff_iff]
    simp only [Frame.holds, decide_eq_true_eq]
    exact (G.pair_inj hj hi).symm
  have hstack := h.stack
  clear h
  generalize m.stack = stk at hstack
  generalize m'.stack = stk' at hstack
  induction hstack with
  | nil => rfl
  | cons hf _ ih =>
    rw [List.any_cons, List.any_cons, ih]
    congr 1
    cases hf with
    | holding hj => exact hholds hj
    | _ => rfl
  | watching _ hj _ _ ih =>
    rw [List.any_cons, List.any_cons, List.any_cons, List.any_cons, ih, hholds hj]
    rfl

theorem isReferenced_eq (hhosted : G.Hosted m.world) {i i' : WatcherId} (hi : G.pair i i') :
    m'.isReferenced i' = m.isReferenced i := by
  unfold isReferenced
  rw [h.world.hasHandle hi, h.holds_eq hi]
  cases hhandle : m.world.hasHandle i with
  | true => rfl
  | false =>
    rw [h.world.hasChild hi fun c l d hc ho => ?_]
    exact nomatch hhandle.symm.trans (h.world.hasHandle_of_child hhosted hi hc ho)

omit h in
theorem release (i : WatcherId) : ∀ {m m' : Machine α} {i' : WatcherId},
    Abreast below issuer G m m' → G.Hosted m.world → m.world.Ledger → m'.world.Ledger →
    G.pair i i' → Abreast below issuer G (m.release i) (m'.release i') := by
  induction i using Nat.strongRecOn with
  | _ i ih =>
    intro m m' i' h hhosted hw hw' hi
    obtain ⟨b, b', hb, hb', hsame⟩ := h.world.bodies hi
    have horigin := hsame.origin
    generalize ho : b.origin = o at horigin
    generalize ho' : b'.origin = o' at horigin
    have hdropped : m.world.isDropped i = b.dropped := World.isDropped_of_watcher? hb
    have hdropped' : m'.world.isDropped i' = b.dropped :=
      (World.isDropped_of_watcher? hb').trans hsame.dropped
    cases hd : b.dropped with
    | true =>
      rw [release_of_stays (stays_of_isDropped (hdropped.trans hd)),
        release_of_stays (stays_of_isDropped (hdropped'.trans hd))]
      exact h
    | false =>
      cases horigin with
      | root =>
        rw [release_of_stays (stays_of_isRoot ((World.origin?_of_watcher? hb).trans (ho ▸ rfl))),
          release_of_stays (stays_of_isRoot ((World.origin?_of_watcher? hb').trans (ho' ▸ rfl)))]
        exact h
      | @child p p' l l' d hp =>
        have hco : m.world.origin? i = some (.child p l d) := by
          rw [World.origin?_of_watcher? hb, ho]
        have hco' : m'.world.origin? i' = some (.child p' l' d) := by
          rw [World.origin?_of_watcher? hb', ho']
        have href' := h.isReferenced_eq hhosted hi
        cases href : m.isReferenced i with
        | true =>
          rw [release_of_stays (stays_of_isReferenced href),
            release_of_stays (stays_of_isReferenced (href'.trans href))]
          exact h
        | false =>
          have htwins : Abreast below issuer G (m.dropChild i) (m'.dropChild i') :=
            (h.modify hi (f := fun b => { b with dropped := true })
              (g := fun b => { b with dropped := true }) fun a a' ha =>
                { ha with dropped := rfl }).detach hi .droppedUnclosed
          obtain ⟨w, heq, hledger, hdrops⟩ := dropChild_eq hw hco
          obtain ⟨w', heq', hledger', -⟩ := dropChild_eq hw' hco'
          rw [release_child hco (hdropped.trans hd) href,
            release_child hco' (hdropped'.trans hd) (href'.trans href), if_pos (hw.parent hco).1,
            if_pos (hw'.parent hco').1]
          rw [heq, heq'] at htwins ⊢
          exact ih p (hw.parent hco).1 htwins (hhosted.of_eq hdrops.handles) hledger hledger' hp

/-! ## Pollers -/

theorem hasPoller_eq : m'.stack.any Frame.hasPoller = m.stack.any Frame.hasPoller := by
  have hstack := h.stack
  clear h
  generalize m.stack = stk at hstack
  generalize m'.stack = stk' at hstack
  induction hstack with
  | nil => rfl
  | cons hf _ ih =>
    rw [List.any_cons, List.any_cons, ih]
    congr 1
    cases hf <;> rfl
  | watching _ _ _ _ ih =>
    rw [List.any_cons, List.any_cons, List.any_cons, List.any_cons, ih]
    rfl

theorem setStopped (stopped : Bool) :
    Abreast below issuer G (m.setStopped stopped) (m'.setStopped stopped) :=
  h.inWorld { h.world with stopped := rfl }

/-! ## Operations of callbacks -/

/-- A query about a name outside gets the same answer as far as it says yes or no. -/
theorem query_same (q : Query α) (hq : ∀ name ∈ q.subject?, below name = false) (v : Bool) :
    q.answer m.world = .bool v ↔ q.answer m'.world = .bool v := by
  cases q with
  | isClosed name =>
    show Query.answer.watching _ _ _ = _ ↔ Query.answer.watching _ _ _ = _
    unfold Query.answer.watching World.resolve? World.handle?
    rcases h.world.handles.lookup (hq name rfl) with ⟨hnone, hnone'⟩ | ⟨hd, hd', hh, hh', -, hp⟩
    · simp [hnone, hnone']
    · obtain ⟨b, b', hb, hb', hsame⟩ := h.world.bodies hp
      simp [hh, hh', hb, hb', hsame.closed]
  | futureDone name =>
    show Query.answer.onFuture _ _ _ = _ ↔ Query.answer.onFuture _ _ _ = _
    unfold Query.answer.onFuture World.future?
    rcases h.world.futures.lookup (hq name rfl) with ⟨hnone, hnone'⟩ | ⟨i, i', hi, hi', hp⟩
    · simp [hnone, hnone']
    · obtain ⟨b, b', hb, hb', hsame⟩ := h.world.bodies hp
      simp [hi, hi', hb, hb', hsame.slot]
  | _ => exact iff_of_false (Query.answer_ne_bool _ rfl v) (Query.answer_ne_bool _ rfl v)

/-- An operation of a callback outside. -/
theorem perform_inert [BEq α] {op : Op α} (hop : op.isInert = true)
    (hside : ∀ name ∈ op.subject?, below name = false) :
    InStep below issuer G (m.perform op) (m'.perform op) := by
  cases op with
  | invalid => exact h.answer fun _ => Iff.rfl
  | ask q => exact h.answer (h.query_same q hside)
  | queueRun q order =>
    have hq : below q = false := hside q rfl
    cases order with
    | forward => exact (h.setQueue hq .nil).push (.draining (h.queue hq))
    | backward =>
      exact (h.setQueue hq .nil).push (.draining (List.rel_reverse (h.queue hq)))
    | picked positions => exact h.push (.picking hq)
  | queueDrop q =>
    have hq : below q = false := hside q rfl
    refine (h.setQueue hq .nil).answer fun b => ?_
    exact iff_of_false (fun h => nomatch h) fun h => nomatch h
  | stop =>
    show InStep below issuer G m.stopPoller m'.stopPoller
    unfold stopPoller
    rw [h.hasPoller_eq]
    split
    · exact (h.setStopped true).answer fun _ => Iff.rfl
    · exact h.answer fun _ => Iff.rfl
  | panic payload => exact h.unwind payload
  | _ => exact nomatch hop

theorem finish (q q' : Polling α) : InStep below issuer G (m.finish q) (m'.finish q') := by
  refine (h.recordOn rfl rfl true true).answer fun b => ?_
  exact iff_of_false (fun h => nomatch h) fun h => nomatch h

section Polling

variable {q q' : Polling α} (hq : G.Pollers below q q')

include hq

theorem succeed : InStep below issuer G (m.succeed q) (m'.succeed q') :=
  have hpushed := h.push (.polling (hq.pause none))
  ⟨hpushed.toAbreast.recordOn rfl rfl .., hpushed.control⟩

theorem fail (error : String) : InStep below issuer G (m.fail q error) (m'.fail q' error) := by
  have hpause : q'.config.nextBackoff q'.backoff = q.config.nextBackoff q.backoff := by
    rw [hq.config, hq.backoff]
  unfold Machine.fail
  rw [hpause]
  have hpushed := h.push (.polling (hq.pause (some (q.config.nextBackoff q.backoff))))
  exact ⟨(hpushed.toAbreast.recordOn rfl rfl ..).recordOn rfl rfl .., hpushed.control⟩

theorem fetchNext : InStep below issuer G (m.fetchNext q) (m'.fetchNext q') := by
  obtain ⟨b, b', hb, hb', hsame⟩ := h.world.bodies hq.root
  unfold Machine.fetchNext
  rw [hb, hb']
  simp only
  rw [hsame.closed, hq.script, hsame.latest, h.world.stopped]
  split
  · exact h.finish ..
  · split
    · rw [hq.ending]
      split
      · exact (h.push (.ending hq)).toAbreast.close hq.root
      · exact (h.setStopped true).finish ..
    · rename_i actions reply rest hscript
      have hfirst : Callback below false actions :=
        (hq.sided ⟨[], actions, reply⟩ (by rw [hscript]; simp)).2
      have hrest := hq.rest rest fun x hx => by
        rw [hscript]
        exact List.mem_cons_of_mem _ hx
      have hpushed : InStep below issuer G (m.push (.fetching { q with script := rest } reply))
          (m'.push (.fetching { q' with script := rest } reply)) := h.push (.fetching hrest)
      exact (hpushed.toAbreast.record (e := .fetched (b.latest.map Latest.revision))
        (k := .fetched (b.latest.map Latest.revision)) rfl rfl).push (.script hfirst)
    · rename_i before actions reply rest _ hscript
      obtain ⟨hbefore, hactions⟩ := hq.sided ⟨before, actions, reply⟩ (by rw [hscript]; simp)
      have hleft : G.Pollers below { q with script := ⟨[], actions, reply⟩ :: rest }
          { q' with script := ⟨[], actions, reply⟩ :: rest } :=
        { hq with
          script := rfl
          sided := fun x hx => by
            rcases List.mem_cons.mp hx with rfl | hx
            · exact ⟨nofun, hactions⟩
            · exact hq.sided x (by rw [hscript]; exact List.mem_cons_of_mem _ hx) }
      exact (h.push (.polling hleft)).toAbreast.push (.script hbefore)

theorem takeReply [BEq α] (reply : Reply α) :
    InStep below issuer G (m.takeReply q reply) (m'.takeReply q' reply) := by
  cases reply with
  | state revision value =>
    show InStep below issuer G ((m.push (.pushing q)).offer q.root _)
      ((m'.push (.pushing q')).offer q'.root _)
    rw [hq.face]
    exact (h.push (.pushing hq)).toAbreast.offer hq.root _
  | nothing => exact h.succeed hq
  | failed error => exact h.fail hq error
  | panicked payload => exact h.fail hq _

end Polling

end Abreast

/-! ## Frames -/

section Frames

variable [BEq α]

theorem InStep.release (h : InStep below issuer G m m') (hhosted : G.Hosted m.world)
    (hw : m.world.Ledger) (hw' : m'.world.Ledger) {i i' : WatcherId} (hi : G.pair i i') :
    InStep below issuer G (m.release i) (m'.release i') := by
  have hreleased := h.toAbreast.release i hhosted hw hw' hi
  obtain ⟨w, heq, -⟩ := release_moves (P := fun _ => True) i m
  obtain ⟨w', heq', -⟩ := release_moves (P := fun _ => True) i' m'
  refine ⟨hreleased, ?_⟩
  rw [heq, heq']
  exact h.control

omit [BEq α] in
theorem detach_handles (m : Machine α) (c : WatcherId) (message : String → Diagnostic) :
    (m.detach c message).world.handles = m.world.handles := by
  unfold Machine.detach
  split
  · rfl
  · split <;> rfl

omit [BEq α] in
theorem release_handles (i : WatcherId) (m : Machine α) :
    (m.release i).world.handles = m.world.handles := by
  have hdrop : ∀ (m : Machine α) i, (m.dropChild i).world.handles = m.world.handles :=
    fun _ _ => detach_handles ..
  exact release_induction (R := fun _ m m' => m'.world.handles = m.world.handles)
    (fun _ => rfl) (fun _ _ _ _ => hdrop ..) (fun _ _ _ _ hparent => hparent.trans (hdrop ..)) i m

end Frames

end Machine

end WatchTree
