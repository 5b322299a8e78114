import WatchTree.Proofs.TwinGrowth

/-!
# Operations outside

An operation outside that begins in twin worlds does the same in both (`World.Twins.start`).
-/

namespace WatchTree

variable {α : Type}

theorem Slot.mem_wakers_enlist {slot : Slot α} {waker k : Name}
    (hk : k ∈ (slot.enlist waker).wakers) : k ∈ slot.wakers ∨ k = waker := by
  cases slot with
  | pending ws =>
    have hk : k ∈ if ws.contains waker then ws else ws ++ [waker] := hk
    split at hk
    · exact .inl hk
    · exact (List.mem_append.mp hk).imp id List.mem_singleton.mp
  | set | abandoned => exact nomatch hk

namespace World

variable {w : World α} {p : WatcherId}

theorem length_reserve (w : World α) (p : WatcherId) :
    (w.reserve p).watchers.length = w.watchers.length := List.length_modify ..

theorem addWatcher_modify (hp : p < w.watchers.length) (f : Watcher α → Watcher α)
    (a : Watcher α) : (w.modify p f).addWatcher a = (w.addWatcher a).modify p f := by
  unfold addWatcher modify
  congr 1
  refine List.ext_getElem? fun i => ?_
  simp only [List.getElem?_append, List.getElem?_modify, List.length_modify]
  split
  · rfl
  · rename_i hi
    have hne : p ≠ i := fun heq => hi (heq ▸ hp)
    simp [hne]

/-- Two changes of a watcher are one. -/
theorem modify_modify {b : Watcher α} (hb : w.watcher? p = some b) {f g k : Watcher α → Watcher α}
    (hk : g (f b) = k b) : (w.modify p f).modify p g = w.modify p k := by
  unfold modify
  congr 1
  refine List.ext_getElem? fun i => ?_
  simp only [List.getElem?_modify]
  by_cases heq : p = i
  · subst heq
    have hget : w.watchers[p]? = some b := hb
    simp [hget, hk]
  · simp [heq]

namespace Twins

variable {below : Name → Bool} {issuer : Name → Option WatcherId} {G : Pairing} {w' : World α}
  {p' : WatcherId} {b b' : Watcher α}

/-- The same listener is registered under the ids that were used up. -/
theorem enrol (h : (w.reserve p).Twins below issuer G (w'.reserve p')) (hw : w.SoundRegistries)
    (hw' : w'.SoundRegistries) (hp : G.pair p p') (hb : w.watcher? p = some b)
    (hb' : w'.watcher? p' = some b') (hl : G.listener p b.registry.nextId b'.registry.nextId)
    {s s' : Listener α} (hs : G.Listeners below s s') {e : Executor α}
    (he : e.disposal.OnSide below false) (ha : ∀ n, Callback below false (e.actions n)) :
    (w.enrol p s e).Twins below issuer G (w'.enrol p' s' e) := by
  obtain ⟨a, a', hra, hra', hsame⟩ := h.bodies hp
  obtain rfl := Option.some.inj (hra.symm.trans (watcher?_modify_self hb _))
  obtain rfl := Option.some.inj (hra'.symm.trans (watcher?_modify_self hb' _))
  have hins := Pairing.Registries.insert hsame.registry (hw p b hb) (hw' p' b' hb') hl hs he ha
  have hmod := h.modify hp (f := fun a => { a with registry := b.registry.insert s e })
    (g := fun a => { a with registry := b'.registry.insert s' e }) fun a a' ha =>
      { ha with registry := hins }
  rw [World.reserve, World.reserve,
    modify_modify hb (k := fun a => { a with registry := a.registry.insert s e }) rfl,
    modify_modify hb' (k := fun a => { a with registry := a.registry.insert s' e }) rfl] at hmod
  exact hmod

/-- The subscription of a watcher inside is registered under the id that was used up. -/
theorem enrol_skipped (h : (w.reserve p).Twins below issuer G w') (hw : w.SoundRegistries)
    (hp : G.pair p p') (hb : w.watcher? p = some b) (hl : G.skipped p b.registry.nextId)
    {c : WatcherId} (hc : G.inside c) :
    (w.enrol p (.subscription c) ⟨.inline, fun _ => []⟩).Twins below issuer G w' := by
  obtain ⟨a, a', hra, hra', hsame⟩ := h.bodies hp
  obtain rfl := Option.some.inj (hra.symm.trans (watcher?_modify_self hb _))
  have hins := Pairing.Registries.insert_skipped hsame.registry (hw p b hb) hl hc
  have hmod := h.modify_host hp (f := fun a =>
    { a with registry := b.registry.insert (.subscription c) ⟨.inline, fun _ => []⟩ })
    fun e e' he hthe => by
      obtain rfl := Option.some.inj (he.symm.trans hra')
      exact { hthe with registry := hins }
  rw [World.reserve, modify_modify hb
    (k := fun a => { a with
      registry := a.registry.insert (.subscription c) ⟨.inline, fun _ => []⟩ }) rfl] at hmod
  exact hmod

end Twins

end World

namespace Machine

variable {below : Name → Bool} {issuer : Name → Option WatcherId} {G : Pairing}
  {w w' : World α} {stk stk' : List (Frame α)} {p p' : WatcherId} {b b' : Watcher α}

/-- The same listener is registered outside. -/
theorem InStep.register (h : (w.reserve p).Twins below issuer G (w'.reserve p'))
    (hw : w.SoundRegistries) (hw' : w'.SoundRegistries) (hstk : G.Stacks below stk stk')
    (hp : G.pair p p') (hb : w.watcher? p = some b) (hb' : w'.watcher? p' = some b')
    (hl : G.listener p b.registry.nextId b'.registry.nextId) {s s' : Listener α}
    (hs : G.Listeners below s s') {e : Executor α} (he : e.disposal.OnSide below false)
    (ha : ∀ n, Callback below false (e.actions n)) (c c' : Control α) :
    InStep below issuer G (Machine.register ⟨w, stk, c⟩ p b s e)
      (Machine.register ⟨w', stk', c'⟩ p' b' s' e) := by
  obtain ⟨a, a', hra, hra', hsame⟩ := h.bodies hp
  obtain rfl := Option.some.inj (hra.symm.trans (World.watcher?_modify_self hb _))
  obtain rfl := Option.some.inj (hra'.symm.trans (World.watcher?_modify_self hb' _))
  have hclosed : b'.closed = b.closed := hsame.closed
  have hlatest : b'.latest = b.latest := hsame.latest
  have hupdates : b'.updates = b.updates := hsame.updates
  unfold Machine.register
  rw [hclosed, hlatest, hupdates]
  split
  · have hreserved : Abreast below issuer G (⟨w.reserve p, stk, c⟩ : Machine α)
        ⟨w'.reserve p', stk', c'⟩ := ⟨h, hstk⟩
    exact (hreserved.log ..).proceed
  · have henrolled : Abreast below issuer G (⟨w.enrol p s e, stk, c⟩ : Machine α)
        ⟨w'.enrol p' s' e, stk', c'⟩ := ⟨h.enrol hw hw' hp hb hb' hl hs he ha, hstk⟩
    simp only
    split
    · exact henrolled.proceed
    · exact henrolled.handOver ⟨hp, hl, rfl, rfl⟩

namespace Abreast

variable {m m' : Machine α} (h : Abreast below issuer G m m') {name : Name}

include h

/-! ## Names -/

theorem invalid : InStep below issuer G (m.answer .invalid) (m'.answer .invalid) :=
  h.answer fun _ => Iff.rfl

/-- A handle outside and its twin. -/
theorem handle (hname : below name = false) :
    (m.world.handle? name = none ∧ m'.world.handle? name = none) ∨
      ∃ hd hd', m.world.handle? name = some hd ∧ m'.world.handle? name = some hd' ∧
        hd'.face = hd.face ∧ G.pair hd.target hd'.target := h.world.handles.lookup hname

theorem isSome_handle (hname : below name = false) :
    (m'.world.handle? name).isSome = (m.world.handle? name).isSome := by
  rcases h.handle hname with ⟨hnone, hnone'⟩ | ⟨hd, hd', hh, hh', -⟩
  · rw [hnone, hnone']
  · rw [hh, hh']
    rfl

/-- An operation on a watcher outside begins in the same way in both worlds. -/
theorem withHandle (hname : below name = false) {f f' : Handle → Watcher α → Machine α}
    {Q : Machine α → Machine α → Prop} (hQ : Q (m.answer .invalid) (m'.answer .invalid))
    (hf : ∀ hd hd' b b', m.world.handle? name = some hd → m.world.watcher? hd.target = some b →
      m'.world.watcher? hd'.target = some b' → hd'.face = hd.face →
      G.pair hd.target hd'.target → G.Watchers below hd.target b b' → Q (f hd b) (f' hd' b')) :
    Q (m.withHandle name f) (m'.withHandle name f') := by
  unfold Machine.withHandle World.resolve?
  rcases h.handle hname with ⟨hnone, hnone'⟩ | ⟨hd, hd', hh, hh', hface, hp⟩
  · rw [hnone, hnone']
    exact hQ
  · obtain ⟨b, b', hb, hb', hsame⟩ := h.world.bodies hp
    rw [hh, hh']
    simp only [Option.bind_eq_bind, Option.bind_some, hb, hb']
    exact hf hd hd' b b' hh hb hb' hface hp hsame

/-! ## Operations on what is there -/

theorem push_state [BEq α] (hname : below name = false) (revision : Revision) (value : Given α) :
    InStep below issuer G (m.perform (.push name revision value))
      (m'.perform (.push name revision value)) := by
  refine h.withHandle hname h.invalid fun hd hd' b b' _ _ _ hface hp _ => ?_
  rw [hface]
  split
  · exact (h.push (.holding hp)).toAbreast.offer hp _
  · exact (h.push (.holding hp)).toAbreast.offer hp _
  · exact h.invalid

theorem share {target : Name} (htarget : below target = false) (hname : below name = false)
    (bare : Bool) :
    InStep below issuer G (m.share target name bare) (m'.share target name bare) := by
  refine h.withHandle htarget h.invalid fun hd hd' b b' _ _ _ hface hp hsame => ?_
  rw [h.isSome_handle hname, hface, hsame.name]
  split
  · exact h.invalid
  · refine Abreast.answer (h.inWorld (h.world.bindHandle hname ?_ ?_)) fun _ => Iff.rfl
    · cases bare with
      | true => rfl
      | false => exact hface
    · cases bare <;> exact hp

theorem dropHandle (hname : below name = false) (hw : m.world.Ledger) (hw' : m'.world.Ledger)
    (hhosted : G.Hosted (m.dropHandle name).world) :
    InStep below issuer G (m.dropHandle name) (m'.dropHandle name) := by
  unfold Machine.dropHandle at hhosted ⊢
  rcases h.handle hname with ⟨hnone, hnone'⟩ | ⟨hd, hd', hh, hh', -, hp⟩
  · rw [hnone, hnone']
    exact h.invalid
  · rw [hh] at hhosted ⊢
    rw [hh']
    have hforgot := h.inWorld (f := fun w => { w with handles := w.handles.unbind name })
      (g := fun w => { w with handles := w.handles.unbind name })
      { h.world with
        handles := h.world.handles.unbind name
        insideHandles := Bindings.forall_unbind h.world.insideHandles name }
    exact (hforgot.release hd.target (hhosted.of_eq (release_handles hd.target _).symm)
      (hw.of_eq rfl rfl) (hw'.of_eq rfl rfl) hp).answer fun _ => Iff.rfl

theorem unwatch {i i' : WatcherId} (hi : G.pair i i') {l l' : ListenerId}
    (hl : G.listener i l l') : InStep below issuer G (m.unwatch i l) (m'.unwatch i' l') := by
  unfold Machine.unwatch
  simp only
  rw [h.world.isRegistered hi hl]
  have hnoted : Abreast below issuer G (m.record (.unwatched i l (m.world.isRegistered i l)))
      (m'.record (.unwatched i' l' (m.world.isRegistered i l))) := h.record rfl rfl
  split
  · exact (hnoted.inWorld (hnoted.world.unregister hi hl)).answer fun _ => Iff.rfl
  · exact hnoted.answer fun _ => Iff.rfl

theorem nameFuture (hname : below name = false) {source : FutureSource}
    (hsource : source.OnSide below false) :
    InStep below issuer G (m.nameFuture name source) (m'.nameFuture name source) := by
  have hgiven : ∀ i i', G.pair i i' → InStep below issuer G
      ((m.inWorld fun w => { w with futures := w.futures.bind name i }).answer .done)
      ((m'.inWorld fun w => { w with futures := w.futures.bind name i' }).answer .done) :=
    fun i i' hi => Abreast.answer (h.inWorld { h.world with
      futures := h.world.futures.bind hname hi fun _ _ _ _ h => h
      insideFutures := Bindings.forall_bind h.world.insideFutures fun hin =>
        absurd (hname.symm.trans hin) Bool.false_ne_true }) fun _ => Iff.rfl
  unfold Machine.nameFuture
  cases source with
  | watcher target =>
    simp only [World.resolve?]
    rcases h.handle hsource with ⟨hnone, hnone'⟩ | ⟨hd, hd', hh, hh', -, hp⟩
    · simp only [hnone, hnone']
      exact h.invalid
    · obtain ⟨b, b', hb, hb', -⟩ := h.world.bodies hp
      simp only [hh, hh', hb, hb', Option.bind_eq_bind, Option.bind_some, Option.map_some]
      exact hgiven _ _ hp
  | future future =>
    simp only
    rcases h.world.futures.lookup hsource with ⟨hnone, hnone'⟩ | ⟨i, i', hi, hi', hp⟩
    · rw [hnone, hnone']
      exact h.invalid
    · rw [hi, hi']
      exact hgiven _ _ hp

theorem pollFuture (hname : below name = false) {waker : Name} (hwaker : below waker = false)
    {actions : Actions α} (ha : ∀ n, Callback below false (actions n)) :
    InStep below issuer G (m.pollFuture name waker actions) (m'.pollFuture name waker actions) := by
  unfold Machine.pollFuture
  rcases h.world.futures.lookup hname with ⟨hnone, hnone'⟩ | ⟨i, i', hi, hi', hp⟩
  · rw [hnone, hnone']
    exact h.invalid
  · obtain ⟨b, b', hb, hb', hsame⟩ := h.world.bodies hp
    rw [World.future?_of_lookup hb hi, World.future?_of_lookup hb' hi', hi, hi', hsame.slot]
    simp only
    have hknown : Abreast below issuer G
        (m.inWorld fun w => if (w.wakers.lookup waker).isSome then w
          else { w with wakers := w.wakers.bind waker { actions } })
        (m'.inWorld fun w => if (w.wakers.lookup waker).isSome then w
          else { w with wakers := w.wakers.bind waker { actions } }) := by
      refine h.inWorld ?_
      rcases h.world.wakers.lookup hwaker with ⟨hnone, hnone'⟩ | ⟨a, a', ha, ha', -⟩
      · simp only [hnone, hnone']
        exact h.world.bindWaker hwaker ha
      · simp only [ha, ha']
        exact h.world
    split
    · exact hknown.answer fun _ => Iff.rfl
    · exact ((hknown.record (e := .enlisted i waker) (k := .enlisted i' waker) rfl rfl).modify hp
        (f := fun b => { b with slot := b.slot.enlist waker })
        (g := fun b => { b with slot := b.slot.enlist waker }) fun a a' hthe => { hthe with
          slot := congrArg (Slot.enlist waker) hthe.slot
          wakers := fun k hk => (Slot.mem_wakers_enlist hk).elim (hthe.wakers k)
            fun heq => heq ▸ hwaker }).answer fun _ => Iff.rfl

theorem addWaiter {future : Name} (hname : below name = false) (hfuture : below future = false) :
    InStep below issuer G (m.addWaiter name future) (m'.addWaiter name future) := by
  unfold Machine.addWaiter
  rcases h.world.futures.lookup hfuture with ⟨hnone, hnone'⟩ | ⟨i, i', hi, hi', hp⟩
  · rw [hnone, hnone']
    exact h.invalid
  · rcases h.world.waiters.lookup hname with ⟨hnone, hnone'⟩ | ⟨j, j', hj, hj', -⟩
    · rw [hi, hi', hnone, hnone']
      exact Abreast.answer (h.inWorld { h.world with
        waiters := h.world.waiters.bind hname hp fun _ _ _ _ h => h }) fun _ => Iff.rfl
    · rw [hi, hi', hj, hj']
      exact h.invalid

theorem joinWaiter (hname : below name = false) :
    InStep below issuer G (m.joinWaiter name) (m'.joinWaiter name) := by
  unfold Machine.joinWaiter
  rcases h.world.waiters.lookup hname with ⟨hnone, hnone'⟩ | ⟨i, i', hi, hi', hp⟩
  · rw [hnone, hnone']
    exact h.invalid
  · obtain ⟨b, b', hb, hb', hsame⟩ := h.world.bodies hp
    rw [hi, hi']
    simp only [Option.bind_some, hb, hb', hsame.slot]
    split
    · exact h.answer fun _ => Iff.rfl
    · exact Abreast.answer (h.inWorld { h.world with
        waiters := h.world.waiters.unbind name }) fun _ => Iff.rfl

end Abreast

/-! ## Operations that make something -/

/-- In step by a larger pairing, which passes over no more subscriptions. -/
def Begun (below : Name → Bool) (issuer : Name → Option WatcherId) (G : Pairing)
    (m m' : Machine α) : Prop :=
  ∃ H : Pairing, G ≤ H ∧ H.skipped = G.skipped ∧ InStep below issuer H m m'

theorem InStep.begun {m m' : Machine α} (h : InStep below issuer G m m') :
    Begun below issuer G m m' := ⟨G, G.le_refl, rfl, h⟩

end Machine

/-- The id of a listener is presented only to the watcher that issued it. -/
def World.PresentsOwn (w : World α) (issuer : Name → Option WatcherId) (op : Op α) : Prop :=
  ∀ target label, op = .unwatch target label → ∀ hd, w.handle? target = some hd →
    ∀ l, w.listeners.lookup label = some l → issuer label = some hd.target

/-- A child is made, and its subscription is registered on its parent. -/
def Machine.conceive (w : World α) (p : WatcherId) (b : Watcher α) (title : String)
    (d : Derivation α) : Machine α :=
  Machine.register
    ⟨w.addWatcher { name := title, origin := .child p b.registry.nextId d },
      [.constructing d.label w.watchers.length, .holding p], .proceed⟩
    p b (.subscription w.watchers.length) ⟨.inline, fun _ => []⟩

namespace World.Twins

open Machine

variable {below : Name → Bool} {issuer : Name → Option WatcherId} {G : Pairing} {w w' : World α}
  (h : w.Twins below issuer G w')

include h

theorem abreast (c c' : Control α) : Abreast below issuer G ⟨w, [], c⟩ ⟨w', [], c'⟩ := ⟨h, .nil⟩

theorem addRoot {name : Name} (hname : below name = false) (label : Name) (plain : Bool) :
    Begun below issuer G (Machine.addRoot { world := w } name label plain)
      (Machine.addRoot { world := w' } name label plain) := by
  have hstart := h.abreast .proceed .proceed
  unfold Machine.addRoot
  rw [hstart.isSome_handle hname]
  split
  · exact hstart.invalid.begun
  · obtain ⟨H, hle, hskip, hpair, hplanted⟩ := h.plant label .root
    have hbound := hplanted.bindHandle hname
      (x := ⟨w.watchers.length, if plain then .plainRoot else .root⟩)
      (y := ⟨w'.watchers.length, if plain then .plainRoot else .root⟩) rfl hpair
    exact ⟨H, hle, hskip, Abreast.answer ⟨hbound, .nil⟩ fun _ => Iff.rfl⟩

section Histories

variable (hw : w.Ledger) (hd : w.Deliveries) (hw' : w'.Ledger) (hd' : w'.Deliveries)

include hw hd hw' hd'

theorem watch [BEq α] {target label : Name} (htarget : below target = false)
    (hlabel : below label = false) (valueOnly : Bool) {disposal : Disposal}
    (hdisposal : disposal.OnSide below false) {onHandover actions : Actions α}
    (hgiven : ∀ n, Callback below false (onHandover n))
    (ha : ∀ n, Callback below false (actions n)) :
    Begun below issuer G (w.start (.watch target label valueOnly disposal onHandover actions))
      (w'.start (.watch target label valueOnly disposal onHandover actions)) := by
  have hstart := h.abreast .proceed .proceed
  refine hstart.withHandle htarget hstart.invalid.begun fun x x' b b' _ hb hb' _ hp _ => ?_
  obtain ⟨H, hle, hskip, hl, hreserved⟩ := h.reserve hb hd hw hd' hw' hp hb'
  exact ⟨H, hle, hskip, InStep.register hreserved hw.sound hw'.sound
    (.watching hlabel (hle.pair hp) hl .nil) (hle.pair hp) hb hb' hl (.observer ha) hdisposal
    hgiven _ _⟩

/-- The same child is made of a watcher and its twin. -/
theorem conceive {p p' : WatcherId} (hp : G.pair p p') {b b' : Watcher α}
    (hb : w.watcher? p = some b) (hb' : w'.watcher? p' = some b') (title : String)
    {d : Derivation α} (hname : below d.label = false)
    (ha : ∀ n, Callback below false (d.actions n)) :
    Begun below issuer G (Machine.conceive w p b title d)
      (Machine.conceive w' p' b' title d) := by
  have hjoins : w.Joins p b _ _ _ := .child title d
  have hjoins' : w'.Joins p' b' _ _ _ := .child title d
  obtain ⟨H, hle, hskip, hl, hreserved⟩ := h.reserve hb hd hw hd' hw' hp hb'
  obtain ⟨K, hle', hskip', hpair, hplanted⟩ :=
    hreserved.plant title (.child (d := d) (hle.pair hp) hl hname ha)
  rw [length_reserve, length_reserve] at hpair
  rw [World.reserve, World.reserve, addWatcher_modify (lt_length hb),
    addWatcher_modify (lt_length hb')] at hplanted
  have hp' : K.pair p p' := hle'.pair (hle.pair hp)
  exact ⟨K, Pairing.le_trans hle hle', hskip'.trans hskip, InStep.register hplanted
    (hjoins.sound hw.sound) (hjoins'.sound hw'.sound)
    (.cons (.constructing hname hpair) (.cons (.holding hp') .nil)) hp' (hjoins.watcher?_eq hb)
    (hjoins'.watcher?_eq hb') (hle'.listener hl) (.subscription hpair)
    (e := ⟨.inline, fun _ => []⟩) trivial (fun _ _ hop => absurd hop List.not_mem_nil) _ _⟩

theorem addChild {target name : Name} (htarget : below target = false)
    (hname : below name = false) (label : Except WatchError String) (apply : α → Outcome α)
    {actions : Actions α} (ha : ∀ n, Callback below false (actions n)) :
    Begun below issuer G (Machine.addChild { world := w } target name label apply actions)
      (Machine.addChild { world := w' } target name label apply actions) := by
  have hstart := h.abreast .proceed .proceed
  refine hstart.withHandle htarget hstart.invalid.begun fun x x' b b' _ hb hb' _ hp hsame => ?_
  rw [hstart.isSome_handle hname, hsame.name]
  split
  · exact hstart.invalid.begun
  · cases label with
    | error e => exact InStep.begun (hstart.answer fun _ => Iff.rfl)
    | ok label =>
      exact h.conceive hw hd hw' hd' hp hb hb' _ (d := ⟨name, apply, actions⟩) hname ha

end Histories

theorem startPoller {target : Name} (htarget : below target = false) (config : PollConfig)
    {script : Script α}
    (hscript : ∀ x ∈ script, Callback below false x.before ∧ Callback below false x.actions)
    (ending : PollEnd) :
    InStep below issuer G (Machine.startPoller { world := w } target config script ending)
      (Machine.startPoller { world := w' } target config script ending) := by
  have hstart := h.abreast .proceed .proceed
  refine hstart.withHandle htarget hstart.invalid fun x x' b b' _ _ _ hface hp hsame => ?_
  have hpolls : InStep below issuer G
      ((((Machine.mk w [] .proceed).setStopped false).push (.holding x.target)).push (.polling
        { root := x.target, face := x.face, config, script, ending, since := w.history.length }))
      ((((Machine.mk w' [] .proceed).setStopped false).push (.holding x'.target)).push (.polling
        { root := x'.target, face := x'.face, config, script, ending
          since := w'.history.length })) :=
    ((hstart.setStopped false).push (.holding hp)).toAbreast.push
      (.polling ⟨hp, hface, rfl, rfl, rfl, hscript, rfl⟩)
  rw [hsame.name]
  simp only [hface] at hpolls ⊢
  split
  · exact hstart.invalid
  · split
    · exact hpolls
    · exact hpolls
    · exact hstart.unwind _
    · exact hstart.unwind _
    · exact hstart.invalid

/-- An operation outside begins in the same way in both worlds. -/
theorem start [BEq α] (hw : w.Ledger) (hd : w.Deliveries) (hw' : w'.Ledger) (hd' : w'.Deliveries)
    {op : Op α} (hop : op.Sided below) (hout : op.isInside below = false)
    (hpresents : w.PresentsOwn issuer op) (hhosted : G.Hosted (w.start op).world) :
    Begun below issuer G (w.start op) (w'.start op) := by
  have hstart := h.abreast .proceed .proceed
  have hinert : op.isInert = true → Begun below issuer G (w.start op) (w'.start op) := fun hin =>
    InStep.begun (hstart.perform_inert hin fun name hname => by
      unfold Op.isInside at hout
      rw [Option.mem_def.mp hname] at hout
      exact hout)
  cases op with
  | root name label plain => exact h.addRoot hout label plain
  | push target revision value => exact InStep.begun (hstart.push_state hout revision value)
  | child target name label apply actions =>
    have htarget : below target = false := by
      cases hin : below target with
      | false => rfl
      | true => exact (hop.1 hin).symm.trans hout
    exact h.addChild hw hd hw' hd' htarget hout label apply fun n =>
      (show below name = false from hout) ▸ hop.2 n
  | share target name bare =>
    exact InStep.begun (hstart.share (hop.trans hout) hout bare)
  | drop target => exact InStep.begun (hstart.dropHandle hout hw hw' hhosted)
  | watch target label valueOnly disposal onHandover actions =>
    have htarget : below target = false := hout
    obtain ⟨hlabel, hdisposal, hactions⟩ := hop
    rw [htarget] at hlabel hdisposal hactions
    exact h.watch hw hd hw' hd' htarget hlabel valueOnly hdisposal (fun n => (hactions n).1)
      fun n => (hactions n).2
  | unwatch target label =>
    have htarget : below target = false := hout
    have hlabel : below label = false := hop.trans htarget
    refine InStep.begun (hstart.withHandle htarget hstart.invalid
      fun x x' b b' hx _ _ _ hp _ => ?_)
    rcases h.listeners.lookup hlabel with ⟨hnone, hnone'⟩ | ⟨l, l', hl, hl', q, hq, hk⟩
    · simp only [hnone, hnone']
      exact hstart.invalid
    · simp only [hl, hl']
      rw [hpresents target label rfl x hx l hl, Option.some.injEq] at hq
      exact hstart.unwatch hp (hq ▸ hk)
  | close target =>
    exact InStep.begun (hstart.withHandle hout hstart.invalid fun x x' b b' _ _ _ _ hp _ =>
      (hstart.push (.holding hp)).toAbreast.close hp)
  | future name source =>
    have hname : below name = false := hout
    exact InStep.begun (hstart.nameFuture hname (hname ▸ hop))
  | futurePoll future waker actions =>
    have hfuture : below future = false := hout
    exact InStep.begun (hstart.pollFuture hfuture (hop.1.trans hfuture) fun n => hfuture ▸ hop.2 n)
  | waiter name future =>
    have hname : below name = false := hout
    exact InStep.begun (hstart.addWaiter hname (hop.trans hname))
  | join name => exact InStep.begun (hstart.joinWaiter hout)
  | poll target config script ending => exact InStep.begun (h.startPoller hout config hop ending)
  | _ => exact hinert rfl

end World.Twins

end WatchTree
