import WatchTree.Proofs.OuterStarts

/-!
# Operations inside

An operation inside begins work inside (`World.Twins.start_inside`): the twin world stays as it is.
-/

namespace WatchTree

variable {α : Type}

open World (addWatcher_modify lt_length length_reserve)

namespace Machine.Within

variable {below : Name → Bool} {issuer : Name → Option WatcherId} {G : Pairing} {w' : World α}
  {stk : List (Frame α)} {m : Machine α} (h : Within below issuer G w' stk m) {name : Name}

include h

/-! ## Operations on what is there -/

/-- An operation on a watcher inside. -/
theorem withHandle (hname : below name = true) {f : Handle → Watcher α → Machine α}
    {Q : Machine α → Prop} (hQ : Q (m.answer .invalid))
    (hf : ∀ hd b, m.world.handle? name = some hd → m.world.watcher? hd.target = some b →
      G.inside hd.target → G.InsideWatcher below b → Q (f hd b)) : Q (m.withHandle name f) := by
  unfold Machine.withHandle
  split
  · rename_i hd b hr
    obtain ⟨hmem, hb⟩ := World.resolve?_eq_some hr
    have hin := h.world.insideHandles (name, hd) hmem hname
    obtain ⟨a, ha, hinside⟩ := h.world.insides hin
    obtain rfl := Option.some.inj (ha.symm.trans hb)
    unfold World.resolve? at hr
    obtain ⟨hd', hh, hr⟩ := Option.bind_eq_some_iff.mp hr
    obtain ⟨b', -, hr⟩ := Option.bind_eq_some_iff.mp hr
    obtain ⟨rfl, rfl⟩ := Prod.mk.inj (Option.some.inj hr)
    exact hf _ _ hh hb hin hinside
  · exact hQ

theorem push_state [BEq α] (hname : below name = true) (revision : Revision) (value : Given α) :
    Within below issuer G w' stk (m.perform (.push name revision value)) := by
  refine h.withHandle hname (h.answer _) fun hd b _ _ hin _ => ?_
  split
  · exact (h.push (f := .holding hd.target) (.inl hin)).offer hin _
  · exact (h.push (f := .holding hd.target) (.inl hin)).offer hin _
  · exact h.answer _

theorem share {target : Name} (htarget : below target = true) (hname : below name = true)
    (bare : Bool) : Within below issuer G w' stk (m.share target name bare) := by
  refine h.withHandle htarget (h.answer _) fun hd b _ _ hin _ => ?_
  split
  · exact h.answer _
  · refine Within.answer (h.inWorld (h.world.bindHandle_inside hname ?_)) _
    cases bare <;> exact hin

theorem dropHandle (hname : below name = true) (hhosted : G.Hosted (m.dropHandle name).world) :
    Within below issuer G w' stk (m.dropHandle name) := by
  unfold Machine.dropHandle World.handle? at hhosted ⊢
  cases hl : m.world.handles.lookup name with
  | none => exact h.answer _
  | some hd =>
    simp only [hl] at hhosted ⊢
    have hin := h.world.insideHandles (name, hd) (Bindings.mem_of_lookup hl) hname
    have hforgot := h.inWorld (f := fun w => { w with handles := w.handles.unbind name })
      { h.world with
        handles := h.world.handles.unbind_inside hname
        insideHandles := Bindings.forall_unbind h.world.insideHandles name }
    exact (hforgot.release hd.target (hhosted.of_eq (release_handles _ _).symm)
      (.inl hin)).answer _

theorem unwatch {i : WatcherId} (hi : G.inside i) (l : ListenerId) :
    Within below issuer G w' stk (m.unwatch i l) := by
  have hnoted : Within below issuer G w' stk
      (m.record (.unwatched i l (m.world.isRegistered i l))) := h.record rfl
  unfold Machine.unwatch
  simp only
  split
  · exact (hnoted.unregister (.inl hi)).answer _
  · exact hnoted.answer _

theorem nameFuture (hname : below name = true) {source : FutureSource}
    (hsource : source.OnSide below true) :
    Within below issuer G w' stk (m.nameFuture name source) := by
  have hgiven : ∀ i, G.inside i → Within below issuer G w' stk
      ((m.inWorld fun w => { w with futures := w.futures.bind name i }).answer .done) :=
    fun i hi => Within.answer (h.inWorld { h.world with
      futures := h.world.futures.bind_inside hname
      insideFutures := Bindings.forall_bind h.world.insideFutures fun _ => hi }) _
  unfold Machine.nameFuture
  simp only
  split
  · rename_i i hi
    cases source with
    | watcher target =>
      obtain ⟨x, hx, rfl⟩ := Option.map_eq_some_iff.mp hi
      exact hgiven _ (h.world.insideHandles _ (World.resolve?_eq_some hx).1 hsource)
    | future future => exact hgiven i (h.world.insideFutures _ (Bindings.mem_of_lookup hi) hsource)
  · exact h.answer _

theorem pollFuture (hname : below name = true) {waker : Name} (hwaker : below waker = true)
    {actions : Actions α} (ha : ∀ n, Callback below true (actions n)) :
    Within below issuer G w' stk (m.pollFuture name waker actions) := by
  unfold Machine.pollFuture
  split
  · rename_i i slot hi _
    have hin := h.world.insideFutures _ (Bindings.mem_of_lookup hi) hname
    have hknown : Within below issuer G w' stk
        (m.inWorld fun w => if (w.wakers.lookup waker).isSome then w
          else { w with wakers := w.wakers.bind waker { actions } }) := by
      refine h.inWorld ?_
      split
      · exact h.world
      · exact h.world.bindWaker_inside hwaker ha
    simp only
    split
    · exact hknown.answer _
    · exact ((hknown.record (e := .enlisted i waker) rfl).modify hin
        (f := fun b => { b with slot := b.slot.enlist waker }) fun a hthe => { hthe with
          wakers := fun k hk => (Slot.mem_wakers_enlist hk).elim (hthe.wakers k)
            fun heq => heq ▸ hwaker }).answer _
  · exact h.answer _

theorem addWaiter {future : Name} (hname : below name = true) :
    Within below issuer G w' stk (m.addWaiter name future) := by
  unfold Machine.addWaiter
  split
  · exact Within.answer (h.inWorld { h.world with
      waiters := h.world.waiters.bind_inside hname }) _
  · exact h.answer _

theorem joinWaiter (hname : below name = true) :
    Within below issuer G w' stk (m.joinWaiter name) := by
  unfold Machine.joinWaiter
  split
  · exact h.answer _
  · split
    · exact h.answer _
    · exact Within.answer (h.inWorld { h.world with
        waiters := h.world.waiters.unbind_inside hname }) _

/-! ## Listeners and children -/

/-- A listener inside is registered on a watcher inside. -/
theorem register {i : WatcherId} (hi : G.inside i) (b : Watcher α) {s : Listener α}
    (hs : G.InsideListener below s) {e : Executor α} (he : e.disposal.OnSide below true)
    (ha : ∀ n, Callback below true (e.actions n)) :
    Within below issuer G w' stk (m.register i b s e) := by
  unfold Machine.register
  split
  · exact ((h.modify hi (f := fun b => { b with registry := b.registry.reserve })
      fun _ hthe => { hthe with }).log ..).proceed
  · have henrolled := h.modify hi (f := fun b => { b with registry := b.registry.insert s e })
      fun a hthe => { hthe with
        records := fun r hr => by
          rcases List.mem_append.mp hr with hr | hr
          · exact hthe.records r hr
          · obtain rfl := List.mem_singleton.mp hr
            exact ⟨hs, he, ha⟩ }
    simp only
    split
    · exact henrolled.proceed
    · exact henrolled.handOver (.inl hi)

omit h in
/-- The subscription of a watcher inside is registered on one outside. -/
theorem register_skipped {w : World α} (fs : List (Frame α)) {p p' : WatcherId} {b : Watcher α}
    (h : (w.reserve p).Twins below issuer G w') (hw : w.SoundRegistries) (hp : G.pair p p')
    (hb : w.watcher? p = some b) (hl : G.skipped p b.registry.nextId) {k : WatcherId}
    (hk : G.inside k) (hfs : ∀ f ∈ fs, G.InsideFrame below f) (c : Control α) :
    Within below issuer G w' stk (Machine.register ⟨w, fs ++ stk, c⟩ p b (.subscription k)
      ⟨.inline, fun _ => []⟩) := by
  unfold Machine.register
  split
  · have hreserved : Within below issuer G w' stk (⟨w.reserve p, fs ++ stk, c⟩ : Machine α) :=
      ⟨h, fs, rfl, hfs⟩
    exact (hreserved.log ..).proceed
  · have henrolled : Within below issuer G w' stk
        (⟨w.enrol p (.subscription k) ⟨.inline, fun _ => []⟩, fs ++ stk, c⟩ : Machine α) :=
      ⟨h.enrol_skipped hw hp hb hl hk, fs, rfl, hfs⟩
    simp only
    split
    · exact henrolled.proceed
    · exact henrolled.handOver (.inr hl)

end Machine.Within

/-! ## Subscriptions that are passed over -/

/-- A subscription that is passed over is that of a watcher inside. -/
def Pairing.Linked (G : Pairing) (w : World α) : Prop :=
  ∀ p l, G.skipped p l → ∃ c d, G.inside c ∧ w.origin? c = some (.child p l d)

theorem Pairing.Linked.mono {G H : Pairing} {w v : World α} (h : G.Linked w) (hle : G ≤ H)
    (hs : ∀ p l, H.skipped p l → G.skipped p l)
    (ho : ∀ {c o}, w.origin? c = some o → v.origin? c = some o) : H.Linked v := by
  intro p l hl
  obtain ⟨c, d, hc, horigin⟩ := h p l (hs p l hl)
  exact ⟨c, d, hle.inside hc, ho horigin⟩

/-- A child that is made inside. -/
theorem Pairing.InsideWatcher.child {G : Pairing} {below : Name → Bool} {name : String}
    {p : WatcherId} {l : ListenerId} {d : Derivation α} (hname : below d.label = true)
    (ha : ∀ n, Callback below true (d.actions n)) (hp : G.inside p ∨ G.skipped p l) :
    G.InsideWatcher below { name, origin := .child p l d } where
  origin := ⟨p, l, d, rfl, hname, ha, hp⟩
  wakers _ hk := absurd hk List.not_mem_nil
  records _ hr := absurd hr List.not_mem_nil

namespace World.Twins

variable {below : Name → Bool} {issuer : Name → Option WatcherId} {G : Pairing} {w w' : World α}
  (h : w.Twins below issuer G w')

include h

theorem within (stk : List (Frame α)) (c : Control α) :
    Machine.Within below issuer G w' stk ⟨w, stk, c⟩ := ⟨h, [], rfl, fun _ hf => nomatch hf⟩

section Children

variable (hlinked : G.Linked w) {p : WatcherId} {b : Watcher α} (hb : w.watcher? p = some b)
  (title : String) {d : Derivation α} (hname : below d.label = true)
  (ha : ∀ n, Callback below true (d.actions n))

include hlinked hb hname ha

omit hb in
/-- A child of a watcher inside is another one. -/
theorem conceive_inside (hp : G.inside p) :
    ∃ H, G ≤ H ∧ H.Linked (Machine.conceive w p b title d).world ∧
      Machine.Within below issuer H w' [] (Machine.conceive w p b title d) := by
  obtain ⟨H, hle, hskip, hc, hplanted⟩ := h.plant_inside
    (a := { name := title, origin := .child p b.registry.nextId d })
    fun hle => .child hname ha (.inl (hle.inside hp))
  have hp' : H.inside p := hle.inside hp
  refine ⟨H, hle, hlinked.mono hle (fun p l hl => hskip ▸ hl) fun ho =>
    (Machine.origin?_register ..).trans ((World.Joins.child title d).origin?_mono ho), ?_⟩
  exact (((hplanted.within [] .proceed).push (f := .holding p) (.inl hp')).push
    (f := .constructing d.label w.watchers.length) ⟨hname, hc⟩).register hp' b
      (.subscription hc) trivial fun _ _ hop => absurd hop List.not_mem_nil

/-- The subscription of a child inside on a watcher outside is passed over. -/
theorem conceive_skipped (hw : w.SoundRegistries) {p' : WatcherId} (hp : G.pair p p') :
    ∃ H, G ≤ H ∧ H.Linked (Machine.conceive w p b title d).world ∧
      Machine.Within below issuer H w' [] (Machine.conceive w p b title d) := by
  have hjoins : w.Joins p b _ _ _ := .child title d
  obtain ⟨H, hle, hs, hnew, hreserved⟩ := h.reserve_skipped hb hp
  obtain ⟨K, hle', hskip, hc, hplanted⟩ := hreserved.plant_inside
    (a := { name := title, origin := .child p b.registry.nextId d })
    fun hle => .child hname ha (.inr (hle.skipped hs))
  have hs' : K.skipped p b.registry.nextId := hle'.skipped hs
  rw [length_reserve] at hc
  rw [World.reserve, addWatcher_modify (lt_length hb)] at hplanted
  refine ⟨K, Pairing.le_trans hle hle', fun q l hl => ?_, ?_⟩
  · rcases hnew q l (hskip ▸ hl) with hold | ⟨rfl, rfl⟩
    · obtain ⟨c, e, hin, ho⟩ := hlinked q l hold
      exact ⟨c, e, hle'.inside (hle.inside hin),
        (Machine.origin?_register ..).trans (hjoins.origin?_mono ho)⟩
    · obtain ⟨e, he⟩ := hjoins.origin?_subscription rfl
      exact ⟨_, e, hc, (Machine.origin?_register ..).trans he⟩
  · refine Machine.Within.register_skipped
      [.constructing d.label w.watchers.length, .holding p] hplanted (hjoins.sound hw)
      (hle'.pair (hle.pair hp)) (hjoins.watcher?_eq hb) hs' hc ?_ _
    intro f hf
    simp only [List.mem_cons, List.not_mem_nil, or_false] at hf
    rcases hf with rfl | rfl
    · exact ⟨hname, hc⟩
    · exact .inr ⟨_, hs'⟩

end Children

/-- A child inside is made, by a larger pairing. -/
theorem addChild_inside (hw : w.SoundRegistries) (hlinked : G.Linked w) {target name : Name}
    (hname : below name = true) (label : Except WatchError String) (apply : α → Outcome α)
    {actions : Actions α} (ha : ∀ n, Callback below true (actions n)) :
    ∃ H, G ≤ H ∧
      H.Linked (Machine.addChild { world := w } target name label apply actions).world ∧
      Machine.Within below issuer H w' []
        (Machine.addChild { world := w } target name label apply actions) := by
  have hanswered : ∀ a, ∃ H, G ≤ H ∧ H.Linked (Machine.answer { world := w } a).world ∧
      Machine.Within below issuer H w' [] (Machine.answer { world := w } a) := fun a =>
    ⟨G, G.le_refl, hlinked, (h.within [] .proceed).answer a⟩
  unfold Machine.addChild Machine.withHandle
  split
  · rename_i x b hr
    have hb : w.watcher? x.target = some b := (World.resolve?_eq_some hr).2
    split
    · exact hanswered _
    · cases label with
      | error e => exact hanswered _
      | ok label =>
        rcases h.covered x.target (lt_length hb) with hin | ⟨p', hp⟩
        · exact h.conceive_inside hlinked _ (d := ⟨name, apply, actions⟩) hname ha hin
        · exact h.conceive_skipped hlinked hb _ (d := ⟨name, apply, actions⟩) hname ha hw hp
  · exact hanswered _

/-- An operation inside begins work inside, by a larger pairing. -/
theorem start_inside [BEq α] (hw : w.Ledger) (hroots : w.RootHandles w.handles)
    (hlinked : G.Linked w) {op : Op α} (hop : op.Sided below) (hin : op.isInside below = true)
    (hx : w.Extends (w.start op).world) (hhosted : G.Hosted (w.start op).world) :
    ∃ H, G ≤ H ∧ H.Linked (w.start op).world ∧
      Machine.Within below issuer H w' [] (w.start op) := by
  have hstart := h.within [] .proceed
  have hsame : Machine.Within below issuer G w' [] (w.start op) → ∃ H, G ≤ H ∧
      H.Linked (w.start op).world ∧ Machine.Within below issuer H w' [] (w.start op) :=
    fun hwithin => ⟨G, G.le_refl, hlinked.mono G.le_refl (fun _ _ => id) hx.origin, hwithin⟩
  have hinert : op.isInert = true → op.stops = false →
      Machine.Within below issuer G w' [] (w.start op) := fun hi hstop =>
    hstart.perform_inert hi hstop fun name hname => by
      unfold Op.isInside at hin
      rw [Option.mem_def.mp hname] at hin
      exact hin
  cases op with
  | root name label plain => exact nomatch hop.symm.trans hin
  | push target revision value => exact hsame (hstart.push_state hin revision value)
  | child target name label apply actions =>
    have hname : below name = true := hin
    exact h.addChild_inside hw.sound hlinked hname label apply fun n => hname ▸ hop.2 n
  | share target name bare => exact hsame (hstart.share (hop.trans hin) hin bare)
  | drop target => exact hsame (hstart.dropHandle hin hhosted)
  | watch target label valueOnly disposal onHandover actions =>
    have htarget : below target = true := hin
    obtain ⟨hlabel, hdisposal, hactions⟩ := hop
    rw [htarget] at hlabel hdisposal hactions
    exact hsame (hstart.withHandle htarget (hstart.answer _) fun x b _ _ hi _ =>
      ((hstart.push (f := .holding x.target) (.inl hi)).push
        (f := .watching label b.registry.nextId) hlabel).register hi b
        (.observer fun n => (hactions n).2) hdisposal fun n => (hactions n).1)
  | unwatch target label =>
    refine hsame (hstart.withHandle hin (hstart.answer _) fun x b _ _ hi _ => ?_)
    split
    · exact hstart.answer _
    · exact hstart.unwatch hi _
  | close target =>
    exact hsame (hstart.withHandle hin (hstart.answer _) fun x b _ _ hi _ =>
      (hstart.push (f := .holding x.target) (.inl hi)).close hi)
  | future name source =>
    have hname : below name = true := hin
    exact hsame (hstart.nameFuture hname (hname ▸ hop))
  | futurePoll future waker actions =>
    have hfuture : below future = true := hin
    exact hsame (hstart.pollFuture hfuture (hop.1.trans hfuture) fun n => hfuture ▸ hop.2 n)
  | waiter name future => exact hsame (hstart.addWaiter hin)
  | join name => exact hsame (hstart.joinWaiter hin)
  | poll target config script ending =>
    refine hsame (hstart.withHandle hin (hstart.answer _) fun x b hxt hb _ hinside => ?_)
    -- a poller needs the handle of a root, and those are outside
    have hno : ¬ (x.face = .root ∨ x.face = .plainRoot) := fun hface => by
      have hroot := hroots (target, x) (Bindings.mem_of_lookup hxt) hface
      obtain ⟨p, l, d, ho, -⟩ := hinside.origin
      unfold World.IsRoot at hroot
      rw [origin?_of_watcher? hb, ho] at hroot
      exact nomatch hroot
    rw [if_neg (by simp)]
    split
    · exact absurd (.inl ‹_›) hno
    · exact absurd (.inr ‹_›) hno
    · exact absurd (.inl ‹_›) hno
    · exact absurd (.inr ‹_›) hno
    · exact hstart.answer _
  | stop => exact nomatch hin
  | _ => exact hsame (hinert rfl rfl)

end World.Twins

end WatchTree
