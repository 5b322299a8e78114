import WatchTree.Proofs.OrderlyMachines

/-!
# Every step is orderly

What does not leave subscriptions alone: a watcher is closed and then detached, a watcher that has
lost a reference is released, a child joins its parent. With these every operation, every frame
that goes on and every panic that reaches a frame is orderly (`step_orderly`, `start_orderly`), as
long as no panic leaves a waker: it would skip the detaching of a closed watcher.
-/

namespace WatchTree

variable {α : Type}

open WatchTree.Frame

namespace Machine

/-! ## Closing and detaching -/

section Removing

variable {m : Machine α}

theorem Settled.close (h : m.Settled) (hw : m.world.Ledger) (id : WatcherId) :
    (m.close id).Settled := by
  unfold Machine.close
  split
  · exact h.changes (.answer m _)
  · rename_i b hb
    split
    · exact h.changes (.answer m _)
    · have hclosing : ¬ Sensitive (closing id b.registry.entries.length :: m.stack) :=
        fun hs => hs
      have hwaking : ¬ Sensitive (waking b.slot.wakers ::
          closing id b.registry.entries.length :: m.stack) := fun hs => hs
      exact ⟨h.tidy.close hw hb, h.named,
        ⟨sitsOn_of_not_sensitive hclosing _, sitsOn_of_not_sensitive h.still _, h.hushed⟩,
        hwaking, Control.calm_proceed⟩

/-- The wakers have been woken: the closed watcher is detached. -/
theorem Settled.detach {id : WatcherId} (hnamed : m.world.handles.Unambiguous)
    (hhushed : Hushed m.stack) (hstill : ¬ Sensitive m.stack) (hcalm : m.control.Calm)
    (h : m.world.Tidy
      { marks m.stack with closing := id :: (marks m.stack).closing } none)
    (hw : m.world.Ledger) (message : String → Diagnostic) : (m.detach id message).Settled := by
  unfold Machine.detach
  split
  · rename_i hp
    refine ⟨h.unclose ?_, hnamed, hhushed, hstill, hcalm⟩
    intro p l d ho
    rw [World.parent?_eq_some_iff.mpr ho] at hp
    exact nomatch hp
  · rename_i p l d hp
    have ho : m.world.origin? id = some (.child p l d) := World.parent?_eq_some_iff.mp hp
    have hone : ∀ {p' l' d'}, m.world.origin? id = some (.child p' l' d') → p' = p ∧ l' = l := by
      intro p' l' d' ho'
      obtain ⟨rfl, rfl, -⟩ := Origin.child.inj (Option.some.inj (ho'.symm.trans ho))
      exact ⟨rfl, rfl⟩
    split
    · have hout : (m.world.unregister p l).Tidy (marks m.stack) none := by
        refine (h.detach hw ho (h.closing (List.mem_cons_self ..))).unclose ?_
        intro p' l' d' ho'
        rw [World.origin?_unregister] at ho'
        obtain ⟨rfl, rfl⟩ := hone ho'
        rw [← Bool.not_eq_true, World.isRegistered_unregister hw.sound]
        exact fun hreg => hreg.2 ⟨rfl, rfl⟩
      exact ⟨hout.sameSubscriptions (.note _ _ _), hnamed, hhushed, hstill, hcalm⟩
    · rename_i hreg
      refine ⟨h.unclose ?_, hnamed, hhushed, hstill, hcalm⟩
      intro p' l' d' ho'
      obtain ⟨rfl, rfl⟩ := hone ho'
      exact (Bool.not_eq_true _).mp hreg

/-! ## Releasing -/

/-- An undropped child is dropped and detached. -/
theorem dropChild_eq (hw : m.world.Ledger) {id p : WatcherId} {l : ListenerId} {d : Derivation α}
    (ho : m.world.origin? id = some (.child p l d)) :
    ∃ w, m.dropChild id = { m with world := w } ∧ w.Ledger ∧ m.world.Drops id p l w := by
  obtain ⟨b, hb, hbo⟩ := World.exists_watcher?_of_origin? ho
  set w₀ := m.world.modify id fun b => { b with dropped := true } with hw₀
  have hledger : w₀.Ledger := hw.alike (.modify _ _ (fun _ => rfl) (fun _ => rfl) (fun _ => rfl)
    (fun _ => rfl) fun _ => rfl)
  have horigin : ∀ j, w₀.origin? j = m.world.origin? j :=
    fun j => World.origin?_modify _ _ _ fun _ => rfl
  have hclosed : ∀ j, w₀.isClosed j = m.world.isClosed j :=
    fun j => World.isClosed_modify _ _ _ fun _ => rfl
  have hreg : ∀ j k, w₀.isRegistered j k = m.world.isRegistered j k :=
    fun j k => World.isRegistered_modify _ _ _ _ fun _ => rfl
  have hdropped : ∀ j, w₀.isDropped j = true ↔ j = id ∨ m.world.isDropped j = true := by
    intro j
    by_cases hj : j = id
    · subst hj
      simp [World.isDropped_of_watcher? (World.watcher?_modify_self hb _), w₀]
    · unfold World.isDropped
      rw [hw₀, World.watcher?_modify_of_ne _ (Ne.symm hj)]
      simp [hj]
  have hparent : w₀.parent? id = some (p, l, d) := by
    rw [World.parent?_eq_some_iff, horigin, ho]
  rw [dropChild,
    detach_eq (m := m.inWorld (·.modify id fun b => { b with dropped := true })) hparent]
  split
  · refine ⟨_, rfl, ?_, ?_⟩
    · refine World.Ledger.alike ?_ (.note _ _ rfl)
      exact hledger.resembles (World.resembles_unregister w₀ p l) fun _ ht => .inl ht
    · exact
        { origin := fun j => (World.origin?_unregister w₀ p j l).trans (horigin j)
          closed := fun j => (World.isClosed_unregister w₀ p j l).trans (hclosed j)
          dropped := fun j => by
            rw [← hdropped, ← World.isDropped_unregister w₀ p j l]
            rfl
          handles := rfl
          events := (World.SameSubscriptions.note _ _ _).events
          registered := fun j k => by
            rw [← hreg, ← World.isRegistered_unregister hledger.sound]
            rfl }
  · rename_i hout
    -- The subscription had been taken out before, so there is nothing to strike out.
    refine ⟨w₀, rfl, hledger, horigin, hclosed, hdropped, rfl, List.Subset.refl _, fun j k => ?_⟩
    rw [hreg]
    refine ⟨fun hjk => ⟨hjk, ?_⟩, And.left⟩
    rintro ⟨rfl, rfl⟩
    exact hout ((hreg j k).trans hjk)

/-- A child to which nothing refers is dropped, and then its parent is loose. -/
theorem drop_tidy (hw : m.world.Ledger) {id p : WatcherId} {l : ListenerId} {d : Derivation α}
    (ho : m.world.origin? id = some (.child p l d))
    (h : m.world.Tidy (marks m.stack) (some id)) (href : m.isReferenced id = false)
    (hyoung : id ∉ (marks m.stack).constructed) {w : World α} (hd : m.world.Drops id p l w) :
    w.Tidy (marks m.stack) (some p) ∧ p ∉ (marks m.stack).constructed := by
  simp only [isReferenced, Bool.or_eq_false_iff] at href
  obtain ⟨⟨hhandle, hholds⟩, hchild⟩ := href
  have hheld : id ∉ (marks m.stack).held := by
    rw [mem_held_iff]
    intro hmem
    rw [← Bool.not_eq_true, List.any_eq_true] at hholds
    exact hholds ⟨_, hmem, decide_eq_true rfl⟩
  have hnochild : ¬ m.world.HasChild id := by
    rw [← World.hasChild_iff, hchild]
    exact Bool.false_ne_true
  exact h.drop hw ho hhandle hheld hnochild hyoung hd

/-- A loose watcher is released, and with it all above it that nothing else refers to. -/
theorem release_tidy (id : WatcherId) (m : Machine α) : m.world.Ledger →
    m.world.Tidy (marks m.stack) (some id) → id ∉ (marks m.stack).constructed →
    ∃ w, m.release id = { m with world := w } ∧ w.Tidy (marks m.stack) none ∧
      w.handles = m.world.handles := by
  refine release_induction (R := fun id m m' => m.world.Ledger →
    m.world.Tidy (marks m.stack) (some id) → id ∉ (marks m.stack).constructed →
    ∃ w, m' = { m with world := w } ∧ w.Tidy (marks m.stack) none ∧
      w.handles = m.world.handles) ?_ ?_ ?_ id m
  · intro id m hstays hw h hyoung
    refine ⟨m.world, rfl, h.tighten fun {p l d} ho hdr => ?_, rfl⟩
    have href := hstays p l d ho hdr
    simp only [isReferenced, Bool.or_eq_true] at href
    rcases href with (hh | hh) | hh
    · exact .inl hh
    · obtain ⟨f, hf, hholds⟩ := List.any_eq_true.mp hh
      cases f with
      | holding j =>
        obtain rfl : j = id := of_decide_eq_true hholds
        exact .inr (.inl (mem_held_iff.mpr hf))
      | _ => exact nomatch hholds
    · exact .inr (.inr ((World.hasChild_iff _ _).mp hh))
  · intro id p l d m ho hdr href hnot hw
    exact absurd (hw.parent ho).1 hnot
  · intro id p l d m ho hdr href hlt ih hw h hyoung
    obtain ⟨w, heq, hledger, hdrops⟩ := dropChild_eq hw ho
    obtain ⟨htidy, hp⟩ := drop_tidy hw ho h href hyoung hdrops
    rw [heq] at ih ⊢
    obtain ⟨w', heq', htidy', hhandles'⟩ := ih hledger htidy hp
    exact ⟨w', heq', htidy', hhandles'.trans hdrops.handles⟩

end Removing

end Machine

/-! ## A child that joins -/

namespace World

section Joining

variable {w : World α} {ms : Marks} {p : WatcherId} {b : Watcher α}

/-- A child that joins a closed watcher has an id there, and no subscription. -/
theorem Tidy.join_closed (h : w.Tidy ms none) (hw : w.Ledger) (hp : w.hasHandle p = true)
    (hb : w.watcher? p = some b) (hcl : b.closed = true) (name : String) (d : Derivation α) :
    ((w.addWatcher { name, origin := .child p b.registry.nextId d }).reserve p).Tidy
      { ms with constructed := w.watchers.length :: ms.constructed } none := by
  have hsound : ((w.addWatcher { name, origin := .child p b.registry.nextId d }).reserve
      p).SoundRegistries :=
    ((Joins.child name d).sound hw.sound).modify p fun _ hb => hb.reserve
  refine h.conceive hw hp (l := b.registry.nextId) (d := d) ?_ ?_ ?_ rfl rfl ?_ ?_
  · intro j
    rw [origin?_reserve, origin?_addWatcher]
  · intro j
    rw [isClosed_reserve, isClosed_addWatcher _ _ _ rfl]
  · intro j
    rw [reserve, isDropped_modify, isDropped_addWatcher _ _ _ rfl]
    exact fun _ => rfl
  · intro c q k d' _
    rw [Bool.eq_iff_iff, isRegistered_iff hsound, isRegistered_iff hw.sound,
      registration?_reserve, (Joins.child name d).registration?_eq]
  · intro hopen
    rw [isClosed_of_watcher? hb, hcl] at hopen
    exact nomatch hopen

/-- A child that joins an open watcher is subscribed. -/
theorem Tidy.join_open (h : w.Tidy ms none) (hw : w.Ledger) (hp : w.hasHandle p = true)
    (hb : w.watcher? p = some b) (name : String) (d : Derivation α) :
    ((w.addWatcher { name, origin := .child p b.registry.nextId d }).enrol p
      (.subscription w.watchers.length) ⟨.inline, fun _ => []⟩).Tidy
      { ms with constructed := w.watchers.length :: ms.constructed } none := by
  have hj : w.Joins p b (.subscription w.watchers.length) ⟨.inline, fun _ => []⟩
      (w.addWatcher { name, origin := .child p b.registry.nextId d }) := .child name d
  have hsound : ((w.addWatcher { name, origin := .child p b.registry.nextId d }).enrol p
      (.subscription w.watchers.length) ⟨.inline, fun _ => []⟩).SoundRegistries :=
    (hj.sound hw.sound).enrol p _ _
  refine h.conceive hw hp (l := b.registry.nextId) (d := d) ?_ ?_ ?_ rfl rfl ?_ ?_
  · intro j
    rw [origin?_enrol, origin?_addWatcher]
  · intro j
    rw [isClosed_enrol, isClosed_addWatcher _ _ _ rfl]
  · intro j
    rw [enrol, isDropped_modify, isDropped_addWatcher _ _ _ rfl]
    exact fun _ => rfl
  · intro c q k d' ho
    rw [Bool.eq_iff_iff, isRegistered_iff hsound, isRegistered_iff hw.sound,
      registration?_joined hw.sound hb hj, if_neg (Ledger.ne_nextId hb (hw.parent ho).2)]
  · intro _
    rw [isRegistered_iff hsound, registration?_joined hw.sound hb hj, if_pos ⟨rfl, rfl⟩]
    exact ⟨_, rfl, rfl⟩

end Joining

/-- The first update is handed to a child under construction by an executor without operations:
nothing but a call can come to stand there. -/
theorem Ran.hushed {w w' : World α} {t : Task α} {frames : List (Frame α)} (h : w.Ran t w' frames)
    {site : Site} {name : Name} {c : WatcherId} {stk : List (Frame α)}
    (hhushed : Hushed (script site [] :: constructing name c :: stk)) :
    Hushed (frames ++ script site [] :: constructing name c :: stk) := by
  have hcalling : (calling t : Frame α).SitsOn (script site [] :: constructing name c :: stk) :=
    ⟨t, rfl⟩
  cases h with
  | inactive => exact hhushed
  | stale => exact hhushed
  | called _ _ _ _ _ _ hcalls =>
    cases hcalls with
    | observer => exact ⟨trivial, hcalling, hhushed⟩
    | child => exact ⟨trivial, trivial, hcalling, hhushed⟩

end World

namespace Machine

section Beginning

variable {m : Machine α}

theorem Settled.hold (h : m.Settled) {id : WatcherId} (hh : m.world.hasHandle id = true) :
    (m.push (.holding id)).Settled where
  tidy := h.tidy.hold hh
  named := h.named
  hushed := ⟨sitsOn_of_not_sensitive h.still _, h.hushed⟩
  still hs := hs
  calm := Control.calm_proceed

theorem handOver_hushed {w : World α} {t : Task α} {r : Registration α}
    (hr : w.registration? t.watcher t.listener = some r) (ha : r.active = true)
    (he : r.executor = ⟨.inline, fun _ => []⟩)
    (hfed : ∀ child, r.listener = .subscription child → w.Feeds t child) {name : Name}
    {c : WatcherId} {stk : List (Frame α)} (hhushed : Hushed (constructing name c :: stk)) :
    Hushed (handOver ⟨w, constructing name c :: stk, .proceed⟩ t).stack := by
  rw [handOver_eq _ hr ha]
  simp only [he]
  set site := Site.executor t.watcher t.listener
  obtain ⟨w', frames, hran, heq⟩ := run_eq
    (w := w.handOver (onPoller ⟨w, constructing name c :: stk, .proceed⟩) t) (t := t)
    (.script site [] :: constructing name c :: stk) .proceed
    (by rw [World.registration?_handOver, if_pos ⟨rfl, rfl⟩, hr]; rfl)
    (fun child hl => by
      obtain ⟨d, ho⟩ := hfed child hl
      exact ⟨d, (World.origin?_handOver _ _ _ _).trans ho⟩) false
  rw [heq]
  exact hran.hushed ⟨⟨site, rfl⟩, hhushed⟩

theorem Settled.conceive (h : m.Settled) (hw : m.world.Ledger) {p : WatcherId} {b : Watcher α}
    (hp : m.world.hasHandle p = true) (hb : m.world.watcher? p = some b) (name : Name)
    (label : String) (d : Derivation α) :
    (register ⟨m.world.addWatcher { name := label, origin := .child p b.registry.nextId d },
      .constructing name m.world.watchers.length :: .holding p :: m.stack, .proceed⟩ p b
      (.subscription m.world.watchers.length) ⟨.inline, fun _ => []⟩).Orderly := by
  have hheld := h.hold hp
  have hhushed : Hushed (constructing name m.world.watchers.length :: holding p :: m.stack) :=
    ⟨sitsOn_of_not_sensitive hheld.still _, hheld.hushed⟩
  have hj : m.world.Joins p b (.subscription m.world.watchers.length) ⟨.inline, fun _ => []⟩
      (m.world.addWatcher { name := label, origin := .child p b.registry.nextId d }) :=
    .child label d
  unfold register
  by_cases hcl : b.closed = true
  · rw [if_pos hcl]
    have htidy := hheld.tidy.join_closed hw hp hb hcl label d
    exact ⟨htidy.sameSubscriptions (.note _ _ _), h.named, hhushed,
      fun _ hc => absurd hc (Control.calm_proceed _)⟩
  · rw [if_neg hcl]
    have htidy := hheld.tidy.join_open hw hp hb label d
    cases hs : b.latest with
    | none => exact ⟨htidy, h.named, hhushed, fun _ hc => absurd hc (Control.calm_proceed _)⟩
    | some s =>
      let t : Task α := ⟨p, b.registry.nextId, b.updates, s⟩
      let w' := (m.world.addWatcher
        { name := label, origin := .child p b.registry.nextId d }).enrol p
          (.subscription m.world.watchers.length) ⟨.inline, fun _ => []⟩
      have hr := World.registration?_joined hw.sound hb hj p b.registry.nextId
      rw [if_pos ⟨rfl, rfl⟩] at hr
      have hfed : ∀ child, Listener.subscription m.world.watchers.length =
          (.subscription child : Listener α) → w'.Feeds t child := fun child hl => by
        obtain ⟨d', ho⟩ := hj.origin?_subscription hl
        exact ⟨d', (World.origin?_enrol _ _ _ _ _).trans ho⟩
      have hkeeps := ((Changes.handOver_ofTask ⟨w', constructing name m.world.watchers.length ::
        holding p :: m.stack, .proceed⟩ t).mono Effect.sparesSubscriptions_of_ofTask).keepsTidy
      exact ⟨hkeeps.tidy htidy, hkeeps.named h.named, handOver_hushed hr rfl rfl hfed hhushed,
        fun _ hc => absurd hc (hkeeps.calm Control.calm_proceed _)⟩

/-! ## Operations -/

theorem withHandle_orderly (h : m.Settled) (name : Name) {f : Handle → Watcher α → Machine α}
    (hf : ∀ hd b, m.world.hasHandle hd.target = true → m.world.watcher? hd.target = some b →
      (f hd b).Orderly) : (m.withHandle name f).Orderly := by
  unfold withHandle
  cases hr : m.world.resolve? name with
  | none => exact (h.changes (.answer m _)).orderly
  | some x =>
    exact hf x.1 x.2 (World.hasHandle_of_resolve? hr) (World.resolve?_eq_some hr).2

/-- A watcher with a handle gets another one. -/
theorem Settled.enhandle (h : m.Settled) {name : Name} (hnone : m.world.handle? name = none)
    (hd : Handle) (hh : m.world.hasHandle hd.target = true) :
    (m.inWorld fun w => { w with handles := w.handles.bind name hd }).Settled := by
  refine ⟨h.tidy.enhandle (h.tidy.known (.inl hh)) ?_ ?_ (World.hasHandle_bind_of_none hnone hd),
    h.named.bind name hd, h.hushed, h.still, h.calm⟩
  · rw [← Bool.not_eq_true]
    intro hdr
    rw [(h.tidy.gone hdr).1] at hh
    exact nomatch hh
  · intro hyoung
    rw [(h.tidy.young hyoung).2.1] at hh
    exact nomatch hh

theorem Settled.share (h : m.Settled) (watcher name : Name) (bare : Bool) :
    (m.share watcher name bare).Orderly := by
  refine withHandle_orderly h watcher fun hd b hh hb => ?_
  split
  · exact (h.changes (.answer m _)).orderly
  · rename_i hcond
    have hnone : m.world.handle? name = none := by
      rw [← Option.not_isSome_iff_eq_none]
      intro hsome
      exact hcond (by rw [hsome]; rfl)
    refine ((h.enhandle hnone _ ?_).changes (.answer _ _)).orderly
    cases bare <;> exact hh

theorem Settled.addRoot (h : m.Settled) (name label : Name) (plain : Bool) :
    (m.addRoot name label plain).Orderly := by
  unfold Machine.addRoot
  split
  · exact (h.changes (.answer m _)).orderly
  · rename_i hcond
    have hnone : m.world.handle? name = none := by
      rw [← Option.not_isSome_iff_eq_none]
      exact hcond
    have hunknown : m.world.origin? m.world.watchers.length = none := by
      unfold World.origin?
      rw [World.watcher?_length]
      rfl
    set w := m.world.addWatcher { name := label, origin := .root }
    set hd : Handle := ⟨m.world.watchers.length, if plain then .plainRoot else .root⟩
    have hknown : (w.origin? hd.target).isSome = true := by
      rw [World.origin?_addWatcher, if_pos rfl]
      rfl
    have halive : w.isDropped hd.target = false := by
      rw [World.isDropped_addWatcher _ _ _ rfl]
      unfold World.isDropped
      rw [World.watcher?_length]
      rfl
    have hyoung : hd.target ∉ (marks m.stack).constructed := by
      intro hmem
      have hsome := h.tidy.known (.inr (.inr hmem))
      rw [hunknown] at hsome
      exact nomatch hsome
    have htidy := (h.tidy.plant label).enhandle hknown halive hyoung
      (World.hasHandle_bind_of_none (w := w) hnone hd)
    exact Settled.orderly ⟨htidy, h.named.bind name hd, h.hushed, h.still, Control.calm_answer _⟩

theorem Settled.unwatch (h : m.Settled) (hw : m.world.Ledger) (id : WatcherId) (l : ListenerId) :
    (m.unwatch id l).Settled := by
  unfold Machine.unwatch
  simp only
  split
  · rename_i hfound
    rw [hfound]
    exact ⟨h.tidy.unwatch hw _ id l, h.named, h.hushed, h.still, Control.calm_answer _⟩
  · exact h.changes ((Changes.record m (by nofun)).trans (.answer _ _))

theorem Settled.dropHandle (h : m.Settled) (hw : m.world.Ledger) (name : Name) :
    (m.dropHandle name).Orderly := by
  unfold Machine.dropHandle
  split
  · exact (h.changes (.answer m _)).orderly
  · rename_i hd hh
    have hless : ∀ c, World.hasHandle
        { m.world with handles := m.world.handles.unbind name } c = true →
        m.world.hasHandle c = true := fun c hc => by
      obtain ⟨b, hb, -, ht⟩ := (World.hasHandle_unbind_iff _ _ _).mp hc
      exact (World.hasHandle_iff _ _).mpr ⟨b, hb, ht⟩
    have hmore : ∀ c, m.world.hasHandle c = true → c = hd.target ∨ World.hasHandle
        { m.world with handles := m.world.handles.unbind name } c = true := fun c hc =>
      (World.hasHandle_or_of_handle? h.named hh hc).imp_right
        (World.hasHandle_unbind_iff _ _ _).mpr
    obtain ⟨htidy, hyoung⟩ := h.tidy.unbind (World.hasHandle_of_handle? hh) hless hmore
    obtain ⟨w, heq, hreleased, hhandles⟩ := release_tidy hd.target
      (m := m.inWorld fun w => { w with handles := w.handles.unbind name }) (hw.of_eq rfl rfl)
      htidy hyoung
    rw [heq]
    refine Settled.orderly ⟨hreleased, ?_, h.hushed, h.still, Control.calm_answer _⟩
    show w.handles.Unambiguous
    rw [hhandles]
    exact h.named.unbind name

theorem Settled.unwind (h : m.Settled) (hg : Guarded m.stack) (payload : Payload) :
    (m.unwind payload).Orderly := ⟨h.tidy, h.named, h.hushed, fun _ _ => hg⟩

theorem Settled.startPoller (h : m.Settled) (hg : Guarded m.stack) (watcher : Name)
    (config : PollConfig) (script : Script α) (ending : PollEnd) :
    (m.startPoller watcher config script ending).Orderly := by
  refine withHandle_orderly h watcher fun hd b hh hb => ?_
  have hready : (m.setStopped false).Settled :=
    ⟨h.tidy.sameSubscriptions (.of_eq rfl rfl rfl), h.named, h.hushed, h.still, h.calm⟩
  split
  · exact (h.changes (.answer m _)).orderly
  · split
    · exact ((hready.hold hh).changes (.push_of _ (.polling _) rfl trivial)).orderly
    · exact ((hready.hold hh).changes (.push_of _ (.polling _) rfl trivial)).orderly
    · exact h.unwind hg _
    · exact h.unwind hg _
    · exact (h.changes (.answer m _)).orderly

/-- An operation that begins. -/
theorem perform_orderly [BEq α] (h : m.Settled) (hw : m.world.Ledger) (hg : Guarded m.stack)
    (op : Op α) : (m.perform op).Orderly := by
  cases op with
  | root name label plain => exact h.addRoot name label plain
  | push watcher revision value =>
    refine withHandle_orderly h watcher fun hd b hh hb => ?_
    split
    · exact ((h.hold hh).walk (.offer _ _ _ trivial trivial)).orderly
    · exact ((h.hold hh).walk (.offer _ _ _ trivial trivial)).orderly
    · exact (h.changes (.answer m _)).orderly
  | child watcher name label apply actions =>
    refine withHandle_orderly h watcher fun hd b hh hb => ?_
    split
    · exact (h.changes (.answer m _)).orderly
    · cases label with
      | error e => exact (h.changes (.answer m _)).orderly
      | ok label => exact h.conceive hw hh hb name _ ⟨name, apply, actions⟩
  | share watcher name bare => exact h.share watcher name bare
  | drop watcher => exact h.dropHandle hw watcher
  | watch watcher label valueOnly disposal onHandover actions =>
    refine withHandle_orderly h watcher fun hd b hh hb => ?_
    have hwatching := (h.hold hh).changes (.push _ (f := .watching label b.registry.nextId) nofun)
    exact ((KeepsTidy.register (m := (m.push _).push _) hw hb _ _).settled hwatching).orderly
  | unwatch watcher label =>
    refine withHandle_orderly h watcher fun hd b hh hb => ?_
    split
    · exact (h.changes (.answer m _)).orderly
    · exact (h.unwatch hw _ _).orderly
  | close watcher =>
    exact withHandle_orderly h watcher fun hd b hh hb => ((h.hold hh).close hw _).orderly
  | poll watcher config script ending => exact h.startPoller hg watcher config script ending
  | panic payload => exact h.unwind hg payload
  | _ =>
    refine (h.walk (Walk.perform m fun e he => ?_)).orderly
    cases e <;> trivial

end Beginning

/-! ## Steps -/

section Stepping

variable {w : World α} {f : Frame α} {stk : List (Frame α)} {c : Control α}

theorem Orderly.leave (h : Orderly ⟨w, f :: stk, c⟩) (hf : f.isMark = false) {c' : Control α}
    (hc : c'.Calm) : Orderly ⟨w, stk, c'⟩ := by
  refine ⟨?_, h.named, h.hushed.2, fun payload hp => absurd hp (hc payload)⟩
  have htidy := h.tidy
  rwa [marks_of_unmarked hf] at htidy

/-- Below a frame that is no call and no script at its end, no child is under construction. -/
theorem Orderly.pop (h : Orderly ⟨w, f :: stk, c⟩) (hf : f.isMark = false)
    (hscript : ∀ site, f ≠ script site []) (hcall : ∀ t, f ≠ calling t) {c' : Control α}
    (hc : c'.Calm) : Settled ⟨w, stk, c'⟩ :=
  ⟨(h.leave hf hc).tidy, h.named, h.hushed.2,
    not_sensitive_of_sitsOn h.hushed.1 hscript hcall, hc⟩

/-- An operation lets go of its watcher. -/
theorem Orderly.unhold {id : WatcherId} (h : Orderly ⟨w, holding id :: stk, c⟩) (hw : w.Ledger)
    (hg : ∀ payload, c = .unwind payload → Guarded stk) : (release ⟨w, stk, c⟩ id).Orderly := by
  have hmarks : w.Tidy { marks stk with held := id :: (marks stk).held } none := h.tidy
  obtain ⟨htidy, hyoung⟩ := hmarks.unhold
  obtain ⟨w', heq, hreleased, hhandles⟩ :=
    release_tidy id (m := ⟨w, stk, c⟩) hw htidy hyoung
  rw [heq]
  refine ⟨hreleased, ?_, h.hushed.2, hg⟩
  show w'.handles.Unambiguous
  rw [hhandles]
  exact h.named

/-- A child gets its handle, and the watcher that had the name is released. -/
theorem Orderly.christen [BEq α] {name : Name} {child : WatcherId}
    (h : Orderly ⟨w, constructing name child :: stk, c⟩) (hw : w.Ledger) :
    (resume ⟨w, stk, c⟩ (.constructing name child)).Orderly := by
  have hhas : ∀ j, World.hasHandle
      { w with handles := w.handles.bind name ⟨child, .child⟩ } j = true →
      j = child ∨ w.hasHandle j = true := fun j hj => by
    rcases (World.hasHandle_bind_iff _ _ _ _).mp hj with rfl | ⟨b, hb, -, ht⟩
    · exact .inl rfl
    · exact .inr ((World.hasHandle_iff _ _).mpr ⟨b, hb, ht⟩)
  have hown : World.hasHandle
      { w with handles := w.handles.bind name ⟨child, .child⟩ } child = true :=
    (World.hasHandle_bind_iff _ _ _ _).mpr (.inl rfl)
  have hnamed := h.named.bind name (⟨child, .child⟩ : Handle)
  have hmarks : w.Tidy { marks stk with constructed := child :: (marks stk).constructed } none :=
    h.tidy
  unfold resume
  simp only
  cases hh : w.handle? name with
  | none =>
    have htidy := hmarks.christen none hhas hown
      fun j hj => .inr ((World.hasHandle_bind_of_none hh _ _).mpr (.inr hj))
    exact ⟨htidy, hnamed, h.hushed.2, fun _ hc => absurd hc (Control.calm_answer _ _)⟩
  | some hd =>
    have htidy := hmarks.christen (some hd.target) hhas hown
      fun j hj => by
        rcases World.hasHandle_or_of_handle? h.named hh hj with rfl | hb
        · exact .inl rfl
        · exact .inr ((World.hasHandle_bind_iff _ _ _ _).mpr (.inr hb))
    have hyoung : hd.target ∉ (marks stk).constructed := fun hmem => by
      have hno := (h.tidy.young (List.mem_cons_of_mem _ hmem)).2.1
      rw [World.hasHandle_of_handle? hh] at hno
      exact nomatch hno
    obtain ⟨w', heq, hreleased, hhandles⟩ := release_tidy hd.target
      (m := ⟨{ w with handles := w.handles.bind name ⟨child, .child⟩ }, stk, c⟩)
      (hw.of_eq rfl rfl) htidy hyoung
    simp only [inWorld]
    rw [heq]
    refine ⟨hreleased, ?_, h.hushed.2, fun _ hc => absurd hc (Control.calm_answer _ _)⟩
    show w'.handles.Unambiguous
    rw [hhandles]
    exact hnamed

theorem Settled.fetchNext {m : Machine α} (h : m.Settled) (hw : m.world.Ledger) (p : Polling α) :
    (m.fetchNext p).Settled := by
  have hfinish := h.changes (.finish m p)
  unfold Machine.fetchNext
  split
  · exact hfinish
  · split
    · exact hfinish
    · split
      · split
        · exact (h.changes (.push_of m (.ending p) rfl trivial)).close hw _
        · exact h.changes ((Changes.stop m).trans (.finish _ p))
      · exact h.changes (((Changes.push_of _ (.fetching _ _) rfl trivial).trans
          (.record_of _ (.fetched _) rfl ⟨trivial, nofun⟩)).trans (.push _ nofun))
      · exact h.changes ((Changes.push_of _ (.polling _) rfl trivial).trans (.push _ nofun))

/-- A frame that goes on. -/
theorem resume_orderly [BEq α] (h : Orderly ⟨w, f :: stk, c⟩) (hw : w.Ledger) (hc : c.Calm) :
    (resume ⟨w, stk, c⟩ f).Orderly := by
  cases f with
  | holding id => exact h.unhold hw fun _ hp => absurd hp (hc _)
  | script site todo =>
    cases todo with
    | nil => exact h.leave rfl Control.calm_proceed
    | cons op rest =>
      have hpop := h.pop rfl (by simp) (by simp) hc
      have hpush := hpop.changes (.push _ (f := .script site rest) nofun)
      exact perform_orderly hpush hw ⟨hpush.still, by rintro f ⟨⟩; simp⟩ op
  | calling t => exact h.leave rfl Control.calm_proceed
  | constructing name child => exact h.christen hw
  | closing id n =>
    have hstill := not_sensitive_of_sitsOn h.hushed.1 (by simp) (by simp)
    have hlog : (log ⟨w, stk, c⟩ id (.closed n)).world.Tidy
        { marks stk with closing := id :: (marks stk).closing } none :=
      h.tidy.sameSubscriptions (.note _ _ _)
    have hdetached := Settled.detach (m := log ⟨w, stk, c⟩ id (.closed n)) h.named h.hushed.2
      hstill hc hlog (hw.alike (.note _ _ rfl)) .detached
    exact (hdetached.changes (.answer _ _)).orderly
  | polling p => exact ((h.pop rfl (by simp) (by simp) hc).fetchNext hw p).orderly
  | _ =>
    refine ((h.pop rfl (by simp) (by simp) hc).walk (Walk.resume _ _ fun e he => ?_)).orderly
    cases e <;> trivial

/-- Only a waker's operations stand where wakers are being woken. -/
theorem waker_of_stands {ws : List Name} (h : f.Stands w (waking ws :: stk)) :
    ∃ name todo, f = script (.waker name) todo := by
  cases f with
  | script site todo =>
    cases site with
    | waker name => exact ⟨name, todo, rfl⟩
    | _ => simp [Stands, OnDelivering] at h
  | _ => simp [Stands, World.Operable, OnCompleting, OnOffering, OnRunning, OnHolding, OnClosing]
      at h

/-- Only the waking of wakers stands where a watcher is being closed. -/
theorem waking_of_stands {id : WatcherId} {n : Nat} (h : f.Stands w (closing id n :: stk)) :
    ∃ ws, f = waking ws := by
  cases f with
  | waking ws => exact ⟨ws, rfl⟩
  | script site todo => cases site <;> simp [Stands, OnDelivering] at h
  | _ => simp [Stands, World.Operable, OnOffering, OnRunning, OnHolding, OnClosing] at h

/-- A panic that takes a frame off, and is no waker's, may reach the next one. -/
theorem guarded_of_stands (hg : Guarded (f :: stk)) (hs : f.Stands w stk) (hsits : f.SitsOn stk)
    (hcall : ∀ t, f ≠ calling t) (hwaker : ∀ name todo, f ≠ script (.waker name) todo) :
    Guarded stk := by
  refine ⟨fun hsensitive => ?_, ?_⟩
  · unfold Sensitive at hsensitive
    split at hsensitive
    · obtain ⟨site, rfl⟩ := hsits
      exact hg.1 trivial
    · obtain ⟨t, rfl⟩ := hsits
      exact hcall t rfl
    · exact hsensitive
  · cases stk with
    | nil => exact fun _ hnil => nomatch hnil
    | cons g stk =>
      rintro _ ⟨⟩
      constructor
      · rintro ws rfl
        obtain ⟨name, todo, heq⟩ := waker_of_stands hs
        exact hwaker name todo heq
      · rintro id n rfl
        obtain ⟨ws, rfl⟩ := waking_of_stands hs
        exact (hg.2 _ rfl).1 ws rfl

/-- A panic that reaches a frame. -/
theorem unwound_orderly [BEq α] {payload : Payload}
    (h : Orderly ⟨w, f :: stk, .unwind payload⟩) (hw : w.Ledger) (hs : f.Stands w stk)
    (hwaker : ∀ name todo, f ≠ script (.waker name) todo) :
    (unwound ⟨w, stk, .unwind payload⟩ payload f).Orderly := by
  have hg := h.guarded payload rfl
  have hbelow : (∀ t, f ≠ calling t) → Guarded stk := fun hcall =>
    guarded_of_stands hg hs h.hushed.1 hcall hwaker
  have hpass : f.isMark = false → (∀ t, f ≠ calling t) → Orderly ⟨w, stk, .unwind payload⟩ :=
    fun hf hcall => ⟨(h.leave hf Control.calm_proceed).tidy, h.named, h.hushed.2,
      fun _ _ => hbelow hcall⟩
  cases f with
  | holding id => exact h.unhold hw fun _ _ => hbelow (by simp)
  | calling t =>
    have hleft : Orderly ⟨w, stk, .proceed⟩ := h.leave rfl Control.calm_proceed
    exact ⟨hleft.tidy.sameSubscriptions (.note _ _ _), hleft.named, hleft.hushed,
      fun _ hc => absurd hc (Control.calm_proceed _)⟩
  | applying child s =>
    exact ((h.pop rfl (by simp) (by simp) Control.calm_proceed).walk
      (.settle _ child s.revision (.panicked payload) trivial trivial trivial)).orderly
  | fetching p | pushing p =>
    exact ((h.pop rfl (by simp) (by simp) Control.calm_proceed).changes
      (.fail _ p (pollPanic payload) trivial)).orderly
  | polling p =>
    exact ((h.pop rfl (by simp) (by simp) Control.calm_proceed).fetchNext hw p).orderly
  | ending p =>
    have hleft := hpass rfl (by simp)
    exact ⟨hleft.tidy.sameSubscriptions (.note _ _ _), hleft.named, hleft.hushed, hleft.guarded⟩
  | constructing name child => exact absurd trivial hg.1
  | closing id n => exact absurd rfl ((hg.2 _ rfl).2 id n)
  | _ => exact hpass rfl (by simp)

end Stepping

/-- No panic is about to leave a waker. -/
def wakersCalm (m : Machine α) : Bool :=
  match m.control, m.stack with
  | .unwind _, .script (.waker _) _ :: _ => false
  | _, _ => true

theorem step_orderly [BEq α] {m : Machine α} (h : m.Orderly) (hm : m.WellFormed)
    (hwaker : m.wakersCalm = true) : m.step.Orderly := by
  obtain ⟨w, stk, c⟩ := m
  cases stk with
  | nil => exact h
  | cons f stk =>
    cases c with
    | unwind payload =>
      refine unwound_orderly h hm.ledger hm.stacked.1 ?_
      rintro name todo rfl
      exact nomatch hwaker
    | proceed => exact resume_orderly h hm.ledger Control.calm_proceed
    | answer a =>
      cases f with
      | script site todo =>
        exact ⟨h.tidy.sameSubscriptions (.note _ _ _), h.named, h.hushed,
          fun _ hc => absurd hc (Control.calm_proceed _)⟩
      | holding id => exact h.unhold hm.ledger fun _ hp => nomatch hp
      | _ => exact resume_orderly h hm.ledger (Control.calm_answer a)

theorem start_orderly [BEq α] {m : Machine α} (h : m.Orderly) (hm : m.WellFormed)
    (hs : m.stack = []) (op : Op α) : (m.world.start op).Orderly := by
  have htidy := h.tidy
  rw [hs] at htidy
  have hsettled : Settled ({ world := m.world } : Machine α) :=
    ⟨htidy, h.named, trivial, fun hs => hs, Control.calm_proceed⟩
  exact perform_orderly hsettled hm.ledger ⟨hsettled.still, fun _ hnil => nomatch hnil⟩ op

variable [BEq α] {P : Machine α → Prop} {m m' : Machine α}

theorem Next.orderly (h : m.Next m') (hm : m.WellFormed) (ho : m.Orderly)
    (hw : m.wakersCalm = true) : m'.Orderly := by
  cases h with
  | start op hs => exact start_orderly ho hm hs op
  | step hs => exact step_orderly ho hm hw

/-- Where no waker panics every machine is orderly. -/
theorem Reached.orderly (h : m.Reached P) (hP : ∀ m, P m → m.wakersCalm = true) :
    m.Orderly := by
  induction h with
  | initial =>
    exact ⟨.initial, List.nodup_nil, trivial, fun _ hc => absurd hc (Control.calm_proceed _)⟩
  | next hr hm hn ih => exact hn.orderly hr.wellFormed ih (hP _ hm)

end Machine

end WatchTree
