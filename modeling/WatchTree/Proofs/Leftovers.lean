import WatchTree.Proofs.Detachment

/-!
# What a registration that fails leaves behind

`watch` enters the listener into the registry before it hands over the latest state, and the
executor may panic with it. The panic passes the call without undoing anything
(`failed_watch_leaves_nothing_iff`), so the listener stays, under an id that nobody was told:

1. a registration that is no child's is there until its watcher is closed or it is taken out on
   request (`World.Lingers`), and
2. one that is gone is neither called nor handed anything again (`Later.handoversTo_eq`).
-/

namespace WatchTree

variable {α : Type}

/-! ## Nothing is handed to a registration that is gone -/

section Handovers

variable [BEq α] {P : Machine α → Prop} {w w' : World α} {m m' : Machine α} {id : WatcherId}
  {l : ListenerId}

omit [BEq α] in
theorem World.handoversTo_congr (h : Event.handovers w'.events = Event.handovers w.events)
    (id : WatcherId) (l : ListenerId) :
    Event.handoversTo id l w'.events = Event.handoversTo id l w.events := by
  unfold Event.handoversTo
  rw [h]

theorem World.Alters.handoversTo_eq (h : w.Alters w') (hs : w.Shut) (hg : w.Gone id l) :
    Event.handoversTo id l w'.events = Event.handoversTo id l w.events := by
  cases h with
  | enrol hb hcl hj | reserve hb hcl hj =>
    exact handoversTo_congr (congrArg Event.handovers hj.events_eq) id l
  | retire | close => rfl
  | adopt p =>
    refine handoversTo_congr ?_ id l
    rw [events_modify, events_note, Event.handovers_append]
    exact List.append_nil _
  | @handOver p t r hr ha =>
    have hnot : ¬ t.isFor id l := by
      rintro ⟨rfl, rfl⟩
      exact nomatch (hg.inactive hs hr).symm.trans ha
    have hnone : Event.handoversTo id l [Event.handedOver t] = [] :=
      List.filter_cons_of_neg (by simpa using hnot)
    unfold Event.handoversTo at hnone ⊢
    rw [events_handOver, Event.handovers_append, List.filter_append, hnone, List.append_nil]

theorem World.Rearranges.handoversTo_eq (h : w.Rearranges w') (hw : w.Ledger) (hs : w.Shut)
    (hg : w.Gone id l) :
    Event.handoversTo id l w'.events = Event.handoversTo id l w.events := by
  induction h with
  | refl => rfl
  | tail hfirst hstep ih =>
    have hx := (hw.rearranges hfirst).2
    rcases hstep with halike | halters
    · exact (handoversTo_congr halike.handovers id l).trans ih
    · exact (halters.handoversTo_eq (hs.rearranges hw hfirst) (hg.of_extends hx)).trans ih

theorem Runs.handoversTo_eq {t : Task α} (h : Runs m t m') (hm : m.WellFormed)
    (hs : m.world.Shut) (hg : m.world.Gone id l) :
    Event.handoversTo id l m'.world.events = Event.handoversTo id l m.world.events := by
  obtain ⟨w₁, w₂, hfirst, htries, halike⟩ := h.changes hm
  obtain ⟨r, called, htried⟩ := htries.tried
  exact (World.handoversTo_congr (halike.handovers.trans htried.handovers) id l).trans
    (hfirst.handoversTo_eq hm.ledger hs hg)

/-- Nothing is handed to a registration that is gone. -/
theorem Machine.Later.handoversTo_eq (h : m.Later P m') (hm : m.WellFormed) (hs : m.world.Shut)
    (hg : m.world.Gone id l) :
    Event.handoversTo id l m'.world.events = Event.handoversTo id l m.world.events := by
  refine (h.invariant (I := fun x => (x.world.Shut ∧ x.world.Gone id l) ∧
    Event.handoversTo id l x.world.events = Event.handoversTo id l m.world.events)
    hm ⟨⟨hs, hg⟩, rfl⟩ ?_ ?_).2.1.2
  · rintro x x' hx ⟨⟨hs, hg⟩, hsame⟩ hmove
    have hr := hmove.rearranges hx
    exact ⟨⟨hs.rearranges hx.ledger hr, hg.of_extends (hx.ledger.rearranges hr).2⟩,
      (hr.handoversTo_eq hx.ledger hs hg).trans hsame⟩
  · rintro x t x' hx ⟨⟨hs, hg⟩, hsame⟩ hruns
    exact ⟨⟨hruns.shut hx hs, hg.of_extends (hruns.ledger hx).2⟩,
      (hruns.handoversTo_eq hx hs hg).trans hsame⟩

end Handovers

/-! ## Why a registration stays -/

namespace World

/-- A registration that is no child's is there until its watcher is closed or it is taken out on
request. -/
structure Lingers (w : World α) (id : WatcherId) (l : ListenerId) : Prop where
  issued : l.number ≤ w.lastId id
  free : ∀ c d, w.origin? c ≠ some (.child id l d)
  registered : w.isRegistered id l = true ↔
    w.isClosed id = false ∧ .unwatched id l true ∉ w.events

variable {w w' : World α} {id : WatcherId} {l : ListenerId}

/-- What was registered earlier and is not any more is gone. -/
theorem Extends.gone (hx : w.Extends w') (hw : w.Ledger) (hw' : w'.Ledger)
    (hreg : w.isRegistered id l = true) (hnot : w'.isRegistered id l = false) : w'.Gone id l := by
  obtain ⟨r, hr, -⟩ := (isRegistered_iff hw.sound _ _).mp hreg
  obtain ⟨r', hr', -⟩ := hx.registration hr
  refine .inr ⟨r', hr', ?_⟩
  rw [← Bool.not_eq_true] at hnot ⊢
  exact fun ha => hnot ((isRegistered_iff hw'.sound _ _).mpr ⟨r', hr', ha⟩)

namespace Lingers

theorem keep (h : w.Lingers id l) (ht : w.SameEntries w') : w'.Lingers id l where
  issued := by
    rw [ht.lastId]
    exact h.issued
  free c d := by
    rw [ht.origin]
    exact h.free c d
  registered := by
    rw [ht.registered, ht.closed, ht.unwatched_iff]
    exact h.registered

/-! ### New registrations -/

section New

variable {b : Watcher α} (hw : w.Ledger) (hb : w.watcher? id = some b)

include hb in
theorem issued_nextId {f : Registry α → Registry α}
    (hf : (f b.registry).lastId = b.registry.lastId + 1) :
    b.registry.nextId.number ≤ (w.mapRegistry id f).lastId id := by
  unfold mapRegistry
  rw [lastId_of_watcher? (watcher?_modify_self hb _)]
  exact Nat.le_of_eq hf.symm

include hw hb in
theorem free_nextId {f : Registry α → Registry α} (c : WatcherId) (d : Derivation α) :
    (w.mapRegistry id f).origin? c ≠ some (.child id b.registry.nextId d) := by
  intro ho
  rw [origin?_mapRegistry] at ho
  exact Ledger.ne_nextId hb (hw.parent ho).2 ⟨rfl, rfl⟩

include hw hb

/-- An open watcher registers a listener under its next id. -/
theorem of_enrol (hcl : b.closed = false) (hun : .unwatched id b.registry.nextId true ∉ w.events)
    (label : Name) (valueOnly : Bool) (actions : Actions α) (executor : Executor α) :
    (w.enrol id (.observer label valueOnly actions) executor).Lingers id b.registry.nextId where
  issued := issued_nextId hb (f := fun r => r.insert _ executor) rfl
  free := free_nextId hw hb (f := fun r => r.insert _ executor)
  registered := by
    have hj : w.Joins id b (.observer label valueOnly actions) executor w :=
      .observer label valueOnly actions executor
    rw [hj.isRegistered_enrol hw hb, isClosed_enrol, events_enrol]
    exact iff_of_true (.inr ⟨rfl, rfl⟩) ⟨(isClosed_of_watcher? hb).trans hcl, hun⟩

/-- A closed watcher uses the id up. -/
theorem of_reserve (hcl : b.closed = true) : (w.reserve id).Lingers id b.registry.nextId where
  issued := issued_nextId hb rfl
  free := free_nextId hw hb
  registered := by
    rw [isRegistered_reserve, isClosed_reserve, isRegistered_nextId hb hw.sound,
      isClosed_of_watcher? hb, hcl]
    exact iff_of_false Bool.false_ne_true fun h => nomatch h.1

end New

/-! ### Other changes -/

section Joining

variable {j : WatcherId} {b : Watcher α} {listener : Listener α} {executor : Executor α}
  (h : w.Lingers id l) (hw : w.Ledger) (hb : w.watcher? j = some b)
  (hj : w.Joins j b listener executor w')

include h hw hb hj

theorem free_joined {f : Registry α → Registry α} (c : WatcherId) (d : Derivation α) :
    (w'.mapRegistry j f).origin? c ≠ some (.child id l d) := by
  intro ho
  rw [origin?_mapRegistry] at ho
  rcases hj.origin?_or hw hb ho with ⟨hold, -⟩ | ⟨-, rfl, rfl⟩
  · exact h.free c d hold
  · exact Ledger.ne_nextId hb h.issued ⟨rfl, rfl⟩

theorem enrol : (w'.enrol j listener executor).Lingers id l where
  issued := Nat.le_trans h.issued
    (lastId_joined hj id (f := fun r => r.insert listener executor) fun r => Nat.le_succ _)
  free c d := h.free_joined hw hb hj (f := fun r => r.insert listener executor) c d
  registered := by
    rw [hj.isRegistered_enrol hw hb, isClosed_enrol, hj.isClosed_eq, events_enrol, hj.events_eq,
      or_iff_left fun heq => Ledger.ne_nextId hb h.issued ⟨heq.1.symm, heq.2⟩]
    exact h.registered

theorem reserve : (w'.reserve j).Lingers id l where
  issued := Nat.le_trans h.issued (lastId_joined hj id fun r => Nat.le_succ _)
  free c d := h.free_joined hw hb hj c d
  registered := by
    rw [isRegistered_reserve, hj.isRegistered_eq, isClosed_reserve, hj.isClosed_eq, events_reserve,
      hj.events_eq]
    exact h.registered

end Joining

/-- A child that parts takes out its own subscription alone. -/
theorem detach (h : w.Lingers id l) {c : WatcherId} {message : String → Diagnostic}
    {w₁ : World α} (hp : w.Parts c w₁) (hdet : w₁.Detaches c message w') : w'.Lingers id l where
  issued := by
    rw [hdet.lastId_eq, hp.lastId]
    exact h.issued
  free c' d := by
    rw [hdet.origin?_eq, hp.origin]
    exact h.free c' d
  registered := by
    rw [hdet.isRegistered_iff hp.sound, hdet.isClosed_eq, hdet.unwatched_iff, hp.registered,
      hp.closed, hp.unwatched, hp.origin, and_iff_left (h.free c)]
    exact h.registered

theorem changesEntries (h : w.Lingers id l) (hr : w.ChangesEntries w') : w'.Lingers id l := by
  cases hr with
  | keep ht => exact h.keep ht
  | plant name =>
    refine ⟨?_, fun c d ho => ?_, ?_⟩
    · rw [lastId_addWatcher _ _ _ rfl]
      exact h.issued
    · rw [origin?_addWatcher] at ho
      split at ho
      · exact nomatch Option.some.inj ho
      · exact h.free c d ho
    · rw [isRegistered_addWatcher _ _ _ _ rfl, isClosed_addWatcher _ _ _ rfl]
      exact h.registered
  | enrol hw hb hcl hj => exact h.enrol hw hb hj
  | reserve hw hb hcl hj => exact h.reserve hw hb hj
  | @unwatch p j k hw hreg =>
    refine ⟨?_, fun c d ho => ?_, ?_⟩
    · have hlast : ((w.note p (.unwatched j k true)).unregister j k).lastId id = w.lastId id :=
        lastId_modify _ _ _ fun _ => rfl
      rw [hlast]
      exact h.issued
    · rw [origin?_unregister] at ho
      exact h.free c d ho
    · have hsound : (w.note p (.unwatched j k true)).SoundRegistries := hw.sound
      rw [isRegistered_unregister hsound, isClosed_unregister, unwatched_unregister_iff, not_or]
      show w.isRegistered id l = true ∧ _ ↔ w.isClosed id = false ∧ _
      rw [h.registered, and_assoc]
  | drop hw ho hdr hdet => exact h.detach (.drop hw ho) hdet
  | @close j b hw hb hcl =>
    refine ⟨?_, fun c d ho => ?_, ?_⟩
    · have hlast : (w.modify j Watcher.close).lastId id = w.lastId id :=
        lastId_modify _ _ _ fun _ => rfl
      rw [hlast]
      exact h.issued
    · rw [origin?_modify _ _ _ Watcher.close_origin] at ho
      exact h.free c d ho
    · rw [isRegistered_close hw.sound, isClosed_close_eq_false_iff hb, h.registered]
      show (_ ∧ _ ∉ w.events) ∧ _ ↔ (_ ∧ _) ∧ _ ∉ w.events
      tauto
  | finish q name n hw hdet => exact h.detach (.finish hw q _ name n) hdet

end Lingers

end World

/-! ## Beginning to watch -/

namespace Machine

section Registering

variable {m : Machine α} {w : World α} {stk : List (Frame α)} {c : Control α} {id : WatcherId}
  {b : Watcher α} {label : Name} {valueOnly : Bool} {actions : Actions α} {executor : Executor α}

/-- Handing a task to the executor of a listener that is no child changes no registration. -/
theorem handOver_sameEntries {t : Task α} {r : Registration α}
    (hr : m.world.registration? t.watcher t.listener = some r)
    (hobs : r.listener = .observer label valueOnly actions) :
    m.world.SameEntries (m.handOver t).world := by
  cases ha : r.active with
  | false =>
    rw [handOver_inactive m fun r' hr' => Option.some.inj (hr.symm.trans hr') ▸ ha]
    exact .refl _
  | true =>
    have hnoted : m.world.SameEntries (m.world.note m.onPoller (.handedOver t)) := .note _ _ rfl
    have hgiven : m.world.SameEntries (m.world.handOver m.onPoller t) :=
      hnoted.trans (.modify _ t.watcher (fun _ => rfl) (fun _ => rfl) (fun _ => rfl) (fun _ => rfl)
        fun _ => rfl)
    have hr' : (m.world.handOver m.onPoller t).registration? t.watcher t.listener =
        some { r with handovers := r.handovers + 1 } := by
      rw [World.registration?_handOver, if_pos ⟨rfl, rfl⟩, hr]
      rfl
    have hrun : ∀ stk elsewhere, m.world.SameEntries
        (Machine.run ⟨m.world.handOver m.onPoller t, stk, .proceed⟩ t elsewhere).world := by
      intro stk elsewhere
      obtain ⟨w', frames, hran, heq⟩ := run_eq stk .proceed hr'
        (fun child hl => nomatch hl.symm.trans hobs) elsewhere
      rw [heq]
      exact hgiven.trans (.ran hran)
    rw [handOver_eq m hr ha]
    split
    · exact hrun _ _
    · exact hrun _ _
    · exact hgiven.trans (.of_eq rfl rfl)
    · exact hgiven

/-- A listener that is no child comes to an open watcher. -/
theorem register_sameEntries (hw : w.Ledger) (hb : w.watcher? id = some b)
    (hcl : b.closed = false) :
    (w.enrol id (.observer label valueOnly actions) executor).SameEntries
      (register ⟨w, stk, c⟩ id b (.observer label valueOnly actions) executor).world := by
  unfold register
  rw [if_neg (by rw [hcl]; exact Bool.false_ne_true)]
  cases hs : b.latest with
  | none => exact .refl _
  | some s =>
    refine handOver_sameEntries
      (m := ⟨w.enrol id (.observer label valueOnly actions) executor, stk, c⟩)
      (t := ⟨id, b.registry.nextId, b.updates, s⟩)
      (r := ⟨b.registry.nextId, .observer label valueOnly actions, executor, true, 0, 0, 0⟩) ?_ rfl
    rw [World.registration?_enrol hw.sound hb, if_pos ⟨rfl, rfl⟩]

/-- A listener that is no child comes to a closed watcher. -/
theorem register_sameEntries_closed (hcl : b.closed = true) :
    (w.reserve id).SameEntries
      (register ⟨w, stk, c⟩ id b (.observer label valueOnly actions) executor).world := by
  unfold register
  rw [if_pos hcl]
  exact .note _ _ rfl

end Registering

variable [BEq α] {P : Machine α → Prop} {m m' : Machine α}

/-- An operation is begun, from outside where nothing is under way or by a callback, above these
frames. -/
inductive Begins (m : Machine α) (op : Op α) : List (Frame α) → Machine α → Prop
  | outside : m.stack = [] → Begins m op [] (m.world.start op)
  | inside {site : Site} {todo : List (Op α)} {stk : List (Frame α)} :
      m.stack = .script site (op :: todo) :: stk → m.control = .proceed →
      Begins m op (.script site todo :: stk) m.step

theorem Begins.next {op : Op α} {stk : List (Frame α)} (h : m.Begins op stk m') : m.Next m' := by
  cases h with
  | outside hs => exact .start op hs
  | inside hs => exact .step (by rw [hs]; exact List.cons_ne_nil _ _)

theorem Begins.eq {op : Op α} {stk : List (Frame α)} (h : m.Begins op stk m') :
    m' = perform ⟨m.world, stk, .proceed⟩ op := by
  cases h with
  | outside => rfl
  | inside hs hc =>
    obtain ⟨w, _, _⟩ := m
    obtain rfl := hs
    obtain rfl := hc
    rfl

/-- Nothing is left of a registration: from now on it is not in the registry, and it is neither
called nor handed anything. -/
def LeavesNothing (m : Machine α) (id : WatcherId) (l : ListenerId) : Prop :=
  ∀ x, m.Later (fun _ => True) x → x.world.isRegistered id l = false ∧
    x.world.callsTo id l = m.world.callsTo id l ∧
    Event.handoversTo id l x.world.events = Event.handoversTo id l m.world.events

theorem Reached.leavesNothing (h : m.Reached fun _ => True) {id : WatcherId} {l : ListenerId}
    (hgone : m.world.Gone id l) : m.LeavesNothing id l := by
  intro x hx
  have hm := h.wellFormed
  exact ⟨(hgone.of_extends (hx.extends_world hm)).not_registered (h.later hx).shut
      (hx.wellFormed hm).ledger,
    hx.callsTo_eq hm h.shut hgone, hx.handoversTo_eq hm h.shut hgone⟩

theorem Later.lingers {id : WatcherId} {l : ListenerId} (h : m.Later P m') (hm : m.WellFormed)
    (hlingers : m.world.Lingers id l) : m'.world.Lingers id l := by
  induction h with
  | refl => exact hlingers
  | next hl hP hn ih =>
    exact hn.keeps (P := fun _ => True) (I := fun x => x.world.Lingers id l) (hl.wellFormed hm)
      (fun _ _ _ _ _ => trivial) (fun hI hpost => hI.changesEntries hpost.changesEntries) ih

/-- Whoever watches is registered under the next id from the beginning, if the watcher is open, and
nobody else is. -/
theorem Begins.watching (h : m.Reached P) {name label : Name} {valueOnly : Bool}
    {disposal : Disposal} {onHandover actions : Actions α} {stk : List (Frame α)}
    (hbegin : m.Begins (.watch name label valueOnly disposal onHandover actions) stk m')
    {hd : Handle} {b : Watcher α} (hresolve : m.world.resolve? name = some (hd, b)) :
    m'.world.Lingers hd.target b.registry.nextId ∧
      ∀ j k, m'.world.isRegistered j k = true ↔ m.world.isRegistered j k = true ∨
        b.closed = false ∧ j = hd.target ∧ k = b.registry.nextId := by
  have hw := h.wellFormed.ledger
  have hb := (World.resolve?_eq_some hresolve).2
  have heq : m' = register ⟨m.world, .watching label b.registry.nextId :: .holding hd.target :: stk,
      .proceed⟩ hd.target b (.observer label valueOnly actions) ⟨disposal, onHandover⟩ := by
    rw [hbegin.eq]
    show withHandle _ name _ = _
    unfold withHandle
    rw [hresolve]
    rfl
  cases hcl : b.closed with
  | false =>
    have hsame : (m.world.enrol hd.target (.observer label valueOnly actions)
        ⟨disposal, onHandover⟩).SameEntries m'.world := by
      rw [heq]
      exact register_sameEntries hw hb hcl
    obtain ⟨ms, hrun, -⟩ := h.run
    have hun : .unwatched hd.target b.registry.nextId true ∉ m.world.events := by
      intro hmem
      have hle := (hrun.bonds m rfl).2.issued hmem
      rw [World.Ledger.nextId_number hb] at hle
      omega
    have hj : m.world.Joins hd.target b (.observer label valueOnly actions)
      ⟨disposal, onHandover⟩ m.world := .observer label valueOnly actions _
    refine ⟨World.Lingers.keep (.of_enrol hw hb hcl hun _ _ _ _) hsame, fun j k => ?_⟩
    rw [hsame.registered, hj.isRegistered_enrol hw hb]
    exact or_congr_right (and_iff_right rfl).symm
  | true =>
    have hsame : (m.world.reserve hd.target).SameEntries m'.world := by
      rw [heq]
      exact register_sameEntries_closed hcl
    refine ⟨World.Lingers.keep (.of_reserve hw hb hcl) hsame, fun j k => ?_⟩
    rw [hsame.registered, World.isRegistered_reserve]
    exact (or_iff_left fun hopen => nomatch hopen.1).symm

/-- A panic that leaves `watch` undoes nothing: the caller is not told the id, but the listener that
an open watcher has registered under it stays, and later updates are handed to it, until the watcher
is closed or somebody takes it out under an id that was not told. It leaves nothing behind if and
only if one of the two has already happened when the panic leaves the call. -/
theorem failed_watch_leaves_nothing_iff {x₁ x₂ : Machine α} (h : m.Reached fun _ => True)
    {name label : Name} {valueOnly : Bool} {disposal : Disposal} {onHandover actions : Actions α}
    {stk : List (Frame α)} {hd : Handle} {b : Watcher α} {payload : Payload}
    (hresolve : m.world.resolve? name = some (hd, b))
    (hbegin : m.Begins (.watch name label valueOnly disposal onHandover actions) stk x₁)
    (hl : x₁.Later (fun _ => True) x₂)
    (hstk : x₂.stack = .watching label b.registry.nextId :: .holding hd.target :: stk)
    (hc : x₂.control = .unwind payload) :
    x₂.step = ⟨x₂.world, .holding hd.target :: stk, .unwind payload⟩ ∧
      (∀ j k, x₁.world.isRegistered j k = true ↔ m.world.isRegistered j k = true ∨
        b.closed = false ∧ j = hd.target ∧ k = b.registry.nextId) ∧
      (x₂.step.LeavesNothing hd.target b.registry.nextId ↔ x₂.world.isClosed hd.target = true ∨
        .unwatched hd.target b.registry.nextId true ∈ x₂.world.events) ∧
      ∀ x, x₂.Later (fun _ => True) x →
        (x.world.isRegistered hd.target b.registry.nextId = true ↔
          x.world.isClosed hd.target = false ∧
            .unwatched hd.target b.registry.nextId true ∉ x.world.events) := by
  obtain ⟨hlingers, hregistered⟩ := hbegin.watching h hresolve
  have hreach₁ : x₁.Reached fun _ => True := h.next trivial hbegin.next
  have hm₁ := hreach₁.wellFormed
  have hreach₂ : x₂.Reached fun _ => True := hreach₁.later hl
  have hstep : x₂.step = ⟨x₂.world, .holding hd.target :: stk, .unwind payload⟩ := by
    obtain ⟨w, _, _⟩ := x₂
    obtain rfl := hstk
    obtain rfl := hc
    rfl
  have hn : x₂.Next x₂.step := .step (by rw [hstk]; exact List.cons_ne_nil _ _)
  have hafter : ∀ x, x₂.Later (fun _ => True) x → x.world.Lingers hd.target b.registry.nextId :=
    fun x hx => (hl.trans hx).lingers hm₁ hlingers
  refine ⟨hstep, hregistered, ⟨fun hnothing => ?_, fun hover => ?_⟩,
    fun x hx => (hafter x hx).registered⟩
  · have hnot := (hnothing _ .refl).1
    rw [hstep, ← Bool.not_eq_true, (hafter x₂ .refl).registered] at hnot
    cases hcl : x₂.world.isClosed hd.target with
    | true => exact .inl rfl
    | false => exact .inr (by_contra fun hun => hnot ⟨hcl, hun⟩)
  · refine (hreach₂.next trivial hn).leavesNothing ?_
    rw [hstep]
    show x₂.world.Gone _ _
    by_cases hcl : x₂.world.isClosed hd.target = true
    · exact .inl hcl
    -- the watcher has been open throughout, so the listener was registered to begin with
    have hx₁ := hbegin.next.extends_world h.wellFormed
    have hx₂ := hl.extends_world hm₁
    have hopen : b.closed = false := by
      rw [← World.isClosed_of_watcher? (World.resolve?_eq_some hresolve).2, ← Bool.not_eq_true]
      exact fun hclosed => hcl ((hx₁.trans hx₂).closed hclosed)
    have hreg₁ := (hregistered hd.target b.registry.nextId).mpr (.inr ⟨hopen, rfl, rfl⟩)
    refine hx₂.gone hm₁.ledger hreach₂.wellFormed.ledger hreg₁ ?_
    rw [← Bool.not_eq_true, (hafter x₂ .refl).registered]
    exact fun hopen₂ => hopen₂.2 (hover.resolve_left hcl)

/-! ### An executor that panics with the first handover -/

def stockedRoot : Machine Nat :=
  ({ world := {} } : Machine Nat).carry 12 [.root "r" "r" false, .push "r" ⟨1⟩ ⟨1, 1⟩]

/-- A listener comes to it, whose executor performs these operations and then panics, after so many
steps. -/
def failingWatch (ops : List (Op Nat)) (n : Nat) : Machine Nat :=
  (stockedRoot.world.start (.watch "r" "a" false .discard
    (fun _ => ops ++ [.panic (.text "executor panic")]) fun _ => [])).steps n

def anotherWatch : Op Nat := .watch "r" "b" false .inline (fun _ => []) fun _ => []

def nextPush (m : Machine Nat) : Machine Nat := (m.world.start (.push "r" ⟨2⟩ ⟨2, 2⟩)).steps 12

theorem reached_stockedRoot : stockedRoot.Reached fun _ => True :=
  Reached.initial.carry_any (by decide +kernel)

theorem failed_watch_leaves_nothing_iff_nested :
    ¬ (failingWatch [anotherWatch] 9).step.LeavesNothing 0 ⟨1⟩ ∧
      (failingWatch [anotherWatch] 9).world.isRegistered 0 ⟨1⟩ = true ∧
      (failingWatch [.close "r"] 7).step.LeavesNothing 0 ⟨1⟩ := by
  obtain ⟨hd, b, hresolve, htarget, hnext⟩ : ∃ hd b, stockedRoot.world.resolve? "r" = some (hd, b) ∧
      hd.target = 0 ∧ b.registry.nextId = ⟨1⟩ :=
    ⟨_, _, by with_unfolding_all rfl, by with_unfolding_all rfl, by with_unfolding_all rfl⟩
  have hbegin : ∀ ops, stockedRoot.Begins (.watch "r" "a" false .discard
      (fun _ => ops ++ [.panic (.text "executor panic")]) fun _ => []) [] (failingWatch ops 0) :=
    fun _ => .outside (List.isEmpty_iff.mp (by decide +kernel))
  have hlater : ∀ ops n, (failingWatch ops 0).Later (fun _ => True) (failingWatch ops n) :=
    fun _ n => Later.refl.steps n fun _ _ => trivial
  have hpanic₁ : (failingWatch [anotherWatch] 9).control = .unwind (.text "executor panic") := by
    with_unfolding_all rfl
  have hpanic₂ : (failingWatch [.close "r"] 7).control = .unwind (.text "executor panic") := by
    with_unfolding_all rfl
  obtain ⟨-, -, hleft, hstays⟩ := failed_watch_leaves_nothing_iff reached_stockedRoot hresolve
    (hbegin [anotherWatch]) (hlater [anotherWatch] 9)
    (by rw [htarget, hnext]; with_unfolding_all rfl) hpanic₁
  obtain ⟨-, -, hcleared, -⟩ := failed_watch_leaves_nothing_iff reached_stockedRoot hresolve
    (hbegin [.close "r"]) (hlater [.close "r"] 7)
    (by rw [htarget, hnext]; with_unfolding_all rfl) hpanic₂
  rw [htarget, hnext] at hleft hcleared
  have hopen : (failingWatch [anotherWatch] 9).world.isClosed 0 = false := by decide +kernel
  have hplain : ((failingWatch [anotherWatch] 9).world.events.any fun
      | .unwatched .. => true
      | _ => false) = false := by decide +kernel
  have hun : .unwatched 0 ⟨1⟩ true ∉ (failingWatch [anotherWatch] 9).world.events :=
    fun hmem => List.any_eq_false.mp hplain _ hmem rfl
  refine ⟨fun hnothing => ?_, ?_, hcleared.mpr (.inl (by decide +kernel))⟩
  · exact (hleft.mp hnothing).elim (fun hcl => nomatch hcl.symm.trans hopen) hun
  · have hstay := hstays _ .refl
    rw [htarget, hnext] at hstay
    exact hstay.mpr ⟨hopen, hun⟩

/-- An executor that panics with the first handover leaves its listener in the registry, although
nobody knows its id. The next push is handed to it as well, and the panic comes out of the push,
which is done where the listener has never come. -/
theorem failed_watch_stays_and_takes_updates :
    stockedRoot.Reached (fun _ => True) ∧ stockedRoot.stack = [] ∧
      stockedRoot.world.isRegistered 0 ⟨1⟩ = false ∧
      stockedRoot.Later (fun _ => True) (failingWatch [] 4) ∧ (failingWatch [] 4).stack = [] ∧
      (failingWatch [] 4).control = .unwind (.text "executor panic") ∧
      (failingWatch [] 4).world.isRegistered 0 ⟨1⟩ = true ∧
      (nextPush (failingWatch [] 4)).stack = [] ∧
      (nextPush (failingWatch [] 4)).control = .unwind (.text "executor panic") ∧
      (Event.handoversTo 0 ⟨1⟩ (nextPush (failingWatch [] 4)).world.events).map Task.update =
        [1, 2] ∧
      (nextPush stockedRoot).stack = [] ∧
      (nextPush stockedRoot).control = .answer (.bool true) :=
  ⟨reached_stockedRoot, List.isEmpty_iff.mp (by decide +kernel), by decide +kernel,
    Later.refl.begin_any (by decide +kernel),
    List.isEmpty_iff.mp (by decide +kernel), by with_unfolding_all rfl, by decide +kernel,
    List.isEmpty_iff.mp (by decide +kernel), by with_unfolding_all rfl, by with_unfolding_all rfl,
    List.isEmpty_iff.mp (by decide +kernel), by with_unfolding_all rfl⟩

end Machine

end WatchTree
