import WatchTree.Proofs.Invariants

/-!
# Changes of a world

`World.Extends` is what one can rely on from any moment to any later one: the history grows, the
tree keeps its shape, and a registration is only ever told newer updates. `World.Alters` lists the
changes of what was accepted or registered, and `World.Tries` says what becomes of a task that is
run; all other changes leave the worlds `World.Alike`.
-/

namespace WatchTree

variable {α : Type}

/-- A registration at an earlier and a later moment. -/
structure Registration.Precedes (r r' : Registration α) : Prop where
  listener : r'.listener = r.listener
  executor : r'.executor = r.executor
  delivered : r.delivered ≤ r'.delivered
  active : r.active = false → r'.active = false

namespace Registration.Precedes

theorem refl (r : Registration α) : r.Precedes r := ⟨rfl, rfl, Nat.le_refl _, fun h => h⟩

theorem trans {r r' r'' : Registration α} (h : r.Precedes r') (h' : r'.Precedes r'') :
    r.Precedes r'' :=
  ⟨h'.listener.trans h.listener, h'.executor.trans h.executor,
    Nat.le_trans h.delivered h'.delivered, fun ha => h'.active (h.active ha)⟩

theorem retire (r : Registration α) : r.Precedes r.retire := ⟨rfl, rfl, Nat.le_refl _, fun _ => rfl⟩

end Registration.Precedes

/-- The same registration at two moments, if there is one. -/
inductive Registration.Kept : Option (Registration α) → Option (Registration α) → Prop
  | none : Kept none none
  | some {r r' : Registration α} : r.Precedes r' → Kept (some r) (some r')

namespace Registration.Kept

theorem refl : ∀ x : Option (Registration α), Kept x x
  | .none => .none
  | .some r => .some (.refl r)

theorem of_ite {x y : Option (Registration α)} {f : Registration α → Registration α} {P : Prop}
    [Decidable P] (h : y = if P then x.map f else x)
    (hf : P → ∀ r, x = .some r → r.Precedes (f r)) : Kept x y := by
  by_cases hP : P
  · rw [h, if_pos hP]
    cases hx : x with
    | none => exact .none
    | some r => exact .some (hf hP r hx)
  · rw [h, if_neg hP]
    exact .refl x

theorem forward {x y : Option (Registration α)} (h : Kept x y) {r : Registration α}
    (hr : x = .some r) : ∃ r', y = .some r' ∧ r.Precedes r' := by
  cases h with
  | none => exact nomatch hr
  | some hp =>
    obtain rfl := Option.some.inj hr
    exact ⟨_, rfl, hp⟩

theorem backward {x y : Option (Registration α)} (h : Kept x y) {r' : Registration α}
    (hr : y = .some r') : ∃ r, x = .some r ∧ r.Precedes r' := by
  cases h with
  | none => exact nomatch hr
  | some hp =>
    obtain rfl := Option.some.inj hr
    exact ⟨_, rfl, hp⟩

theorem trans {x y z : Option (Registration α)} (h : Kept x y) (h' : Kept y z) : Kept x z := by
  cases h with
  | none => exact h'
  | some hp =>
    cases h' with
    | some hp' => exact .some (hp.trans hp')

end Registration.Kept

namespace World

/-! ## What outlasts every change -/

/-- One world comes after the other. -/
structure Extends (w w' : World α) : Prop where
  events : w.events <+: w'.events
  origin : ∀ {id o}, w.origin? id = some o → w'.origin? id = some o
  closed : ∀ {id}, w.isClosed id = true → w'.isClosed id = true
  registration : ∀ {id l r}, w.registration? id l = some r →
    ∃ r', w'.registration? id l = some r' ∧ r.Precedes r'

namespace Extends

theorem refl (w : World α) : w.Extends w :=
  ⟨List.prefix_refl _, id, id, fun h => ⟨_, h, .refl _⟩⟩

variable {w w' w'' : World α}

theorem trans (h : w.Extends w') (h' : w'.Extends w'') : w.Extends w'' where
  events := h.events.trans h'.events
  origin ho := h'.origin (h.origin ho)
  closed hc := h'.closed (h.closed hc)
  registration hr := by
    obtain ⟨r', hr', hp⟩ := h.registration hr
    obtain ⟨r'', hr'', hp'⟩ := h'.registration hr'
    exact ⟨r'', hr'', hp.trans hp'⟩

variable (h : w.Extends w')

include h

theorem genuine {id : WatcherId} {n : Nat} {s : Latest α} (hg : w.Genuine id n s) :
    w'.Genuine id n s := by
  obtain ⟨k, hn, hk⟩ := hg
  obtain ⟨es, he⟩ := h.events
  refine ⟨k, hn, ?_⟩
  unfold World.accepted
  rw [← he, Event.accepted_append, List.getElem?_append_left]
  · exact hk
  · exact (List.getElem?_eq_some_iff.mp hk).1

theorem handovers : Event.handovers w.events ⊆ Event.handovers w'.events := by
  obtain ⟨es, he⟩ := h.events
  rw [← he, Event.handovers_append]
  exact List.subset_append_left _ _

theorem invocations : Event.invocations w.events ⊆ Event.invocations w'.events := by
  obtain ⟨es, he⟩ := h.events
  rw [← he, Event.invocations_append]
  exact List.subset_append_left _ _

theorem queued {t : Task α} (ht : w.Queued t) : w'.Queued t := by
  obtain ⟨hmem, r, q, hr, hd⟩ := ht
  obtain ⟨r', hr', hp⟩ := h.registration hr
  exact ⟨h.handovers hmem, r', q, hr', by rw [hp.executor]; exact hd⟩

theorem feeds {t : Task α} {child : WatcherId} (hf : w.Feeds t child) : w'.Feeds t child := by
  obtain ⟨d, hd⟩ := hf
  exact ⟨d, h.origin hd⟩

theorem licensed {site : Site} (hl : w.Licensed site) : w'.Licensed site := by
  cases site with
  | derivation label =>
    obtain ⟨c, p, l, d, ho, hd⟩ := hl
    exact ⟨c, p, l, d, h.origin ho, hd⟩
  | _ => trivial

theorem operable {stk : List (Frame α)} (hop : w.Operable stk) : w'.Operable stk := by
  cases stk with
  | nil => trivial
  | cons f stk =>
    cases f with
    | script site todo => exact h.licensed hop
    | _ => exact hop

theorem rootHandles {hs : Bindings Handle} (hr : w.RootHandles hs) : w'.RootHandles hs :=
  fun b hb hf => h.origin (hr b hb hf)

theorem stands {f : Frame α} {stk : List (Frame α)} (hs : f.Stands w stk) : f.Stands w' stk := by
  cases f with
  | holding id => exact h.operable hs
  | script site todo =>
    cases site with
    | derivation label => exact ⟨hs.1, fun ht => h.licensed (hs.2 ht)⟩
    | _ => exact hs
  | announcing id n s ls => exact ⟨h.genuine hs.1, hs.2⟩
  | fanOut id n s ls => exact ⟨h.genuine hs.1, hs.2⟩
  | calling t => exact ⟨h.invocations hs.1, hs.2⟩
  | applying c s =>
    obtain ⟨t, rest, hstk, ht, hf⟩ := hs
    exact ⟨t, rest, hstk, ht, h.feeds hf⟩
  | draining ts k => exact ⟨h.operable hs.1, fun t ht => h.queued (hs.2 t ht)⟩
  | picking q is k => exact h.operable hs
  | polling p => exact ⟨h.origin hs.1, hs.2⟩
  | fetching p reply => exact ⟨h.origin hs.1, hs.2⟩
  | pushing p => exact ⟨h.origin hs.1, hs.2⟩
  | ending p => exact ⟨h.origin hs.1, hs.2⟩
  | _ => exact hs

theorem stacked {stk : List (Frame α)} (hs : w.Stacked stk) : w'.Stacked stk := by
  induction stk with
  | nil => trivial
  | cons f stk ih => exact ⟨h.stands hs.1, ih hs.2⟩

end Extends

/-! ## Worlds that are alike -/

/-- The same watchers with the same states, and the same registrations, which may have been told
more or have become inactive. -/
structure Resembles (w w' : World α) : Prop where
  sound : w.SoundRegistries → w'.SoundRegistries
  updates : ∀ id, w'.updates id = w.updates id
  latest : ∀ id, w'.latest? id = w.latest? id
  lastId : ∀ id, w'.lastId id = w.lastId id
  accepted : ∀ id, w'.accepted id = w.accepted id
  closed : ∀ {id}, w.isClosed id = true → w'.isClosed id = true
  origin : ∀ {id o}, w.origin? id = some o → w'.origin? id = some o
  /-- There is no new child. -/
  child : ∀ {c p l d}, w'.origin? c = some (.child p l d) → w.origin? c = some (.child p l d)
  registration : ∀ id l, Registration.Kept (w.registration? id l) (w'.registration? id l)
  events : w.events <+: w'.events

theorem Resembles.to_extends {w w' : World α} (h : w.Resembles w') : w.Extends w' :=
  ⟨h.events, h.origin, h.closed, fun {id l _} hr => (h.registration id l).forward hr⟩

/-- Nothing was accepted, registered, closed or done with a task. -/
structure Alike (w w' : World α) : Prop where
  sound : w.SoundRegistries → w'.SoundRegistries
  updates : ∀ id, w'.updates id = w.updates id
  latest : ∀ id, w'.latest? id = w.latest? id
  lastId : ∀ id, w'.lastId id = w.lastId id
  closed : ∀ id, w'.isClosed id = w.isClosed id
  registration : ∀ id l, w'.registration? id l = w.registration? id l
  origin : ∀ {id o}, w.origin? id = some o → w'.origin? id = some o
  child : ∀ {c p l d}, w'.origin? c = some (.child p l d) → w.origin? c = some (.child p l d)
  events : ∃ es : List (Event α), w'.events = w.events ++ es ∧ ∀ e ∈ es, e.isQuiet = true

namespace Alike

theorem refl (w : World α) : w.Alike w :=
  ⟨id, fun _ => rfl, fun _ => rfl, fun _ => rfl, fun _ => rfl, fun _ _ => rfl, id, id,
    [], by simp, by simp⟩

theorem of_eq {w w' : World α} (hw : w'.watchers = w.watchers) (hh : w'.history = w.history) :
    w.Alike w' := by
  cases w
  cases w'
  cases hw
  cases hh
  exact ⟨id, fun _ => rfl, fun _ => rfl, fun _ => rfl, fun _ => rfl, fun _ _ => rfl, id, id,
    [], by simp [World.events], by simp⟩

theorem trans {w w' w'' : World α} (h : w.Alike w') (h' : w'.Alike w'') : w.Alike w'' where
  sound hs := h'.sound (h.sound hs)
  updates id := (h'.updates id).trans (h.updates id)
  latest id := (h'.latest id).trans (h.latest id)
  lastId id := (h'.lastId id).trans (h.lastId id)
  closed id := (h'.closed id).trans (h.closed id)
  registration id l := (h'.registration id l).trans (h.registration id l)
  origin ho := h'.origin (h.origin ho)
  child ho := h.child (h'.child ho)
  events := by
    obtain ⟨es, he, hq⟩ := h.events
    obtain ⟨es', he', hq'⟩ := h'.events
    refine ⟨es ++ es', by rw [he', he, List.append_assoc], ?_⟩
    intro e hmem
    exact (List.mem_append.mp hmem).elim (hq e) (hq' e)

theorem note (w : World α) (p : Bool) {e : Event α} (he : e.isQuiet = true) :
    w.Alike (w.note p e) :=
  ⟨id, fun _ => rfl, fun _ => rfl, fun _ => rfl, fun _ => rfl, fun _ _ => rfl, id, id,
    [e], events_note w p e, by simpa using he⟩

/-- A change of a watcher's slot, or of whether it was dropped. -/
theorem modify (w : World α) (id : WatcherId) {f : Watcher α → Watcher α}
    (horigin : ∀ b, (f b).origin = b.origin) (hlatest : ∀ b, (f b).latest = b.latest)
    (hupdates : ∀ b, (f b).updates = b.updates) (hclosed : ∀ b, (f b).closed = b.closed)
    (hregistry : ∀ b, (f b).registry = b.registry) : w.Alike (w.modify id f) where
  sound hs := hs.modify id fun b hb => by rw [hregistry]; exact hb
  updates j := updates_modify _ _ _ hupdates
  latest j := latest?_modify _ _ _ hlatest
  lastId j := lastId_modify _ _ _ fun b => by rw [hregistry]
  closed j := isClosed_modify _ _ _ hclosed
  registration j l := registration?_modify _ _ _ l hregistry
  origin ho := by rw [origin?_modify _ _ _ horigin]; exact ho
  child ho := by rw [origin?_modify _ _ _ horigin] at ho; exact ho
  events := ⟨[], by simp, by simp⟩

theorem drop (w : World α) (id : WatcherId) :
    w.Alike (w.modify id fun b => { b with dropped := true }) :=
  .modify w id (fun _ => rfl) (fun _ => rfl) (fun _ => rfl) (fun _ => rfl) fun _ => rfl

theorem enlist (w : World α) (id : WatcherId) (waker : Name) :
    w.Alike (w.modify id fun b => { b with slot := b.slot.enlist waker }) :=
  .modify w id (fun _ => rfl) (fun _ => rfl) (fun _ => rfl) (fun _ => rfl) fun _ => rfl

theorem addRoot (w : World α) (name : String) :
    w.Alike (w.addWatcher { name, origin := .root }) where
  sound hs := by
    intro j b hb
    rw [watcher?_addWatcher] at hb
    split at hb
    · rw [← Option.some.inj hb]
      exact .empty
    · exact hs j b hb
  updates j := updates_addWatcher _ _ _ rfl
  latest j := latest?_addWatcher _ _ _ rfl
  lastId j := lastId_addWatcher _ _ _ rfl
  closed j := isClosed_addWatcher _ _ _ rfl
  registration j l := registration?_addWatcher _ _ _ rfl l
  origin {j o} ho := by
    obtain ⟨a, ha, -⟩ := exists_watcher?_of_origin? ho
    rw [origin?_addWatcher, if_neg]
    · exact ho
    · rintro rfl
      rw [watcher?_length] at ha
      exact nomatch ha
  child ho := by
    rw [origin?_addWatcher] at ho
    split at ho
    · exact nomatch Option.some.inj ho
    · exact ho
  events := ⟨[], by simp, by simp⟩

variable {w w' : World α} (h : w.Alike w')

include h

theorem accepted (id : WatcherId) : w'.accepted id = w.accepted id := by
  obtain ⟨es, he, hq⟩ := h.events
  unfold World.accepted
  rw [he, Event.accepted_append, Event.accepted_of_quiet hq, List.append_nil]

theorem handovers : Event.handovers w'.events = Event.handovers w.events := by
  obtain ⟨es, he, hq⟩ := h.events
  rw [he, Event.handovers_append, Event.handovers_of_quiet hq, List.append_nil]

theorem executions : Event.executions w'.events = Event.executions w.events := by
  obtain ⟨es, he, hq⟩ := h.events
  rw [he, Event.executions_append, Event.executions_of_quiet hq, List.append_nil]

theorem invocations : Event.invocations w'.events = Event.invocations w.events := by
  obtain ⟨es, he, hq⟩ := h.events
  rw [he, Event.invocations_append, Event.invocations_of_quiet hq, List.append_nil]

theorem resembles : w.Resembles w' where
  sound := h.sound
  updates := h.updates
  latest := h.latest
  lastId := h.lastId
  accepted := h.accepted
  closed hc := by rw [h.closed]; exact hc
  origin := h.origin
  child := h.child
  registration id l := by rw [h.registration]; exact .refl _
  events := by
    obtain ⟨es, he, -⟩ := h.events
    exact ⟨es, he.symm⟩

end Alike

/-! ## Changes that matter -/

/-- Something was accepted, registered, closed or handed over. -/
inductive Alters [BEq α] (w : World α) : World α → Prop
  | enrol {w' : World α} {id : WatcherId} {b : Watcher α} {listener : Listener α}
      {executor : Executor α} :
      w.watcher? id = some b → b.closed = false → w.Joins id b listener executor w' →
      Alters w (w'.enrol id listener executor)
  | reserve {w' : World α} {id : WatcherId} {b : Watcher α} {listener : Listener α}
      {executor : Executor α} :
      w.watcher? id = some b → b.closed = true → w.Joins id b listener executor w' →
      Alters w (w'.reserve id)
  | retire (id : WatcherId) (l : ListenerId) : Alters w (w.unregister id l)
  | close (id : WatcherId) : Alters w (w.modify id Watcher.close)
  | adopt (p : Bool) {id : WatcherId} {b : Watcher α} {s : Latest α} :
      w.watcher? id = some b → b.closed = false → b.refusal s = none →
      Alters w ((w.note p (.offered id s .accepted)).modify id (·.accept s))
  | handOver (p : Bool) {t : Task α} {r : Registration α} :
      w.registration? t.watcher t.listener = some r → r.active = true →
      w.Genuine t.watcher t.update t.state → Alters w (w.handOver p t)

/-- One world comes from the other without any task being run. -/
def Rearranges [BEq α] : World α → World α → Prop :=
  Relation.ReflTransGen fun w w' => w.Alike w' ∨ Alters w w'

/-- A task that had been handed over is tried: it finds its registration inactive, it is stale, or
the listener is called with it. -/
inductive Tries (w : World α) (t : Task α) : World α → Prop
  | pass (p : Bool) {r : Registration α} :
      t ∈ Event.handovers w.events → w.registration? t.watcher t.listener = some r →
      r.active = false → Tries w t (w.note p (.ran t false))
  | stale (p : Bool) {r : Registration α} :
      t ∈ Event.handovers w.events → w.registration? t.watcher t.listener = some r →
      r.active = true → t.update ≤ r.delivered → Tries w t (w.note p (.ran t true))
  | call (p q elsewhere : Bool) (audience : Audience) {r : Registration α} :
      t ∈ Event.handovers w.events → w.registration? t.watcher t.listener = some r →
      r.active = true → r.delivered < t.update →
      Tries w t (((w.note p (.ran t true)).tell t).note q (.called audience t elsewhere))

/-! ### What the changes leave alone -/

section Kept

variable (w : World α)

theorem resembles_unregister (id : WatcherId) (l : ListenerId) :
    w.Resembles (w.unregister id l) where
  sound hs := hs.modify id fun _ hb => hb.remove l
  updates _ := by simp
  latest _ := by simp
  lastId _ := by simp
  accepted _ := rfl
  closed hc := by rw [isClosed_unregister]; exact hc
  origin ho := by rw [origin?_unregister]; exact ho
  child ho := by rw [origin?_unregister] at ho; exact ho
  registration j k := .of_ite (registration?_unregister w id j l k) fun _ r _ => .retire r
  events := List.prefix_refl _

theorem isClosed_close {id j : WatcherId} (h : w.isClosed j = true) :
    (w.modify id Watcher.close).isClosed j = true := by
  unfold isClosed at h ⊢
  rw [watcher?_modify]
  split
  · cases hb : w.watcher? j with
    | none => rw [hb] at h; exact nomatch h
    | some b => rfl
  · exact h

theorem resembles_close (hw : w.SoundRegistries) (id : WatcherId) :
    w.Resembles (w.modify id Watcher.close) where
  sound hs := hs.modify id fun _ hb => hb.clear
  updates _ := updates_modify _ _ _ fun _ => rfl
  latest _ := latest?_modify _ _ _ fun _ => rfl
  lastId _ := lastId_modify _ _ _ fun _ => rfl
  accepted _ := rfl
  closed hc := isClosed_close w hc
  origin ho := (origin?_modify w id _ Watcher.close_origin).trans ho
  child ho := (origin?_modify w id _ Watcher.close_origin).symm.trans ho
  registration j k := .of_ite (registration?_close hw id j k) fun _ r _ => .retire r
  events := List.prefix_refl _

/-- Changing what a registration has been told. -/
theorem resembles_modifyRegistration (id : WatcherId) (l : ListenerId)
    {f : Registration α → Registration α} (hid : ∀ r, (f r).id = r.id)
    (hactive : ∀ r, (f r).active = r.active)
    (hf : ∀ r, w.registration? id l = some r → r.Precedes (f r)) :
    w.Resembles (w.modifyRegistration id l f) where
  sound hs := hs.modify id fun _ hb => hb.update l hid hactive
  updates _ := by simp
  latest _ := by simp
  lastId _ := by simp
  accepted _ := rfl
  closed hc := by rw [isClosed_modifyRegistration]; exact hc
  origin ho := by rw [origin?_modifyRegistration]; exact ho
  child ho := by rw [origin?_modifyRegistration] at ho; exact ho
  registration j k := .of_ite (registration?_modifyRegistration w id j l k hid) <| by
    rintro ⟨rfl, rfl⟩ r hr
    exact hf r hr
  events := List.prefix_refl _

theorem Resembles.trans {w w' w'' : World α} (h : w.Resembles w') (h' : w'.Resembles w'') :
    w.Resembles w'' where
  sound hs := h'.sound (h.sound hs)
  updates j := (h'.updates j).trans (h.updates j)
  latest j := (h'.latest j).trans (h.latest j)
  lastId j := (h'.lastId j).trans (h.lastId j)
  accepted j := (h'.accepted j).trans (h.accepted j)
  closed hc := h'.closed (h.closed hc)
  origin ho := h'.origin (h.origin ho)
  child ho := h.child (h'.child ho)
  registration j k := (h.registration j k).trans (h'.registration j k)
  events := h.events.trans h'.events

/-- An event that does not tell that a state was accepted. -/
theorem resembles_note (p : Bool) {e : Event α} (he : ∀ id, Event.acceptance? id e = none) :
    w.Resembles (w.note p e) where
  sound := id
  updates _ := rfl
  latest _ := rfl
  lastId _ := rfl
  accepted j := by
    unfold World.accepted
    rw [events_note, Event.accepted_append]
    unfold Event.accepted
    rw [List.filterMap_cons_none (he j), List.filterMap_nil, List.append_nil]
  closed := id
  origin := id
  child := id
  registration _ _ := .refl _
  events := by rw [events_note]; exact List.prefix_append _ _

end Kept

theorem resembles_handOver (w : World α) (p : Bool) (t : Task α) : w.Resembles (w.handOver p t) :=
  (w.resembles_note p (e := .handedOver t) fun _ => rfl).trans
    (resembles_modifyRegistration _ _ _ (fun _ => rfl) (fun _ => rfl)
      fun _ _ => ⟨rfl, rfl, Nat.le_refl _, id⟩)

theorem resembles_call {w : World α} {t : Task α} {r : Registration α}
    (hr : w.registration? t.watcher t.listener = some r) (ht : r.delivered < t.update)
    (p q elsewhere : Bool) (audience : Audience) :
    w.Resembles (((w.note p (.ran t true)).tell t).note q (.called audience t elsewhere)) := by
  refine ((w.resembles_note p (e := .ran t true) fun _ => rfl).trans ?_).trans
    (resembles_note _ q (e := .called audience t elsewhere) fun _ => rfl)
  refine resembles_modifyRegistration _ _ _ (fun _ => rfl) (fun _ => rfl) ?_
  intro a ha
  obtain rfl := Option.some.inj (hr.symm.trans ha)
  exact ⟨rfl, rfl, Nat.le_of_lt ht, id⟩

/-! ### Joining and accepting -/

section Joins

variable {w w' : World α} {id : WatcherId} {b : Watcher α} {listener : Listener α}
  {executor : Executor α} (hw : w.SoundRegistries) (hb : w.watcher? id = some b)
  (h : w.Joins id b listener executor w')

include h in
theorem extends_reserve : w.Extends (w'.reserve id) where
  events := by
    have heq : (w'.reserve id).events = w.events := by rw [events_reserve, h.events_eq]
    exact heq ▸ List.prefix_refl _
  origin ho := by rw [origin?_reserve]; exact h.origin?_mono ho
  closed hc := by rw [isClosed_reserve, h.isClosed_eq]; exact hc
  registration {j k r} hr := by
    rw [registration?_reserve, h.registration?_eq]
    exact ⟨r, hr, .refl r⟩

include hb h

include hw

theorem registration?_joined (j : WatcherId) (k : ListenerId) :
    (w'.enrol id listener executor).registration? j k =
      if id = j ∧ k = b.registry.nextId then some { id := b.registry.nextId, listener, executor }
      else w.registration? j k := by
  rw [registration?_enrol (h.sound hw) (h.watcher?_eq hb), h.registration?_eq]

theorem extends_enrol : w.Extends (w'.enrol id listener executor) where
  events := by
    have heq : (w'.enrol id listener executor).events = w.events := by
      rw [events_enrol, h.events_eq]
    exact heq ▸ List.prefix_refl _
  origin ho := by rw [origin?_enrol]; exact h.origin?_mono ho
  closed hc := by rw [isClosed_enrol, h.isClosed_eq]; exact hc
  registration {j k r} hr := by
    rw [registration?_joined hw hb h, if_neg]
    · exact ⟨r, hr, .refl r⟩
    · rintro ⟨rfl, rfl⟩
      rw [registration?_nextId hw hb] at hr
      exact nomatch hr

end Joins

section Accept

variable (w : World α) (p q : Bool) (name : String) (id : WatcherId) (b : Watcher α) (s : Latest α)

/-- That a first value is logged makes no difference. -/
theorem alike_adopt :
    ((w.note p (.offered id s .accepted)).modify id (·.accept s)).Alike
      (w.adopt p q name id b s) := by
  unfold adopt
  simp only
  split
  · exact .note _ _ rfl
  · exact .refl _

end Accept

section Accept

variable {w : World α} {id : WatcherId} {b : Watcher α} (hb : w.watcher? id = some b) (p : Bool)
  (s : Latest α)

theorem extends_accept :
    w.Extends ((w.note p (.offered id s .accepted)).modify id (·.accept s)) where
  events := by
    rw [events_modify, events_note]
    exact List.prefix_append _ _
  origin ho := (origin?_modify _ id _ fun b => Watcher.accept_origin b s).trans ho
  closed hc := (isClosed_modify _ id _ fun b => Watcher.accept_closed b s).trans hc
  registration {j k r} hr :=
    ⟨r, (registration?_modify _ id _ k fun b => Watcher.accept_registry b s).trans hr, .refl r⟩

theorem accepted_accept (j : WatcherId) :
    ((w.note p (.offered id s .accepted)).modify id (·.accept s)).accepted j =
      w.accepted j ++ if id = j then [s] else [] := by
  unfold World.accepted
  rw [events_modify, events_note, Event.accepted_append]
  congr 1
  by_cases hj : id = j <;> simp [Event.accepted, hj]

include hb

theorem updates_accept (j : WatcherId) :
    ((w.note p (.offered id s .accepted)).modify id (·.accept s)).updates j =
      w.updates j + if id = j then 1 else 0 := by
  by_cases hj : id = j
  · subst hj
    rw [updates_of_watcher? (watcher?_modify_self (w := w.note p _) hb _), if_pos rfl,
      updates_of_watcher? hb]
    rfl
  · unfold updates
    rw [watcher?_modify_of_ne _ hj, if_neg hj]
    rfl

theorem latest?_accept (j : WatcherId) :
    ((w.note p (.offered id s .accepted)).modify id (·.accept s)).latest? j =
      if id = j then some s else w.latest? j := by
  by_cases hj : id = j
  · subst hj
    rw [latest?_of_watcher? (watcher?_modify_self (w := w.note p _) hb _), if_pos rfl]
    rfl
  · unfold latest?
    rw [watcher?_modify_of_ne _ hj, if_neg hj]
    rfl

variable (q : Bool) (name : String) (a : Watcher α)

omit hb in
theorem accepted_adopt (j : WatcherId) :
    (w.adopt p q name id a s).accepted j = w.accepted j ++ if id = j then [s] else [] :=
  ((alike_adopt w p q name id a s).accepted j).trans (accepted_accept p s j)

theorem updates_adopt (j : WatcherId) :
    (w.adopt p q name id a s).updates j = w.updates j + if id = j then 1 else 0 :=
  ((alike_adopt w p q name id a s).updates j).trans (updates_accept hb p s j)

theorem latest?_adopt (j : WatcherId) :
    (w.adopt p q name id a s).latest? j = if id = j then some s else w.latest? j :=
  ((alike_adopt w p q name id a s).latest j).trans (latest?_accept hb p s j)

omit hb in
theorem isClosed_adopt (j : WatcherId) : (w.adopt p q name id a s).isClosed j = w.isClosed j :=
  ((alike_adopt w p q name id a s).closed j).trans
    (isClosed_modify _ id j fun b => Watcher.accept_closed b s)

omit hb in
theorem registration?_adopt (j : WatcherId) (l : ListenerId) :
    (w.adopt p q name id a s).registration? j l = w.registration? j l :=
  ((alike_adopt w p q name id a s).registration j l).trans
    (registration?_modify _ id j l fun b => Watcher.accept_registry b s)

end Accept

end World

end WatchTree
