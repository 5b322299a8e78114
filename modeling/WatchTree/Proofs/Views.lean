import WatchTree.Proofs.Registry
import WatchTree.Proofs.History

/-!
# Views of a world

What the proofs read of a world, one watcher or one registration at a time, and what the elementary
changes of a world do to it. A watcher that does not exist has accepted nothing and has no
registrations, so a new watcher without updates changes only who hangs where in the tree.
-/

namespace WatchTree

variable {α : Type}

/-! ## Fields after a change -/

namespace Watcher

variable (b : Watcher α) (s : Latest α)

@[simp] theorem accept_origin : (b.accept s).origin = b.origin := rfl
@[simp] theorem accept_updates : (b.accept s).updates = b.updates + 1 := rfl
@[simp] theorem accept_latest : (b.accept s).latest = some s := rfl
@[simp] theorem accept_closed : (b.accept s).closed = b.closed := rfl
@[simp] theorem accept_registry : (b.accept s).registry = b.registry := rfl
@[simp] theorem close_origin : b.close.origin = b.origin := rfl
@[simp] theorem close_updates : b.close.updates = b.updates := rfl
@[simp] theorem close_latest : b.close.latest = b.latest := rfl
@[simp] theorem close_closed : b.close.closed = true := rfl
@[simp] theorem close_registry : b.close.registry = b.registry.clear := rfl

end Watcher

namespace Bindings

variable {β : Type} (bs : Bindings β)

theorem mem_of_lookup {bs : Bindings β} {name : Name} {v : β} (h : bs.lookup name = some v) :
    (name, v) ∈ bs := by
  obtain ⟨l₁, l₂, rfl, -⟩ := List.lookup_eq_some_iff.mp h
  exact List.mem_append_right _ (List.mem_cons_self ..)

theorem lookup_unbind {name j : Name} (h : j ≠ name) :
    (bs.unbind name).lookup j = bs.lookup j := by
  unfold unbind
  induction bs with
  | nil => rfl
  | cons b bs ih =>
    rw [List.filter_cons]
    by_cases hb : b.1 = name
    · have hj : (j == b.1) = false := by simpa [hb] using h
      rw [if_neg (by simpa using hb), ih, List.lookup_cons, hj]
    · rw [if_pos (by simpa using hb), List.lookup_cons, List.lookup_cons, ih]

theorem lookup_bind (name j : Name) (x : β) :
    (bs.bind name x).lookup j = if j = name then some x else bs.lookup j := by
  unfold bind
  rw [List.lookup_cons]
  by_cases h : j = name
  · simp [h]
  · rw [if_neg h, lookup_unbind bs h, beq_false_of_ne h]

end Bindings

namespace World

theorem queue_setQueue (w : World α) (name j : Name) (ts : List (Task α)) :
    (w.setQueue name ts).queue j = if j = name then ts else w.queue j := by
  unfold queue setQueue
  rw [Bindings.lookup_bind]
  split <;> rfl

/-! ## Views -/

def updates (w : World α) (id : WatcherId) : Nat := ((w.watcher? id).map Watcher.updates).getD 0

def latest? (w : World α) (id : WatcherId) : Option (Latest α) :=
  (w.watcher? id).bind Watcher.latest

def origin? (w : World α) (id : WatcherId) : Option (Origin α) :=
  (w.watcher? id).map Watcher.origin

def isClosed (w : World α) (id : WatcherId) : Bool := (w.watcher? id).any Watcher.closed

def isDropped (w : World α) (id : WatcherId) : Bool := (w.watcher? id).any Watcher.dropped

/-- The id that a watcher issued last. -/
def lastId (w : World α) (id : WatcherId) : Nat :=
  ((w.watcher? id).map fun b => b.registry.lastId).getD 0

def IsRoot (w : World α) (id : WatcherId) : Prop := w.origin? id = some .root

section Fields

variable {w : World α} {id : WatcherId} {b : Watcher α} (h : w.watcher? id = some b)

include h

theorem updates_of_watcher? : w.updates id = b.updates := by unfold updates; rw [h]; rfl

theorem latest?_of_watcher? : w.latest? id = b.latest := by unfold latest?; rw [h]; rfl

theorem origin?_of_watcher? : w.origin? id = some b.origin := by unfold origin?; rw [h]; rfl

theorem isClosed_of_watcher? : w.isClosed id = b.closed := by unfold isClosed; rw [h]; rfl

theorem isDropped_of_watcher? : w.isDropped id = b.dropped := by unfold isDropped; rw [h]; rfl

theorem lastId_of_watcher? : w.lastId id = b.registry.lastId := by unfold lastId; rw [h]; rfl

theorem registration?_of_watcher? (l : ListenerId) :
    w.registration? id l = b.registry.find? l := by unfold registration?; rw [h]; rfl

theorem isRegistered_of_watcher? (l : ListenerId) :
    w.isRegistered id l = b.registry.entries.contains l := by unfold isRegistered; rw [h]; rfl

end Fields

theorem exists_watcher?_of_origin? {w : World α} {id : WatcherId} {o : Origin α}
    (h : w.origin? id = some o) : ∃ b, w.watcher? id = some b ∧ b.origin = o :=
  Option.map_eq_some_iff.mp h

theorem parent?_eq_some_iff {w : World α} {c p : WatcherId} {l : ListenerId} {d : Derivation α} :
    w.parent? c = some (p, l, d) ↔ w.origin? c = some (.child p l d) := by
  unfold parent? origin?
  cases h : w.watcher? c with
  | none => simp
  | some b => cases b with | mk name origin => cases origin <;> simp

/-! ## Changing one watcher -/

theorem watcher?_modify (w : World α) (id j : WatcherId) (f : Watcher α → Watcher α) :
    (w.modify id f).watcher? j = if id = j then (w.watcher? j).map f else w.watcher? j := by
  unfold modify watcher?
  rw [List.getElem?_modify]
  split <;> simp

theorem watcher?_modify_self {w : World α} {id : WatcherId} {b : Watcher α}
    (h : w.watcher? id = some b) (f : Watcher α → Watcher α) :
    (w.modify id f).watcher? id = some (f b) := by
  rw [watcher?_modify, if_pos rfl, h]
  rfl

theorem watcher?_modify_of_ne (w : World α) {id j : WatcherId} (h : id ≠ j)
    (f : Watcher α → Watcher α) : (w.modify id f).watcher? j = w.watcher? j := by
  rw [watcher?_modify, if_neg h]

/-- A change that keeps a field keeps it of every watcher. -/
theorem map_watcher?_modify {β : Type} {g : Watcher α → β} {f : Watcher α → Watcher α}
    (hf : ∀ b, g (f b) = g b) (w : World α) (id j : WatcherId) :
    ((w.modify id f).watcher? j).map g = (w.watcher? j).map g := by
  rw [watcher?_modify]
  split
  · rw [Option.map_map]
    congr 1
    funext b
    exact hf b
  · rfl

theorem bind_watcher?_modify {β : Type} {g : Watcher α → Option β} {f : Watcher α → Watcher α}
    (hf : ∀ b, g (f b) = g b) (w : World α) (id j : WatcherId) :
    ((w.modify id f).watcher? j).bind g = (w.watcher? j).bind g := by
  rw [watcher?_modify]
  split
  · rw [Option.bind_map]
    congr 1
    funext b
    exact hf b
  · rfl

section Modify

variable (w : World α) (id j : WatcherId) {f : Watcher α → Watcher α}

@[simp] theorem updates_modify (hf : ∀ b, (f b).updates = b.updates) :
    (w.modify id f).updates j = w.updates j := by
  unfold updates
  rw [map_watcher?_modify hf]

@[simp] theorem latest?_modify (hf : ∀ b, (f b).latest = b.latest) :
    (w.modify id f).latest? j = w.latest? j := bind_watcher?_modify hf w id j

@[simp] theorem origin?_modify (hf : ∀ b, (f b).origin = b.origin) :
    (w.modify id f).origin? j = w.origin? j := map_watcher?_modify hf w id j

@[simp] theorem isClosed_modify (hf : ∀ b, (f b).closed = b.closed) :
    (w.modify id f).isClosed j = w.isClosed j := by
  have hany : ∀ x : Option (Watcher α), x.any Watcher.closed = (x.map Watcher.closed).any (·) := by
    intro x
    rw [Option.any_map]
  unfold isClosed
  rw [hany, hany, map_watcher?_modify hf]

@[simp] theorem registration?_modify (l : ListenerId) (hf : ∀ b, (f b).registry = b.registry) :
    (w.modify id f).registration? j l = w.registration? j l :=
  bind_watcher?_modify (fun b => by rw [hf]) w id j

@[simp] theorem lastId_modify (hf : ∀ b, (f b).registry.lastId = b.registry.lastId) :
    (w.modify id f).lastId j = w.lastId j := by
  unfold lastId
  rw [map_watcher?_modify hf]

@[simp] theorem events_modify : (w.modify id f).events = w.events := rfl

end Modify

/-! ## Elementary changes -/

def addWatcher (w : World α) (b : Watcher α) : World α := { w with watchers := w.watchers ++ [b] }

/-- A world in which only the registry of a watcher is another. -/
def mapRegistry (w : World α) (id : WatcherId) (f : Registry α → Registry α) : World α :=
  w.modify id fun b => { b with registry := f b.registry }

/-- Registers a listener under the next id of a watcher. -/
def enrol (w : World α) (id : WatcherId) (listener : Listener α) (executor : Executor α) :
    World α :=
  w.modify id fun b => { b with registry := b.registry.insert listener executor }

def reserve (w : World α) (id : WatcherId) : World α :=
  w.modify id fun b => { b with registry := b.registry.reserve }

/-- Hands a task to the executor of its registration. -/
def handOver (w : World α) (onPoller : Bool) (t : Task α) : World α :=
  (w.note onPoller (.handedOver t)).modifyRegistration t.watcher t.listener fun r =>
    { r with handovers := r.handovers + 1 }

/-- Counts a call of the listener of a registration. -/
def tell (w : World α) (t : Task α) : World α :=
  w.modifyRegistration t.watcher t.listener fun r =>
    { r with delivered := t.update, calls := r.calls + 1 }

/-! ### What elementary changes leave alone -/

section Note

variable (w : World α) (p : Bool) (e : Event α) (j : WatcherId)

@[simp] theorem watcher?_note : (w.note p e).watcher? j = w.watcher? j := rfl
@[simp] theorem updates_note : (w.note p e).updates j = w.updates j := rfl
@[simp] theorem latest?_note : (w.note p e).latest? j = w.latest? j := rfl
@[simp] theorem origin?_note : (w.note p e).origin? j = w.origin? j := rfl
@[simp] theorem lastId_note : (w.note p e).lastId j = w.lastId j := rfl
@[simp] theorem registration?_note (l : ListenerId) :
    (w.note p e).registration? j l = w.registration? j l := rfl
@[simp] theorem isClosed_note : (w.note p e).isClosed j = w.isClosed j := rfl
@[simp] theorem isRegistered_note (l : ListenerId) :
    (w.note p e).isRegistered j l = w.isRegistered j l := rfl

end Note

section MapRegistry

variable (w : World α) (id j : WatcherId) (f : Registry α → Registry α)

@[simp] theorem updates_mapRegistry : (w.mapRegistry id f).updates j = w.updates j :=
  updates_modify _ _ _ fun _ => rfl
@[simp] theorem latest?_mapRegistry : (w.mapRegistry id f).latest? j = w.latest? j :=
  latest?_modify _ _ _ fun _ => rfl
@[simp] theorem origin?_mapRegistry : (w.mapRegistry id f).origin? j = w.origin? j :=
  origin?_modify _ _ _ fun _ => rfl
@[simp] theorem isClosed_mapRegistry : (w.mapRegistry id f).isClosed j = w.isClosed j :=
  isClosed_modify _ _ _ fun _ => rfl
@[simp] theorem events_mapRegistry : (w.mapRegistry id f).events = w.events := rfl

end MapRegistry

section RegistryOnly

variable (w : World α) (id j : WatcherId) (l : ListenerId) (f : Registration α → Registration α)
  (listener : Listener α) (executor : Executor α)

@[simp] theorem updates_modifyRegistration :
    (w.modifyRegistration id l f).updates j = w.updates j := updates_modify _ _ _ fun _ => rfl
@[simp] theorem latest?_modifyRegistration :
    (w.modifyRegistration id l f).latest? j = w.latest? j := latest?_modify _ _ _ fun _ => rfl
@[simp] theorem origin?_modifyRegistration :
    (w.modifyRegistration id l f).origin? j = w.origin? j := origin?_modify _ _ _ fun _ => rfl
@[simp] theorem lastId_modifyRegistration :
    (w.modifyRegistration id l f).lastId j = w.lastId j := lastId_modify _ _ _ fun _ => rfl
@[simp] theorem isClosed_modifyRegistration :
    (w.modifyRegistration id l f).isClosed j = w.isClosed j := isClosed_modify _ _ _ fun _ => rfl
@[simp] theorem events_modifyRegistration :
    (w.modifyRegistration id l f).events = w.events := rfl

@[simp] theorem updates_unregister : (w.unregister id l).updates j = w.updates j :=
  updates_modify _ _ _ fun _ => rfl
@[simp] theorem latest?_unregister : (w.unregister id l).latest? j = w.latest? j :=
  latest?_modify _ _ _ fun _ => rfl
@[simp] theorem origin?_unregister : (w.unregister id l).origin? j = w.origin? j :=
  origin?_modify _ _ _ fun _ => rfl
@[simp] theorem lastId_unregister : (w.unregister id l).lastId j = w.lastId j :=
  lastId_modify _ _ _ fun _ => rfl
@[simp] theorem isClosed_unregister :
    (w.unregister id l).isClosed j = w.isClosed j := isClosed_modify _ _ _ fun _ => rfl
@[simp] theorem events_unregister : (w.unregister id l).events = w.events := rfl

@[simp] theorem updates_enrol : (w.enrol id listener executor).updates j = w.updates j :=
  updates_modify _ _ _ fun _ => rfl
@[simp] theorem latest?_enrol : (w.enrol id listener executor).latest? j = w.latest? j :=
  latest?_modify _ _ _ fun _ => rfl
@[simp] theorem origin?_enrol : (w.enrol id listener executor).origin? j = w.origin? j :=
  origin?_modify _ _ _ fun _ => rfl
@[simp] theorem isClosed_enrol :
    (w.enrol id listener executor).isClosed j = w.isClosed j := isClosed_modify _ _ _ fun _ => rfl
@[simp] theorem events_enrol : (w.enrol id listener executor).events = w.events := rfl

@[simp] theorem updates_reserve : (w.reserve id).updates j = w.updates j :=
  updates_modify _ _ _ fun _ => rfl
@[simp] theorem latest?_reserve : (w.reserve id).latest? j = w.latest? j :=
  latest?_modify _ _ _ fun _ => rfl
@[simp] theorem origin?_reserve : (w.reserve id).origin? j = w.origin? j :=
  origin?_modify _ _ _ fun _ => rfl
@[simp] theorem isClosed_reserve :
    (w.reserve id).isClosed j = w.isClosed j := isClosed_modify _ _ _ fun _ => rfl
@[simp] theorem events_reserve : (w.reserve id).events = w.events := rfl

end RegistryOnly

section Tasks

variable (w : World α) (p : Bool) (t : Task α) (j : WatcherId)

@[simp] theorem updates_handOver : (w.handOver p t).updates j = w.updates j := by
  simp [handOver]
@[simp] theorem latest?_handOver : (w.handOver p t).latest? j = w.latest? j := by
  simp [handOver]
@[simp] theorem origin?_handOver : (w.handOver p t).origin? j = w.origin? j := by
  simp [handOver]
@[simp] theorem lastId_handOver : (w.handOver p t).lastId j = w.lastId j := by
  simp [handOver]
@[simp] theorem isClosed_handOver : (w.handOver p t).isClosed j = w.isClosed j := by
  simp [handOver]
@[simp] theorem events_handOver : (w.handOver p t).events = w.events ++ [.handedOver t] := by
  simp [handOver]

@[simp] theorem updates_tell : (w.tell t).updates j = w.updates j := by simp [tell]
@[simp] theorem latest?_tell : (w.tell t).latest? j = w.latest? j := by simp [tell]
@[simp] theorem origin?_tell : (w.tell t).origin? j = w.origin? j := by simp [tell]
@[simp] theorem lastId_tell : (w.tell t).lastId j = w.lastId j := by simp [tell]
@[simp] theorem isClosed_tell : (w.tell t).isClosed j = w.isClosed j := by simp [tell]
@[simp] theorem events_tell : (w.tell t).events = w.events := rfl

end Tasks

/-! ### A further watcher -/

theorem watcher?_addWatcher (w : World α) (b : Watcher α) (j : WatcherId) :
    (w.addWatcher b).watcher? j = if j = w.watchers.length then some b else w.watcher? j := by
  unfold addWatcher watcher?
  rw [List.getElem?_append]
  split
  · rename_i hj
    rw [if_neg (Nat.ne_of_lt hj)]
  · rename_i hj
    by_cases hl : j = w.watchers.length
    · rw [if_pos hl, hl, Nat.sub_self]
      rfl
    · have hlt : w.watchers.length < j := Nat.lt_of_le_of_ne (Nat.le_of_not_lt hj) (Ne.symm hl)
      rw [if_neg hl, List.getElem?_eq_none (Nat.le_of_lt hlt), List.getElem?_eq_none]
      exact Nat.sub_pos_of_lt hlt

theorem watcher?_length (w : World α) : w.watcher? w.watchers.length = none :=
  List.getElem?_eq_none (Nat.le_refl _)

theorem lt_length {w : World α} {id : WatcherId} {b : Watcher α} (hb : w.watcher? id = some b) :
    id < w.watchers.length := (List.getElem?_eq_some_iff.mp hb).1

theorem origin?_length (w : World α) : w.origin? w.watchers.length = none := by
  unfold origin?
  rw [watcher?_length]
  rfl

theorem isClosed_length (w : World α) : w.isClosed w.watchers.length = false := by
  unfold isClosed
  rw [watcher?_length]
  rfl

section AddWatcher

variable (w : World α) (b : Watcher α) (j : WatcherId)

theorem updates_addWatcher (hb : b.updates = 0) : (w.addWatcher b).updates j = w.updates j := by
  unfold updates
  rw [watcher?_addWatcher]
  split
  · subst j
    rw [watcher?_length]
    exact hb
  · rfl

theorem latest?_addWatcher (hb : b.latest = none) :
    (w.addWatcher b).latest? j = w.latest? j := by
  unfold latest?
  rw [watcher?_addWatcher]
  split
  · subst j
    rw [watcher?_length]
    exact hb
  · rfl

theorem isClosed_addWatcher (hb : b.closed = false) :
    (w.addWatcher b).isClosed j = w.isClosed j := by
  unfold isClosed
  rw [watcher?_addWatcher]
  split
  · subst j
    rw [watcher?_length]
    exact hb
  · rfl

theorem registration?_addWatcher (hb : b.registry.records = []) (l : ListenerId) :
    (w.addWatcher b).registration? j l = w.registration? j l := by
  unfold registration?
  rw [watcher?_addWatcher]
  split
  · subst j
    rw [watcher?_length]
    show b.registry.find? l = none
    unfold Registry.find?
    rw [hb]
    rfl
  · rfl

theorem lastId_addWatcher (hb : b.registry.lastId = 0) :
    (w.addWatcher b).lastId j = w.lastId j := by
  unfold lastId
  rw [watcher?_addWatcher]
  split
  · subst j
    rw [watcher?_length]
    exact hb
  · rfl

theorem origin?_addWatcher :
    (w.addWatcher b).origin? j =
      if j = w.watchers.length then some b.origin else w.origin? j := by
  unfold origin?
  rw [watcher?_addWatcher]
  split <;> rfl

@[simp] theorem events_addWatcher : (w.addWatcher b).events = w.events := rfl

end AddWatcher

/-! ## Registrations after a change -/

theorem registration?_modifyRegistration (w : World α) (id j : WatcherId) (l k : ListenerId)
    {f : Registration α → Registration α} (hf : ∀ r, (f r).id = r.id) :
    (w.modifyRegistration id l f).registration? j k =
      if id = j ∧ k = l then (w.registration? j k).map f else w.registration? j k := by
  unfold modifyRegistration registration?
  rw [watcher?_modify]
  by_cases hj : id = j
  · rw [if_pos hj]
    cases w.watcher? j with
    | none => simp
    | some b =>
      show (b.registry.update l f).find? k = _
      rw [Registry.find?_update _ _ _ _ hf]
      by_cases hk : k = l <;> simp [hj, hk]
  · rw [if_neg hj, if_neg (fun h => hj h.1)]

theorem registration?_handOver (w : World α) (p : Bool) (t : Task α) (j : WatcherId)
    (k : ListenerId) :
    (w.handOver p t).registration? j k =
      if t.watcher = j ∧ k = t.listener then
        (w.registration? j k).map fun r => { r with handovers := r.handovers + 1 }
      else w.registration? j k :=
  registration?_modifyRegistration (w.note p (.handedOver t)) t.watcher j t.listener k fun _ => rfl

theorem registration?_tell (w : World α) (t : Task α) (j : WatcherId) (k : ListenerId) :
    (w.tell t).registration? j k =
      if t.watcher = j ∧ k = t.listener then
        (w.registration? j k).map fun r => { r with delivered := t.update, calls := r.calls + 1 }
      else w.registration? j k :=
  registration?_modifyRegistration w t.watcher j t.listener k fun _ => rfl

theorem registration?_unregister (w : World α) (id j : WatcherId) (l k : ListenerId) :
    (w.unregister id l).registration? j k =
      if id = j ∧ k = l then (w.registration? j k).map Registration.retire
      else w.registration? j k := by
  unfold unregister registration?
  rw [watcher?_modify]
  by_cases hj : id = j
  · rw [if_pos hj]
    cases w.watcher? j with
    | none => simp
    | some b =>
      show (b.registry.remove l).find? k = _
      rw [Registry.find?_remove]
      by_cases hk : k = l <;> simp [hj, hk]
  · rw [if_neg hj, if_neg (fun h => hj h.1)]

theorem registration?_reserve (w : World α) (id j : WatcherId) (k : ListenerId) :
    (w.reserve id).registration? j k = w.registration? j k :=
  bind_watcher?_modify (f := fun b => { b with registry := b.registry.reserve })
    (g := fun b => b.registry.find? k) (fun _ => rfl) w id j

/-- Every registry of a world is sound. -/
def SoundRegistries (w : World α) : Prop := ∀ id b, w.watcher? id = some b → b.registry.Sound

theorem SoundRegistries.modify {w : World α} (h : w.SoundRegistries) (id : WatcherId)
    {f : Watcher α → Watcher α} (hf : ∀ b, b.registry.Sound → (f b).registry.Sound) :
    (w.modify id f).SoundRegistries := by
  intro j b hb
  rw [watcher?_modify] at hb
  split at hb
  · obtain ⟨a, ha, rfl⟩ := Option.map_eq_some_iff.mp hb
    exact hf a (h j a ha)
  · exact h j b hb

theorem SoundRegistries.enrol {w : World α} (h : w.SoundRegistries) (id : WatcherId)
    (listener : Listener α) (executor : Executor α) :
    (w.enrol id listener executor).SoundRegistries :=
  h.modify id fun _ hb => hb.insert listener executor

section Sound

variable {w : World α} (hw : w.SoundRegistries)

include hw

theorem registration?_close (id j : WatcherId) (k : ListenerId) :
    (w.modify id Watcher.close).registration? j k =
      if id = j then (w.registration? j k).map Registration.retire else w.registration? j k := by
  unfold registration?
  rw [watcher?_modify]
  split
  · cases hb : w.watcher? j with
    | none => rfl
    | some b => exact (hw j b hb).find?_clear k
  · rfl

theorem registration?_enrol {id : WatcherId} {b : Watcher α} (hb : w.watcher? id = some b)
    (listener : Listener α) (executor : Executor α) (j : WatcherId) (k : ListenerId) :
    (w.enrol id listener executor).registration? j k =
      if id = j ∧ k = b.registry.nextId then some { id := b.registry.nextId, listener, executor }
      else w.registration? j k := by
  unfold enrol registration?
  rw [watcher?_modify]
  by_cases hj : id = j
  · subst hj
    rw [if_pos rfl, hb]
    show (b.registry.insert listener executor).find? k = _
    rw [(hw id b hb).find?_insert]
    by_cases hk : k = b.registry.nextId <;> simp [hk]
  · rw [if_neg hj, if_neg (fun h => hj h.1)]

theorem registration?_nextId {id : WatcherId} {b : Watcher α} (hb : w.watcher? id = some b) :
    w.registration? id b.registry.nextId = none := by
  rw [registration?_of_watcher? hb]
  exact (hw id b hb).find?_nextId

theorem isRegistered_iff (id : WatcherId) (l : ListenerId) :
    w.isRegistered id l = true ↔ ∃ r, w.registration? id l = some r ∧ r.active = true := by
  cases hb : w.watcher? id with
  | none => simp [isRegistered, registration?, hb]
  | some b =>
    rw [isRegistered_of_watcher? hb, registration?_of_watcher? hb, List.contains_iff_mem]
    exact (hw id b hb).mem_entries_iff l

end Sound

/-! ## Who is dropped, and who is registered -/

theorem hasHandle_congr {w w' : World α} (h : w'.handles = w.handles) (id : WatcherId) :
    w'.hasHandle id = w.hasHandle id := by
  unfold hasHandle
  rw [h]

/-- There is no watcher yet with the next number. -/
theorem isDropped_length (w : World α) : w.isDropped w.watchers.length = false := by
  unfold isDropped
  rw [watcher?_length]
  rfl

theorem isDropped_modify (w : World α) (id j : WatcherId) {f : Watcher α → Watcher α}
    (hf : ∀ b, (f b).dropped = b.dropped) : (w.modify id f).isDropped j = w.isDropped j := by
  have hany : ∀ x : Option (Watcher α), x.any Watcher.dropped =
      (x.map Watcher.dropped).any (·) := by
    intro x
    rw [Option.any_map]
  unfold isDropped
  rw [hany, hany, map_watcher?_modify hf]

theorem isDropped_unregister (w : World α) (id j : WatcherId) (l : ListenerId) :
    (w.unregister id l).isDropped j = w.isDropped j := isDropped_modify w id j fun _ => rfl

theorem isDropped_addWatcher (w : World α) (b : Watcher α) (j : WatcherId)
    (hb : b.dropped = false) : (w.addWatcher b).isDropped j = w.isDropped j := by
  unfold isDropped
  rw [watcher?_addWatcher]
  split
  · subst j
    rw [watcher?_length]
    exact hb
  · rfl

theorem isRegistered_modify (w : World α) (id j : WatcherId) (l : ListenerId)
    {f : Watcher α → Watcher α} (hf : ∀ b, (f b).registry.entries = b.registry.entries) :
    (w.modify id f).isRegistered j l = w.isRegistered j l := by
  have hany : ∀ x : Option (Watcher α),
      (x.any fun b => b.registry.entries.contains l) =
        (x.map fun b => b.registry.entries).any fun es => es.contains l := by
    intro x
    rw [Option.any_map]
  unfold isRegistered
  rw [hany, hany, map_watcher?_modify (g := fun b => b.registry.entries) hf]

theorem isRegistered_addWatcher (w : World α) (b : Watcher α) (j : WatcherId) (l : ListenerId)
    (hb : b.registry.entries = []) :
    (w.addWatcher b).isRegistered j l = w.isRegistered j l := by
  unfold isRegistered
  rw [watcher?_addWatcher]
  split
  · subst j
    rw [watcher?_length, Option.any_some, hb]
    rfl
  · rfl

theorem isRegistered_unregister {w : World α} (hw : w.SoundRegistries) (id j : WatcherId)
    (l k : ListenerId) :
    (w.unregister id l).isRegistered j k = true ↔
      w.isRegistered j k = true ∧ ¬ (j = id ∧ k = l) := by
  have hsound : (w.unregister id l).SoundRegistries := hw.modify id fun _ hb => hb.remove l
  rw [isRegistered_iff hsound, isRegistered_iff hw, registration?_unregister]
  by_cases h : id = j ∧ k = l
  · obtain ⟨rfl, rfl⟩ := h
    simp
  · rw [if_neg h]
    have hne : ¬ (j = id ∧ k = l) := fun hjk => h ⟨hjk.1.symm, hjk.2⟩
    simp [hne]

theorem isRegistered_close {w : World α} (hw : w.SoundRegistries) (id j : WatcherId)
    (k : ListenerId) :
    (w.modify id Watcher.close).isRegistered j k = true ↔ w.isRegistered j k = true ∧ j ≠ id := by
  have hsound : (w.modify id Watcher.close).SoundRegistries := hw.modify id fun _ hb => hb.clear
  rw [isRegistered_iff hsound, isRegistered_iff hw, registration?_close hw]
  by_cases h : id = j
  · subst h
    simp
  · rw [if_neg h]
    have hne : j ≠ id := fun hj => h hj.symm
    simp [hne]

end World

end WatchTree
