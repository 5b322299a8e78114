import WatchTree.Proofs.Moves

/-!
# What always holds

`World.Ledger` ties the watchers and their registrations to the history; `Machine.WellFormed` adds
the unfinished work, the queues and the handles.
-/

namespace WatchTree

variable {α : Type}

/-- The watchers and their registrations agree with each other and with the history. -/
structure World.Ledger (w : World α) : Prop where
  sound : w.SoundRegistries
  updates_eq : ∀ id, w.updates id = (w.accepted id).length
  latest_eq : ∀ id, w.latest? id = (w.accepted id).getLast?
  /-- A child comes after its parent, which issued the id of its subscription. -/
  parent : ∀ {c p l d}, w.origin? c = some (.child p l d) → p < c ∧ l.number ≤ w.lastId p
  /-- A subscription belongs to a child. -/
  fed : ∀ {p l r c}, w.registration? p l = some r → r.listener = .subscription c →
    ∃ d, w.origin? c = some (.child p l d)
  /-- The subscription of a child feeds it, at once. -/
  subscription : ∀ {c p l d r}, w.origin? c = some (.child p l d) → w.registration? p l = some r →
    r.listener = .subscription c ∧ r.executor.disposal = .inline
  /-- What was handed over had been accepted, and was for a registration. -/
  handedOver : ∀ t ∈ Event.handovers w.events,
    w.Genuine t.watcher t.update t.state ∧ ∃ r, w.registration? t.watcher t.listener = some r

/-- Names and queues do not matter to the ledger. -/
theorem World.Ledger.of_eq {w w' : World α} (h : w.Ledger) (hw : w'.watchers = w.watchers)
    (hh : w'.history = w.history) : w'.Ledger := by
  cases w
  cases w'
  cases hw
  cases hh
  exact ⟨h.sound, h.updates_eq, h.latest_eq, h.parent, h.fed, h.subscription, h.handedOver⟩

/-- Nothing in a machine is out of place. -/
structure Machine.WellFormed (m : Machine α) : Prop where
  ledger : m.world.Ledger
  stacked : m.world.Stacked m.stack
  queued : ∀ name, ∀ t ∈ m.world.queue name, m.world.Queued t
  roots : m.world.RootHandles m.world.handles

end WatchTree
