import WatchTree.Proofs.Sides
import WatchTree.Proofs.Agreement
import WatchTree.Proofs.OnTop

/-!
# Twin worlds

Two worlds that differ in a subtree only, which the second one lacks. A `Pairing` says which
watchers and listeners of the two are the same; the numbers may differ, since the subtree has used
some up. `World.Twins` compares the worlds: a watcher outside and its twin agree in all that can be
seen of them, and in their registries up to the subscriptions of watchers inside; names outside
stand for the same; and what is inside has only callbacks that stay inside.
-/

namespace WatchTree

variable {α : Type}

/-! ## Pairings -/

/-- Which watchers and listeners of two worlds are the same. -/
structure Pairing where
  /-- A watcher outside, and what it is in the other world. -/
  pair : WatcherId → WatcherId → Prop
  inside : WatcherId → Prop
  /-- A listener on a watcher outside, and what it is in the other world. -/
  listener : WatcherId → ListenerId → ListenerId → Prop
  /-- The subscription of a watcher inside on one outside. -/
  skipped : WatcherId → ListenerId → Prop
  pair_inj : ∀ {i i' j j'}, pair i i' → pair j j' → (i = j ↔ i' = j')
  pair_apart : ∀ {i i'}, pair i i' → ¬ inside i
  listener_inj : ∀ {i l l' k k'}, listener i l l' → listener i k k' → (l = k ↔ l' = k')
  listener_apart : ∀ {i l l'}, listener i l l' → ¬ skipped i l

namespace Pairing

/-- The pairing of empty worlds. -/
def blank : Pairing where
  pair _ _ := False
  inside _ := False
  listener _ _ _ := False
  skipped _ _ := False
  pair_inj h := h.elim
  pair_apart h := h.elim
  listener_inj h := h.elim
  listener_apart h := h.elim

/-- The second pairing has everything in the first one. -/
structure Le (G H : Pairing) : Prop where
  pair : ∀ {i i'}, G.pair i i' → H.pair i i'
  inside : ∀ {i}, G.inside i → H.inside i
  listener : ∀ {i l l'}, G.listener i l l' → H.listener i l l'
  skipped : ∀ {i l}, G.skipped i l → H.skipped i l

instance : LE Pairing := ⟨Le⟩

theorem le_refl (G : Pairing) : G ≤ G := ⟨id, id, id, id⟩

theorem le_trans {G H K : Pairing} (h : G ≤ H) (h' : H ≤ K) : G ≤ K :=
  ⟨h'.pair ∘ h.pair, h'.inside ∘ h.inside, h'.listener ∘ h.listener, h'.skipped ∘ h.skipped⟩

variable (G : Pairing)

/-! ### Registries -/

/-- Lists of listeners that are the same, up to subscriptions from inside. -/
inductive Matches (i : WatcherId) : List ListenerId → List ListenerId → Prop
  | nil : Matches i [] []
  | skip {l : ListenerId} {ls ls' : List ListenerId} :
      G.skipped i l → Matches i ls ls' → Matches i (l :: ls) ls'
  | both {l l' : ListenerId} {ls ls' : List ListenerId} :
      G.listener i l l' → Matches i ls ls' → Matches i (l :: ls) (l' :: ls')

structure Tasks (t t' : Task α) : Prop where
  watcher : G.pair t.watcher t'.watcher
  listener : G.listener t.watcher t.listener t'.listener
  update : t'.update = t.update
  state : t'.state = t.state

variable (below : Name → Bool)

inductive Listeners : Listener α → Listener α → Prop
  | observer {label : Name} {valueOnly : Bool} {actions : Actions α} :
      (∀ n, Callback below false (actions n)) →
      Listeners (.observer label valueOnly actions) (.observer label valueOnly actions)
  | subscription {c c' : WatcherId} : G.pair c c' → Listeners (.subscription c) (.subscription c')

structure Registrations (r r' : Registration α) : Prop where
  listener : G.Listeners below r.listener r'.listener
  executor : r'.executor = r.executor
  disposal : r.executor.disposal.OnSide below false
  actions : ∀ n, Callback below false (r.executor.actions n)
  active : r'.active = r.active
  delivered : r'.delivered = r.delivered
  calls : r'.calls = r.calls
  handovers : r'.handovers = r.handovers

/-- Registries that are the same, up to subscriptions from inside. -/
structure Registries (i : WatcherId) (g g' : Registry α) : Prop where
  sound : g.Sound
  sound' : g'.Sound
  entries : G.Matches i g.entries g'.entries
  records : ∀ {l l'}, G.listener i l l' →
    Option.Rel (G.Registrations below) (g.find? l) (g'.find? l')
  covered : ∀ r ∈ g.records, G.skipped i r.id ∨ ∃ l', G.listener i r.id l'
  onto : ∀ r' ∈ g'.records, ∃ l, G.listener i l r'.id
  issued : ∀ {l l'}, G.listener i l l' → l.number ≤ g.lastId ∧ l'.number ≤ g'.lastId
  skipped_issued : ∀ {l}, G.skipped i l → l.number ≤ g.lastId
  skipped_records : ∀ r ∈ g.records, G.skipped i r.id →
    ∃ c, r.listener = .subscription c ∧ G.inside c ∧ r.executor = ⟨.inline, fun _ => []⟩

/-! ### Watchers -/

inductive Origins : Origin α → Origin α → Prop
  | root : Origins .root .root
  | child {p p' : WatcherId} {l l' : ListenerId} {d : Derivation α} :
      G.pair p p' → G.listener p l l' → below d.label = false →
      (∀ n, Callback below false (d.actions n)) → Origins (.child p l d) (.child p' l' d)

structure Watchers (i : WatcherId) (b b' : Watcher α) : Prop where
  name : b'.name = b.name
  origin : G.Origins below b.origin b'.origin
  latest : b'.latest = b.latest
  updates : b'.updates = b.updates
  closed : b'.closed = b.closed
  slot : b'.slot = b.slot
  wakers : ∀ k ∈ b.slot.wakers, below k = false
  registry : G.Registries below i b.registry b'.registry
  dropped : b'.dropped = b.dropped

/-- A listener inside. -/
inductive InsideListener : Listener α → Prop
  | observer {label : Name} {valueOnly : Bool} {actions : Actions α} :
      (∀ n, Callback below true (actions n)) → InsideListener (.observer label valueOnly actions)
  | subscription {c : WatcherId} : G.inside c → InsideListener (.subscription c)

/-- A registration inside. -/
structure InsideRegistration (r : Registration α) : Prop where
  listener : G.InsideListener below r.listener
  disposal : r.executor.disposal.OnSide below true
  actions : ∀ n, Callback below true (r.executor.actions n)

/-- A watcher inside: a child of one that is inside, too, or of one outside by a subscription that
is passed over. -/
structure InsideWatcher (b : Watcher α) : Prop where
  origin : ∃ p l d, b.origin = .child p l d ∧ below d.label = true ∧
    (∀ n, Callback below true (d.actions n)) ∧ (G.inside p ∨ G.skipped p l)
  wakers : ∀ k ∈ b.slot.wakers, below k = true
  records : ∀ r ∈ b.registry.records, G.InsideRegistration below r

end Pairing

/-! ## Worlds -/

/-- Watchers outside on which something inside is subscribed have handles. -/
def Pairing.Hosted (G : Pairing) (w : World α) : Prop :=
  ∀ p l, G.skipped p l → w.hasHandle p = true

theorem Pairing.Hosted.of_eq {G : Pairing} {w w' : World α} (h : G.Hosted w)
    (hh : w'.handles = w.handles) : G.Hosted w' := by
  intro p l hl
  rw [World.hasHandle_congr hh]
  exact h p l hl

open Pairing

/-- Worlds that are the same outside. -/
structure World.Twins (below : Name → Bool) (issuer : Name → Option WatcherId) (G : Pairing)
    (w w' : World α) : Prop where
  bodies : ∀ {i i'}, G.pair i i' → ∃ b b', w.watcher? i = some b ∧ w'.watcher? i' = some b' ∧
    G.Watchers below i b b'
  insides : ∀ {i}, G.inside i → ∃ b, w.watcher? i = some b ∧ G.InsideWatcher below b
  covered : ∀ i < w.watchers.length, G.inside i ∨ ∃ i', G.pair i i'
  onto : ∀ i' < w'.watchers.length, ∃ i, G.pair i i'
  hosts : ∀ {p l}, G.skipped p l → ∃ p', G.pair p p'
  listened : ∀ {p l l'}, G.listener p l l' → ∃ p', G.pair p p'
  handles : w.handles.Kept below (fun _ h h' => h'.face = h.face ∧ G.pair h.target h'.target)
    w'.handles
  insideHandles : ∀ x ∈ w.handles, below x.1 = true → G.inside x.2.target
  listeners : w.listeners.Kept below (fun label l l' =>
    ∃ p, issuer label = some p ∧ G.listener p l l') w'.listeners
  futures : w.futures.Kept below (fun _ => G.pair) w'.futures
  insideFutures : ∀ x ∈ w.futures, below x.1 = true → G.inside x.2
  wakers : w.wakers.Kept below (fun _ k k' => k' = k ∧ ∀ n, Callback below false (k.actions n))
    w'.wakers
  insideWakers : ∀ x ∈ w.wakers, below x.1 = true → ∀ n, Callback below true (x.2.actions n)
  waiters : w.waiters.Kept below (fun _ => G.pair) w'.waiters
  queues : w.queues.Kept below (fun _ => List.Forall₂ G.Tasks) w'.queues
  insideQueues : ∀ x ∈ w.queues, below x.1 = true → ∀ t ∈ x.2, G.inside t.watcher
  stopped : w'.stopped = w.stopped
  calls : ∀ {p p' l l'}, G.pair p p' → G.listener p l l' →
    (w'.callsTo p' l').map Task.state = (w.callsTo p l).map Task.state

/-! ## Registries -/

/-- A record that has been told something is still that of its id. -/
theorem Registry.exists_of_mem_update {g : Registry α} {l : ListenerId}
    {f : Registration α → Registration α} (hid : ∀ r, (f r).id = r.id) {r : Registration α}
    (hr : r ∈ (g.update l f).records) : ∃ a ∈ g.records, a.id = r.id := by
  obtain ⟨a, ha, rfl⟩ := List.mem_map.mp hr
  refine ⟨a, ha, ?_⟩
  split
  · exact (hid a).symm
  · rfl

namespace Pairing

theorem rel_cases {β γ : Type} {R : β → γ → Prop} {o : Option β} {o' : Option γ}
    (h : Option.Rel R o o') :
    (o = none ∧ o' = none) ∨ ∃ v v', o = some v ∧ o' = some v' ∧ R v v' := by
  cases h with
  | none => exact .inl ⟨rfl, rfl⟩
  | some hR => exact .inr ⟨_, _, rfl, rfl, hR⟩

theorem rel_map {β γ : Type} {R Q : β → γ → Prop} {o : Option β} {o' : Option γ} {f : β → β}
    {f' : γ → γ} (h : Option.Rel R o o') (hRQ : ∀ v v', R v v' → Q (f v) (f' v')) :
    Option.Rel Q (o.map f) (o'.map f') := by
  cases h with
  | none => exact .none
  | some hR => exact .some (hRQ _ _ hR)

theorem rel_imp {β γ : Type} {R Q : β → γ → Prop} {o : Option β} {o' : Option γ}
    (h : Option.Rel R o o') (hRQ : ∀ v v', R v v' → Q v v') : Option.Rel Q o o' := by
  cases h with
  | none => exact .none
  | some hR => exact .some (hRQ _ _ hR)

variable {G H : Pairing} {below : Name → Bool} {i : WatcherId} {l l' : ListenerId}
  {ls ls' ks ks' : List ListenerId}

namespace Matches

theorem mono (h : G.Matches i ls ls') (hle : G ≤ H) : H.Matches i ls ls' := by
  induction h with
  | nil => exact .nil
  | skip hl _ ih => exact .skip (hle.skipped hl) ih
  | both hl _ ih => exact .both (hle.listener hl) ih

theorem append (h : G.Matches i ls ls') (h' : G.Matches i ks ks') :
    G.Matches i (ls ++ ks) (ls' ++ ks') := by
  induction h with
  | nil => exact h'
  | skip hl _ ih => exact .skip hl ih
  | both hl _ ih => exact .both hl ih

/-- A listener is among the ones if its twin is among the others. -/
theorem mem_iff (h : G.Matches i ls ls') (hl : G.listener i l l') : l ∈ ls ↔ l' ∈ ls' := by
  induction h with
  | nil => exact iff_of_false List.not_mem_nil List.not_mem_nil
  | @skip k ls ls' hk _ ih =>
    have hne : l ≠ k := fun heq => G.listener_apart hl (heq ▸ hk)
    rw [List.mem_cons, ih, or_iff_right hne]
  | both hk _ ih => rw [List.mem_cons, List.mem_cons, ih, G.listener_inj hl hk]

theorem erase_skipped (h : G.Matches i ls ls') (hl : G.skipped i l) :
    G.Matches i (ls.erase l) ls' := by
  induction h with
  | nil => exact .nil
  | @skip k ls ls' hk hrest ih =>
    rw [List.erase_cons]
    split
    · exact hrest
    · exact .skip hk ih
  | @both k k' ls ls' hk _ ih =>
    rw [List.erase_cons_tail]
    · exact .both hk ih
    · intro heq
      exact G.listener_apart hk (eq_of_beq heq ▸ hl)

theorem erase (h : G.Matches i ls ls') (hl : G.listener i l l') :
    G.Matches i (ls.erase l) (ls'.erase l') := by
  induction h with
  | nil => exact .nil
  | @skip k ls ls' hk _ ih =>
    rw [List.erase_cons_tail]
    · exact .skip hk ih
    · intro heq
      exact G.listener_apart hl (eq_of_beq heq ▸ hk)
  | @both k k' ls ls' hk hrest ih =>
    by_cases heq : k = l
    · obtain rfl : k' = l' := (G.listener_inj hk hl).mp heq
      rw [heq, List.erase_cons_head, List.erase_cons_head]
      exact hrest
    · have hne : k' ≠ l' := fun h => heq ((G.listener_inj hk hl).mpr h)
      rw [List.erase_cons_tail (by simpa using heq), List.erase_cons_tail (by simpa using hne)]
      exact .both hk ih

end Matches

theorem Listeners.mono {s s' : Listener α} (h : G.Listeners below s s') (hle : G ≤ H) :
    H.Listeners below s s' := by
  cases h with
  | observer ha => exact .observer ha
  | subscription hc => exact .subscription (hle.pair hc)

theorem Registrations.mono {r r' : Registration α} (h : G.Registrations below r r')
    (hle : G ≤ H) : H.Registrations below r r' := { h with listener := h.listener.mono hle }

/-- What changes of registrations in both worlds is the same. -/
theorem Registrations.retire {r r' : Registration α} (h : G.Registrations below r r') :
    G.Registrations below r.retire r'.retire := { h with active := rfl }

namespace Registries

variable {g g' : Registry α}

theorem contains_eq (h : G.Registries below i g g') (hl : G.listener i l l') :
    g'.entries.contains l' = g.entries.contains l := by
  rw [Bool.eq_iff_iff, List.contains_iff_mem, List.contains_iff_mem]
  exact (h.entries.mem_iff hl).symm

/-- Subscriptions from inside remain so when they are told something. -/
theorem skipped_update (h : G.Registries below i g g') {f : Registration α → Registration α}
    (hid : ∀ r, (f r).id = r.id)
    (hf : G.skipped i l → ∀ r, (f r).listener = r.listener ∧ (f r).executor = r.executor) :
    ∀ r ∈ (g.update l f).records, G.skipped i r.id →
      ∃ c, r.listener = .subscription c ∧ G.inside c ∧ r.executor = ⟨.inline, fun _ => []⟩ := by
  intro r hr hs
  obtain ⟨a, ha, rfl⟩ := List.mem_map.mp hr
  split at hs
  · rename_i heq
    rw [hid] at hs
    obtain ⟨hlistener, hexecutor⟩ := hf (heq ▸ hs) a
    rw [if_pos heq, hlistener, hexecutor]
    exact h.skipped_records a ha hs
  · rename_i hne
    rw [if_neg hne]
    exact h.skipped_records a ha hs

theorem clear (h : G.Registries below i g g') : G.Registries below i g.clear g'.clear where
  sound := h.sound.clear
  sound' := h.sound'.clear
  entries := .nil
  records hl := by
    rw [h.sound.find?_clear, h.sound'.find?_clear]
    exact rel_map (h.records hl) fun _ _ hr => hr.retire
  covered r hr := by
    rw [h.sound.clear_records] at hr
    obtain ⟨a, ha, rfl⟩ := List.mem_map.mp hr
    exact h.covered a ha
  onto r hr := by
    rw [h.sound'.clear_records] at hr
    obtain ⟨a, ha, rfl⟩ := List.mem_map.mp hr
    exact h.onto a ha
  issued := h.issued
  skipped_issued := h.skipped_issued
  skipped_records r hr hs := by
    rw [h.sound.clear_records] at hr
    obtain ⟨a, ha, rfl⟩ := List.mem_map.mp hr
    exact h.skipped_records a ha hs

theorem update (h : G.Registries below i g g') (hl : G.listener i l l')
    {f f' : Registration α → Registration α} (hid : ∀ r, (f r).id = r.id)
    (hid' : ∀ r, (f' r).id = r.id) (hactive : ∀ r, (f r).active = r.active)
    (hactive' : ∀ r, (f' r).active = r.active)
    (hf : ∀ r r', G.Registrations below r r' → G.Registrations below (f r) (f' r')) :
    G.Registries below i (g.update l f) (g'.update l' f') where
  sound := h.sound.update l hid hactive
  sound' := h.sound'.update l' hid' hactive'
  entries := h.entries
  records {k k'} hk := by
    rw [Registry.find?_update _ _ _ _ hid, Registry.find?_update _ _ _ _ hid']
    by_cases heq : k = l
    · rw [if_pos heq, if_pos ((G.listener_inj hk hl).mp heq)]
      exact rel_map (h.records hk) hf
    · rw [if_neg heq, if_neg fun h => heq ((G.listener_inj hk hl).mpr h)]
      exact h.records hk
  covered r hr := by
    obtain ⟨a, ha, hr⟩ := Registry.exists_of_mem_update hid hr
    exact hr ▸ h.covered a ha
  onto r hr := by
    obtain ⟨a, ha, hr⟩ := Registry.exists_of_mem_update hid' hr
    exact hr ▸ h.onto a ha
  issued := h.issued
  skipped_issued := h.skipped_issued
  skipped_records := h.skipped_update hid fun hs => absurd hs (G.listener_apart hl)

theorem remove (h : G.Registries below i g g') (hl : G.listener i l l') :
    G.Registries below i (g.remove l) (g'.remove l') where
  sound := h.sound.remove l
  sound' := h.sound'.remove l'
  entries := h.entries.erase hl
  records {k k'} hk := by
    rw [Registry.find?_remove, Registry.find?_remove]
    by_cases heq : k = l
    · rw [if_pos heq, if_pos ((G.listener_inj hk hl).mp heq)]
      exact rel_map (h.records hk) fun _ _ hr => hr.retire
    · rw [if_neg heq, if_neg fun h => heq ((G.listener_inj hk hl).mpr h)]
      exact h.records hk
  covered r hr := by
    obtain ⟨a, ha, hr⟩ := Registry.exists_of_mem_update Registration.retire_id hr
    exact hr ▸ h.covered a ha
  onto r hr := by
    obtain ⟨a, ha, hr⟩ := Registry.exists_of_mem_update Registration.retire_id hr
    exact hr ▸ h.onto a ha
  issued := h.issued
  skipped_issued := h.skipped_issued
  skipped_records := h.skipped_update Registration.retire_id fun _ _ => ⟨rfl, rfl⟩

/-- A subscription from inside is told something, or is taken out. -/
theorem update_skipped (h : G.Registries below i g g') (hl : G.skipped i l)
    {f : Registration α → Registration α} (hid : ∀ r, (f r).id = r.id)
    (hactive : ∀ r, (f r).active = r.active) (hlistener : ∀ r, (f r).listener = r.listener)
    (hexecutor : ∀ r, (f r).executor = r.executor) :
    G.Registries below i (g.update l f) g' where
  sound := h.sound.update l hid hactive
  sound' := h.sound'
  entries := h.entries
  records {k k'} hk := by
    have hne : k ≠ l := fun heq => G.listener_apart hk (heq ▸ hl)
    rw [Registry.find?_update _ _ _ _ hid, if_neg hne]
    exact h.records hk
  covered r hr := by
    obtain ⟨a, ha, hr⟩ := Registry.exists_of_mem_update hid hr
    exact hr ▸ h.covered a ha
  onto := h.onto
  issued := h.issued
  skipped_issued := h.skipped_issued
  skipped_records := h.skipped_update hid fun _ r => ⟨hlistener r, hexecutor r⟩

theorem remove_skipped (h : G.Registries below i g g') (hl : G.skipped i l) :
    G.Registries below i (g.remove l) g' where
  sound := h.sound.remove l
  sound' := h.sound'
  entries := h.entries.erase_skipped hl
  records {k k'} hk := by
    have hne : k ≠ l := fun heq => G.listener_apart hk (heq ▸ hl)
    rw [Registry.find?_remove, if_neg hne]
    exact h.records hk
  covered r hr := by
    obtain ⟨a, ha, hr⟩ := Registry.exists_of_mem_update Registration.retire_id hr
    exact hr ▸ h.covered a ha
  onto := h.onto
  issued := h.issued
  skipped_issued := h.skipped_issued
  skipped_records := h.skipped_update Registration.retire_id fun _ _ => ⟨rfl, rfl⟩

end Registries

end Pairing

/-! ## Changes outside -/

theorem Slot.wakers_complete (s : Slot α) (first : Latest α) : (s.complete first).wakers = [] := by
  cases s <;> rfl

theorem Slot.wakers_abandon (s : Slot α) : s.abandon.wakers = [] := by cases s <;> rfl

namespace World.Twins

variable {below : Name → Bool} {issuer : Name → Option WatcherId} {G : Pairing} {w w' : World α}
  (h : w.Twins below issuer G w') {i i' : WatcherId}

include h

theorem watcher?_none (hi : w.watcher? i = none) : ¬ G.inside i ∧ ∀ i', ¬ G.pair i i' := by
  refine ⟨fun hin => ?_, fun i' hp => ?_⟩
  · obtain ⟨b, hb, -⟩ := h.insides hin
    exact nomatch hi.symm.trans hb
  · obtain ⟨b, b', hb, -, -⟩ := h.bodies hp
    exact nomatch hi.symm.trans hb

/-- An event that is no call. -/
theorem note {e e' : Event α} (he : e.invocation? = none) (he' : e'.invocation? = none)
    (p p' : Bool) : (w.note p e).Twins below issuer G (w'.note p' e') :=
  { h with
    calls := fun hp hl => by
      rw [World.callsTo_note w p he, World.callsTo_note w' p' he']
      exact h.calls hp hl }

/-- The same listener outside is called. -/
theorem note_called {t t' : Task α} (ht : G.Tasks t t') (a a' : Audience) (x x' p p' : Bool) :
    (w.note p (.called a t x)).Twins below issuer G (w'.note p' (.called a' t' x')) :=
  { h with
    calls := fun {q q' l l'} hq hl => by
      have hcalls : ∀ (w : World α) p a t x q l, (w.note p (.called a t x)).callsTo q l =
          w.callsTo q l ++ if t.isFor q l then [t] else [] := by
        intro w p a t x q l
        unfold World.callsTo
        rw [World.events_note, Event.callsTo_append]
        congr 1
        show [t].filter _ = _
        rw [List.filter_cons]
        simp
      have hfor : t'.isFor q' l' ↔ t.isFor q l := by
        constructor
        · rintro ⟨hw, hl'⟩
          obtain rfl := (G.pair_inj ht.watcher hq).mpr hw
          exact ⟨rfl, (G.listener_inj ht.listener hl).mpr hl'⟩
        · rintro ⟨rfl, hl'⟩
          exact ⟨(G.pair_inj ht.watcher hq).mp rfl, (G.listener_inj ht.listener hl).mp hl'⟩
      rw [hcalls, hcalls, List.map_append, List.map_append, h.calls hq hl]
      by_cases hf : t.isFor q l
      · rw [if_pos hf, if_pos (hfor.mpr hf), List.map_singleton, List.map_singleton, ht.state]
      · rw [if_neg hf, if_neg fun h => hf (hfor.mp h)] }

/-- A watcher outside is changed in both worlds. -/
theorem modify (hi : G.pair i i') {f g : Watcher α → Watcher α}
    (hf : ∀ b b', G.Watchers below i b b' → G.Watchers below i (f b) (g b')) :
    (w.modify i f).Twins below issuer G (w'.modify i' g) :=
  { h with
    bodies := fun {j j'} hj => by
      obtain ⟨b, b', hb, hb', hsame⟩ := h.bodies hj
      by_cases heq : i = j
      · subst heq
        obtain rfl := (G.pair_inj hi hj).mp rfl
        exact ⟨_, _, watcher?_modify_self hb f, watcher?_modify_self hb' g, hf _ _ hsame⟩
      · have hne : i' ≠ j' := fun h => heq ((G.pair_inj hi hj).mpr h)
        exact ⟨b, b', (watcher?_modify_of_ne w heq f).trans hb,
          (watcher?_modify_of_ne w' hne g).trans hb', hsame⟩
    insides := fun {j} hj => by
      have hne : i ≠ j := fun heq => G.pair_apart hi (heq ▸ hj)
      rw [watcher?_modify_of_ne w hne]
      exact h.insides hj
    covered := fun j hj => h.covered j (by simpa [World.modify] using hj)
    onto := fun j hj => h.onto j (by simpa [World.modify] using hj) }

/-- A watcher outside is changed in the first world, in what the second one lacks. -/
theorem modify_host (hi : G.pair i i') {f : Watcher α → Watcher α}
    (hf : ∀ b b', w'.watcher? i' = some b' → G.Watchers below i b b' →
      G.Watchers below i (f b) b') :
    (w.modify i f).Twins below issuer G w' :=
  { h with
    bodies := fun {j j'} hj => by
      obtain ⟨b, b', hb, hb', hsame⟩ := h.bodies hj
      by_cases heq : i = j
      · subst heq
        obtain rfl := (G.pair_inj hi hj).mp rfl
        exact ⟨_, _, watcher?_modify_self hb f, hb', hf _ _ hb' hsame⟩
      · exact ⟨b, b', (watcher?_modify_of_ne w heq f).trans hb, hb', hsame⟩
    insides := fun {j} hj => by
      have hne : i ≠ j := fun heq => G.pair_apart hi (heq ▸ hj)
      rw [watcher?_modify_of_ne w hne]
      exact h.insides hj
    covered := fun j hj => h.covered j (by simpa [World.modify] using hj) }

/-- A watcher inside is changed. -/
theorem modify_inside (hi : G.inside i) {f : Watcher α → Watcher α}
    (hf : ∀ b, G.InsideWatcher below b → G.InsideWatcher below (f b)) :
    (w.modify i f).Twins below issuer G w' :=
  { h with
    bodies := fun {j j'} hj => by
      have hne : i ≠ j := fun heq => G.pair_apart hj (heq ▸ hi)
      rw [watcher?_modify_of_ne w hne]
      exact h.bodies hj
    insides := fun {j} hj => by
      obtain ⟨b, hb, hin⟩ := h.insides hj
      by_cases heq : i = j
      · subst heq
        exact ⟨_, watcher?_modify_self hb f, hf _ hin⟩
      · exact ⟨b, (watcher?_modify_of_ne w heq f).trans hb, hin⟩
    covered := fun j hj => h.covered j (by simpa [World.modify] using hj) }

/-- An event inside that is no call of a listener outside. -/
theorem note_inside {e : Event α} (p : Bool)
    (he : ∀ t, e.invocation? = some t → G.inside t.watcher ∨ G.skipped t.watcher t.listener) :
    (w.note p e).Twins below issuer G w' :=
  { h with
    calls := fun {q q' l l'} hq hl => by
      have hsame : (w.note p e).callsTo q l = w.callsTo q l := by
        cases hinv : e.invocation? with
        | none => exact World.callsTo_note w p hinv q l
        | some t =>
          have hnot : ¬ t.isFor q l := by
            rintro ⟨rfl, rfl⟩
            exact (he t hinv).elim (G.pair_apart hq) (G.listener_apart hl)
          unfold World.callsTo
          rw [World.events_note, Event.callsTo_append]
          show _ ++ ([e].filterMap Event.invocation?).filter _ = _
          rw [List.filterMap_cons_some hinv, List.filterMap_nil, List.filter_cons_of_neg (by simpa),
            List.filter_nil, List.append_nil]
      rw [hsame]
      exact h.calls hq hl }

/-! ### Names are given a meaning -/

theorem bindHandle {name : Name} (hname : below name = false) {x y : Handle}
    (hface : y.face = x.face) (hp : G.pair x.target y.target) :
    World.Twins below issuer G { w with handles := w.handles.bind name x }
      { w' with handles := w'.handles.bind name y } :=
  { h with
    handles := h.handles.bind hname ⟨hface, hp⟩ fun _ _ _ _ h => h
    insideHandles := Bindings.forall_bind h.insideHandles fun hin =>
      absurd (hname.symm.trans hin) Bool.false_ne_true }

theorem bindHandle_inside {name : Name} (hname : below name = true) {x : Handle}
    (hin : G.inside x.target) :
    World.Twins below issuer G { w with handles := w.handles.bind name x } w' :=
  { h with
    handles := h.handles.bind_inside hname
    insideHandles := Bindings.forall_bind h.insideHandles fun _ => hin }

theorem bindWaker {k : Name} (hk : below k = false) {a : Waker α}
    (ha : ∀ n, Callback below false (a.actions n)) :
    World.Twins below issuer G { w with wakers := w.wakers.bind k a }
      { w' with wakers := w'.wakers.bind k a } :=
  { h with
    wakers := h.wakers.bind hk ⟨rfl, ha⟩ fun _ _ _ _ h => h
    insideWakers := Bindings.forall_bind h.insideWakers fun hin =>
      absurd (hk.symm.trans hin) Bool.false_ne_true }

theorem bindWaker_inside {k : Name} (hk : below k = true) {a : Waker α}
    (ha : ∀ n, Callback below true (a.actions n)) :
    World.Twins below issuer G { w with wakers := w.wakers.bind k a } w' :=
  { h with
    wakers := h.wakers.bind_inside hk
    insideWakers := Bindings.forall_bind h.insideWakers fun _ => ha }

/-! ### What is read of a watcher and its twin -/

theorem registration? (hi : G.pair i i') {l l' : ListenerId} (hl : G.listener i l l') :
    Option.Rel (G.Registrations below) (w.registration? i l) (w'.registration? i' l') := by
  obtain ⟨b, b', hb, hb', hsame⟩ := h.bodies hi
  rw [registration?_of_watcher? hb, registration?_of_watcher? hb']
  exact hsame.registry.records hl

theorem isRegistered (hi : G.pair i i') {l l' : ListenerId} (hl : G.listener i l l') :
    w'.isRegistered i' l' = w.isRegistered i l := by
  obtain ⟨b, b', hb, hb', hsame⟩ := h.bodies hi
  rw [isRegistered_of_watcher? hb, isRegistered_of_watcher? hb']
  exact hsame.registry.contains_eq hl

/-- A watcher and its twin are roots, or children of twins. -/
theorem parent? (hi : G.pair i i') :
    (w.parent? i = none ∧ w'.parent? i' = none) ∨
      ∃ p p' l l' d, w.parent? i = some (p, l, d) ∧ w'.parent? i' = some (p', l', d) ∧
        G.pair p p' ∧ G.listener p l l' ∧ ∀ n, Callback below false (d.actions n) := by
  obtain ⟨b, b', hb, hb', hsame⟩ := h.bodies hi
  have horigin := hsame.origin
  unfold World.parent?
  rw [hb, hb']
  obtain ⟨name, o, _⟩ := b
  obtain ⟨name', o', _⟩ := b'
  cases horigin with
  | root => exact .inl ⟨rfl, rfl⟩
  | child hp hl hd ha => exact .inr ⟨_, _, _, _, _, rfl, rfl, hp, hl, ha⟩

omit h in
/-- A registration outside is told something. -/
theorem modifyRegistration (h : w.Twins below issuer G w') (hi : G.pair i i') {l l' : ListenerId}
    (hl : G.listener i l l') {f f' : Registration α → Registration α}
    (hid : ∀ r, (f r).id = r.id) (hid' : ∀ r, (f' r).id = r.id)
    (hactive : ∀ r, (f r).active = r.active) (hactive' : ∀ r, (f' r).active = r.active)
    (hf : ∀ r r', G.Registrations below r r' → G.Registrations below (f r) (f' r')) :
    (w.modifyRegistration i l f).Twins below issuer G (w'.modifyRegistration i' l' f') :=
  h.modify hi fun _ _ hsame =>
    { hsame with registry := hsame.registry.update hl hid hid' hactive hactive' hf }

theorem unregister (hi : G.pair i i') {l l' : ListenerId} (hl : G.listener i l l') :
    (w.unregister i l).Twins below issuer G (w'.unregister i' l') :=
  h.modify hi fun _ _ hsame => { hsame with registry := hsame.registry.remove hl }

/-- A subscription from inside is told something. -/
theorem modifyRegistration_skipped {l : ListenerId} (hl : G.skipped i l)
    {f : Registration α → Registration α} (hid : ∀ r, (f r).id = r.id)
    (hactive : ∀ r, (f r).active = r.active) (hlistener : ∀ r, (f r).listener = r.listener)
    (hexecutor : ∀ r, (f r).executor = r.executor) :
    (w.modifyRegistration i l f).Twins below issuer G w' := by
  obtain ⟨i', hi⟩ := h.hosts hl
  exact h.modify_host hi fun _ _ _ hsame =>
    { hsame with
      registry := hsame.registry.update_skipped hl hid hactive hlistener hexecutor }

/-- A subscription from inside is taken out. -/
theorem unregister_skipped {l : ListenerId} (hl : G.skipped i l) :
    (w.unregister i l).Twins below issuer G w' := by
  obtain ⟨i', hi⟩ := h.hosts hl
  exact h.modify_host hi fun _ _ _ hsame =>
    { hsame with registry := hsame.registry.remove_skipped hl }

/-! ### References -/

theorem hasHandle (hi : G.pair i i') : w'.hasHandle i' = w.hasHandle i := by
  rw [Bool.eq_iff_iff, hasHandle_iff, hasHandle_iff]
  constructor
  · rintro ⟨x, hx, rfl⟩
    obtain ⟨v, hmem, -, -, hpair⟩ := h.handles.exists_of_mem' hx
    exact ⟨_, hmem, (G.pair_inj hpair hi).mpr rfl⟩
  · rintro ⟨x, hx, rfl⟩
    cases hin : below x.1 with
    | true => exact absurd (h.insideHandles x hx hin) (G.pair_apart hi)
    | false =>
      obtain ⟨v', hmem, -, hpair⟩ := h.handles.exists_of_mem hx hin
      exact ⟨_, hmem, (G.pair_inj hpair hi).mp rfl⟩

/-- A watcher inside, and only such a one, was made under a name that is set apart. -/
theorem isInside_iff {b : Watcher α} (hb : w.watcher? i = some b) :
    w.IsInside below i ↔ G.inside i := by
  constructor
  · rintro ⟨p, l, d, ho, hd⟩
    rcases h.covered i (lt_length hb) with hin | ⟨i', hi⟩
    · exact hin
    · obtain ⟨a, a', ha, -, hsame⟩ := h.bodies hi
      rw [origin?_of_watcher? ha, Option.some.injEq] at ho
      have horigin := hsame.origin
      rw [ho] at horigin
      generalize a'.origin = o at horigin
      cases horigin with
      | child _ _ hout => exact nomatch hout.symm.trans hd
  · intro hin
    obtain ⟨a, ha, hinside⟩ := h.insides hin
    obtain ⟨p, l, d, ho, hd, -⟩ := hinside.origin
    exact ⟨p, l, d, by rw [origin?_of_watcher? ha, ho], hd⟩

/-- A watcher outside with a child inside has a handle. -/
theorem hasHandle_of_child (hhosted : G.Hosted w) (hi : G.pair i i') {c : WatcherId}
    {l : ListenerId} {d : Derivation α} (hc : G.inside c)
    (ho : w.origin? c = some (.child i l d)) : w.hasHandle i = true := by
  obtain ⟨b, hb, hinside⟩ := h.insides hc
  obtain ⟨p, l', d', ho', -, -, hp⟩ := hinside.origin
  rw [origin?_of_watcher? hb, ho', Option.some.injEq] at ho
  cases ho
  exact hhosted i l (hp.resolve_left (G.pair_apart hi))

/-- A watcher outside without a child inside has a child if its twin has one. -/
theorem hasChild (hi : G.pair i i')
    (hno : ∀ c l d, G.inside c → w.origin? c ≠ some (.child i l d)) :
    w'.hasChild i' = w.hasChild i := by
  rw [Bool.eq_iff_iff, hasChild_iff, hasChild_iff]
  constructor
  · rintro ⟨c', l', d, ho, hdrop⟩
    obtain ⟨b', hb', -⟩ := exists_watcher?_of_origin? ho
    obtain ⟨c, hc⟩ := h.onto c' (lt_length hb')
    obtain ⟨a, a', ha, ha', hsame⟩ := h.bodies hc
    rw [origin?_of_watcher? ha', Option.some.injEq] at ho
    have horigin := hsame.origin
    rw [ho] at horigin
    generalize hao : a.origin = o at horigin
    cases horigin with
    | @child p _ l _ _ hp =>
      obtain rfl := (G.pair_inj hp hi).mpr rfl
      refine ⟨c, l, d, by rw [origin?_of_watcher? ha, hao], ?_⟩
      rw [isDropped_of_watcher? ha'] at hdrop
      rw [isDropped_of_watcher? ha, ← hsame.dropped, hdrop]
  · rintro ⟨c, l, d, ho, hdrop⟩
    obtain ⟨b, hb, hbo⟩ := exists_watcher?_of_origin? ho
    rcases h.covered c (lt_length hb) with hin | ⟨c', hc⟩
    · exact absurd ho (hno c l d hin)
    · obtain ⟨a, a', ha, ha', hsame⟩ := h.bodies hc
      obtain rfl := Option.some.inj (ha.symm.trans hb)
      have horigin := hsame.origin
      rw [hbo] at horigin
      generalize hao : a'.origin = o at horigin
      cases horigin with
      | @child _ p' _ l' _ hp =>
        obtain rfl := (G.pair_inj hp hi).mp rfl
        refine ⟨c', l', d, by rw [origin?_of_watcher? ha', hao], ?_⟩
        rw [isDropped_of_watcher? ha] at hdrop
        rw [isDropped_of_watcher? ha', hsame.dropped, hdrop]

end World.Twins

end WatchTree
