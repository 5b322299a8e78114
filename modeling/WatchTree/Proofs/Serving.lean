import WatchTree.Proofs.Freshness
import WatchTree.Proofs.Removal

/-!
# Serving each listener once

A delivery hands its update to the listeners that were registered when it was accepted, and no one
else hands that update to them: a replay is for a new registration, and of two deliveries of one
watcher under way the inner one is of a newer update. So whoever still waits in a delivery has not
been handed its update. `Machine.Serving` is the invariant; it asks nothing of the run, so that it
holds also where panics cut deliveries short.
-/

namespace WatchTree

variable {α : Type}

/-- The listeners that wait in a delivery have been registered, each waits once, and none of them
has been handed the update. -/
structure World.Awaits (w : World α) (d : Due) : Prop where
  registered : ∀ l ∈ d.waiting, ∃ r, w.registration? d.watcher l = some r
  nodup : d.waiting.Nodup
  unserved : ∀ t ∈ Event.handovers w.events, t.watcher = d.watcher → t.update = d.update →
    t.listener ∉ d.waiting

/-- Of two deliveries of one watcher the inner one is of the newer update, and whoever waits in one
has not been handed its update. -/
structure Machine.Serving (m : Machine α) : Prop where
  ordered : Due.Ordered (Frame.dues m.stack)
  awaits : ∀ d ∈ Frame.dues m.stack, m.world.Awaits d

namespace World.Awaits

variable {w w' : World α} {d : Due}

/-- What is handed over in addition is not what the delivery has to hand over. -/
theorem extend (h : w.Awaits d) (hx : w.Extends w')
    (hh : ∀ t ∈ Event.handovers w'.events, t ∈ Event.handovers w.events ∨
      (t.watcher = d.watcher → t.update = d.update → t.listener ∉ d.waiting)) : w'.Awaits d where
  registered l hl := by
    obtain ⟨r, hr⟩ := h.registered l hl
    obtain ⟨r', hr', -⟩ := hx.registration hr
    exact ⟨r', hr'⟩
  nodup := h.nodup
  unserved t ht := (hh t ht).elim (h.unserved t) id

theorem keep (h : w.Awaits d) (hx : w.Extends w')
    (hh : Event.handovers w'.events = Event.handovers w.events) : w'.Awaits d :=
  h.extend hx fun t ht => .inl (by rw [← hh]; exact ht)

theorem handed (h : w.Awaits d) (hx : w.Extends w') {t : Task α}
    (he : w'.events = w.events ++ [.handedOver t])
    (ht : t.watcher = d.watcher → t.update = d.update → t.listener ∉ d.waiting) :
    w'.Awaits d := by
  refine h.extend hx fun t' ht' => ?_
  rw [he, Event.handovers_append] at ht'
  rcases List.mem_append.mp ht' with ht' | ht'
  · exact .inl ht'
  · obtain rfl : t' = t := by simpa [Event.handovers] using ht'
    exact .inr ht

/-- The listener whose turn it is is served, and waits no longer. -/
theorem served {id : WatcherId} {n : Nat} {l : ListenerId} {ls : List ListenerId}
    (h : w.Awaits ⟨id, n, l :: ls⟩) : w.Awaits ⟨id, n, ls⟩ where
  registered k hk := h.registered k (List.mem_cons_of_mem _ hk)
  nodup := (List.nodup_cons.mp h.nodup).2
  unserved t ht hw hn hl := h.unserved t ht hw hn (List.mem_cons_of_mem _ hl)

/-- An update that is accepted has been handed to nobody yet. -/
theorem accepted {id : WatcherId} {b : Watcher α} (hw : w.Ledger) (hb : w.watcher? id = some b) :
    w.Awaits ⟨id, b.updates + 1, b.registry.entries⟩ where
  registered l hl := by
    obtain ⟨r, hr, -⟩ := ((hw.sound id b hb).mem_entries_iff l).mp hl
    exact ⟨r, (World.registration?_of_watcher? hb l).trans hr⟩
  nodup := (hw.sound id b hb).entries_nodup
  unserved t ht hwatcher hupdate _ := by
    have hle := (hw.genuine_bounds (hw.handedOver t ht).1).2
    obtain rfl : t.watcher = id := hwatcher
    rw [World.updates_of_watcher? hb] at hle
    change t.update = b.updates + 1 at hupdate
    omega

end World.Awaits

namespace Machine

variable {w w' : World α} {stk stk' : List (Frame α)} {c c' : Control α}

namespace Serving

theorem initial : Serving ({ world := {} } : Machine α) where
  ordered := .nil
  awaits _ hd := absurd hd List.not_mem_nil

theorem keep (h : Serving ⟨w, stk, c⟩) (hx : w.Extends w')
    (hh : Event.handovers w'.events = Event.handovers w.events)
    (hds : (Frame.dues stk').Sublist (Frame.dues stk)) : Serving ⟨w', stk', c'⟩ where
  ordered := h.ordered.sublist hds
  awaits d hd := (h.awaits d (hds.subset hd)).keep hx hh

/-- The wakers come first when a state has been accepted, and then the listeners. -/
theorem adopt (h : Serving ⟨w, stk, c⟩) (hw : w.Ledger) (hs : w.Stacked stk) (p q : Bool)
    (name : String) {id : WatcherId} {b : Watcher α} {s : Latest α} (hb : w.watcher? id = some b)
    (hx : w.Extends (w.adopt p q name id b s)) :
    Serving ⟨w.adopt p q name id b s, .waking b.slot.wakers ::
      .announcing id (b.updates + 1) s b.registry.entries :: stk, c'⟩ := by
  have hh : Event.handovers (w.adopt p q name id b s).events = Event.handovers w.events := by
    rw [(World.alike_adopt w p q name id b s).handovers, World.events_modify, World.events_note,
      Event.handovers_append]
    simp [Event.handovers]
  refine ⟨List.pairwise_cons.mpr ⟨fun d hd heq => ?_, h.ordered⟩, fun d hd => ?_⟩
  · -- All deliveries under way are of updates that there have been before.
    have hle := World.due_le_updates hw hs hd
    obtain rfl : id = d.watcher := heq
    rw [World.updates_of_watcher? hb] at hle
    exact Nat.lt_succ_of_le hle
  · rcases List.mem_cons.mp hd with rfl | hd
    · exact (World.Awaits.accepted hw hb).keep hx hh
    · exact (h.awaits d hd).keep hx hh

/-- A task is handed over, by a delivery or for a new registration. -/
theorem dispatch {t : Task α} (h : Serving ⟨w, stk, c⟩) (hw : w.Ledger)
    (hd : w.Dispatches stk t w' stk') (hx : w.Extends w') : Serving ⟨w', stk', c'⟩ := by
  have he := hd.events_eq
  cases hd with
  | @spread id n s l ls stk r p todo hr ha =>
    obtain ⟨hhead, htail⟩ := List.pairwise_cons.mp h.ordered
    have htop := h.awaits ⟨id, n, l :: ls⟩ List.mem_cons_self
    refine ⟨Due.Ordered.serve h.ordered, fun d hd => ?_⟩
    rcases List.mem_cons.mp hd with rfl | hd
    · exact htop.served.handed hx he fun _ _ => (List.nodup_cons.mp htop.nodup).1
    · refine (h.awaits d (List.mem_cons_of_mem _ hd)).handed hx he fun hwatcher hupdate => ?_
      have hlt := hhead d hd hwatcher
      exact absurd hupdate.symm (Nat.ne_of_lt hlt)
  | @replay id b s listener executor w' stk p todo hb hcl hl hj hreg =>
    refine ⟨h.ordered, fun d hd => (h.awaits d hd).handed hx he fun hwatcher _ hmem => ?_⟩
    -- The id of a new registration is one that nobody has had.
    obtain ⟨r, hr⟩ := (h.awaits d hd).registered _ hmem
    obtain rfl : id = d.watcher := hwatcher
    rw [World.registration?_nextId hw.sound hb] at hr
    exact nomatch hr

variable [BEq α] {P : Machine α → Prop} {m m' : Machine α}

theorem move (hm : m.WellFormed) (h : m.Serving) (hmove : Move P m m') : m'.Serving := by
  have hx : m.world.Extends m'.world := (hm.ledger.rearranges (hmove.rearranges hm)).2
  cases hmove with
  | steer | raise => exact h.keep hx rfl (.refl _)
  | unwind | leave => exact h.keep hx rfl ((List.sublist_cons_self _ _).filterMap _)
  | enter hc hf hs =>
    exact h.keep hx rfl (by rw [Frame.dues_cons_of_none (Frame.due?_of_isPlain hf)])
  | remark p he =>
    exact h.keep hx (World.Alike.note _ p (Event.isQuiet_of_isIdle he)).handovers (.refl _)
  | rename hw hq hh hr => exact h.keep hx (World.Alike.of_eq hw hh).handovers (.refl _)
  | enqueue | dequeue | plant => exact h.keep hx rfl (.refl _)
  | drop ho hdr hdet => exact h.keep hx hdet.handovers (.refl _)
  | enlist p waker hb hp => exact h.keep hx (World.Alike.note _ p rfl).handovers (.refl _)
  | enrol hb hcl hl hj | reserve hb hcl hj =>
    exact h.keep hx (congrArg Event.handovers hj.events_eq) (.refl _)
  | unwatch p hr | miss p hr => exact h.keep hx (World.Alike.note _ p rfl).handovers (.refl _)
  | close hc hb hcl hs => exact h.keep hx rfl (.refl _)
  | finish q name hc hdet =>
    exact h.keep hx (hdet.handovers.trans (World.Alike.note _ q rfl).handovers) (.refl _)
  | wake p hc => exact h.keep hx (World.Alike.note _ p rfl).handovers (.refl _)
  | rebuff hb ho hr => exact h.keep hx hr.alike.handovers (.refl _)
  | accept p q name hc hb ho hcl hr hs => exact h.adopt hm.ledger hm.stacked p q name hb hx
  | fail p q name ho hout hy =>
    exact h.keep hx ((World.Alike.note _ p rfl).trans (.note _ q rfl)).handovers (.refl _)
  | suppress p hc hb ho hy hr =>
    exact h.keep hx ((World.Alike.note _ p rfl).trans hr.alike).handovers (.refl _)
  | @derive w stk c o p q name id parent b s l d y hok hc hb ho hy hcl hr =>
    have hnote := World.Alike.note w o (e := .applied id s.revision (.value y)) rfl
    have hpopped : Serving ⟨w.note o (.applied id s.revision (.value y)), stk, c⟩ :=
      h.keep hnote.resembles.to_extends hnote.handovers (.refl _)
    have hledger := hm.ledger.alike hnote
    exact hpopped.adopt hledger (hnote.resembles.to_extends.stacked hm.stacked.2) p q name hb
      (hledger.rearranges (World.rearranges_adopt p q name hb hcl hr)).2
  | announce q name hc => exact h.keep hx (World.Alike.note _ q rfl).handovers (.refl _)
  | skip hc hin =>
    refine ⟨Due.Ordered.serve h.ordered, fun d hd => ?_⟩
    rcases List.mem_cons.mp hd with rfl | hd
    · exact (h.awaits _ List.mem_cons_self).served
    · exact h.awaits d (List.mem_cons_of_mem _ hd)
  | defer hc hd hr hi => exact h.dispatch hm.ledger hd hx

theorem runs {t : Task α} (hm : m.WellFormed) (h : m.Serving) (hr : Runs m t m') :
    m'.Serving := by
  cases hr with
  | @mk w w' w'' stk stk' frames c t hc ht hr =>
    obtain ⟨hchanges, hmem⟩ := ht.rearranges hm.ledger hm.stacked
    have hx := (hm.ledger.rearranges hchanges).2
    have htaken : Serving ⟨w', stk', c⟩ := by
      cases ht with
      | dispatched hd => exact h.dispatch hm.ledger hd hx
      | drained | picked => exact h.keep hx rfl (.refl _)
    obtain ⟨w₁, htries, halike⟩ := hr.tries hmem
    obtain ⟨r, called, htried⟩ := htries.tried
    refine htaken.keep (hr.resembles hmem).to_extends (halike.handovers.trans htried.handovers) ?_
    rw [Fresh.dues_of_ran hr]

end Serving

theorem Reached.serving [BEq α] {P : Machine α → Prop} {m : Machine α} (h : m.Reached P) :
    m.Serving :=
  (h.invariant .initial Serving.move Serving.runs).2

end Machine

end WatchTree
