import WatchTree.Proofs.Preservation

/-!
# Moves keep machines well formed

What a move or a run does to the world is a number of changes, and every frame it puts on the stack
stands where it may.
-/

namespace WatchTree

variable {α : Type}

open Relation

namespace World

section Rearranges

variable [BEq α] {w w' : World α}

theorem Rearranges.alike (h : w.Alike w') : w.Rearranges w' := .single (.inl h)

theorem Rearranges.alters (h : w.Alters w') : w.Rearranges w' := .single (.inr h)

theorem Rearranges.then_alike {w'' : World α} (h : w.Rearranges w') (h' : w'.Alike w'') :
    w.Rearranges w'' := h.tail (.inl h')

theorem Rearranges.then_alters {w'' : World α} (h : w.Rearranges w') (h' : w'.Alters w'') :
    w.Rearranges w'' := h.tail (.inr h')

theorem rearranges_adopt (p q : Bool) (name : String) {id : WatcherId} {b : Watcher α}
    {s : Latest α} (hb : w.watcher? id = some b) (hcl : b.closed = false)
    (hr : b.refusal s = none) : w.Rearranges (w.adopt p q name id b s) :=
  (Rearranges.alters (.adopt p hb hcl hr)).then_alike (alike_adopt w p q name id b s)

theorem Rebuffs.alike {id : WatcherId} {b : Watcher α} {s : Latest α} {reception : Reception}
    (h : w.Rebuffs id b s reception w') : w.Alike w' := by
  cases h with
  | closed p hcl => exact .note _ p rfl
  | refused p q name hcl hr => exact (Alike.note _ p rfl).trans (.note _ q rfl)

theorem Detaches.rearranges {id : WatcherId} {message : String → Diagnostic}
    (h : w.Detaches id message w') : w.Rearranges w' := by
  cases h with
  | found q name parent ho hr =>
    exact (Rearranges.alters (.retire _ _)).then_alike (.note _ q rfl)
  | missing hr => exact .refl

/-- What was handed over is genuine, and its registration is active. -/
theorem Dispatches.rearranges {stk stk' : List (Frame α)} {t : Task α} (hw : w.Ledger)
    (hs : w.Stacked stk) (h : w.Dispatches stk t w' stk') : w.Rearranges w' := by
  cases h with
  | spread p todo hr ha => exact .alters (.handOver p hr ha hs.1.1)
  | @replay id b s listener executor w' stk p todo hb hcl hl hj hreg =>
    have hg : (w'.enrol id listener executor).Genuine id b.updates s :=
      (extends_enrol hw.sound hb hj).genuine (hw.genuine_latest hb hl)
    have hr := registration?_joined hw.sound hb hj id b.registry.nextId
    rw [if_pos ⟨rfl, rfl⟩] at hr
    exact (Rearranges.alters (.enrol hb hcl hj)).then_alters (.handOver p hr rfl hg)

end Rearranges

end World

section Moves

variable [BEq α] {P : Machine α → Prop} {m m' : Machine α}

theorem Move.rearranges (hm : m.WellFormed) (h : Move P m m') : m.world.Rearranges m'.world := by
  cases h with
  | remark p he => exact .alike (.note _ p (Event.isQuiet_of_isIdle he))
  | rename hw hq hh hr => exact .alike (.of_eq hw hh)
  | enqueue name ht => exact .alike (.of_eq rfl rfl)
  | dequeue name ht => exact .alike (.of_eq rfl rfl)
  | enlist p waker hb hp =>
    exact (World.Rearranges.alike (.note _ p rfl)).then_alike (.enlist _ _ waker)
  | drop ho hdr hdet =>
    exact (World.Rearranges.alike (.drop _ _)).trans hdet.rearranges
  | plant name => exact .alike (.addRoot _ name)
  | enrol hb hcl hl hj => exact .alters (.enrol hb hcl hj)
  | reserve hb hcl hj => exact .alters (.reserve hb hcl hj)
  | unwatch p hr => exact (World.Rearranges.alike (.note _ p rfl)).then_alters (.retire _ _)
  | miss p hr => exact .alike (.note _ p rfl)
  | close hc hb hcl hs => exact .alters (.close _)
  | finish q name hc hdet => exact (World.Rearranges.alike (.note _ q rfl)).trans hdet.rearranges
  | wake p hc => exact .alike (.note _ p rfl)
  | rebuff hb ho hr => exact .alike hr.alike
  | accept p q name hc hb ho hcl hr hs => exact World.rearranges_adopt p q name hb hcl hr
  | fail p q name ho hout hy =>
    exact (World.Rearranges.alike (.note _ p rfl)).then_alike (.note _ q rfl)
  | suppress p hc hb ho hy hr =>
    exact (World.Rearranges.alike (.note _ p rfl)).then_alike hr.alike
  | announce q name hc => exact .alike (.note _ q rfl)
  | @derive w stk c o p q name id parent b s l d y hok hc hb ho hy hcl hr =>
    have hnote := World.Rearranges.alike (World.Alike.note w o
      (e := .applied id s.revision (.value y)) rfl)
    exact hnote.trans (World.rearranges_adopt p q name hb hcl hr)
  | defer hc hd hr hi => exact hd.rearranges hm.ledger hm.stacked
  | _ => exact .refl

/-- A task that is taken had been handed over. -/
theorem World.Takes.rearranges {w w' : World α} {stk stk' : List (Frame α)} {t : Task α}
    (hw : w.Ledger) (hs : w.Stacked stk) (h : w.Takes stk t w' stk') :
    w.Rearranges w' ∧ t ∈ Event.handovers w'.events := by
  cases h with
  | dispatched hd =>
    refine ⟨hd.rearranges hw hs, ?_⟩
    cases hd <;> rw [World.events_handOver, Event.handovers_append] <;> simp [Event.handovers]
  | drained hq => exact ⟨.refl, hq.1⟩
  | picked hq => exact ⟨.refl, hq.1⟩

omit [BEq α] in
/-- The running of a task that had been handed over. -/
theorem World.Ran.tries {w w' : World α} {t : Task α} {frames : List (Frame α)}
    (ht : t ∈ Event.handovers w.events) (h : w.Ran t w' frames) :
    ∃ w₁, w.Tries t w₁ ∧ w₁.Alike w' := by
  cases h with
  | inactive p hr ha => exact ⟨_, .pass p ht hr ha, .refl _⟩
  | stale p q name hr ha hn => exact ⟨_, .stale p ht hr ha hn, .note _ q rfl⟩
  | called p q elsewhere hr ha hn hc => exact ⟨_, .call p q elsewhere _ ht hr ha hn, .refl _⟩

omit [BEq α] in
theorem World.Ran.resembles {w w' : World α} {t : Task α} {frames : List (Frame α)}
    (ht : t ∈ Event.handovers w.events) (h : w.Ran t w' frames) : w.Resembles w' := by
  obtain ⟨w₁, htries, halike⟩ := h.tries ht
  exact htries.resembles.trans halike.resembles

theorem Runs.changes {t : Task α} (hm : m.WellFormed) (h : Runs m t m') :
    ∃ w₁ w₂, m.world.Rearranges w₁ ∧ w₁.Tries t w₂ ∧ w₂.Alike m'.world := by
  cases h with
  | mk hc ht hr =>
    obtain ⟨hchanges, hmem⟩ := ht.rearranges hm.ledger hm.stacked
    obtain ⟨w₁, htries, halike⟩ := hr.tries hmem
    exact ⟨_, w₁, hchanges, htries, halike⟩

theorem Runs.ledger {t : Task α} (hm : m.WellFormed) (h : Runs m t m') :
    m'.world.Ledger ∧ m.world.Extends m'.world := by
  obtain ⟨w₁, w₂, hfirst, htries, halike⟩ := h.changes hm
  obtain ⟨hledger, hx⟩ := hm.ledger.rearranges hfirst
  obtain ⟨hledger', hx'⟩ := hledger.tries htries
  exact ⟨hledger'.alike halike, (hx.trans hx').trans halike.resembles.to_extends⟩

theorem Runs.child_or_new {t : Task α} (hm : m.WellFormed) (h : Runs m t m') {c p : WatcherId}
    {l : ListenerId} {d : Derivation α} (ho : m'.world.origin? c = some (.child p l d)) :
    m.world.origin? c = some (.child p l d) ∨ m.world.watcher? c = none := by
  obtain ⟨w₁, w₂, hfirst, htries, halike⟩ := h.changes hm
  have hw₁ := halike.child ho
  rw [htries.origin?_eq] at hw₁
  exact hfirst.child_or_new hm.ledger hw₁

/-! ## What was accepted -/

/-- A root has accepted a state. -/
def Machine.RootAccepts (m m' : Machine α) : Prop :=
  ∃ (p q : Bool) (name : String) (id : WatcherId) (b : Watcher α) (s : Latest α),
    m.world.watcher? id = some b ∧ b.origin = .root ∧ b.closed = false ∧ b.refusal s = none ∧
      m'.world = m.world.adopt p q name id b s

/-- A child has accepted the value of its transformation. -/
def Machine.ChildAccepts (m m' : Machine α) : Prop :=
  ∃ (o p q : Bool) (name : String) (id parent : WatcherId) (b : Watcher α) (s : Latest α)
    (l : ListenerId) (d : Derivation α) (y : α) (stk : List (Frame α)),
    m.control.Calm ∧ m.stack = .applying id s :: stk ∧ m.world.watcher? id = some b ∧
      b.origin = .child parent l d ∧ d.apply s.value = .value y ∧ b.closed = false ∧
      b.refusal ⟨s.revision, y⟩ = none ∧
      m'.world = (m.world.note o (.applied id s.revision (.value y))).adopt p q name id b
        ⟨s.revision, y⟩

omit [BEq α] in
theorem World.accepted_of_events_eq {w w' : World α} (h : w'.events = w.events) (id : WatcherId) :
    w'.accepted id = w.accepted id := by
  unfold World.accepted
  rw [h]

omit [BEq α] in
theorem World.Dispatches.accepted_eq {w w' : World α} {stk stk' : List (Frame α)} {t : Task α}
    (h : w.Dispatches stk t w' stk') (id : WatcherId) : w'.accepted id = w.accepted id := by
  cases h with
  | spread p todo hr ha => exact (World.resembles_handOver _ p _).accepted id
  | replay p todo hb hcl hl hj hreg =>
    refine ((World.resembles_handOver _ p _).accepted id).trans ?_
    exact World.accepted_of_events_eq (by rw [World.events_enrol, hj.events_eq]) id

omit [BEq α] in
theorem World.Detaches.events_eq {w w' : World α} {id : WatcherId} {message : String → Diagnostic}
    (h : w.Detaches id message w') :
    w'.events = w.events ∨
      ∃ name parent, w'.events = w.events ++ [.logged id name (message parent)] := by
  cases h with
  | found q name parent ho hr => exact .inr ⟨name, parent, World.events_note _ q _⟩
  | missing hr => exact .inl rfl

omit [BEq α] in
theorem World.Detaches.accepted_eq {w w' : World α} {id : WatcherId}
    {message : String → Diagnostic} (h : w.Detaches id message w') (j : WatcherId) :
    w'.accepted j = w.accepted j := by
  rcases h.events_eq with heq | ⟨name, parent, heq⟩
  · exact World.accepted_of_events_eq heq j
  · unfold World.accepted
    rw [heq, Event.accepted_append]
    exact List.append_nil _

omit [BEq α] in
theorem World.Detaches.handovers {w w' : World α} {id : WatcherId} {message : String → Diagnostic}
    (h : w.Detaches id message w') : Event.handovers w'.events = Event.handovers w.events := by
  rcases h.events_eq with heq | ⟨name, parent, heq⟩
  · rw [heq]
  · rw [heq, Event.handovers_append]
    exact List.append_nil _

theorem Move.accepted_or (h : Move P m m') :
    (∀ id, m'.world.accepted id = m.world.accepted id) ∨ m.RootAccepts m' ∨
      P m ∧ m.ChildAccepts m' := by
  have hnote : ∀ (w : World α) (p : Bool) {e : Event α}, e.isQuiet = true → ∀ id,
      (w.note p e).accepted id = w.accepted id := fun w p _ he => (World.Alike.note w p he).accepted
  cases h with
  | remark p he => exact .inl (hnote _ p (Event.isQuiet_of_isIdle he))
  | rename hw hq hh hr => exact .inl (World.accepted_of_events_eq (World.events_eq_of_history hh))
  | enlist p waker hb hp => exact .inl (hnote _ p rfl)
  | enrol hb hcl hl hj =>
    exact .inl (World.accepted_of_events_eq (by rw [World.events_enrol, hj.events_eq]))
  | reserve hb hcl hj =>
    exact .inl (World.accepted_of_events_eq (by rw [World.events_reserve, hj.events_eq]))
  | unwatch p hr => exact .inl (hnote _ p rfl)
  | miss p hr => exact .inl (hnote _ p rfl)
  | drop ho hdr hdet => exact .inl hdet.accepted_eq
  | finish q name hc hdet => exact .inl fun id => (hdet.accepted_eq id).trans (hnote _ q rfl id)
  | wake p hc => exact .inl (hnote _ p rfl)
  | rebuff hb ho hr => exact .inl hr.alike.accepted
  | accept p q name hc hb ho hcl hr hs =>
    exact .inr (.inl ⟨p, q, name, _, _, _, hb, ho, hcl, hr, rfl⟩)
  | fail p q name ho hout hy => exact .inl fun id => (hnote _ q rfl id).trans (hnote _ p rfl id)
  | suppress p hc hb ho hy hr =>
    exact .inl fun id => (hr.alike.accepted id).trans (hnote _ p rfl id)
  | announce q name hc => exact .inl (hnote _ q rfl)
  | derive o p q name hok hc hb ho hy hcl hr =>
    exact .inr (.inr ⟨hok, o, p, q, name, _, _, _, _, _, _, _, _, hc, rfl, hb, ho, hy, hcl, hr,
      rfl⟩)
  | defer hc hd hr hi => exact .inl hd.accepted_eq
  | _ => exact .inl fun _ => rfl

omit [BEq α] in
theorem Runs.accepted_eq {t : Task α} (h : Runs m t m') (id : WatcherId) :
    m'.world.accepted id = m.world.accepted id := by
  cases h with
  | @mk w w' w'' stk stk' frames c t hc ht hr =>
    have htake : w'.accepted id = w.accepted id := by
      cases ht with
      | dispatched hd => exact hd.accepted_eq id
      | drained => rfl
      | picked => rfl
    rw [← htake]
    cases hr with
    | inactive p => exact (w'.resembles_note p (e := .ran t false) fun _ => rfl).accepted id
    | stale p q name hr ha hn =>
      exact ((w'.resembles_note p (e := .ran t true) fun _ => rfl).trans
        (World.Alike.note _ q rfl).resembles).accepted id
    | called p q elsewhere hr ha hn hc =>
      exact (World.resembles_call hr hn p q elsewhere _).accepted id

/-! ## Queues and handles -/

omit [BEq α] in
theorem World.Detaches.queues_handles {w w' : World α} {id : WatcherId}
    {message : String → Diagnostic} (h : w.Detaches id message w') :
    w'.queues = w.queues ∧ w'.handles = w.handles := by
  cases h <;> exact ⟨rfl, rfl⟩

theorem World.Rebuffs.queues_handles {w w' : World α} {id : WatcherId} {b : Watcher α}
    {s : Latest α} {reception : Reception} (h : w.Rebuffs id b s reception w') :
    w'.queues = w.queues ∧ w'.handles = w.handles := by
  cases h <;> exact ⟨rfl, rfl⟩

omit [BEq α] in
theorem World.queue_congr {w w' : World α} (h : w'.queues = w.queues) (name : Name) :
    w'.queue name = w.queue name := by
  unfold World.queue
  rw [h]

theorem Move.queue (h : Move P m m') {name : Name} {t : Task α} (ht : t ∈ m'.world.queue name) :
    m.world.Queued t ∨ t ∈ m.world.queue name := by
  cases h with
  | rename hw hq hh hr => exact .inr (World.queue_congr hq name ▸ ht)
  | drop ho hdr hdet => exact .inr (World.queue_congr hdet.queues_handles.1 name ▸ ht)
  | finish q name' hc hdet => exact .inr (World.queue_congr hdet.queues_handles.1 name ▸ ht)
  | rebuff hb ho hr => exact .inr (World.queue_congr hr.queues_handles.1 name ▸ ht)
  | suppress p hc hb ho hy hr => exact .inr (World.queue_congr hr.queues_handles.1 name ▸ ht)
  | enqueue q hq =>
    rw [World.queue_setQueue] at ht
    split at ht
    · rename_i heq
      subst heq
      rcases List.mem_append.mp ht with ht | ht
      · exact .inr ht
      · rw [List.mem_singleton] at ht
        subst ht
        exact .inl hq
    · exact .inr ht
  | dequeue q hq =>
    rw [World.queue_setQueue] at ht
    split at ht
    · rename_i heq
      subst heq
      exact .inr (hq ht)
    · exact .inr ht
  | enrol hb hcl hl hj => cases hj <;> exact .inr ht
  | reserve hb hcl hj => cases hj <;> exact .inr ht
  | accept p q name hc hb ho hcl hr hs =>
    unfold World.adopt at ht
    simp only at ht
    split at ht <;> exact .inr ht
  | derive o p q name hok hc hb ho hy hcl hr =>
    unfold World.adopt at ht
    simp only at ht
    split at ht <;> exact .inr ht
  | defer hc hd hr hi =>
    cases hd with
    | spread => exact .inr ht
    | replay p todo hb hcl hl hj hreg => cases hj <;> exact .inr ht
  | _ => exact .inr ht

theorem Move.handles (h : Move P m m') :
    m'.world.handles = m.world.handles ∨ m.world.RootHandles m'.world.handles := by
  cases h with
  | rename hw hq hh hr => exact .inr hr
  | drop ho hdr hdet => exact .inl hdet.queues_handles.2
  | finish q name hc hdet => exact .inl hdet.queues_handles.2
  | rebuff hb ho hr => exact .inl hr.queues_handles.2
  | suppress p hc hb ho hy hr => exact .inl hr.queues_handles.2
  | enrol hb hcl hl hj => cases hj <;> exact .inl rfl
  | reserve hb hcl hj => cases hj <;> exact .inl rfl
  | accept p q name hc hb ho hcl hr hs =>
    unfold World.adopt
    simp only
    split <;> exact .inl rfl
  | derive o p q name hok hc hb ho hy hcl hr =>
    unfold World.adopt
    simp only
    split <;> exact .inl rfl
  | defer hc hd hr hi =>
    cases hd with
    | spread => exact .inl rfl
    | replay p todo hb hcl hl hj hreg => cases hj <;> exact .inl rfl
  | _ => exact .inl rfl

omit [BEq α] in
theorem World.Takes.queues_handles {w w' : World α} {stk stk' : List (Frame α)} {t : Task α}
    (h : w.Takes stk t w' stk') : w'.queues = w.queues ∧ w'.handles = w.handles := by
  cases h with
  | dispatched hd =>
    cases hd with
    | spread => exact ⟨rfl, rfl⟩
    | replay p todo hb hcl hl hj hreg => cases hj <;> exact ⟨rfl, rfl⟩
  | drained => exact ⟨rfl, rfl⟩
  | picked => exact ⟨rfl, rfl⟩

omit [BEq α] in
theorem Runs.queues_handles {t : Task α} (h : Runs m t m') :
    m'.world.queues = m.world.queues ∧ m'.world.handles = m.world.handles := by
  cases h with
  | mk hc ht hr =>
    have htake := ht.queues_handles
    cases hr <;> exact htake

/-! ## Stacks -/

/-- An accepted state is announced on a stack that may offer it. -/
theorem World.stacked_announcing {w : World α} {stk : List (Frame α)} {id : WatcherId}
    {b : Watcher α} {s : Latest α} (p q : Bool) (name : String) (hw : w.Ledger)
    (hb : w.watcher? id = some b) (hcl : b.closed = false) (hr : b.refusal s = none)
    (hs : w.Stacked stk) (hoff : Frame.OnOffering stk) :
    (w.adopt p q name id b s).Stacked (.waking b.slot.wakers ::
      .announcing id (b.updates + 1) s b.registry.entries :: stk) := by
  obtain ⟨-, hx⟩ := hw.rearranges (World.rearranges_adopt p q name hb hcl hr)
  have hg : (w.adopt p q name id b s).Genuine id (b.updates + 1) s := by
    refine ⟨b.updates, rfl, ?_⟩
    rw [World.accepted_adopt, if_pos rfl, ← World.updates_of_watcher? hb, hw.updates_eq]
    exact List.getElem?_concat_length
  exact ⟨trivial, ⟨hg, hoff⟩, hx.stacked hs⟩

theorem Move.stacked (hm : m.WellFormed) (h : Move P m m') : m'.world.Stacked m'.stack := by
  obtain ⟨-, hx⟩ := hm.ledger.rearranges (h.rearranges hm)
  have hsame : m'.world.Stacked m.stack := hx.stacked hm.stacked
  cases h with
  | unwind hok => exact hsame.2
  | leave hc hf => exact hsame.2
  | enter hc hf hs => exact ⟨hs, hsame⟩
  | close hc hb hcl hs => exact ⟨trivial, hs, hsame⟩
  | accept p q name hc hb ho hcl hr hs =>
    exact World.stacked_announcing p q name hm.ledger hb hcl hr hm.stacked hs
  | finish q name hc hdet => exact hsame.2
  | fail p q name ho hout hy => exact hsame.2
  | suppress p hc hb ho hy hr => exact hsame.2
  | @derive w stk c o p q name id parent b s l d y hok hc hb ho hy hcl hr =>
    obtain ⟨⟨t, rest, rfl, -, -⟩, hrest⟩ := hm.stacked
    have ha := World.Alike.note w o (e := .applied id s.revision (.value y)) rfl
    exact World.stacked_announcing p q name (hm.ledger.alike ha) hb hcl hr
      (ha.resembles.to_extends.stacked hrest) trivial
  | announce q name hc => exact ⟨hsame.1, hsame.2⟩
  | skip hc hin => exact ⟨hsame.1, hsame.2⟩
  | defer hc hd hr hi =>
    cases hd with
    | spread => exact ⟨trivial, hsame.1, hsame.2⟩
    | replay p todo hb hcl hl hj hreg => exact ⟨Frame.onDelivering_of_onRegistering hreg, hsame⟩
  | _ => exact hsame

omit [BEq α] in
/-- The frames of a call stand on what ran the task. -/
theorem World.Ran.stacked {w w' : World α} {t : Task α} {frames stk : List (Frame α)}
    (hs : w'.Stacked stk) (hrun : Frame.OnRunning stk) (h : w.Ran t w' frames) :
    w'.Stacked (frames ++ stk) := by
  cases h with
  | inactive => exact hs
  | stale => exact hs
  | @called r p q elsewhere audience frames hr ha hn hc =>
    have hmem : t ∈ Event.invocations
        (((w.note p (.ran t true)).tell t).note q (.called audience t elsewhere)).events := by
      rw [World.events_note, Event.invocations_append]
      simp [Event.invocations]
    cases hc with
    | observer hl => exact ⟨⟨t, stk, rfl⟩, ⟨hmem, hrun⟩, hs⟩
    | @child c d hl ho =>
      have ho' : World.origin? (((w.note p (.ran t true)).tell t).note q
          (.called (.child c) t elsewhere)) c = some (.child t.watcher t.listener d) := by
        rw [World.origin?_note, World.origin?_tell, World.origin?_note, ho]
      refine ⟨⟨⟨c, t.state, _, rfl⟩, fun ht => ?_⟩, ⟨t, stk, rfl, rfl, d, ho'⟩, ⟨hmem, hrun⟩, hs⟩
      exact ⟨c, t.watcher, t.listener, d, ho', rfl, _, ht⟩

omit [BEq α] in
theorem World.Takes.onRunning {w w' : World α} {stk stk' : List (Frame α)} {t : Task α}
    (h : w.Takes stk t w' stk') : Frame.OnRunning stk' := by
  cases h with
  | dispatched hd => cases hd <;> trivial
  | drained => trivial
  | picked => trivial

theorem Runs.stacked {t : Task α} (hm : m.WellFormed) (h : Runs m t m') :
    m'.world.Stacked m'.stack := by
  cases h with
  | @mk w w' w'' stk stk' frames c t hc ht hr =>
    obtain ⟨-, hx⟩ := Runs.ledger hm (.mk hc ht hr)
    have hs : w''.Stacked stk := hx.stacked hm.stacked
    refine hr.stacked ?_ ?_
    · cases ht with
      | dispatched hd =>
        cases hd with
        | spread => exact ⟨trivial, hs.1, hs.2⟩
        | replay p todo hb hcl hl hj hreg =>
          exact ⟨Frame.onDelivering_of_onRegistering hreg, hs⟩
      | drained hq => exact ⟨⟨hs.1.1, fun t ht => hs.1.2 t (List.mem_cons_of_mem _ ht)⟩, hs.2⟩
      | picked hq => exact ⟨hs.1, hs.2⟩
    · exact ht.onRunning

/-! ## Well-formed machines -/

namespace Machine.WellFormed

omit [BEq α] in
theorem initial : WellFormed ({ world := {} } : Machine α) where
  ledger :=
    { sound := fun id b hb => by simp [World.watcher?] at hb
      updates_eq := fun id => rfl
      latest_eq := fun id => rfl
      parent := fun ho => by simp [World.origin?, World.watcher?] at ho
      fed := fun hr => by simp [World.registration?, World.watcher?] at hr
      subscription := fun ho => by simp [World.origin?, World.watcher?] at ho
      handedOver := fun t ht => by simp [Event.handovers, World.events] at ht }
  stacked := trivial
  queued := fun name t ht => by simp [World.queue] at ht
  roots := fun b hb => by simp at hb

variable (hm : m.WellFormed)

include hm

theorem move (h : Move P m m') : m'.WellFormed ∧ m.world.Extends m'.world := by
  obtain ⟨hledger, hx⟩ := hm.ledger.rearranges (h.rearranges hm)
  refine ⟨⟨hledger, h.stacked hm, fun name t ht => hx.queued ?_, hx.rootHandles ?_⟩, hx⟩
  · exact (h.queue ht).elim id (hm.queued name t)
  · rcases h.handles with heq | hr
    · rw [heq]
      exact hm.roots
    · exact hr

theorem runs {t : Task α} (h : Runs m t m') : m'.WellFormed ∧ m.world.Extends m'.world := by
  obtain ⟨hledger, hx⟩ := h.ledger hm
  obtain ⟨hq, hh⟩ := h.queues_handles
  refine ⟨⟨hledger, h.stacked hm, fun name t ht => hx.queued (hm.queued name t ?_),
    hx.rootHandles ?_⟩, hx⟩
  · exact World.queue_congr hq name ▸ ht
  · rw [hh]
    exact hm.roots

end Machine.WellFormed

end Moves

end WatchTree
