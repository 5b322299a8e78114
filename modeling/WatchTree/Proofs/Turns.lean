import WatchTree.Proofs.Invariants

/-!
# What the machine's functions do

Each function that a step is made of, in terms of moves: running a task and handing it over,
offering a state, ending an application, closing, waking, and letting go of handles.
-/

namespace WatchTree

variable {α : Type}

open Relation

namespace Machine

/-! ## Running and handing over -/

theorem call_observer (m : Machine α) (t : Task α) {r : Registration α} (elsewhere : Bool)
    {label : Name} {valueOnly : Bool} {actions : Actions α}
    (hl : r.listener = .observer label valueOnly actions) :
    m.call t r elsewhere =
      ⟨(m.world.tell t).note (m.onPoller && !elsewhere)
          (.called (.observer label valueOnly) t elsewhere),
        .script (.observer label) (actions (r.calls + 1)) :: .calling t :: m.stack, .proceed⟩ := by
  unfold call
  rw [hl]
  rfl

theorem call_subscription (m : Machine α) (t : Task α) {r : Registration α} (elsewhere : Bool)
    {child p : WatcherId} {l : ListenerId} {d : Derivation α}
    (hl : r.listener = .subscription child) (hd : m.world.origin? child = some (.child p l d)) :
    m.call t r elsewhere =
      ⟨(m.world.tell t).note (m.onPoller && !elsewhere) (.called (.child child) t elsewhere),
        .script (.derivation d.label) (d.actions (r.calls + 1)) :: .applying child t.state ::
          .calling t :: m.stack, .proceed⟩ := by
  have hp : (m.world.tell t).parent? child = some (p, l, d) := by
    rw [World.parent?_eq_some_iff, World.origin?_tell, hd]
  unfold call
  rw [hl]
  simp only
  split
  · rename_i hnone
    exact nomatch hnone.symm.trans hp
  · rename_i hsome
    cases Option.some.inj (hsome.symm.trans hp)
    rfl

/-- A task that is run leads to a call, or to nothing. -/
theorem run_eq {w : World α} (stk : List (Frame α)) (c : Control α) {t : Task α}
    {r : Registration α} (hr : w.registration? t.watcher t.listener = some r)
    (hfed : ∀ child, r.listener = .subscription child → w.Feeds t child) (elsewhere : Bool) :
    ∃ w' frames, w.Ran t w' frames ∧
      run ⟨w, stk, c⟩ t elsewhere = ⟨w', frames ++ stk, .proceed⟩ := by
  unfold run
  simp only [hr]
  cases ha : r.active with
  | false => exact ⟨_, _, .inactive _ hr ha, rfl⟩
  | true =>
    rw [if_neg (by simp)]
    by_cases hn : t.update ≤ r.delivered
    · rw [if_pos hn]
      exact ⟨_, _, .stale _ _ _ hr ha hn, rfl⟩
    · rw [if_neg hn]
      have hlt : r.delivered < t.update := Nat.lt_of_not_le hn
      cases hl : r.listener with
      | observer label valueOnly actions =>
        rw [call_observer _ _ _ hl]
        exact ⟨_, _, .called _ _ elsewhere hr ha hlt (.observer hl), rfl⟩
      | subscription child =>
        obtain ⟨d, hd⟩ := hfed child hl
        rw [call_subscription _ _ _ hl (p := t.watcher) (l := t.listener) (d := d) hd]
        exact ⟨_, _, .called _ _ elsewhere hr ha hlt (.child hl hd), rfl⟩

/-- What handing over a task to an active registration leads to. -/
theorem handOver_eq (m : Machine α) {t : Task α} {r : Registration α}
    (hr : m.world.registration? t.watcher t.listener = some r) (ha : r.active = true) :
    m.handOver t =
      let m' : Machine α := ⟨m.world.handOver m.onPoller t,
        .script (.executor t.watcher t.listener) (r.executor.actions (r.handovers + 1)) :: m.stack,
        .proceed⟩
      match r.executor.disposal with
      | .inline => m'.run t false
      | .thread => m'.run t true
      | .queue name => m'.inWorld fun w => w.setQueue name (w.queue name ++ [t])
      | .discard => m' := by
  unfold handOver
  rw [hr]
  simp only [ha]
  rfl

theorem handOver_inactive (m : Machine α) {t : Task α}
    (h : ∀ r, m.world.registration? t.watcher t.listener = some r → r.active = false) :
    m.handOver t = m.proceed := by
  unfold handOver
  cases hr : m.world.registration? t.watcher t.listener with
  | none => rfl
  | some r => simp [h r hr]

variable [BEq α] {P : Machine α → Prop}

/-! ## Composing turns -/

theorem turn_of_moves {m m' : Machine α} (h : ReflTransGen (Move P) m m') : Turn P m m' :=
  ⟨m', h, .inl rfl⟩

theorem turn_trans {m m₁ m' : Machine α} (h : ReflTransGen (Move P) m m₁) (h' : Turn P m₁ m') :
    Turn P m m' := by
  obtain ⟨m₂, hm, he⟩ := h'
  exact ⟨m₂, h.trans hm, he⟩

/-- The control passes on at the end. -/
theorem turn_steer {m : Machine α} {w : World α} {stk : List (Frame α)} {c c' : Control α}
    (h : ReflTransGen (Move P) m ⟨w, stk, c⟩) (hc : c'.Calm) : Turn P m ⟨w, stk, c'⟩ :=
  turn_of_moves (h.tail (.steer hc))

/-- A frame is put on at the end. -/
theorem moves_push {m : Machine α} {w : World α} {f : Frame α} {stk : List (Frame α)}
    (h : ReflTransGen (Move P) m ⟨w, stk, .proceed⟩) (hp : f.isPlain = true)
    (hs : f.Stands w stk) : ReflTransGen (Move P) m ⟨w, f :: stk, .proceed⟩ :=
  h.tail (.enter Control.calm_proceed hp hs)

/-- A turn that begins with a frame being put on. -/
theorem push_turn {w : World α} {stk : List (Frame α)} {c : Control α} {m : Machine α}
    (f : Frame α) (hp : f.isPlain = true) (hs : f.Stands w stk)
    (h : Turn P ⟨w, f :: stk, .proceed⟩ m) : Turn P ⟨w, stk, c⟩ m :=
  turn_trans (moves_push (.single (.steer Control.calm_proceed)) hp hs) h

/-! ## Deliveries -/

theorem dispatch_turn {w w' : World α} {stk stk' : List (Frame α)} {c : Control α} {t : Task α}
    {r : Registration α} (hc : c.Calm) (hd : w.Dispatches stk t w' stk')
    (hr : w'.registration? t.watcher t.listener = some r)
    (hfed : ∀ child, r.listener = .subscription child → w'.Feeds t child) :
    Turn P ⟨w, stk, c⟩
      (match r.executor.disposal with
      | .inline => run ⟨w', stk', .proceed⟩ t false
      | .thread => run ⟨w', stk', .proceed⟩ t true
      | .queue name => ⟨w'.setQueue name (w'.queue name ++ [t]), stk', .proceed⟩
      | .discard => ⟨w', stk', .proceed⟩) := by
  have hrun : ∀ elsewhere, Turn P ⟨w, stk, c⟩ (run ⟨w', stk', .proceed⟩ t elsewhere) := by
    intro elsewhere
    obtain ⟨w'', frames, hran, heq⟩ := run_eq stk' .proceed hr hfed elsewhere
    rw [heq]
    exact ⟨_, .refl, .inr ⟨t, .mk hc (.dispatched hd) hran⟩⟩
  cases hdisp : r.executor.disposal with
  | inline => exact hrun false
  | thread => exact hrun true
  | queue name =>
    have hmem : t ∈ Event.handovers w'.events := by
      cases hd with
      | spread => rw [World.events_handOver, Event.handovers_append]; simp [Event.handovers]
      | replay => rw [World.events_handOver, Event.handovers_append]; simp [Event.handovers]
    exact turn_of_moves (.tail (.single (.defer hc hd hr (by rw [hdisp]; rfl)))
      (.enqueue name ⟨hmem, r, name, hr, hdisp⟩))
  | discard => exact turn_of_moves (.single (.defer hc hd hr (by rw [hdisp]; rfl)))

/-- A task that a delivery hands over is done with as the executor sees fit. -/
theorem handOver_turn {w w' : World α} {stk stk' : List (Frame α)} {c c' : Control α}
    {t : Task α} {r : Registration α} (hc : c.Calm)
    (hr : w'.registration? t.watcher t.listener = some r) (ha : r.active = true)
    (hfed : ∀ child, r.listener = .subscription child → w'.Feeds t child)
    (hd : w.Dispatches stk t (w'.handOver (stk'.any Frame.onPoller) t)
      (.script (.executor t.watcher t.listener) (r.executor.actions (r.handovers + 1)) :: stk')) :
    Turn P ⟨w, stk, c⟩ (handOver ⟨w', stk', c'⟩ t) := by
  rw [handOver_eq _ hr ha]
  refine dispatch_turn (r := { r with handovers := r.handovers + 1 }) hc hd ?_ ?_
  · rw [World.registration?_handOver, if_pos ⟨rfl, rfl⟩, hr]
    rfl
  · intro child hl
    obtain ⟨d, ho⟩ := hfed child hl
    exact ⟨d, (World.origin?_handOver w' _ t child).trans ho⟩

theorem spread_turn {w : World α} {stk : List (Frame α)} {c c' : Control α} {id : WatcherId}
    {n : Nat} {s : Latest α} {l : ListenerId} {ls : List ListenerId} (hw : w.Ledger)
    (hc : c.Calm) :
    Turn P ⟨w, .fanOut id n s (l :: ls) :: stk, c⟩
      (handOver ⟨w, .fanOut id n s ls :: stk, c'⟩ ⟨id, l, n, s⟩) := by
  by_cases h : ∃ r, w.registration? id l = some r ∧ r.active = true
  · obtain ⟨r, hr, ha⟩ := h
    exact handOver_turn hc hr ha (fun child hl => hw.fed hr hl) (.spread _ _ hr ha)
  · have hin : ∀ r, w.registration? id l = some r → r.active = false := by
      intro r hr
      rw [← Bool.not_eq_true]
      exact fun ha => h ⟨r, hr, ha⟩
    rw [handOver_inactive _ hin]
    exact turn_steer (.single (.skip hc hin)) Control.calm_proceed

theorem register_turn {w w' : World α} {stk : List (Frame α)} {c c' : Control α} {id : WatcherId}
    {b : Watcher α} {listener : Listener α} {executor : Executor α} (hw : w.Ledger) (hc : c.Calm)
    (hb : w.watcher? id = some b) (hj : w.Joins id b listener executor w')
    (hs : Frame.OnRegistering stk) :
    Turn P ⟨w, stk, c⟩ (register ⟨w', stk, c'⟩ id b listener executor) := by
  unfold register
  by_cases hcl : b.closed = true
  · rw [if_pos hcl]
    exact turn_steer (.tail (.single (.reserve hb hcl hj)) (.remark _ rfl)) Control.calm_proceed
  · rw [if_neg hcl]
    rw [Bool.not_eq_true] at hcl
    cases hs' : b.latest with
    | none => exact turn_steer (.single (.enrol hb hcl hs' hj)) Control.calm_proceed
    | some s =>
      have hr : (w'.enrol id listener executor).registration? id b.registry.nextId =
          some { id := b.registry.nextId, listener, executor } := by
        rw [World.registration?_enrol (hj.sound hw.sound) (hj.watcher?_eq hb), if_pos ⟨rfl, rfl⟩]
      refine handOver_turn hc hr rfl ?_ (.replay _ _ hb hcl hs' hj hs)
      intro child hl
      obtain ⟨d, hd⟩ := hj.origin?_subscription hl
      exact ⟨d, (World.origin?_enrol w' id child listener executor).trans hd⟩

/-! ## Offers -/

section Offers

variable {m : Machine α} {id : WatcherId} {b : Watcher α} {s : Latest α}

theorem offer_closed (hb : m.world.watcher? id = some b) (hcl : b.closed = true) (s : Latest α) :
    m.offer id s =
      ⟨m.world.note m.onPoller (.offered id s .watcherClosed), m.stack, .answer (.bool false)⟩ := by
  unfold offer
  simp only [hb, if_pos hcl]
  rfl

theorem offer_refused {refusal : Watcher.Refusal} (hb : m.world.watcher? id = some b)
    (hcl : b.closed = false) (hr : b.refusal s = some refusal) :
    m.offer id s =
      ⟨(m.world.note m.onPoller (.offered id s .refused)).note m.onPoller
          (.logged id b.name (refusalMessage s refusal)), m.stack, .answer (.bool false)⟩ := by
  have hname : (m.record (.offered id s .refused)).nameOf id = b.name := by
    show nameOf ⟨m.world.note m.onPoller _, m.stack, m.control⟩ id = b.name
    unfold nameOf
    simp only [World.watcher?_note, hb]
  unfold offer log
  simp only [hb, hr, hcl, hname]
  rfl

theorem offer_adopted (hb : m.world.watcher? id = some b) (hcl : b.closed = false)
    (hr : b.refusal s = none) :
    m.offer id s =
      ⟨m.world.adopt m.onPoller m.onPoller b.name id b s,
        .waking b.slot.wakers :: .announcing id (b.updates + 1) s b.registry.entries :: m.stack,
        .proceed⟩ := by
  have hname : ((m.record (.offered id s .accepted)).inWorld (·.modify id (·.accept s))).nameOf id =
      b.name := by
    show nameOf ⟨(m.world.note m.onPoller _).modify id (·.accept s), m.stack, m.control⟩ id = b.name
    unfold nameOf
    rw [World.watcher?_modify_self (w := m.world.note m.onPoller _) hb]
    rfl
  unfold offer log World.adopt
  simp only [hb, hcl, hr, hname]
  cases b.slot.isPending <;> rfl

/-- A watcher that does not accept a state goes on as before. -/
theorem offer_or (m : Machine α) (hb : m.world.watcher? id = some b) (s : Latest α) :
    (∃ reception w, m.world.Rebuffs id b s reception w ∧
      m.offer id s = ⟨w, m.stack, .answer (.bool false)⟩) ∨
    b.closed = false ∧ b.refusal s = none := by
  cases hcl : b.closed with
  | true => exact .inl ⟨_, _, .closed _ hcl, offer_closed hb hcl s⟩
  | false =>
    cases hr : b.refusal s with
    | none => exact .inr ⟨rfl, rfl⟩
    | some refusal => exact .inl ⟨_, _, .refused _ _ _ hcl hr, offer_refused hb hcl hr⟩

end Offers

theorem offer_turn {w : World α} {stk : List (Frame α)} {c : Control α} {id : WatcherId}
    (s : Latest α) (hc : c.Calm) (hroot : w.IsRoot id) (hs : Frame.OnOffering stk) :
    Turn P ⟨w, stk, c⟩ (offer ⟨w, stk, c⟩ id s) := by
  obtain ⟨b, hb, ho⟩ := World.exists_watcher?_of_origin? hroot
  rcases offer_or ⟨w, stk, c⟩ hb s with ⟨reception, w', hrebuffs, heq⟩ | ⟨hcl, hr⟩
  · rw [heq]
    exact turn_steer (.single (.rebuff hb ho hrebuffs)) (Control.calm_answer _)
  · rw [offer_adopted (m := ⟨w, stk, c⟩) hb hcl hr]
    exact turn_of_moves (.single (.accept _ _ _ hc hb ho hcl hr hs))

/-- How the application of a transformation may end. -/
theorem settle_turn {w : World α} {stk : List (Frame α)} {c c' : Control α} {id parent : WatcherId}
    {s : Latest α} {l : ListenerId} {d : Derivation α} {outcome : Outcome α}
    (hok : P ⟨w, .applying id s :: stk, c⟩) (ho : w.origin? id = some (.child parent l d))
    (hout : c.Calm ∧ outcome = d.apply s.value ∨
      ∃ payload, c = .unwind payload ∧ outcome = .panicked payload) :
    Turn P ⟨w, .applying id s :: stk, c⟩ (settle ⟨w, stk, c'⟩ id s.revision outcome) := by
  cases outcome with
  | failed error | panicked payload =>
    exact turn_of_moves (.single (.fail _ _ _ ho hout rfl))
  | value y =>
    obtain ⟨hc, hy⟩ : c.Calm ∧ d.apply s.value = .value y := by
      rcases hout with ⟨hc, hy⟩ | ⟨payload, -, hy⟩
      · exact ⟨hc, hy.symm⟩
      · exact nomatch hy
    obtain ⟨b, hb, hbo⟩ := World.exists_watcher?_of_origin? ho
    let m : Machine α := record ⟨w, stk, c'⟩ (.applied id s.revision (.value y))
    show Turn P _ (m.offer id ⟨s.revision, y⟩)
    rcases m.offer_or hb ⟨s.revision, y⟩ with ⟨reception, w', hrebuffs, heq⟩ | ⟨hcl, hr⟩
    · rw [heq]
      exact turn_steer (.single (.suppress _ hc hb hbo hy hrebuffs)) (Control.calm_answer _)
    · rw [offer_adopted (m := m) hb hcl hr]
      exact turn_of_moves (.single (.derive _ _ _ _ hok hc hb hbo hy hcl hr))

/-! ## Closing and waking -/

theorem close_turn {w : World α} {stk : List (Frame α)} {c : Control α} (id : WatcherId)
    (hc : c.Calm) (hs : Frame.OnClosing stk) : Turn P ⟨w, stk, c⟩ (close ⟨w, stk, c⟩ id) := by
  unfold close
  simp only
  cases hb : w.watcher? id with
  | none => exact turn_steer .refl (Control.calm_answer _)
  | some b =>
    simp only
    by_cases hcl : b.closed = true
    · rw [if_pos hcl]
      exact turn_steer .refl (Control.calm_answer _)
    · rw [if_neg hcl]
      rw [Bool.not_eq_true] at hcl
      exact turn_of_moves (.single (.close hc hb hcl hs))

theorem wake_turn {w : World α} {stk : List (Frame α)} {c c' : Control α} {waker : Name}
    {rest : List Name} (hc : c.Calm)
    (hroots : w.RootHandles w.handles) :
    Turn P ⟨w, .waking (waker :: rest) :: stk, c⟩
      (wake ⟨w, .waking rest :: stk, c'⟩ waker) := by
  have hwake : ReflTransGen (Move P) ⟨w, .waking (waker :: rest) :: stk, c⟩
      ⟨w.note (onPoller ⟨w, .waking rest :: stk, c'⟩) (.woken waker), .waking rest :: stk,
        .proceed⟩ :=
    .tail (.single (.wake _ hc)) (.steer Control.calm_proceed)
  unfold wake
  simp only
  split
  · exact turn_of_moves hwake
  · exact turn_of_moves (moves_push (.tail hwake (.rename rfl rfl rfl hroots)) rfl
      ⟨rest, stk, rfl⟩)

/-! ## Detaching and releasing -/

omit [BEq α] in
theorem detach_eq {m : Machine α} {child p : WatcherId} {l : ListenerId} {d : Derivation α}
    (hp : m.world.parent? child = some (p, l, d)) (message : String → Diagnostic) :
    m.detach child message =
      if m.world.isRegistered p l then
        (m.inWorld (·.unregister p l)).log child (message (m.nameOf p))
      else m := by
  unfold detach
  rw [hp]

omit [BEq α] in
/-- What taking out a child's subscription leads to. -/
theorem detach_detaches (m : Machine α) (id : WatcherId) (message : String → Diagnostic) :
    ∃ w, m.detach id message = { m with world := w } ∧ m.world.Detaches id message w := by
  cases hp : m.world.parent? id with
  | none =>
    refine ⟨m.world, ?_, .missing fun p l d ho => ?_⟩
    · unfold detach
      rw [hp]
    · rw [World.parent?_eq_some_iff.mpr ho] at hp
      exact nomatch hp
  | some x =>
    obtain ⟨p, l, d⟩ := x
    have ho := World.parent?_eq_some_iff.mp hp
    rw [detach_eq hp]
    split
    · rename_i hreg
      exact ⟨_, rfl, .found _ _ _ ho hreg⟩
    · rename_i hreg
      refine ⟨m.world, rfl, .missing fun p' l' d' ho' => ?_⟩
      obtain ⟨rfl, rfl, -⟩ := Origin.child.inj (Option.some.inj (ho'.symm.trans ho))
      exact (Bool.not_eq_true _).mp hreg

/-- What is released stays: it is no child, dropped already or referred to. -/
def Stays (m : Machine α) (id : WatcherId) : Prop :=
  ∀ p l d, m.world.origin? id = some (.child p l d) → m.world.isDropped id = false →
    m.isReferenced id = true

/-- A child is dropped, and its subscription taken out. -/
def dropChild (m : Machine α) (id : WatcherId) : Machine α :=
  (m.inWorld (·.modify id fun b => { b with dropped := true })).detach id .droppedUnclosed

section Release

variable {m : Machine α} {id p : WatcherId} {l : ListenerId} {d : Derivation α}

omit [BEq α] in
theorem stays_of_isRoot (h : m.world.IsRoot id) : m.Stays id :=
  fun _ _ _ ho => nomatch h.symm.trans ho

omit [BEq α] in
theorem stays_of_isDropped (h : m.world.isDropped id = true) : m.Stays id :=
  fun _ _ _ _ hd => nomatch h.symm.trans hd

omit [BEq α] in
theorem stays_of_isReferenced (h : m.isReferenced id = true) : m.Stays id := fun _ _ _ _ _ => h

omit [BEq α] in
theorem release_of_stays (h : m.Stays id) : m.release id = m := by
  rw [release]
  split
  · rename_i hb
    exact if_pos (h _ _ _ (World.origin?_of_watcher? hb) (World.isDropped_of_watcher? hb))
  · rfl

omit [BEq α] in
theorem release_child (ho : m.world.origin? id = some (.child p l d))
    (hd : m.world.isDropped id = false) (href : m.isReferenced id = false) :
    m.release id = if p < id then (m.dropChild id).release p else m.dropChild id := by
  obtain ⟨b, hb, hbo⟩ := World.exists_watcher?_of_origin? ho
  rw [World.isDropped_of_watcher? hb] at hd
  obtain ⟨name, o, latest, updates, closed, slot, registry, dropped⟩ := b
  obtain rfl : o = .child p l d := hbo
  obtain rfl : dropped = false := hd
  rw [release, hb]
  exact if_neg ((Bool.not_eq_true _).mpr href)

omit [BEq α] in
/-- A release goes from a child to its parent as long as there is something to drop. -/
theorem release_induction {R : WatcherId → Machine α → Machine α → Prop}
    (hstays : ∀ {id} {m : Machine α}, m.Stays id → R id m m)
    (hlast : ∀ {id p l d} {m : Machine α}, m.world.origin? id = some (.child p l d) →
      m.world.isDropped id = false → m.isReferenced id = false → ¬ p < id →
      R id m (m.dropChild id))
    (hnext : ∀ {id p l d} {m : Machine α}, m.world.origin? id = some (.child p l d) →
      m.world.isDropped id = false → m.isReferenced id = false → p < id →
      R p (m.dropChild id) ((m.dropChild id).release p) →
      R id m ((m.dropChild id).release p)) (id : WatcherId) : ∀ m, R id m (m.release id) := by
  -- A parent is older than its child, so the watchers that are released have ever smaller ids.
  induction id using Nat.strongRecOn with
  | _ id ih =>
    intro m
    by_cases h : m.Stays id
    · rw [release_of_stays h]
      exact hstays h
    · unfold Stays at h
      push Not at h
      obtain ⟨p, l, d, ho, hd, href⟩ := h
      rw [release_child ho hd ((Bool.not_eq_true _).mp href)]
      split
      · rename_i hlt
        exact hnext ho hd ((Bool.not_eq_true _).mp href) hlt (ih p hlt _)
      · rename_i hlt
        exact hlast ho hd ((Bool.not_eq_true _).mp href) hlt

end Release

/-- A machine that has moved on without touching its stack or its control. -/
def MovesIn (P : Machine α → Prop) (m m' : Machine α) : Prop :=
  ∃ w, m' = { m with world := w } ∧
    ∀ c, ReflTransGen (Move P) { m with control := c } { m' with control := c }

theorem MovesIn.trans {m₁ m₂ m₃ : Machine α} (h : MovesIn P m₁ m₂) (h' : MovesIn P m₂ m₃) :
    MovesIn P m₁ m₃ := by
  obtain ⟨w, rfl, hm⟩ := h
  obtain ⟨w', rfl, hm'⟩ := h'
  exact ⟨w', rfl, fun c => (hm c).trans (hm' c)⟩

theorem release_moves (id : WatcherId) (m : Machine α) : MovesIn P m (m.release id) := by
  have hdrop : ∀ {id p l d} {m : Machine α}, m.world.origin? id = some (.child p l d) →
      m.world.isDropped id = false → MovesIn P m (m.dropChild id) := by
    intro id p l d m ho hdropped
    obtain ⟨w, heq, hdetaches⟩ := detach_detaches
      (m.inWorld (·.modify id fun b => { b with dropped := true })) id .droppedUnclosed
    rw [dropChild, heq]
    exact ⟨w, rfl, fun _ => .single (.drop ho hdropped hdetaches)⟩
  refine release_induction (R := fun _ m m' => MovesIn P m m') ?_ ?_ ?_ id m
  · exact fun {_ m} _ => ⟨m.world, rfl, fun _ => .refl⟩
  · exact fun ho hd _ _ => hdrop ho hd
  · exact fun ho hd _ _ hparent => (hdrop ho hd).trans hparent

theorem MovesIn.moves {m m' : Machine α} (h : MovesIn P m m') : ReflTransGen (Move P) m m' := by
  obtain ⟨w, rfl, hm⟩ := h
  exact hm m.control

end Machine

end WatchTree
