import WatchTree.Proofs.OnTop

/-!
# Who is served by a delivery

An accepted state is owed to the wakers of the first value and to the listeners registered at that
moment. What a step takes off the debts of a delivery it pays: `Machine.Serves`. The exception is a
panic that takes off a delivery with debts left, `Machine.Starves`: no call site inside a delivery
catches it, and whoever is still waiting is passed over. Panics of listeners and transformations are
caught before they get there, so only those of executors and wakers do it.
-/

namespace WatchTree

variable {α : Type}

/-! ## Debts -/

/-- The tasks that a delivery has yet to hand over. -/
def Frame.owed : Frame α → List (Task α)
  | announcing id n s ls | fanOut id n s ls => ls.map fun l => ⟨id, l, n, s⟩
  | _ => []

/-- An accepted state that waits for the wakers. -/
def Frame.isAnnouncing : Frame α → Bool
  | announcing .. => true
  | _ => false

namespace Machine

/-- The event has happened between the two machines. -/
def Witnesses (m m' : Machine α) (e : Event α) : Prop :=
  ∃ es, m'.world.events = m.world.events ++ es ∧ e ∈ es

/-- Whoever waits for a delivery in the first machine, and is still registered, waits for it in the
second, too, or has been served in between. -/
structure Serves (m m' : Machine α) : Prop where
  listeners : ∀ f stk t, f :: stk <:+ m.stack → t ∈ f.owed →
    m.world.isRegistered t.watcher t.listener = true →
    (∃ f', f' :: stk <:+ m'.stack ∧ t ∈ f'.owed) ∨ m.Witnesses m' (.handedOver t)
  wakers : ∀ names f stk, .waking names :: f :: stk <:+ m.stack → f.isAnnouncing = true →
    ∀ name ∈ names, (∃ names', .waking names' :: f :: stk <:+ m'.stack ∧ name ∈ names') ∨
      m.Witnesses m' (.woken name)

/-- A panic is about to take off a delivery for which someone is still waiting. -/
inductive Starves : Machine α → Prop
  | listener {w : World α} {f : Frame α} {stk : List (Frame α)} {payload : Payload} {t : Task α} :
      t ∈ f.owed → w.isRegistered t.watcher t.listener = true →
      Starves ⟨w, f :: stk, .unwind payload⟩
  | waker {w : World α} {f : Frame α} {stk : List (Frame α)} {payload : Payload} {name : Name}
      {names : List Name} :
      f.isAnnouncing = true → Starves ⟨w, .waking (name :: names) :: f :: stk, .unwind payload⟩

/-! ## What a step pays -/

section Steps

variable {m m' : Machine α}

theorem Changes.witnesses {E : Effect → Prop} {m₁ : Machine α} {e : Event α}
    (h : m₁.Changes E m')
    (hfirst : m₁.world.events = m.world.events ++ [e]) : m.Witnesses m' e := by
  obtain ⟨es, hes, -⟩ := h.events
  exact ⟨e :: es, by rw [hes, hfirst, List.append_assoc, List.singleton_append],
    List.mem_cons_self ..⟩

theorem handOver_witnesses (m : Machine α) {t : Task α} {r : Registration α}
    (hr : m.world.registration? t.watcher t.listener = some r) (ha : r.active = true) :
    m.Witnesses (m.handOver t) (.handedOver t) := by
  rw [handOver_eq m hr ha]
  simp only
  have hfirst := World.events_handOver m.world m.onPoller t
  split
  · exact (Changes.run_ofTask _ t false).witnesses hfirst
  · exact (Changes.run_ofTask _ t true).witnesses hfirst
  · exact (Changes.beside (E := fun _ => True) _ rfl rfl rfl rfl).witnesses hfirst
  · exact (Changes.refl (E := fun _ => True) _).witnesses hfirst

theorem wake_witnesses (m : Machine α) (name : Name) : m.Witnesses (m.wake name) (.woken name) := by
  have hfirst := World.events_note m.world m.onPoller (.woken name)
  unfold wake
  simp only
  split
  · exact (Changes.proceed (E := fun _ => True) _).witnesses hfirst
  · exact ((Changes.beside (E := fun _ => True) _ rfl rfl rfl rfl).trans
      (.push _ fun _ _ => trivial)).witnesses hfirst

theorem not_cons_suffix (f : Frame α) (stk : List (Frame α)) : ¬ f :: stk <:+ stk := fun h =>
  absurd h.length_le (by simp)

variable [BEq α]

/-- A delivery that goes on hands the next task over, and keeps the others. -/
theorem step_owed (hw : m.world.SoundRegistries) (hcalm : m.control.Calm) {f : Frame α}
    {stk : List (Frame α)} (hstk : m.stack = f :: stk) {t : Task α} (ht : t ∈ f.owed)
    (hreg : m.world.isRegistered t.watcher t.listener = true) :
    (∃ f', f' :: stk <:+ m.step.stack ∧ t ∈ f'.owed) ∨ m.Witnesses m.step (.handedOver t) := by
  obtain ⟨w, stk', c⟩ := m
  obtain rfl : stk' = f :: stk := hstk
  have hstep : ∀ {id n s ls}, f = .announcing id n s ls ∨ f = .fanOut id n s ls →
      step ⟨w, f :: stk, c⟩ = resume ⟨w, stk, c⟩ f := by
    rintro id n s ls (rfl | rfl) <;> cases c with
    | unwind payload => exact absurd rfl (hcalm payload)
    | _ => rfl
  cases f with
  | announcing id n s ls =>
    rw [hstep (.inl rfl)]
    exact .inl ⟨.fanOut id n s ls, List.suffix_rfl, ht⟩
  | fanOut id n s ls =>
    rw [hstep (.inr rfl)]
    cases ls with
    | nil => exact absurd ht List.not_mem_nil
    | cons l ls =>
      rcases List.mem_cons.mp ht with rfl | ht
      · obtain ⟨r, hr, ha⟩ := (World.isRegistered_iff hw _ _).mp hreg
        exact .inr (handOver_witnesses (push ⟨w, stk, c⟩ (.fanOut id n s ls)) hr ha)
      · exact .inl ⟨.fanOut id n s ls,
          (Changes.handOver_ofTask (push ⟨w, stk, c⟩ (.fanOut id n s ls)) _).stack, ht⟩
  | _ => exact absurd ht List.not_mem_nil

/-- The waking goes on with the next waker, and keeps the others. -/
theorem step_waking (hcalm : m.control.Calm) {names : List Name} {stk : List (Frame α)}
    (hstk : m.stack = .waking names :: stk) {name : Name} (hname : name ∈ names) :
    (∃ names', .waking names' :: stk <:+ m.step.stack ∧ name ∈ names') ∨
      m.Witnesses m.step (.woken name) := by
  obtain ⟨w, stk', c⟩ := m
  obtain rfl : stk' = .waking names :: stk := hstk
  have hstep : step ⟨w, .waking names :: stk, c⟩ = resume ⟨w, stk, c⟩ (.waking names) := by
    cases c with
    | unwind payload => exact absurd rfl (hcalm payload)
    | _ => rfl
  rw [hstep]
  cases names with
  | nil => exact absurd hname List.not_mem_nil
  | cons waker rest =>
    rcases List.mem_cons.mp hname with rfl | hname
    · exact .inr (wake_witnesses (push ⟨w, stk, c⟩ (.waking rest)) name)
    · exact .inl ⟨rest, (Changes.wake (E := fun _ => True) (push ⟨w, stk, c⟩ (.waking rest)) waker
        trivial).stack, hname⟩

/-- A step serves all, unless a panic takes off a delivery with debts left. -/
theorem Next.serves (h : m.Next m') (hw : m.world.SoundRegistries) (hstarves : ¬ m.Starves) :
    m.Serves m' := by
  cases h with
  | start op hs =>
    have hnil : ∀ {f : Frame α} {stk}, ¬ f :: stk <:+ m.stack := fun hsuffix =>
      absurd (List.suffix_nil.mp (hs ▸ hsuffix)) (List.cons_ne_nil _ _)
    exact ⟨fun _ _ _ hsuffix => absurd hsuffix hnil, fun _ _ _ hsuffix => absurd hsuffix hnil⟩
  | step hs =>
    obtain ⟨top, below, htop⟩ := List.exists_cons_of_ne_nil hs
    -- what stands below the innermost frame is left alone
    have hbelow : ∀ {g stk}, g :: stk <:+ m.stack → g = top ∧ stk = below ∨
        g :: stk <:+ m.step.stack := by
      intro g stk hsuffix
      rw [htop, List.suffix_cons_iff, List.cons.injEq] at hsuffix
      exact hsuffix.imp_right fun hsuffix => suffix_step (by rw [htop]; exact hsuffix)
    constructor
    · intro f stk t hsuffix ht hreg
      rcases hbelow hsuffix with ⟨rfl, rfl⟩ | hkept
      · refine step_owed hw (fun payload hc => hstarves ?_) htop ht hreg
        obtain ⟨w, stk', c⟩ := m
        obtain rfl : stk' = f :: stk := htop
        obtain rfl : c = .unwind payload := hc
        exact .listener ht hreg
      · exact .inl ⟨f, hkept, ht⟩
    · intro names f stk hsuffix hf name hname
      rcases hbelow hsuffix with ⟨rfl, rfl⟩ | hkept
      · refine step_waking (fun payload hc => hstarves ?_) htop hname
        obtain ⟨w, stk', c⟩ := m
        obtain rfl : stk' = .waking names :: f :: stk := htop
        obtain rfl : c = .unwind payload := hc
        obtain ⟨first, rest, rfl⟩ := List.exists_cons_of_ne_nil (List.ne_nil_of_mem hname)
        exact .waker hf
      · exact .inl ⟨names, hkept, hname⟩

omit [BEq α] in
theorem not_witnesses_of_world_eq (h : m'.world = m.world) (e : Event α) : ¬ m.Witnesses m' e := by
  rintro ⟨es, hes, he⟩
  rw [h, List.self_eq_append_right] at hes
  rw [hes] at he
  exact absurd he List.not_mem_nil

/-- The panic passes over those who are waiting. -/
theorem Starves.not_serves (h : m.Starves) : ¬ m.Serves m.step := by
  intro hserves
  cases h with
  | @listener w f stk payload t ht hreg =>
    have hstep : step ⟨w, f :: stk, .unwind payload⟩ = ⟨w, stk, .unwind payload⟩ := by
      cases f with
      | announcing | fanOut => rfl
      | _ => exact absurd ht List.not_mem_nil
    rcases hserves.listeners f stk t List.suffix_rfl ht hreg with ⟨f', hsuffix, -⟩ | hwitness
    · rw [hstep] at hsuffix
      exact not_cons_suffix f' stk hsuffix
    · exact not_witnesses_of_world_eq (by rw [hstep]) _ hwitness
  | @waker w f stk payload name names hf =>
    rcases hserves.wakers (name :: names) f stk List.suffix_rfl hf name (List.mem_cons_self ..) with
      ⟨names', hsuffix, -⟩ | hwitness
    · exact not_cons_suffix (.waking names') (f :: stk) hsuffix
    · exact not_witnesses_of_world_eq rfl _ hwitness

omit [BEq α] in
theorem Starves.stack_ne_nil (h : m.Starves) : m.stack ≠ [] := by
  cases h <;> exact List.cons_ne_nil _ _

/-- Only executors and wakers can panic there. -/
theorem Starves.not_calm (h : m.Starves) : ¬ m.Reached fun x => x.calm = true := by
  intro hreach
  have hguarded := hreach.fresh.2.guarded
  cases h with
  | @listener w f stk payload t ht hreg =>
    have hclear := hguarded payload rfl f rfl
    cases f with
    | announcing | fanOut => exact nomatch hclear
    | _ => exact absurd ht List.not_mem_nil
  | waker hf => exact nomatch hguarded _ rfl _ rfl

/-! ## What a run pays -/

omit [BEq α] in
theorem Witnesses.extend {m'' : Machine α} {e : Event α} (h : m.Witnesses m' e)
    (hx : m'.world.Extends m''.world) : m.Witnesses m'' e := by
  obtain ⟨es, hes, he⟩ := h
  obtain ⟨fs, hfs⟩ := hx.events
  exact ⟨es ++ fs, by rw [← hfs, hes, List.append_assoc], List.mem_append_left _ he⟩

omit [BEq α] in
theorem Witnesses.since {m'' : Machine α} {e : Event α} (hx : m.world.Extends m'.world)
    (h : m'.Witnesses m'' e) : m.Witnesses m'' e := by
  obtain ⟨es, hes, he⟩ := h
  obtain ⟨fs, hfs⟩ := hx.events
  exact ⟨fs ++ es, by rw [hes, ← hfs, List.append_assoc], List.mem_append_right _ he⟩

/-- Whoever waits for a delivery in the first machine waits for it in the second, too, or has been
served, or is a listener that was taken out while it waited. -/
structure Settles (m m' : Machine α) : Prop where
  listeners : ∀ f stk t, f :: stk <:+ m.stack → t ∈ f.owed →
    (∃ f', f' :: stk <:+ m'.stack ∧ t ∈ f'.owed) ∨ m.Witnesses m' (.handedOver t) ∨
      ∃ x f', m.Later (fun _ => True) x ∧ x.Later (fun _ => True) m' ∧ f' :: stk <:+ x.stack ∧
        t ∈ f'.owed ∧ x.world.isRegistered t.watcher t.listener = false
  wakers : ∀ names f stk, .waking names :: f :: stk <:+ m.stack → f.isAnnouncing = true →
    ∀ name ∈ names, (∃ names', .waking names' :: f :: stk <:+ m'.stack ∧ name ∈ names') ∨
      m.Witnesses m' (.woken name)

theorem Settles.next {m'' : Machine α} (h : m.Settles m') (hl : m.Later (fun _ => True) m')
    (hm : m.WellFormed) (hm' : m'.WellFormed) (hn : m'.Next m'') (hstarves : ¬ m'.Starves) :
    m.Settles m'' := by
  have hx := hl.extends_world hm
  have hx' := hn.extends_world hm'
  have hserves := hn.serves hm'.ledger.sound hstarves
  constructor
  · intro f stk t hsuffix ht
    rcases h.listeners f stk t hsuffix ht with
      ⟨f', hwaits, ht'⟩ | hserved | ⟨x, f', hlx, hxm, hwaits, ht', hgone⟩
    · cases hreg : m'.world.isRegistered t.watcher t.listener with
      | false => exact .inr (.inr ⟨m', f', hl, .next .refl trivial hn, hwaits, ht', hreg⟩)
      | true =>
        exact (hserves.listeners f' stk t hwaits ht' hreg).imp_right
          fun hserved => .inl (hserved.since hx)
    · exact .inr (.inl (hserved.extend hx'))
    · exact .inr (.inr ⟨x, f', hlx, hxm.next trivial hn, hwaits, ht', hgone⟩)
  · intro names f stk hsuffix hf name hname
    rcases h.wakers names f stk hsuffix hf name hname with ⟨names', hwaits, hname'⟩ | hserved
    · exact (hserves.wakers names' f stk hwaits hf name hname').imp_right (·.since hx)
    · exact .inr (hserved.extend hx')

/-- As long as nobody is passed over, all debts are settled in the end. -/
theorem Later.settles (h : m.Later (fun x => ¬ x.Starves) m') (hm : m.WellFormed) :
    m.Settles m' := by
  induction h with
  | refl =>
    exact ⟨fun f stk t hsuffix ht => .inl ⟨f, hsuffix, ht⟩,
      fun names f stk hsuffix hf name hname => .inl ⟨names, hsuffix, hname⟩⟩
  | next hfirst hP hn ih =>
    have hl := hfirst.mono fun _ _ => trivial
    exact ih.next hl hm (hl.wellFormed hm) hn hP

/-- In a run that passes nobody over no machine starves anyone. -/
theorem not_starves_of_serves {ms : List (Machine α)} (h : Run ms)
    (hserves : ms.IsChain fun b a => a.Serves b) : ∀ x ∈ ms.tail, ¬ x.Starves := by
  induction h with
  | initial => exact fun x hx => absurd hx List.not_mem_nil
  | @next a b ms hrun hn ih =>
    rw [List.isChain_cons_cons] at hserves
    intro x hx hstarves
    rcases List.mem_cons.mp hx with rfl | hx
    · cases hn with
      | start op hs => exact hstarves.stack_ne_nil hs
      | step hs => exact hstarves.not_serves hserves.1
    · exact ih hserves.2 x hx hstarves

/-- A run in which no machine starves anyone passes nobody over. -/
theorem serves_of_not_starves {ms : List (Machine α)} (h : Run ms)
    (hno : ∀ x ∈ ms.tail, ¬ x.Starves) : ms.IsChain fun b a => a.Serves b := by
  induction h with
  | initial => exact .singleton _
  | @next a b ms hrun hn ih =>
    have hno' : ∀ x ∈ ms, ¬ x.Starves := fun x hx => hno x (List.mem_cons_of_mem a hx)
    have hreach : a.Reached fun x => ¬ x.Starves := hrun.reached hno' a rfl
    exact List.isChain_cons_cons.mpr
      ⟨hn.serves hreach.wellFormed.ledger.sound (hno a (List.mem_cons_self ..)), ih hno'⟩

/-- An accepted state is owed to the wakers in the slot and to the listeners in the registry. In a
run everyone is served, one debt after the other, if and only if no panic takes off a delivery for
which someone waits; and as long as neither an executor nor a waker panics, none does, whichever
listeners and transformations do. -/
theorem deliveries_serve_all_iff {ms : List (Machine α)} (h : Run (m :: ms)) :
    (∀ x y : Machine α, x.Next y → ∀ id, y.world.accepted id = x.world.accepted id ∨
      ∃ b s f stk, x.world.watcher? id = some b ∧
        y.world.accepted id = x.world.accepted id ++ [s] ∧
        y.stack = .waking b.slot.wakers :: f :: stk ∧ f.isAnnouncing = true ∧
        f.owed = b.registry.entries.map fun l => ⟨id, l, b.updates + 1, s⟩) ∧
    ((m :: ms).IsChain (fun b a => a.Serves b) ↔ ∀ x ∈ ms, ¬ x.Starves) ∧
    (∀ x ∈ ms, ∀ y, x.Later (fun z => ¬ z.Starves) y → x.Settles y) ∧
    ((∀ x ∈ ms, x.calm = true) → ∀ x ∈ ms, ¬ x.Starves) := by
  refine ⟨fun x y hn id => ?_, ⟨not_starves_of_serves h, serves_of_not_starves h⟩, ?_, ?_⟩
  · refine (hn.accepted id).imp_right ?_
    rintro ⟨b, s, stk, hb, hacc, hstk⟩
    exact ⟨b, s, _, stk, hb, hacc, hstk, rfl, rfl⟩
  · intro x hx y hl
    have hreach := h.reached_of_mem (P := fun _ => True) (fun _ _ => trivial) x
      (List.mem_cons_of_mem m hx)
    exact hl.settles hreach.wellFormed
  · intro hcalm x hx hstarves
    exact hstarves.not_calm (h.reached_of_mem hcalm x (List.mem_cons_of_mem m hx))

end Steps

/-! ### An executor and a waker that panic -/

/-- A computable form of `Starves`. -/
def starving (m : Machine α) : Bool :=
  match m.control, m.stack with
  | .unwind _, .waking (_ :: _) :: f :: _ => f.isAnnouncing
  | .unwind _, f :: _ => f.owed.any fun t => m.world.isRegistered t.watcher t.listener
  | _, _ => false

theorem starves_iff_starving {m : Machine α} : m.Starves ↔ m.starving = true := by
  constructor
  · intro h
    cases h with
    | @listener w f stk payload t ht hreg =>
      cases f with
      | announcing | fanOut => exact List.any_eq_true.mpr ⟨t, ht, hreg⟩
      | _ => exact absurd ht List.not_mem_nil
    | waker hf => exact hf
  · obtain ⟨w, stk, c⟩ := m
    intro h
    unfold starving at h
    split at h
    · rename_i hcontrol hstack
      cases hcontrol
      cases hstack
      exact .waker h
    · rename_i hcontrol hstack
      cases hcontrol
      cases hstack
      obtain ⟨t, ht, hreg⟩ := List.any_eq_true.mp h
      exact .listener ht hreg
    · exact nomatch h

def panickyExecutor : Machine Nat :=
  ({ world := {} } : Machine Nat).carry 8
    [.root "r" "r" false, .watch "r" "a" false .discard (fun _ => [.panic .other]) fun _ => [],
      .watch "r" "b" false .inline (fun _ => []) fun _ => []]

def passedOver (n : Nat) : Machine Nat :=
  (panickyExecutor.world.start (.push "r" ⟨1⟩ ⟨10, 10⟩)).steps n

/-- Two wakers of a root's first value; the first one panics. -/
def panickyWaker : Machine Nat :=
  ({ world := {} } : Machine Nat).carry 8
    [.root "r" "r" false, .future "f" (.watcher "r"), .futurePoll "f" "k" fun _ => [.panic .other],
      .futurePoll "f" "l" fun _ => []]

def unwoken (n : Nat) : Machine Nat :=
  (panickyWaker.world.start (.push "r" ⟨1⟩ ⟨10, 10⟩)).steps n

theorem reached_passedOver : (passedOver 5).Reached fun m => (!m.starving) = true := by
  have hpanicky : panickyExecutor.Reached fun m => (!m.starving) = true :=
    Reached.carry .initial (by decide +kernel)
  exact hpanicky.begin (by decide +kernel) (by decide +kernel) (by decide +kernel)

theorem reached_unwoken (n : Nat) : (unwoken n).Reached fun _ => True :=
  (Reached.initial.carry_any (by decide +kernel)).begin_any (by decide +kernel)

theorem starves_passedOver : (passedOver 5).Starves :=
  starves_iff_starving.mpr (by decide +kernel)

theorem deliveries_serve_all_iff_passedOver : ∃ ms, Run (passedOver 5 :: ms) ∧
    (passedOver 5 :: ms).IsChain (fun b a => a.Serves b) ∧
    ¬ ((passedOver 5).step :: passedOver 5 :: ms).IsChain (fun b a => a.Serves b) := by
  obtain ⟨ms, hrun, hms⟩ := reached_passedOver.run
  have hno : ∀ x ∈ ms, ¬ x.Starves := by
    intro x hx hstarves
    have htest := hms x hx
    rw [starves_iff_starving.mp hstarves] at htest
    exact nomatch htest
  have hnext : (passedOver 5).Next (passedOver 5).step := Next.of_stack (by decide +kernel)
  obtain ⟨-, hbefore, -, -⟩ := deliveries_serve_all_iff hrun
  obtain ⟨-, hafter, -, -⟩ := deliveries_serve_all_iff (hrun.next hnext)
  exact ⟨ms, hrun, hbefore.mpr hno,
    fun hchain => hafter.mp hchain _ (List.mem_cons_self ..) starves_passedOver⟩

theorem panic_passes_over :
    ((passedOver 5).Reached (fun _ => True) ∧ (passedOver 5).Next (passedOver 5).step ∧
      ¬ (passedOver 5).Serves (passedOver 5).step) ∧
    ((passedOver 7).stack = [] ∧ (passedOver 7).world.accepted 0 = [⟨⟨1⟩, 10⟩] ∧
      (passedOver 7).world.isRegistered 0 ⟨2⟩ = true ∧
      Event.handoversTo 0 ⟨2⟩ (passedOver 7).world.events = []) ∧
    (unwoken 3).Reached (fun _ => True) ∧ (unwoken 3).Next (unwoken 3).step ∧
      ¬ (unwoken 3).Serves (unwoken 3).step := by
  have hwaker : (unwoken 3).Starves := starves_iff_starving.mpr (by decide +kernel)
  exact ⟨⟨reached_passedOver.mono fun _ _ => trivial, Next.of_stack (by decide +kernel),
      starves_passedOver.not_serves⟩,
    ⟨List.isEmpty_iff.mp (by decide +kernel), by with_unfolding_all rfl, by decide +kernel,
      List.isEmpty_iff.mp (by decide +kernel)⟩,
    reached_unwoken 3, Next.of_stack (by decide +kernel), hwaker.not_serves⟩

end Machine

end WatchTree
