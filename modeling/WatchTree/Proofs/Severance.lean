import WatchTree.Proofs.FirstValue
import WatchTree.Proofs.OnTop

/-!
# What hangs below a closed watcher

Closing a watcher leaves those below it open, and cuts them off. A child accepts a state only where
an application of its transformation ends, and an application begins only where a delivery of the
parent reaches the child's subscription. So a child at rest stays so as long as its parent is at
rest, too, or closed: `Move.at_rest`, `Runs.at_rest`. In a machine without work all are at rest.
-/

namespace WatchTree

variable {α : Type}

/-! ## Watchers at rest -/

namespace Frame

/-- The watcher that a frame derives a value for, or whose update it delivers. -/
def subject? : Frame α → Option WatcherId
  | applying id _ | announcing id _ _ _ | fanOut id _ _ _ => some id
  | _ => none

/-- Nothing is being derived for the watcher, and no update of it is being delivered. -/
def AtRest (x : WatcherId) (stk : List (Frame α)) : Prop := ∀ f ∈ stk, f.subject? ≠ some x

theorem subject?_of_isPlain {f : Frame α} (h : f.isPlain = true) : f.subject? = none := by
  cases f <;> first | rfl | exact nomatch h

theorem AtRest.nil (x : WatcherId) : AtRest x ([] : List (Frame α)) :=
  fun _ h => absurd h List.not_mem_nil

variable {x : WatcherId} {f : Frame α} {stk : List (Frame α)}

theorem AtRest.cons (h : AtRest x stk) (hf : f.subject? ≠ some x) : AtRest x (f :: stk) := by
  intro g hg
  rcases List.mem_cons.mp hg with rfl | hg
  · exact hf
  · exact h g hg

theorem AtRest.idle (h : AtRest x stk) (hf : f.subject? = none) : AtRest x (f :: stk) :=
  h.cons (by rw [hf]; exact nofun)

theorem AtRest.head (h : AtRest x (f :: stk)) : f.subject? ≠ some x := h f (List.mem_cons_self ..)

theorem AtRest.tail (h : AtRest x (f :: stk)) : AtRest x stk :=
  fun g hg => h g (List.mem_cons_of_mem f hg)

end Frame

open WatchTree.Frame

namespace World

/-- No work is under way for a watcher that does not exist. -/
theorem Stacked.at_rest {w : World α} (hw : w.Ledger) {x : WatcherId} (hx : w.watcher? x = none)
    {stk : List (Frame α)} (h : w.Stacked stk) : AtRest x stk := by
  have hgenuine : ∀ n s, ¬ w.Genuine x n s := by
    rintro n s ⟨k, -, hk⟩
    rw [hw.accepted_of_watcher?_none hx] at hk
    exact nomatch hk
  induction stk with
  | nil => exact .nil x
  | cons f stk ih =>
    refine (ih h.2).cons fun hf => ?_
    cases f with
    | applying c s =>
      obtain rfl := Option.some.inj hf
      obtain ⟨t, rest, -, -, d, ho⟩ := h.1
      obtain ⟨b, hb, -⟩ := exists_watcher?_of_origin? ho
      rw [hx] at hb
      exact nomatch hb
    | announcing id n s ls | fanOut id n s ls =>
      obtain rfl := Option.some.inj hf
      exact hgenuine n s h.1.1
    | _ => exact nomatch hf

theorem Dispatches.at_rest {w w' : World α} {stk stk' : List (Frame α)} {t : Task α} {x : WatcherId}
    (h : w.Dispatches stk t w' stk') (hx : AtRest x stk) : AtRest x stk' := by
  cases h with
  | spread =>
    refine AtRest.idle ?_ rfl
    exact hx.tail.cons (f := .fanOut _ _ _ _) hx.head
  | replay => exact hx.idle rfl

theorem Takes.at_rest {w w' : World α} {stk stk' : List (Frame α)} {t : Task α} {x : WatcherId}
    (h : w.Takes stk t w' stk') (hx : AtRest x stk) : AtRest x stk' := by
  cases h with
  | dispatched hd => exact hd.at_rest hx
  | drained | picked => exact hx.tail.idle rfl

/-- Where no update of the watcher is being delivered, only queued tasks and replays for new
registrations are taken for its listeners. -/
theorem Takes.not_for {w w' : World α} {stk stk' : List (Frame α)} {t : Task α}
    {x : WatcherId} {l : ListenerId} (h : w.Takes stk t w' stk') (hx : AtRest x stk)
    (hl : l.number ≤ w.lastId x)
    (himm : ∀ r, w.registration? x l = some r → r.executor.disposal.isImmediate = true) :
    ¬ t.isFor x l := by
  rintro ⟨rfl, rfl⟩
  have hqueued : ¬ w.Queued t := by
    rintro ⟨-, r, q, hr, hdisposal⟩
    have hdirect := himm r hr
    rw [hdisposal] at hdirect
    exact nomatch hdirect
  cases h with
  | dispatched hd =>
    cases hd with
    | spread p todo hr ha => exact hx.head rfl
    | replay p todo hb hcl hlatest hj hs => exact World.Ledger.ne_nextId hb hl ⟨rfl, rfl⟩
  | drained hq | picked hq => exact hqueued hq

end World

/-! ## Moves and runs -/

section Moves

variable [BEq α] {P : Machine α → Prop} {m m' : Machine α} {x : WatcherId}

/-- A move leaves a watcher at rest that is no root. -/
theorem Move.at_rest (h : Move P m m') (hroot : ¬ m.world.IsRoot x) (hx : AtRest x m.stack) :
    AtRest x m'.stack := by
  cases h with
  | unwind | leave | finish => exact hx.tail
  | enter hc hp hs => exact hx.idle (subject?_of_isPlain hp)
  | close => exact (hx.idle rfl).idle rfl
  | wake => exact hx.tail.idle rfl
  | @accept w stk c p q name id b s hc hb ho =>
    refine (hx.cons fun heq => hroot ?_).idle rfl
    obtain rfl : id = x := Option.some.inj heq
    exact (World.origin?_of_watcher? hb).trans (congrArg some ho)
  | fail | suppress => exact hx.tail
  | derive =>
    refine AtRest.idle ?_ rfl
    exact hx.tail.cons (f := .announcing _ _ _ _) hx.head
  | announce | skip => exact hx.tail.cons (f := .fanOut _ _ _ _) hx.head
  | defer hc hd => exact hd.at_rest hx
  | _ => exact hx

/-- A watcher at rest that is no root accepts nothing in a move. -/
theorem Move.accepted_of_at_rest (h : Move P m m') (hroot : ¬ m.world.IsRoot x)
    (hx : AtRest x m.stack) : m'.world.accepted x = m.world.accepted x := by
  rcases h.accepted_or with hsame | ⟨p, q, name, id, b, s, hb, ho, -, -, heq⟩ |
    ⟨-, o, p, q, name, id, parent, b, s, l, d, y, stk, -, hstk, -, -, -, -, -, heq⟩
  · exact hsame x
  · have hne : id ≠ x := by
      rintro rfl
      exact hroot ((World.origin?_of_watcher? hb).trans (congrArg some ho))
    rw [heq, World.accepted_adopt, if_neg hne, List.append_nil]
  · have hne : id ≠ x := by
      rintro rfl
      rw [hstk] at hx
      exact hx.head rfl
    have hnoted : (m.world.note o (.applied id s.revision (.value y))).accepted x =
        m.world.accepted x := by
      unfold World.accepted
      rw [World.events_note, Event.accepted_append]
      exact List.append_nil _
    rw [heq, World.accepted_adopt, if_neg hne, List.append_nil, hnoted]

/-- A watcher stays at rest when a task is run, if its parent is closed or at rest, too. -/
theorem Runs.at_rest {t : Task α} (hm : m.WellFormed) (h : Runs m t m') (hs : m.world.Shut)
    {p : WatcherId} {l : ListenerId} {d : Derivation α}
    (ho : m'.world.origin? x = some (.child p l d)) (hx : AtRest x m.stack)
    (hp : m.world.isClosed p = true ∨
      AtRest p m.stack ∧ m.world.origin? x = some (.child p l d)) : AtRest x m'.stack := by
  cases h with
  | @mk w w' w'' stk stk' frames c t hc ht hr =>
    have hrest := ht.at_rest hx
    cases hr with
    | inactive | stale => exact hrest
    | @called r q q' elsewhere audience frames hreg hact hlt hcalls =>
      cases hcalls with
      | observer => exact (hrest.idle rfl).idle rfl
      | @child child d' hlis horigin =>
        have hne : child ≠ x := by
          rintro rfl
          rw [World.origin?_note, World.origin?_tell, World.origin?_note] at ho
          obtain ⟨rfl, rfl, -⟩ := Origin.child.inj (Option.some.inj (ho.symm.trans horigin))
          rcases hp with hcl | ⟨hparent, hbefore⟩
          · obtain ⟨hchanges, -⟩ := ht.rearranges hm.ledger hm.stacked
            have hinactive := (hs.rearranges hm.ledger hchanges) _ _ r
              ((hm.ledger.rearranges hchanges).2.closed hcl) hreg
            rw [hact] at hinactive
            exact nomatch hinactive
          · refine ht.not_for hparent (hm.ledger.parent hbefore).2 (fun r hr => ?_)
              t.isFor_self
            rw [(hm.ledger.subscription hbefore hr).2]
            rfl
        exact ((hrest.idle rfl).cons
          (f := .applying child t.state) (by simpa [subject?] using hne)).idle rfl

omit [BEq α] in
/-- No task is run for a listener of a watcher at rest, unless it was queued. -/
theorem Runs.not_for {t : Task α} (h : Runs m t m') (hx : AtRest x m.stack) {l : ListenerId}
    (hl : l.number ≤ m.world.lastId x)
    (himm : ∀ r, m.world.registration? x l = some r → r.executor.disposal.isImmediate = true) :
    ¬ t.isFor x l := by
  cases h with
  | mk hc ht hr => exact ht.not_for hx hl himm

/-- A task leads to no call of a registration that it is not for. -/
theorem Runs.callsTo_of_not_for {t : Task α} (hm : m.WellFormed) (h : Runs m t m')
    {id : WatcherId} {l : ListenerId} (ht : ¬ t.isFor id l) :
    m'.world.callsTo id l = m.world.callsTo id l := by
  obtain ⟨w₁, w₂, hfirst, htries, halike⟩ := h.changes hm
  obtain ⟨r, called, htried⟩ := htries.tried
  have hlast : m'.world.callsTo id l = w₂.callsTo id l :=
    World.Untried.callsTo ⟨halike.executions, halike.invocations⟩ id l
  rw [hlast, htried.callsTo_eq, if_neg fun hcall => ht hcall.2, List.append_nil,
    hfirst.untried.callsTo]

end Moves

/-! ## Below a closed watcher -/

namespace World

/-- The watcher hangs below another. -/
inductive Below (w : World α) (top : WatcherId) : WatcherId → Prop
  | child {c : WatcherId} {l : ListenerId} {d : Derivation α} :
      w.origin? c = some (.child top l d) → Below w top c
  | step {p c : WatcherId} {l : ListenerId} {d : Derivation α} :
      Below w top p → w.origin? c = some (.child p l d) → Below w top c

/-- It hangs on a watcher that is the upper one or hangs below that. -/
theorem Below.parent {w : World α} {top x : WatcherId} (h : w.Below top x) :
    ∃ p l d, w.origin? x = some (.child p l d) ∧ (p = top ∨ w.Below top p) := by
  cases h with
  | child ho => exact ⟨_, _, _, ho, .inl rfl⟩
  | step hp ho => exact ⟨_, _, _, ho, .inr hp⟩

/-- The id of a registration was issued. -/
theorem SoundRegistries.number_le {w : World α} (hw : w.SoundRegistries) {x : WatcherId}
    {l : ListenerId} {r : Registration α} (hr : w.registration? x l = some r) :
    l.number ≤ w.lastId x := by
  obtain ⟨b, hb, hfind⟩ := Option.bind_eq_some_iff.mp hr
  rw [lastId_of_watcher? hb, ← Registry.id_of_find? hfind]
  exact (hw x b hb).issued r (Registry.mem_records_of_find? hfind)

end World

namespace Machine

/-- Since the first machine, nothing has happened to what then hung below a watcher that is closed,
and nothing is under way there. -/
structure Severed (m : Machine α) (top : WatcherId) (m' : Machine α) : Prop where
  later : m.world.Extends m'.world
  closed : m'.world.isClosed top = true
  shut : m'.world.Shut
  at_rest : ∀ x, m.world.Below top x → AtRest x m'.stack
  accepted : ∀ x, m.world.Below top x → m'.world.accepted x = m.world.accepted x
  /-- Listeners that are called at once have not been called. -/
  calls : ∀ x, m.world.Below top x → ∀ l r, m.world.registration? x l = some r →
    r.executor.disposal.isImmediate = true → m'.world.callsTo x l = m.world.callsTo x l

namespace Severed

/-- A machine without work. -/
theorem of_idle {m : Machine α} {top : WatcherId} (hidle : m.stack = [])
    (hcl : m.world.isClosed top = true) (hs : m.world.Shut) : m.Severed top m where
  later := .refl _
  closed := hcl
  shut := hs
  at_rest x _ := hidle ▸ .nil x
  accepted _ _ := rfl
  calls _ _ _ _ _ _ := rfl

variable {m m₁ m₂ : Machine α} {top x : WatcherId}

theorem not_isRoot (h : m.Severed top m₁) (hx : m.world.Below top x) : ¬ m₁.world.IsRoot x := by
  obtain ⟨p, l, d, ho, -⟩ := hx.parent
  intro hroot
  exact nomatch hroot.symm.trans (h.later.origin ho)

variable [BEq α] {P : Machine α → Prop}

theorem move (h : m.Severed top m₁) (hm : m₁.WellFormed) (hmove : Move P m₁ m₂) :
    m.Severed top m₂ := by
  have hchanges := hmove.rearranges hm
  have hx := (hm.ledger.rearranges hchanges).2
  refine ⟨h.later.trans hx, hx.closed h.closed, h.shut.rearranges hm.ledger hchanges,
    fun x hb => hmove.at_rest (h.not_isRoot hb) (h.at_rest x hb), fun x hb => ?_,
    fun x hb l r hr himm => ?_⟩
  · exact (hmove.accepted_of_at_rest (h.not_isRoot hb) (h.at_rest x hb)).trans (h.accepted x hb)
  · rw [hchanges.untried.callsTo, h.calls x hb l r hr himm]

theorem runs (h : m.Severed top m₁) (hm : m₁.WellFormed) {t : Task α} (hruns : Runs m₁ t m₂) :
    m.Severed top m₂ := by
  have hx := (hruns.ledger hm).2
  refine ⟨h.later.trans hx, hx.closed h.closed, hruns.shut hm h.shut, fun x hb => ?_,
    fun x hb => (hruns.accepted_eq x).trans (h.accepted x hb), fun x hb l r hr himm => ?_⟩
  · obtain ⟨p, l, d, ho, hp⟩ := hb.parent
    refine hruns.at_rest hm h.shut (hx.origin (h.later.origin ho)) (h.at_rest x hb) ?_
    rcases hp with rfl | hp
    · exact .inl h.closed
    · exact .inr ⟨h.at_rest p hp, h.later.origin ho⟩
  · obtain ⟨r₁, hr₁, hsame⟩ := h.later.registration hr
    have hnot : ¬ t.isFor x l := by
      refine hruns.not_for (h.at_rest x hb) (hm.ledger.sound.number_le hr₁) fun r₂ hr₂ => ?_
      obtain rfl := Option.some.inj (hr₁.symm.trans hr₂)
      rw [hsame.executor]
      exact himm
    rw [hruns.callsTo_of_not_for hm hnot, h.calls x hb l r hr himm]

end Severed

section Later

variable [BEq α] {P : Machine α → Prop} {m m' : Machine α} {top : WatcherId}

theorem Later.severed (h : m.Later P m') (hm : m.WellFormed) (hs : m.world.Shut)
    (hidle : m.stack = []) (hcl : m.world.isClosed top = true) : m.Severed top m' :=
  (h.invariant (I := m.Severed top) hm (.of_idle hidle hcl hs)
    (fun hx hI hmove => hI.move hx hmove) fun hx hI hruns => hI.runs hx hruns).2.1

/-- A child that is made on a closed watcher never accepts anything. -/
theorem Later.accepted_eq_nil (h : m.Later P m') (hm : m.WellFormed) (hs : m.world.Shut)
    (hcl : m.world.isClosed top = true) {c : WatcherId} {l : ListenerId} {d : Derivation α}
    (hnew : m.world.watcher? c = none) (ho : m'.world.origin? c = some (.child top l d)) :
    m'.world.accepted c = [] := by
  -- before it is made, too, no work on it is under way and nothing has been accepted
  have hbefore : ∀ x : Machine α, x.WellFormed → (∀ l d, x.world.origin? c = some (.child top l d) →
      AtRest c x.stack ∧ x.world.accepted c = []) →
      (∃ l d, x.world.origin? c = some (.child top l d)) ∨ x.world.watcher? c = none →
      ¬ x.world.IsRoot c ∧ AtRest c x.stack ∧ x.world.accepted c = [] := by
    rintro x hx hI (⟨l, d, ho⟩ | hnone)
    · exact ⟨fun hroot => (nomatch hroot.symm.trans ho), hI l d ho⟩
    · refine ⟨fun hroot => ?_, hx.stacked.at_rest hx.ledger hnone,
        hx.ledger.accepted_of_watcher?_none hnone⟩
      obtain ⟨b, hb, -⟩ := World.exists_watcher?_of_origin? hroot
      rw [hnone] at hb
      exact nomatch hb
  refine ((h.invariant (I := fun x => (x.world.isClosed top = true ∧ x.world.Shut) ∧
    ∀ l d, x.world.origin? c = some (.child top l d) → AtRest c x.stack ∧ x.world.accepted c = [])
    hm ⟨⟨hcl, hs⟩, fun l d ho => ?_⟩ ?_ ?_).2.1.2 l d ho).2
  · obtain ⟨b, hb, -⟩ := World.exists_watcher?_of_origin? ho
    rw [hnew] at hb
    exact nomatch hb
  · rintro x x' hx ⟨⟨hcl, hs⟩, hI⟩ hmove
    have hchanges := hmove.rearranges hx
    refine ⟨⟨(hx.ledger.rearranges hchanges).2.closed hcl, hs.rearranges hx.ledger hchanges⟩,
      fun l d ho => ?_⟩
    obtain ⟨hroot, hrest, hnil⟩ := hbefore x hx hI
      ((hchanges.child_or_new hx.ledger ho).imp (fun h => ⟨l, d, h⟩) id)
    exact ⟨hmove.at_rest hroot hrest, (hmove.accepted_of_at_rest hroot hrest).trans hnil⟩
  · rintro x t x' hx ⟨⟨hcl, hs⟩, hI⟩ hruns
    refine ⟨⟨(hruns.ledger hx).2.closed hcl, hruns.shut hx hs⟩, fun l d ho => ?_⟩
    obtain ⟨hroot, hrest, hnil⟩ := hbefore x hx hI
      ((hruns.child_or_new hx ho).imp (fun h => ⟨l, d, h⟩) id)
    exact ⟨hruns.at_rest hx hs ho hrest (.inl hcl), (hruns.accepted_eq c).trans hnil⟩

end Later

/-! ## Cutting a tree -/

section Cutting

variable [BEq α] {m m' m'' : Machine α} {top : WatcherId}

omit [BEq α] in
/-- The slot of a watcher that accepts nothing is given up when the watcher is closed, and otherwise
stays as it is. -/
theorem slot_of_accepted_eq (hd : m.world.Decided) (hd' : m'.world.Decided)
    (hx : m.world.Extends m'.world) {x : WatcherId}
    (hacc : m'.world.accepted x = m.world.accepted x) :
    (m'.world.slot x).outcome? = (m.world.slot x).outcome? ∨
      (m.world.slot x).isPending = true ∧ m'.world.slot x = .abandoned ∧
        m.world.isClosed x = false ∧ m'.world.isClosed x = true := by
  have h := hd x
  have h' := hd' x
  rw [hacc] at h'
  have hclosed := @hx.closed x
  cases hslot : m.world.slot x with
  | pending ws =>
    rw [hslot] at h
    cases hslot' : m'.world.slot x with
    | pending ws' => exact .inl rfl
    | set s =>
      rw [hslot'] at h'
      exact nomatch h.1.symm.trans h'
    | abandoned =>
      rw [hslot'] at h'
      exact .inr ⟨rfl, rfl, h.2, h'.2⟩
  | set s =>
    rw [hslot] at h
    rw [(h'.set_iff s).mpr h]
    exact .inl rfl
  | abandoned =>
    rw [hslot] at h
    rw [h'.abandoned_iff.mpr ⟨hclosed h.2, h.1⟩]
    exact .inl rfl

/-- A step closes a watcher only where that watcher's own close begins. When a watcher is closed and
no work is under way any more, all that hangs below it keeps its latest state for ever, its slot can
only be given up by a close of its own, and the listeners there that are called at once are not
called again, whatever else is done. A child that is made on a closed watcher never gets a value. -/
theorem closing_cuts_off (h : m.Reached fun _ => True) (hcl : m.world.isClosed top = true)
    (hl : m.Later (fun _ => True) m') (hn : m'.Next m'') :
    (∀ (a b : Machine α) x, a.Next b → a.world.isClosed x = false → b.world.isClosed x = true →
      ∃ wakers n stk, b.stack = .waking wakers :: .closing x n :: stk) ∧
    (m.stack = [] → ∀ x, m.world.Below top x →
      m''.world.latest? x = m.world.latest? x ∧ m''.world.accepted x = m.world.accepted x ∧
      ((m''.world.slot x).outcome? = (m'.world.slot x).outcome? ∨
        (m'.world.slot x).isPending = true ∧ m''.world.slot x = .abandoned ∧
          ∃ wakers n stk, m''.stack = .waking wakers :: .closing x n :: stk) ∧
      ∀ l r, m.world.registration? x l = some r → r.executor.disposal.isImmediate = true →
        m''.world.callsTo x l = m.world.callsTo x l) ∧
    ∀ c l d, m.world.watcher? c = none → m''.world.origin? c = some (.child top l d) →
      m''.world.latest? c = none ∧ m''.world.accepted c = [] ∧ ∀ s, m''.world.slot c ≠ .set s := by
  have hm := h.wellFormed
  have hl' : m.Later (fun _ => True) m'' := hl.next trivial hn
  have hclosing : ∀ (a b : Machine α) x, a.Next b → a.world.isClosed x = false →
      b.world.isClosed x = true →
      ∃ wakers n stk, b.stack = .waking wakers :: .closing x n :: stk := by
    intro a b x hab hopen hclosed
    rcases hab.closed x with hsame | hbegun
    · rw [hsame, hopen] at hclosed
      exact nomatch hclosed
    · exact hbegun
  refine ⟨hclosing, fun hidle x hb => ?_, fun c l d hnew ho => ?_⟩
  · have hbefore := hl.severed hm h.shut hidle hcl
    have hafter := hl'.severed hm h.shut hidle hcl
    have hacc := hafter.accepted x hb
    refine ⟨?_, hacc, ?_, hafter.calls x hb⟩
    · rw [(h.later hl').wellFormed.ledger.latest_eq, hm.ledger.latest_eq, hacc]
    · have hslot := slot_of_accepted_eq (h.later hl).decided (h.later hl').decided
        (hn.extends_world (h.later hl).wellFormed) (hacc.trans (hbefore.accepted x hb).symm)
      refine hslot.imp_right fun ⟨hpending, habandoned, hopen, hclosed⟩ => ?_
      exact ⟨hpending, habandoned, hclosing m' m'' x hn hopen hclosed⟩
  · have hnil := hl'.accepted_eq_nil hm h.shut hcl hnew ho
    refine ⟨?_, hnil, fun s hset => ?_⟩
    · rw [(h.later hl').wellFormed.ledger.latest_eq, hnil]
      rfl
    · have hfirst := ((h.later hl').decided c).set_iff s
      rw [hnil] at hfirst
      exact nomatch hfirst.mp hset

end Cutting

/-! ### A child cut off in the middle of the tree -/

/-- Below a child that has been closed, one watcher with a value and a listener, and one that never
got a value. -/
def cutTree : Machine Nat :=
  ({ world := {} } : Machine Nat).carry 32
    [.root "r" "r" false, .child "r" "c" (.ok "c") .value fun _ => [],
      .child "c" "g" (.ok "g") .value fun _ => [],
      .child "c" "h" (.ok "h") (fun _ => .failed "no") fun _ => [],
      .watch "g" "l" false .inline (fun _ => []) fun _ => [],
      .push "r" ⟨1⟩ ⟨10, 10⟩, .close "c"]

/-- The root has a new value, and the closed child a further child. -/
def regrown : Machine Nat :=
  cutTree.carry 32 [.push "r" ⟨2⟩ ⟨20, 20⟩, .child "c" "k" (.ok "k") .value fun _ => []]

theorem reached_cutTree : cutTree.Reached fun _ => True :=
  Reached.initial.carry_any (by decide +kernel)

theorem later_regrown : cutTree.Later (fun _ => True) regrown :=
  Later.refl.carry_any (by decide +kernel)

theorem closing_cuts_off_regrown :
    cutTree.stack = [] ∧ cutTree.world.isClosed 1 = true ∧
      (regrown.world.start (.close "h")).world.latest? 2 = some ⟨⟨1⟩, 10⟩ ∧
      (regrown.world.start (.close "h")).world.callsTo 2 ⟨1⟩ = cutTree.world.callsTo 2 ⟨1⟩ ∧
      (regrown.world.slot 3).isPending = true ∧
      (regrown.world.start (.close "h")).world.slot 3 = .abandoned ∧
      (regrown.world.start (.close "h")).world.latest? 1 = some ⟨⟨1⟩, 10⟩ ∧
      (regrown.world.start (.close "h")).world.latest? 4 = none := by
  have hidle : cutTree.stack = [] := List.isEmpty_iff.mp (by decide +kernel)
  have hcl : cutTree.world.isClosed 1 = true := by decide +kernel
  have hnext : regrown.Next (regrown.world.start (.close "h")) :=
    .start _ (List.isEmpty_iff.mp (by decide +kernel))
  obtain ⟨-, hbelow, hnew⟩ := closing_cuts_off reached_cutTree hcl later_regrown hnext
  have hlatest : cutTree.world.latest? 2 = some ⟨⟨1⟩, 10⟩ := by with_unfolding_all rfl
  obtain ⟨hsame, -, -, hcalls⟩ := hbelow hidle 2 (.child (by with_unfolding_all rfl))
  obtain ⟨-, -, hslot, -⟩ := hbelow hidle 3 (.child (by with_unfolding_all rfl))
  obtain ⟨hnone, -, -⟩ := hnew 4 _ _ (by with_unfolding_all rfl) (by with_unfolding_all rfl)
  refine ⟨hidle, hcl, hsame.trans hlatest, hcalls ⟨1⟩ _ (by with_unfolding_all rfl) rfl,
    by decide +kernel, ?_, by with_unfolding_all rfl, hnone⟩
  rcases hslot with hkept | ⟨-, habandoned, -⟩
  · exact absurd (congrArg Option.isSome hkept) (by decide +kernel)
  · exact habandoned

end Machine

end WatchTree
