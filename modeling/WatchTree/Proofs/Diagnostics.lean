import WatchTree.Proofs.Accounts

/-!
# Every outcome is told exactly once

What the balance of accounts leaves open: first values and closes are told as the state of the
watcher says (`World.Firsts`, `Run.bonds`), each message is about a watcher that can have caused it
(`World.Apt`), and a subscription is told to be taken out once at most, by the close of the child or
by its drop (`World.Severed`). `World.Accounted` puts the books of one watcher together.
-/

namespace WatchTree

variable {α : Type}

/-! ## First values -/

/-- The revision that was told to be that of a watcher's first value. -/
def Event.initial? (id : WatcherId) : Event α → Option Revision
  | .logged j _ (.initialized r) => if j = id then some r else none
  | _ => none

theorem Event.initial?_of_isMute {e : Event α} (h : e.isMute = true) (id : WatcherId) :
    e.initial? id = none := by
  cases e with
  | logged j name message => cases message <;> first | rfl | exact nomatch h
  | _ => rfl

theorem Slot.first?_abandon (slot : Slot α) : slot.abandon.first? = slot.first? := by
  cases slot <;> rfl

namespace World

variable {w w' : World α}

theorem first?_modify (w : World α) (id j : WatcherId) {f : Watcher α → Watcher α}
    (hf : ∀ b, (f b).slot.first? = b.slot.first?) :
    ((w.modify id f).slot j).first? = (w.slot j).first? := by
  unfold slot
  rw [watcher?_modify]
  split
  · cases w.watcher? j with
    | none => rfl
    | some b => exact hf b
  · rfl

/-- A first value is told once, if there is one. -/
def Firsts (w : World α) : Prop :=
  ∀ id, w.events.filterMap (Event.initial? id) =
    ((w.slot id).first?.map (·.revision)).toList

namespace Firsts

theorem keep (h : w.Firsts) {es : List (Event α)} (hes : w'.events = w.events ++ es)
    (hnone : ∀ e ∈ es, ∀ id, e.initial? id = none)
    (hfirst : ∀ id, (w'.slot id).first? = (w.slot id).first?) : w'.Firsts := by
  intro id
  rw [hes, List.filterMap_append, List.filterMap_eq_nil_iff.mpr fun e he => hnone e he id,
    List.append_nil, hfirst]
  exact h id

theorem same (h : w.Firsts) (hevents : w'.events = w.events) (hslots : w.SameSlots w') :
    w'.Firsts :=
  h.keep (hevents.trans (List.append_nil _).symm) nofun fun id => by rw [(hslots id).1]

theorem note (h : w.Firsts) (p : Bool) {e : Event α} (he : ∀ id, e.initial? id = none) :
    (w.note p e).Firsts :=
  h.keep (events_note w p e) (by simpa using he) fun _ => rfl

theorem adopt (h : w.Firsts) (p q : Bool) (name : String) {id : WatcherId} {b : Watcher α}
    (hb : w.watcher? id = some b) (s : Latest α) : (w.adopt p q name id b s).Firsts := by
  have hevents : (w.adopt p q name id b s).events = w.events ++ .offered id s .accepted ::
      if b.slot.isPending then [.logged id name (.initialized s.revision)] else [] := by
    have hoffer : ((w.note p (.offered id s .accepted)).modify id (·.accept s)).events =
        w.events ++ [.offered id s .accepted] := events_note w p _
    unfold World.adopt
    simp only
    split
    · rw [events_note, hoffer, List.append_assoc]
      rfl
    · exact hoffer
  intro j
  have hold := h j
  rw [hevents, List.filterMap_append, hold, slot_adopt p q name hb s j]
  by_cases hj : id = j
  · subst hj
    rw [if_pos rfl, slot_of_watcher? hb]
    cases b.slot with
    | pending ws => simp [Event.initial?, List.filterMap_cons, Slot.isPending, Slot.first?,
        Slot.complete]
    | set | abandoned => simp [Event.initial?, Slot.isPending, Slot.complete]
  · rw [if_neg hj]
    cases b.slot.isPending <;> simp [Event.initial?, hj]

theorem detaches (h : w.Firsts) {id : WatcherId} {message : String → Diagnostic}
    (hmessage : ∀ parent r, message parent ≠ .initialized r) (hdet : w.Detaches id message w') :
    w'.Firsts := by
  have hslots : w.SameSlots w' := .detaches hdet
  cases hdet with
  | found q name parent =>
    refine h.keep (events_note _ q _) (fun e he j => ?_) fun j => by rw [(hslots j).1]
    rw [List.mem_singleton.mp he]
    unfold Event.initial?
    split
    · rename_i heq
      exact absurd (Event.logged.inj heq).2.2 (hmessage _ _)
    · rfl
  | missing => exact h

theorem posting [BEq α] {P : Machine α → Prop} {m m' : Machine α} (h : m.world.Firsts)
    (hpost : Machine.Posting P m m') : m'.world.Firsts := by
  cases hpost with
  | pass hw hh => exact h.same (events_eq_of_history hh) (.of_eq hw)
  | lose => exact h
  | note p he => exact h.note p (Event.initial?_of_isMute he)
  | @touch w stk c id f _ _ _ hfirst =>
    exact h.keep (List.append_nil _).symm nofun fun j => first?_modify w id j hfirst
  | plant name => exact h.same rfl (.addWatcher _ name _)
  | @enrol w w' stk c id b listener executor hw hb hcl hj =>
    exact h.same ((events_enrol ..).trans hj.events_eq)
      ((SameSlots.joins hj).trans (.modify _ _ (fun _ => rfl) fun _ => rfl))
  | @reserve w w' stk c id b listener executor hw hb hcl hj =>
    exact h.same ((events_reserve ..).trans hj.events_eq)
      ((SameSlots.joins hj).trans (.modify _ _ (fun _ => rfl) fun _ => rfl))
  | unwatch p => exact (h.note p fun _ => rfl).same rfl (.modify _ _ (fun _ => rfl) fun _ => rfl)
  | @drop w w' stk c id p l d hw ho hdr hdet =>
    have hdropped : (w.modify id fun b => { b with dropped := true }).Firsts :=
      h.same rfl (.modify _ _ (fun _ => rfl) fun _ => rfl)
    exact hdropped.detaches (by simp) hdet
  | @close w stk c id b hw hb hcl =>
    exact h.keep (List.append_nil _).symm nofun fun j =>
      first?_modify w id j fun b => Slot.first?_abandon b.slot
  | @finish w w' stk c c' id n q name hw hdet =>
    have hclosed : (w.note q (.logged id name (.closed n))).Firsts := h.note q fun _ => rfl
    exact hclosed.detaches (by simp) hdet
  | @refuse w stk c p q name id b s refusal =>
    have hoffered : (w.note p (.offered id s .refused)).Firsts := h.note p fun _ => rfl
    exact hoffered.note q fun _ => by cases refusal <;> rfl
  | accept p q name hb => exact h.adopt p q name hb _
  | announce q name => exact h.note q fun _ => rfl
  | @fail w stk c p q name id parent l d r outcome error =>
    have happlied : (w.note p (.applied id r outcome)).Firsts := h.note p fun _ => rfl
    exact happlied.note q fun _ => rfl
  | @run w w' stk frames c t hran =>
    have hslots : w.SameSlots w' := .ran hran
    have hran' : ∀ p active, (w.note p (.ran t active)).Firsts := fun p _ => h.note p fun _ => rfl
    cases hran with
    | inactive p => exact hran' p false
    | stale p q name => exact (hran' p true).note q fun _ => rfl
    | @called r p q elsewhere audience =>
      exact (hran' p true).keep (events_note _ q _) (by simp [Event.initial?])
        fun j => by rw [(hslots j).1]; rfl

end Firsts

end World

/-! ## Whom messages are about -/

/-- A message is about a watcher that can have caused it. -/
def Event.Apt (w : World α) : Event α → Prop
  | .logged id _ message => (message.isOfRoot = true → w.IsRoot id) ∧
      (message.isOfChild = true → ∃ p l d, w.origin? id = some (.child p l d))
  | _ => True

theorem Event.apt_of_isMute {w : World α} {e : Event α} (h : e.isMute = true) : e.Apt w := by
  cases e with
  | logged id name message =>
    cases message with
    | registrationIgnored | listenerPanicked | fetchFailed | pollerFinished => exact ⟨nofun, nofun⟩
    | _ => exact nomatch h
  | _ => trivial

namespace World

variable {w w' : World α}

/-- The tree only grows. -/
theorem ChangesEntries.origin?_mono (h : w.ChangesEntries w') {id : WatcherId} {o : Origin α}
    (ho : w.origin? id = some o) : w'.origin? id = some o := by
  cases h with
  | keep ht => exact (ht.origin id).trans ho
  | plant name =>
    rw [origin?_addWatcher, if_neg]
    · exact ho
    · rintro rfl
      obtain ⟨b, hb, -⟩ := exists_watcher?_of_origin? ho
      exact nomatch (watcher?_length w).symm.trans hb
  | enrol hw hb hcl hj => exact (origin?_enrol ..).trans (hj.origin?_mono ho)
  | reserve hw hb hcl hj => exact (origin?_reserve ..).trans (hj.origin?_mono ho)
  | unwatch p => exact (origin?_unregister ..).trans ho
  | drop hw ho' hdr hdet =>
    exact (hdet.origin?_eq id).trans (((Parts.drop hw ho').origin id).trans ho)
  | close => exact (origin?_modify _ _ _ Watcher.close_origin).trans ho
  | finish q name n hw hdet => exact (hdet.origin?_eq id).trans ho

/-- Every message is about a watcher that can have caused it. -/
def Apt (w : World α) : Prop := ∀ e ∈ w.events, e.Apt w

namespace Apt

theorem keep (h : w.Apt) {es : List (Event α)} (hes : w'.events = w.events ++ es)
    (horigin : ∀ {id o}, w.origin? id = some o → w'.origin? id = some o)
    (hnew : ∀ e ∈ es, e.Apt w') : w'.Apt := by
  intro e he
  rw [hes] at he
  rcases List.mem_append.mp he with he | he
  · have hold := h e he
    cases e with
    | logged id name message =>
      refine ⟨fun hroot => horigin (hold.1 hroot), fun hchild => ?_⟩
      obtain ⟨p, l, d, ho⟩ := hold.2 hchild
      exact ⟨p, l, d, horigin ho⟩
    | _ => trivial
  · exact hnew e he

theorem note (h : w.Apt) (p : Bool) {e : Event α} (he : e.Apt w) : (w.note p e).Apt :=
  h.keep (events_note w p e) (fun ho => ho) fun e' he' => by
    rw [List.mem_singleton.mp he']
    cases e with
    | logged => exact he
    | _ => trivial

theorem detaches (h : w.Apt) {id : WatcherId} {message : String → Diagnostic}
    (hmessage : ∀ parent, (message parent).isOfRoot = false) (hdet : w.Detaches id message w') :
    w'.Apt := by
  have horigin := hdet.origin?_eq
  cases hdet with
  | @found p l d q name parent ho hreg =>
    refine h.keep (events_note _ q _) (fun ho' => (horigin _).trans ho') fun e he => ?_
    rw [List.mem_singleton.mp he]
    refine ⟨fun hroot => ?_, fun _ => ⟨p, l, d, (horigin id).trans ho⟩⟩
    rw [hmessage parent] at hroot
    exact nomatch hroot
  | missing => exact h

/-- A root refuses a state as out of order, a child as unchanged. -/
theorem refusalMessage [BEq α] {id : WatcherId} {b : Watcher α} {s : Latest α}
    {refusal : Watcher.Refusal} (hb : w.watcher? id = some b) (hr : b.refusal s = some refusal)
    (name : String) : (Event.logged (α := α) id name (Machine.refusalMessage s refusal)).Apt w := by
  have ho := origin?_of_watcher? hb
  unfold Watcher.refusal at hr
  cases hl : b.latest with
  | none =>
    rw [hl] at hr
    exact nomatch hr
  | some x =>
    rw [hl] at hr
    cases hbo : b.origin with
    | root =>
      rw [hbo] at hr ho
      simp only at hr
      split at hr
      · obtain rfl := Option.some.inj hr
        exact ⟨fun _ => ho, nofun⟩
      · exact nomatch hr
    | child p l d =>
      rw [hbo] at hr ho
      simp only at hr
      split at hr
      · obtain rfl := Option.some.inj hr
        exact ⟨nofun, fun _ => ⟨p, l, d, ho⟩⟩
      · exact nomatch hr

theorem posting [BEq α] {P : Machine α → Prop} {m m' : Machine α} (h : m.world.Apt)
    (hpost : Machine.Posting P m m') : m'.world.Apt := by
  have horigin : ∀ {id o}, m.world.origin? id = some o → m'.world.origin? id = some o :=
    fun ho => hpost.changesEntries.origin?_mono ho
  have hsame : m'.world.events = m.world.events → m'.world.Apt := fun hevents =>
    h.keep (hevents.trans (List.append_nil _).symm) horigin nofun
  cases hpost with
  | pass hw hh => exact hsame (events_eq_of_history hh)
  | lose => exact h
  | note p he => exact h.note p (Event.apt_of_isMute he)
  | touch | plant | close => exact hsame rfl
  | enrol hw hb hcl hj => exact hsame ((events_enrol ..).trans hj.events_eq)
  | reserve hw hb hcl hj => exact hsame ((events_reserve ..).trans hj.events_eq)
  | unwatch p => exact h.keep (events_note _ p _) horigin (by simp [Event.Apt])
  | @drop w w' stk c id p l d hw ho hdr hdet =>
    have hdropped : (w.modify id fun b => { b with dropped := true }).Apt :=
      h.keep (List.append_nil _).symm (fun ho' => ((Parts.drop hw ho).origin _).trans ho') nofun
    exact hdropped.detaches (fun _ => rfl) hdet
  | @finish w w' stk c c' id n q name hw hdet =>
    have hclosed : (w.note q (.logged id name (.closed n))).Apt := h.note q ⟨nofun, nofun⟩
    exact hclosed.detaches (fun _ => rfl) hdet
  | @refuse w stk c p q name id b s refusal hb hcl hr =>
    have hoffered : (w.note p (.offered id s .refused)).Apt := h.note p trivial
    exact hoffered.note q (refusalMessage (w := w.note p _) hb hr name)
  | @accept w stk c p q name id b s hb hcl hr =>
    have hadopted : ((w.note p (.offered id s .accepted)).modify id (·.accept s)).Apt :=
      h.keep (events_note w p _)
        (fun ho => (origin?_modify _ _ _ fun b => Watcher.accept_origin b s).trans ho)
        (by simp [Event.Apt])
    show (w.adopt p q name id b s).Apt
    unfold World.adopt
    simp only
    split
    · exact hadopted.note q ⟨nofun, nofun⟩
    · exact hadopted
  | announce q name => exact h.note q ⟨nofun, nofun⟩
  | @fail w stk c p q name id parent l d r outcome error ho =>
    have happlied : (w.note p (.applied id r outcome)).Apt := h.note p trivial
    exact happlied.note q ⟨nofun, fun _ => ⟨parent, l, d, ho⟩⟩
  | @run w w' stk frames c t hran =>
    have hran' : ∀ p active, (w.note p (.ran t active)).Apt := fun p _ => h.note p trivial
    cases hran with
    | inactive p => exact hran' p false
    | stale p q name => exact (hran' p true).note q ⟨nofun, nofun⟩
    | @called r p q elsewhere audience =>
      exact (hran' p true).keep (events_note _ q _) horigin (by simp [Event.Apt])

end Apt

end World

/-! ## Subscriptions that are taken out -/

/-- It tells that the subscription of a child was taken out. -/
def Event.isDetachment (c : WatcherId) : Event α → Bool
  | .logged id _ (.detached _) | .logged id _ (.droppedUnclosed _) => decide (id = c)
  | _ => false

theorem Event.isDetachment_of_not_severing {e : Event α} (h : e.isSevering = false)
    (c : WatcherId) : e.isDetachment c = false := by
  cases e with
  | logged id name message => cases message <;> first | rfl | exact nomatch h
  | _ => rfl

namespace World

/-- How often it was told that the subscription of a child was taken out. -/
def detachments (w : World α) (c : WatcherId) : Nat := w.events.countP (Event.isDetachment c)

variable {w w' : World α}

theorem detachments_of_eq (h : w'.events = w.events) (c : WatcherId) :
    w'.detachments c = w.detachments c := by
  unfold detachments
  rw [h]

theorem detachments_note (w : World α) (p : Bool) (e : Event α) (c : WatcherId) :
    (w.note p e).detachments c = w.detachments c + if e.isDetachment c then 1 else 0 := by
  unfold detachments
  rw [events_note, List.countP_append, List.countP_cons, List.countP_nil, Nat.zero_add]

theorem SameEntries.detachments (h : w.SameEntries w') (c : WatcherId) :
    w'.detachments c = w.detachments c := by
  obtain ⟨es, hes, hnone⟩ := h.events
  have hzero : es.countP (Event.isDetachment c) = 0 := List.countP_eq_zero.mpr fun e he => by
    rw [Event.isDetachment_of_not_severing (hnone e he)]
    exact Bool.false_ne_true
  unfold World.detachments
  rw [hes, List.countP_append, hzero, Nat.add_zero]

theorem ChangesEntries.watcher?_none (h : w.ChangesEntries w') {c : WatcherId}
    (hc : w'.watcher? c = none) :
    w.watcher? c = none := by
  cases hb : w.watcher? c with
  | none => rfl
  | some b =>
    obtain ⟨b', hb', -⟩ := exists_watcher?_of_origin? (h.origin?_mono (origin?_of_watcher? hb))
    exact nomatch hc.symm.trans hb'

/-- A subscription that is taken out is told to be so, once, unless it is on request. -/
structure Severed (w : World α) : Prop where
  unknown : ∀ {c}, w.watcher? c = none → w.detachments c = 0
  once : ∀ c, w.detachments c ≤ 1
  kept : ∀ {c p l d}, w.origin? c = some (.child p l d) → w.isRegistered p l = true →
    w.detachments c = 0
  told : ∀ {c p l d}, w.origin? c = some (.child p l d) → w.isClosed p = false →
    .unwatched p l true ∉ w.events → w.isRegistered p l = true ∨ w.detachments c = 1

namespace Severed

theorem initial : ({} : World α).Severed := ⟨fun _ => rfl, fun _ => Nat.zero_le _, nofun, nofun⟩

theorem keep (h : w.Severed) (ht : w.SameEntries w')
    (hunknown : ∀ {c}, w'.watcher? c = none → w.watcher? c = none) : w'.Severed where
  unknown hc := (ht.detachments _).trans (h.unknown (hunknown hc))
  once c := by
    rw [ht.detachments]
    exact h.once c
  kept ho hreg := by
    rw [ht.detachments]
    exact h.kept ((ht.origin _).symm.trans ho) ((ht.registered _ _).symm.trans hreg)
  told ho hcl hun := by
    rw [ht.detachments, ht.registered]
    refine h.told ((ht.origin _).symm.trans ho) ((ht.closed _).symm.trans hcl) fun hmem => hun ?_
    exact (ht.unwatched_iff _ _).mpr hmem

section Joining

variable {id : WatcherId} {b : Watcher α} {listener : Listener α} {executor : Executor α}

theorem enrol (h : w.Severed) (hw : w.Ledger) (hb : w.watcher? id = some b)
    (hj : w.Joins id b listener executor w')
    (hunknown : ∀ {c}, (w'.enrol id listener executor).watcher? c = none → w.watcher? c = none) :
    (w'.enrol id listener executor).Severed := by
  have hevents : (w'.enrol id listener executor).events = w.events :=
    (events_enrol ..).trans hj.events_eq
  have hsame := detachments_of_eq hevents
  refine
    { unknown := fun hc => (hsame _).trans (h.unknown (hunknown hc)), once := ?once, kept := ?kept,
      told := ?told }
  case once =>
    intro c
    rw [hsame]
    exact h.once c
  case kept =>
    intro c p l d ho hreg
    rw [origin?_enrol] at ho
    rw [hj.isRegistered_enrol hw hb] at hreg
    rw [hsame]
    rcases hj.origin?_or hw hb ho with ⟨hold, hne⟩ | ⟨hnew, -, -⟩
    · exact h.kept hold (hreg.resolve_right hne)
    · exact h.unknown hnew
  case told =>
    intro c p l d ho hcl hun
    rw [origin?_enrol] at ho
    rw [isClosed_enrol, hj.isClosed_eq] at hcl
    rw [hevents] at hun
    rw [hj.isRegistered_enrol hw hb, hsame]
    rcases hj.origin?_or hw hb ho with ⟨hold, -⟩ | ⟨-, rfl, rfl⟩
    · exact (h.told hold hcl hun).imp_left .inl
    · exact .inl (.inr ⟨rfl, rfl⟩)

theorem reserve (h : w.Severed) (hw : w.Ledger) (hb : w.watcher? id = some b)
    (hcl : b.closed = true) (hj : w.Joins id b listener executor w')
    (hunknown : ∀ {c}, (w'.reserve id).watcher? c = none → w.watcher? c = none) :
    (w'.reserve id).Severed := by
  have hevents : (w'.reserve id).events = w.events := (events_reserve ..).trans hj.events_eq
  have hsame := detachments_of_eq hevents
  refine
    { unknown := fun hc => (hsame _).trans (h.unknown (hunknown hc)), once := ?once, kept := ?kept,
      told := ?told }
  case once =>
    intro c
    rw [hsame]
    exact h.once c
  case kept =>
    intro c p l d ho hreg
    rw [origin?_reserve] at ho
    rw [isRegistered_reserve, hj.isRegistered_eq] at hreg
    rw [hsame]
    rcases hj.origin?_or hw hb ho with ⟨hold, -⟩ | ⟨hnew, -, -⟩
    · exact h.kept hold hreg
    · exact h.unknown hnew
  case told =>
    intro c p l d ho hopen hun
    rw [origin?_reserve] at ho
    rw [isClosed_reserve, hj.isClosed_eq] at hopen
    rw [hevents] at hun
    rw [isRegistered_reserve, hj.isRegistered_eq, hsame]
    rcases hj.origin?_or hw hb ho with ⟨hold, -⟩ | ⟨-, rfl, rfl⟩
    · exact h.told hold hopen hun
    · rw [isClosed_of_watcher? hb, hcl] at hopen
      exact nomatch hopen

end Joining

/-- A listener is taken out on request. -/
theorem unwatch (h : w.Severed) (hw : w.Ledger) (q : Bool) (id : WatcherId) (k : ListenerId)
    (hunknown : ∀ {c}, ((w.note q (.unwatched id k true)).unregister id k).watcher? c = none →
      w.watcher? c = none) :
    ((w.note q (.unwatched id k true)).unregister id k).Severed := by
  have hsame : ∀ c, ((w.note q (.unwatched id k true)).unregister id k).detachments c =
      w.detachments c := fun c => detachments_note w q _ c
  have hsound : (w.note q (.unwatched id k true)).SoundRegistries := hw.sound
  refine
    { unknown := fun hc => (hsame _).trans (h.unknown (hunknown hc)), once := ?once, kept := ?kept,
      told := ?told }
  case once =>
    intro c
    rw [hsame]
    exact h.once c
  case kept =>
    intro c p l d ho hreg
    rw [origin?_unregister] at ho
    rw [isRegistered_unregister hsound] at hreg
    exact (hsame c).trans (h.kept ho hreg.1)
  case told =>
    intro c p l d ho hcl hun
    rw [origin?_unregister] at ho
    rw [isClosed_unregister] at hcl
    rw [unwatched_unregister_iff, not_or] at hun
    rw [isRegistered_unregister hsound, hsame]
    exact (h.told ho hcl hun.1).imp_left fun hreg => ⟨hreg, hun.2⟩

section Parting

variable {id : WatcherId} {message : String → Diagnostic} {w₁ : World α} (hp : w.Parts id w₁)
  (hsame : ∀ c, w₁.detachments c = w.detachments c)
  (hmessage : ∀ name parent c,
    (Event.logged (α := α) id name (message parent)).isDetachment c = decide (id = c))
  (hdet : w₁.Detaches id message w')

include hp hsame hmessage hdet

/-- A child that parts is told to be detached if it is subscribed, and no other child is. -/
theorem detachments_detach (h : w.Severed) (c : WatcherId) :
    (w'.detachments c = w.detachments c ∧
      (c = id → ∀ {p l d}, w.origin? c = some (.child p l d) → w.isRegistered p l = false)) ∨
    (c = id ∧ (∃ p l d, w.origin? c = some (.child p l d)) ∧ w'.detachments c = 1) := by
  cases hdet with
  | @found p l d q name parent ho hreg =>
    rw [hp.origin] at ho
    rw [hp.registered] at hreg
    have hnote : ((w₁.unregister p l).note q (.logged id name (message parent))).detachments c =
        w.detachments c + if decide (id = c) then 1 else 0 := by
      rw [detachments_note, hmessage, ← hsame c]
      rfl
    by_cases hc : id = c
    · subst hc
      rw [if_pos (decide_eq_true rfl), h.kept ho hreg] at hnote
      exact .inr ⟨rfl, ⟨p, l, d, ho⟩, hnote⟩
    · rw [if_neg (by simp [hc])] at hnote
      exact .inl ⟨hnote, fun heq => absurd heq.symm hc⟩
  | missing hnone =>
    refine .inl ⟨hsame c, ?_⟩
    rintro rfl p l d ho
    exact (hp.registered p l).symm.trans (hnone p l d ((hp.origin c).trans ho))

/-- The subscription of a child that parts is taken out. -/
theorem detach (h : w.Severed) (hw : w.Ledger)
    (hunknown : ∀ {c}, w'.watcher? c = none → w.watcher? c = none) : w'.Severed := by
  have hcount := h.detachments_detach hp hsame hmessage hdet
  refine { unknown := ?unknown, once := ?once, kept := ?kept, told := ?told }
  case unknown =>
    intro c hc
    rcases hcount c with ⟨heq, -⟩ | ⟨-, ⟨p, l, d, ho⟩, -⟩
    · exact heq.trans (h.unknown (hunknown hc))
    · obtain ⟨b, hb, -⟩ := exists_watcher?_of_origin? ho
      exact nomatch (hunknown hc).symm.trans hb
  case once =>
    intro c
    rcases hcount c with ⟨heq, -⟩ | ⟨-, -, heq⟩
    · exact heq ▸ h.once c
    · exact Nat.le_of_eq heq
  case kept =>
    intro c p l d ho hreg
    rw [hdet.origin?_eq, hp.origin] at ho
    rw [hdet.isRegistered_iff hp.sound, hp.registered, hp.origin] at hreg
    rcases hcount c with ⟨heq, -⟩ | ⟨rfl, -, -⟩
    · exact heq.trans (h.kept ho hreg.1)
    · exact absurd ho (hreg.2 d)
  case told =>
    intro c p l d ho hcl hun
    rw [hdet.origin?_eq, hp.origin] at ho
    rw [hdet.isClosed_eq, hp.closed] at hcl
    rw [hdet.unwatched_iff, hp.unwatched] at hun
    rw [hdet.isRegistered_iff hp.sound, hp.registered, hp.origin]
    rcases hcount c with ⟨heq, hgone⟩ | ⟨-, -, heq⟩
    · refine (h.told ho hcl hun).imp (fun hreg => ⟨hreg, fun d' ho' => ?_⟩) heq.trans
      have hc : c = id := hw.eq_of_subscription hreg ho ho'
      rw [hgone hc ho] at hreg
      exact nomatch hreg
    · exact .inr heq

end Parting

theorem changesEntries (h : w.Severed) (hr : w.ChangesEntries w') : w'.Severed := by
  have hunknown : ∀ {c}, w'.watcher? c = none → w.watcher? c = none := hr.watcher?_none
  cases hr with
  | keep ht => exact h.keep ht hunknown
  | plant name =>
    refine
      { unknown := fun hc => h.unknown (hunknown hc), once := h.once, kept := ?kept, told := ?told }
    case kept =>
      intro c p l d ho hreg
      rw [origin?_addWatcher] at ho
      rw [isRegistered_addWatcher _ _ _ _ rfl] at hreg
      split at ho
      · exact nomatch Option.some.inj ho
      · exact h.kept ho hreg
    case told =>
      intro c p l d ho hcl hun
      rw [origin?_addWatcher] at ho
      rw [isClosed_addWatcher _ _ _ rfl] at hcl
      rw [isRegistered_addWatcher _ _ _ _ rfl]
      split at ho
      · exact nomatch Option.some.inj ho
      · exact h.told ho hcl hun
  | enrol hw hb hcl hj => exact h.enrol hw hb hj hunknown
  | reserve hw hb hcl hj => exact h.reserve hw hb hcl hj hunknown
  | unwatch p hw hreg => exact h.unwatch hw p _ _ hunknown
  | drop hw ho hdr hdet =>
    exact h.detach (.drop hw ho) (fun _ => rfl) (fun _ _ _ => rfl) hdet hw hunknown
  | @close id b hw hb hcl =>
    have horigin : ∀ c, (w.modify id Watcher.close).origin? c = w.origin? c :=
      fun c => origin?_modify _ _ _ Watcher.close_origin
    refine
      { unknown := fun hc => h.unknown (hunknown hc), once := h.once, kept := ?kept, told := ?told }
    case kept =>
      intro c p l d ho hreg
      rw [isRegistered_close hw.sound] at hreg
      exact h.kept ((horigin c).symm.trans ho) hreg.1
    case told =>
      intro c p l d ho hopen hun
      rw [isClosed_close_eq_false_iff hb] at hopen
      rw [isRegistered_close hw.sound]
      exact (h.told ((horigin c).symm.trans ho) hopen.2 hun).imp_left fun hreg => ⟨hreg, hopen.1⟩
  | finish q name n hw hdet =>
    refine h.detach (.finish hw q _ name n) (fun c => ?_) (fun _ _ _ => rfl) hdet hw hunknown
    exact detachments_note w q _ c

end Severed

end World

/-! ## The books of a watcher -/

namespace World

theorem filterMap_messages {β : Type} {g : Event α → Option β} {h : Diagnostic → Option β}
    {id : WatcherId} (hg : ∀ e : Event α, (e.message? id).bind h = g e) (w : World α) :
    (w.messages id).filterMap h = w.events.filterMap g := by
  unfold messages
  rw [List.filterMap_filterMap]
  congr 1
  funext e
  exact hg e

theorem countP_messages {g : Event α → Bool} {h : Diagnostic → Bool} {id : WatcherId}
    (hg : ∀ e : Event α, (e.message? id).any h = g e) (w : World α) :
    (w.messages id).countP h = w.events.countP g := by
  unfold messages
  rw [List.countP_filterMap]
  congr 1
  funext e
  rw [← hg e]
  cases e.message? id <;> rfl

theorem initials_eq (w : World α) (id : WatcherId) :
    (w.messages id).filterMap Diagnostic.initialized? = w.events.filterMap (Event.initial? id) :=
  filterMap_messages (fun e => by
    cases e with
    | logged j name message =>
      by_cases hj : j = id <;> cases message <;>
        simp [Event.message?, Event.initial?, Diagnostic.initialized?, hj]
    | _ => rfl) w

theorem closes_eq (w : World α) (id : WatcherId) :
    (w.messages id).countP Diagnostic.isClosed = w.closes id :=
  countP_messages (fun e => by
    cases e with
    | logged j name message =>
      by_cases hj : j = id <;> cases message <;>
        simp [Event.message?, Event.endsClose, Diagnostic.isClosed, hj]
    | _ => rfl) w

theorem detachments_eq (w : World α) (id : WatcherId) :
    (w.messages id).countP Diagnostic.isDetachment = w.detachments id :=
  countP_messages (fun e => by
    cases e with
    | logged j name message =>
      by_cases hj : j = id <;> cases message <;>
        simp [Event.message?, Event.isDetachment, Diagnostic.isDetachment, hj]
    | _ => rfl) w

theorem received_accepted (w : World α) (id : WatcherId) :
    w.received id .accepted = (w.accepted id).map (·.revision) := by
  rw [accepted_eq_offers]
  unfold received
  rw [← List.filterMap_eq_map, List.filterMap_filter, List.map_filterMap]
  congr 1
  funext o
  by_cases ho : o.2 = .accepted <;> simp [ho]

theorem mem_messages {w : World α} {id : WatcherId} {d : Diagnostic} (h : d ∈ w.messages id) :
    ∃ name, .logged id name d ∈ w.events := by
  obtain ⟨e, he, hd⟩ := List.mem_filterMap.mp h
  cases e with
  | logged j name message =>
    by_cases hj : j = id
    · subst hj
      obtain rfl : message = d := by simpa [Event.message?] using hd
      exact ⟨name, he⟩
    · simp [Event.message?, hj] at hd
  | _ => simp [Event.message?] at hd

/-- What was told about a watcher is what became of it. -/
structure Accounted (w : World α) (id : WatcherId) : Prop where
  /-- As many updates were told to be accepted as its counter says. -/
  updates : ((w.messages id).filterMap Diagnostic.accepted?).length = w.updates id
  /-- The first value was told if there is one. -/
  initialized : (w.messages id).filterMap Diagnostic.initialized? =
    ((w.slot id).first?.map (·.revision)).toList
  closed : (w.messages id).countP Diagnostic.isClosed = if w.isClosed id then 1 else 0
  /-- Each state that was offered was told to be accepted or refused; one that was offered to the
  closed watcher was told to be neither. -/
  accepted : ((w.messages id).filterMap Diagnostic.accepted?).Perm (w.received id .accepted)
  refused : ((w.messages id).filterMap Diagnostic.refused?).Perm (w.received id .refused)
  /-- Each application that gave no value was told, with the reason; each value was offered. -/
  failed : ((w.messages id).filterMap Diagnostic.failed?).Perm
    ((w.outcomes id).filterMap fun x => x.2.complaint?.map (x.1, ·))
  applied : ∀ {p l d}, w.origin? id = some (.child p l d) →
    (w.offers id).map Prod.fst = Outcome.states (w.outcomes id)
  /-- The runs of tasks of an active registration were calls, or told to be stale. -/
  told : ∀ l, (w.events.filterMap (Event.told? id l)).Perm
    ((Event.runsOf id l w.events).map (·.update))
  root : w.IsRoot id → ∀ d ∈ w.messages id, d.isOfChild = false
  child : ∀ {p l d}, w.origin? id = some (.child p l d) →
    ∀ d ∈ w.messages id, d.isOfRoot = false
  /-- A subscription was told once at most to be taken out. -/
  detached : (w.messages id).countP Diagnostic.isDetachment ≤ 1
  kept : ∀ {p l d}, w.origin? id = some (.child p l d) → w.isRegistered p l = true →
    (w.messages id).countP Diagnostic.isDetachment = 0
  severed : ∀ {p l d}, w.origin? id = some (.child p l d) → w.isClosed p = false →
    .unwatched p l true ∉ w.events → w.isRegistered p l = false →
    (w.messages id).countP Diagnostic.isDetachment = 1

end World

namespace Machine

variable [BEq α] {P : Machine α → Prop} {m m' : Machine α}

/-! ### What is done with a state that is offered -/

/-- What comes next offers nothing to a watcher, or one state, which it receives as it is: a push
offers it to a root, or the application of a child's transformation, which ends, gives it. -/
inductive Judges (m : Machine α) (id : WatcherId) (m' : Machine α) : Prop
  | nothing : m'.world.offers id = m.world.offers id → m'.world.outcomes id = m.world.outcomes id →
      Judges m id m'
  | push (b : Watcher α) (s : Latest α) : m.world.IsRoot id → m.world.watcher? id = some b →
      m'.world.offers id = m.world.offers id ++ [(s, b.reception s)] →
      m'.world.outcomes id = m.world.outcomes id → Judges m id m'
  | settle {p : WatcherId} {l : ListenerId} {d : Derivation α} (b : Watcher α) (s : Latest α)
      (rest : List (Frame α)) (outcome : Outcome α) :
      m.world.origin? id = some (.child p l d) → m.world.watcher? id = some b →
      m.stack = .applying id s :: rest →
      m'.world.outcomes id = m.world.outcomes id ++ [(s.revision, outcome)] →
      m'.world.offers id = m.world.offers id ++
        (outcome.state? s.revision).toList.map (fun x => (x, b.reception x)) → Judges m id m'

/-- Nothing is offered to a watcher by deeds that do not concern it. -/
theorem Judges.of_deeds {id : WatcherId} (es : List (Event α))
    (heq : m'.world.deeds = m.world.deeds ++ es)
    (hes : ∀ e ∈ es, e.offer? id = none ∧ e.outcome? id = none) : m.Judges id m' := by
  refine .nothing ?_ ?_
  · rw [World.offers_eq_deeds, World.offers_eq_deeds, heq, List.filterMap_append,
      List.filterMap_eq_nil_iff.mpr fun e he => (hes e he).1, List.append_nil]
  · rw [World.outcomes_eq_deeds, World.outcomes_eq_deeds, heq, List.filterMap_append,
      List.filterMap_eq_nil_iff.mpr fun e he => (hes e he).2, List.append_nil]

theorem Next.judges (h : m.Next m') (hm : m.WellFormed) (id : WatcherId) : m.Judges id m' := by
  rcases (h.does hm).deeds with ⟨es, heq, hes⟩ | ⟨f, fs, j, s, c, -, hroot, rfl⟩ |
    ⟨j, p, l, d, s, rest, outcome, hj, hstk, -, rfl⟩
  · refine .of_deeds es heq fun e he => ?_
    have hwaker := hes e he
    cases e with
    | woken | enlisted => exact ⟨rfl, rfl⟩
    | _ => exact absurd hwaker Bool.false_ne_true
  · obtain ⟨b, hb, -⟩ := World.exists_watcher?_of_origin? hroot
    have heq := deeds_offer (m := ⟨m.world, f :: (fs ++ m.stack.tail), c⟩) hb s
    by_cases hid : j = id
    · subst hid
      refine .push b s hroot hb ?_ ?_
      · exact (offers_offer (m := ⟨m.world, _, c⟩) hb s j).trans (by rw [if_pos rfl])
      · rw [World.outcomes_eq_deeds, World.outcomes_eq_deeds, heq, List.filterMap_append]
        exact List.append_nil _
    · refine .of_deeds _ heq fun e he => ?_
      rw [List.mem_singleton.mp he]
      exact ⟨if_neg hid, rfl⟩
  · obtain ⟨b, hb, -⟩ := World.exists_watcher?_of_origin? hj
    have heq := deeds_settle (m := ⟨m.world, rest, m.control⟩) hb s.revision outcome
    by_cases hid : j = id
    · subst hid
      refine .settle b s rest outcome hj hb hstk ?_ ?_
      · have hends : Ends ⟨m.world, .applying j s :: rest, m.control⟩ j s rest outcome _ :=
          ends_settle hj outcome
        exact hends.outcomes
      · rw [World.offers_eq_deeds, World.offers_eq_deeds, heq, List.filterMap_append]
        cases outcome <;> simp [Event.offer?, List.filterMap_cons, Outcome.state?]
    · refine .of_deeds _ heq fun e he => ?_
      rcases List.mem_cons.mp he with rfl | he
      · exact ⟨rfl, if_neg hid⟩
      · obtain ⟨x, -, rfl⟩ := List.mem_map.mp he
        exact ⟨if_neg hid, rfl⟩

/-- Each value of a child's transformation was offered to the child, once. -/
theorem Reached.offers_child (h : m.Reached P) : ∀ {c p l d},
    m.world.origin? c = some (.child p l d) →
      (m.world.offers c).map Prod.fst = Outcome.states (m.world.outcomes c) := by
  induction h with
  | initial => exact nofun
  | @next m m' hreach hP hn ih =>
    intro c p l d ho
    have hm := hreach.wellFormed
    have hx := hn.extends_world hm
    have hold : (m.world.offers c).map Prod.fst = Outcome.states (m.world.outcomes c) := by
      cases hb : m.world.watcher? c with
      | none => rw [hreach.ranks_and_unknown.1 c hb, hreach.condensed.unknown hb]; rfl
      | some b =>
        have hob := World.origin?_of_watcher? hb
        exact ih (p := p) (l := l) (d := d) (hob.trans ((hx.origin hob).symm.trans ho))
    cases hn.judges hm c with
    | nothing hoffers houtcomes =>
      rw [hoffers, houtcomes]
      exact hold
    | push b s hroot => exact nomatch (hx.origin hroot).symm.trans ho
    | settle b s rest outcome _ _ _ houtcomes hoffers =>
      rw [hoffers, houtcomes, List.map_append, hold]
      unfold Outcome.states
      rw [List.filterMap_append]
      congr 1
      cases outcome <;> rfl

/-- A push through the handle of a root offers one state. -/
theorem offers_push {name : Name} {hd : Handle} {b : Watcher α}
    (hresolve : m.world.resolve? name = some (hd, b))
    (hface : hd.face = .root ∨ hd.face = .plainRoot) (r : Revision) (v : Given α) (id : WatcherId) :
    (m.perform (.push name r v)).world.offers id = m.world.offers id ++
      if hd.target = id then [(⟨r, v.on hd.face⟩, b.reception ⟨r, v.on hd.face⟩)] else [] := by
  have hb := (World.resolve?_eq_some hresolve).2
  have heq : m.perform (.push name r v) =
      (m.push (.holding hd.target)).offer hd.target ⟨r, v.on hd.face⟩ := by
    show m.withHandle name _ = _
    unfold withHandle
    rw [hresolve]
    rcases hface with hface | hface <;> simp only [hface]
  rw [heq]
  exact offers_offer (m := m.push _) hb _ id

/-- These hold at every moment if no waker panics. -/
theorem Reached.firsts_apt_severed (h : m.Reached P) (hP : ∀ x, P x → x.wakersCalm = true) :
    m.world.Firsts ∧ m.world.Apt ∧ m.world.Severed := by
  induction h with
  | initial => exact ⟨fun _ => rfl, nofun, .initial⟩
  | next hreach hx hn ih =>
    refine hn.keeps (P := fun _ => False)
      (I := fun x => x.world.Firsts ∧ x.world.Apt ∧ x.world.Severed) hreach.wellFormed
      (hreach.unharmed hP).spares ?_ ih
    rintro x x' ⟨hfirsts, hapt, hsevered⟩ hpost
    exact ⟨hfirsts.posting hpost, hapt.posting hpost, hsevered.changesEntries hpost.changesEntries⟩

/-- Where no waker panics and nothing is under way, each close has ended. -/
theorem Reached.closes_eq (h : m.Reached P) (hP : ∀ x, P x → x.wakersCalm = true)
    (hs : m.stack = []) (id : WatcherId) :
    m.world.closes id = if m.world.isClosed id then 1 else 0 := by
  obtain ⟨ms, hrun, hms⟩ := h.run
  have hnone : ms.countP (·.interrupts id) = 0 := List.countP_eq_zero.mpr fun x hx => by
    have hreach := hrun.reached_of_mem hms x (List.mem_cons_of_mem m hx)
    rw [(hreach.orderly hP).not_interrupts id]
    exact Bool.false_ne_true
  have heq : m.world.closes id + m.stack.countP (Frame.closes id) + ms.countP (·.interrupts id) =
      if m.world.isClosed id then 1 else 0 := (hrun.bonds m rfl).1 id
  rw [hs, hnone] at heq
  exact heq

theorem Reached.accounted (h : m.Reached P) (hP : ∀ x, P x → x.wakersCalm = true)
    (hs : m.stack = []) (id : WatcherId) : m.world.Accounted id := by
  obtain ⟨hfirsts, hapt, hsevered⟩ := h.firsts_apt_severed hP
  have hbalanced : m.world.reports.Perm m.world.dues := by
    have hb : (m.world.reports ++ m.stack.filterMap Frame.report?).Perm m.world.dues :=
      h.balanced hP
    rw [hs] at hb
    simpa using hb
  have haccepted : ((m.world.messages id).filterMap Diagnostic.accepted?).Perm
      (m.world.received id .accepted) := by
    rw [← World.filterMap_reports_accepted, ← (m.world.filterMap_dues_received id).1]
    exact hbalanced.filterMap _
  have hmessage : ∀ d ∈ m.world.messages id, (d.isOfRoot = true → m.world.IsRoot id) ∧
      (d.isOfChild = true → ∃ p l d, m.world.origin? id = some (.child p l d)) := by
    intro d hd
    obtain ⟨name, he⟩ := World.mem_messages hd
    exact hapt _ he
  refine
    { updates := ?_
      initialized := (World.initials_eq ..).trans (hfirsts id)
      closed := (World.closes_eq ..).trans (h.closes_eq hP hs id)
      accepted := haccepted
      refused := ?_
      failed := ?_
      applied := h.offers_child
      told := fun l => ?_
      root := fun hroot d hd => ?_
      child := fun ho d hd => ?_
      detached := (World.detachments_eq ..).trans_le (hsevered.once id)
      kept := fun ho hreg => (World.detachments_eq ..).trans (hsevered.kept ho hreg)
      severed := fun ho hcl hun hreg => ?_ }
  · rw [haccepted.length_eq, World.received_accepted, List.length_map,
      h.wellFormed.ledger.updates_eq]
  · rw [← World.filterMap_reports_refused, ← (m.world.filterMap_dues_received id).2]
    exact hbalanced.filterMap _
  · rw [← World.filterMap_reports_failed, ← World.filterMap_dues_failed]
    exact hbalanced.filterMap _
  · rw [← World.filterMap_reports_told, ← World.filterMap_dues_told]
    exact hbalanced.filterMap _
  · rw [← Bool.not_eq_true]
    intro hchild
    obtain ⟨p, l, d', ho⟩ := (hmessage d hd).2 hchild
    exact nomatch hroot.symm.trans ho
  · rw [← Bool.not_eq_true]
    intro hroot
    exact nomatch ((hmessage d hd).1 hroot).symm.trans ho
  · rw [World.detachments_eq]
    refine (hsevered.told ho hcl hun).resolve_left ?_
    rw [hreg]
    exact Bool.false_ne_true

/-- Where no waker panics, whatever else does and however calls are nested, the books of every
watcher are right when nothing is under way. Each state that is offered is received as the watcher
is at that moment, and as offered to a closed watcher exactly if it is closed; a push through the
handle of a root offers one state, and the end of an application offers its value. -/
theorem diagnostics_account_for_outcomes (h : m.Reached fun x => x.wakersCalm = true) :
    (m.stack = [] → ∀ id, m.world.Accounted id) ∧
      (∀ m', m.Next m' → ∀ id, m.Judges id m') ∧
      (∀ (b : Watcher α) s, b.reception s = .watcherClosed ↔ b.closed = true) ∧
      ∀ stk c name hd b r v, m.world.resolve? name = some (hd, b) →
        hd.face = .root ∨ hd.face = .plainRoot → ∀ id,
        (perform ⟨m.world, stk, c⟩ (.push name r v)).world.offers id = m.world.offers id ++
          if hd.target = id then [(⟨r, v.on hd.face⟩, b.reception ⟨r, v.on hd.face⟩)] else [] :=
  ⟨h.accounted fun _ hx => hx, fun _ hn => hn.judges h.wellFormed,
    fun _ _ => Watcher.reception_eq_watcherClosed_iff,
    fun stk c _ _ _ r v hresolve hface =>
      offers_push (m := ⟨m.world, stk, c⟩) hresolve hface r v⟩

/-! ### Callbacks that push, panic and close -/

/-- A transformation that gives no value for zero, panics when it is applied for the fourth time
and closes its own child when it is applied for the fifth. -/
def scrupulous : Derivation Nat where
  label := "c"
  apply v := if v = 0 then .failed "zero" else .value (v / 2)
  actions n := if n = 4 then [.panic .other] else if n = 5 then [.close "c"] else []

/-- A child made with it, a listener on the child that pushes into the root, and a listener on the
root whose executor panics. -/
def troubled : Machine Nat :=
  ({ world := {} } : Machine Nat).carry 40
    [.root "r" "r" false, .child "r" "c" (.ok "c") scrupulous.apply scrupulous.actions,
      .watch "c" "l" false .inline (fun _ => []) fun _ => [.push "r" ⟨2⟩ ⟨9, 9⟩, .panic .other],
      .watch "r" "e" false .inline (fun n => if n = 2 then [.panic .other] else []) fun _ => [],
      .push "r" ⟨1⟩ ⟨8, 8⟩, .push "r" ⟨3⟩ ⟨0, 0⟩, .push "r" ⟨2⟩ ⟨5, 5⟩, .push "r" ⟨4⟩ ⟨6, 6⟩,
      .push "r" ⟨5⟩ ⟨7, 7⟩, .push "r" ⟨6⟩ ⟨7, 7⟩, .drop "c"]

theorem reached_troubled : troubled.Reached fun x => x.wakersCalm = true :=
  Reached.carry .initial (by decide +kernel)

theorem diagnostics_account_for_outcomes_troubled :
    (∀ id, troubled.world.Accounted id) ∧
      troubled.Judges 0 (troubled.world.start (.push "r" ⟨7⟩ ⟨1, 1⟩)) ∧
      troubled.world.messages 1 = [.initialized ⟨1⟩, .acceptedUpdate ⟨1⟩ 1, .unchanged ⟨2⟩,
        .listenerPanicked ⟨1⟩ ⟨1⟩ Payload.other.message, .transformationFailed ⟨3⟩ "zero",
        .transformationFailed ⟨4⟩ ("transformation panicked: " ++ Payload.other.message),
        .closed 1, .detached "r"] ∧
      troubled.world.offers 1 =
        [(⟨⟨1⟩, 4⟩, .accepted), (⟨⟨2⟩, 4⟩, .refused), (⟨⟨5⟩, 3⟩, .watcherClosed)] := by
  have hs : troubled.stack = [] := List.isEmpty_iff.mp (by decide +kernel)
  obtain ⟨hbooks, hnext, -⟩ := diagnostics_account_for_outcomes reached_troubled
  exact ⟨hbooks hs, hnext _ (.start _ hs) 0, by with_unfolding_all rfl, by with_unfolding_all rfl⟩

end Machine

end WatchTree
