import WatchTree.Proofs.Acceptance
import WatchTree.Proofs.Detachment

/-!
# The log accounts for every outcome

Where no waker panics, every outcome is told exactly once when nothing is under way.

1. `Account` is what a message, or a call, tells, and what an offer, an application that failed or a
   task that was run calls for. Together with the updates that are still to be announced, the former
   are the latter in some order (`Machine.Balanced`).
2. First values and closes are told as the state of the watcher says, each message is about a
   watcher that can have caused it, and a subscription that was taken out is told at most once.
-/

namespace WatchTree

variable {α : Type}

/-! ## What is told, and what calls for it -/

/-- The outcome of an offer, of an application or of the run of a task. -/
inductive Account
  | accepted (id : WatcherId) (r : Revision)
  | refused (id : WatcherId) (r : Revision)
  | failed (id : WatcherId) (r : Revision) (error : String)
  | told (id : WatcherId) (l : ListenerId) (update : Nat)

namespace Account

def accepted? (id : WatcherId) : Account → Option Revision
  | accepted j r => if j = id then some r else none
  | _ => none

def refused? (id : WatcherId) : Account → Option Revision
  | refused j r => if j = id then some r else none
  | _ => none

/-- The revision for which a child's transformation failed, and why. -/
def failed? (id : WatcherId) : Account → Option (Revision × String)
  | failed j r error => if j = id then some (r, error) else none
  | _ => none

/-- The update that a listener was told of, or had been told of before. -/
def told? (id : WatcherId) (l : ListenerId) : Account → Option Nat
  | told j k n => if j = id ∧ k = l then some n else none
  | _ => none

end Account

namespace Diagnostic

def accepted? : Diagnostic → Option Revision
  | acceptedUpdate r _ => some r
  | _ => none

def refused? : Diagnostic → Option Revision
  | outOfOrder _ r | unchanged r => some r
  | _ => none

/-- The revision for which a transformation failed, and why. -/
def failed? : Diagnostic → Option (Revision × String)
  | transformationFailed r error => some (r, error)
  | _ => none

def initialized? : Diagnostic → Option Revision
  | initialized r => some r
  | _ => none

def isClosed : Diagnostic → Bool
  | closed _ => true
  | _ => false

/-- A subscription was taken out. -/
def isDetachment : Diagnostic → Bool
  | detached _ | droppedUnclosed _ => true
  | _ => false

/-- Only a child can cause it. -/
def isOfChild : Diagnostic → Bool
  | unchanged _ | transformationFailed .. | detached _ | droppedUnclosed _ => true
  | _ => false

/-- Only a root can cause it. -/
def isOfRoot : Diagnostic → Bool
  | outOfOrder .. => true
  | _ => false

end Diagnostic

namespace Event

def message? (id : WatcherId) : Event α → Option Diagnostic
  | .logged j _ message => if j = id then some message else none
  | _ => none

/-- What a message or a call tells. -/
def report? : Event α → Option Account
  | .logged id _ (.acceptedUpdate r _) => some (.accepted id r)
  | .logged id _ (.outOfOrder _ r) | .logged id _ (.unchanged r) => some (.refused id r)
  | .logged id _ (.transformationFailed r error) => some (.failed id r error)
  | .logged id _ (.staleDelivery l n) => some (.told id l n)
  | .called _ t _ => some (.told t.watcher t.listener t.update)
  | _ => none

/-- What is to be told of it. -/
def due? : Event α → Option Account
  | .offered id s .accepted => some (.accepted id s.revision)
  | .offered id s .refused => some (.refused id s.revision)
  | .applied id r outcome => outcome.complaint?.map (.failed id r)
  | .ran t true => some (.told t.watcher t.listener t.update)
  | _ => none

/-- The update that a listener was called with, or that was skipped as stale. -/
def told? (id : WatcherId) (l : ListenerId) : Event α → Option Nat
  | .called _ t _ => if t.isFor id l then some t.update else none
  | .logged j _ (.staleDelivery k n) => if j = id ∧ k = l then some n else none
  | _ => none

theorem report?_of_isMute {e : Event α} (h : e.isMute = true) : e.report? = none := by
  cases e with
  | logged id name message => cases message <;> first | rfl | exact nomatch h
  | called => exact nomatch h
  | _ => rfl

theorem due?_of_isMute {e : Event α} (h : e.isMute = true) : e.due? = none := by
  cases e with
  | offered id s reception => cases reception <;> first | rfl | exact nomatch h
  | applied id r outcome => cases outcome <;> first | rfl | exact nomatch h
  | ran => exact nomatch h
  | _ => rfl

end Event

/-- What is still to be told. -/
def Frame.report? : Frame α → Option Account
  | .announcing id _ s _ => some (.accepted id s.revision)
  | _ => none

theorem Frame.filterMap_report?_pledges (stk : List (Frame α)) :
    (pledges stk).filterMap report? = stk.filterMap report? := by
  unfold pledges
  rw [List.filterMap_filter]
  congr 1
  funext f
  cases f <;> rfl

namespace World

def messages (w : World α) (id : WatcherId) : List Diagnostic :=
  w.events.filterMap (Event.message? id)

/-- What has been told. -/
def reports (w : World α) : List Account := w.events.filterMap Event.report?

/-- What was to be told. -/
def dues (w : World α) : List Account := w.events.filterMap Event.due?

/-- The revisions of the states offered to a watcher that met with this reception. -/
def received (w : World α) (id : WatcherId) (reception : Reception) : List Revision :=
  ((w.offers id).filter fun o => o.2 = reception).map fun o => o.1.revision

section Append

variable {w w' : World α} {es : List (Event α)} (h : w'.events = w.events ++ es)

include h

theorem reports_append : w'.reports = w.reports ++ es.filterMap Event.report? := by
  unfold reports
  rw [h, List.filterMap_append]

theorem dues_append : w'.dues = w.dues ++ es.filterMap Event.due? := by
  unfold dues
  rw [h, List.filterMap_append]

end Append

/-! ### One watcher at a time -/

/-- What is read off the messages about one watcher can be read off all that has been told. -/
theorem filterMap_reports {β : Type} {g : Account → Option β} {h : Diagnostic → Option β}
    {id : WatcherId}
    (hlogged : ∀ (j : WatcherId) (name : String) (message : Diagnostic),
      (Event.logged (α := α) j name message).report?.bind g = if j = id then h message else none)
    (htold : ∀ j l n, g (.told j l n) = none) (w : World α) :
    w.reports.filterMap g = (w.messages id).filterMap h := by
  unfold reports messages
  rw [List.filterMap_filterMap, List.filterMap_filterMap]
  congr 1
  funext e
  cases e with
  | logged j name message =>
    rw [hlogged]
    by_cases hj : j = id <;> simp [Event.message?, hj]
  | called audience t elsewhere => exact htold _ _ _
  | _ => rfl

theorem filterMap_reports_accepted (w : World α) (id : WatcherId) :
    w.reports.filterMap (Account.accepted? id) =
      (w.messages id).filterMap Diagnostic.accepted? :=
  filterMap_reports (fun j name message => by
    cases message <;> simp [Event.report?, Account.accepted?, Diagnostic.accepted?])
    (fun _ _ _ => rfl) w

theorem filterMap_reports_refused (w : World α) (id : WatcherId) :
    w.reports.filterMap (Account.refused? id) = (w.messages id).filterMap Diagnostic.refused? :=
  filterMap_reports (fun j name message => by
    cases message <;> simp [Event.report?, Account.refused?, Diagnostic.refused?])
    (fun _ _ _ => rfl) w

theorem filterMap_reports_failed (w : World α) (id : WatcherId) :
    w.reports.filterMap (Account.failed? id) = (w.messages id).filterMap Diagnostic.failed? :=
  filterMap_reports (fun j name message => by
    cases message <;> simp [Event.report?, Account.failed?, Diagnostic.failed?])
    (fun _ _ _ => rfl) w

theorem filterMap_reports_told (w : World α) (id : WatcherId) (l : ListenerId) :
    w.reports.filterMap (Account.told? id l) = w.events.filterMap (Event.told? id l) := by
  unfold reports
  rw [List.filterMap_filterMap]
  congr 1
  funext e
  cases e with
  | logged j name message => cases message <;> rfl
  | _ => rfl

theorem filterMap_dues_received (w : World α) (id : WatcherId) :
    w.dues.filterMap (Account.accepted? id) = w.received id .accepted ∧
      w.dues.filterMap (Account.refused? id) = w.received id .refused := by
  unfold dues received offers
  rw [List.filterMap_filterMap, List.filterMap_filterMap, List.filter_filterMap,
    List.filter_filterMap, List.map_filterMap, List.map_filterMap]
  constructor
  all_goals
    congr 1
    funext e
    cases e with
    | offered j s reception =>
      by_cases hj : j = id <;> cases reception <;>
        simp [Event.due?, Event.offer?, Account.accepted?, Account.refused?, Option.filter, hj]
    | applied j r outcome =>
      cases outcome <;> rfl
    | ran t active => cases active <;> rfl
    | _ => rfl

theorem filterMap_dues_failed (w : World α) (c : WatcherId) :
    w.dues.filterMap (Account.failed? c) =
      (w.outcomes c).filterMap fun x => x.2.complaint?.map (x.1, ·) := by
  unfold dues outcomes Event.outcomes
  rw [List.filterMap_filterMap, List.filterMap_filterMap]
  congr 1
  funext e
  cases e with
  | offered j s reception => cases reception <;> rfl
  | applied j r outcome =>
    by_cases hj : j = c <;> cases outcome <;>
      simp [Event.due?, Event.outcome?, Account.failed?, Outcome.complaint?, hj]
  | ran t active => cases active <;> rfl
  | _ => rfl

theorem filterMap_dues_told (w : World α) (id : WatcherId) (l : ListenerId) :
    w.dues.filterMap (Account.told? id l) = (Event.runsOf id l w.events).map (·.update) := by
  unfold dues Event.runsOf Event.executions
  rw [List.filterMap_filterMap, List.filter_filterMap, List.map_filterMap, List.map_filterMap]
  congr 1
  funext e
  cases e with
  | offered j s reception => cases reception <;> rfl
  | applied j r outcome => cases outcome <;> rfl
  | ran t active =>
    by_cases ht : t.watcher = id ∧ t.listener = l <;> cases active <;>
      simp [Event.due?, Event.execution?, Account.told?, Task.isFor, Option.filter, ht]
  | _ => rfl

end World

/-! ## Everything is told, or still to be announced -/

namespace Machine

/-- What has been told and what is still to be announced is what was to be told. -/
def Balanced (m : Machine α) : Prop :=
  (m.world.reports ++ m.stack.filterMap Frame.report?).Perm m.world.dues

namespace Balanced

variable {m m' : Machine α}

theorem add (h : m.Balanced) (es : List (Event α)) (fs : List Account)
    (hes : m'.world.events = m.world.events ++ es)
    (hfs : m'.stack.filterMap Frame.report? = fs ++ m.stack.filterMap Frame.report?)
    (hnew : (es.filterMap Event.report? ++ fs).Perm (es.filterMap Event.due?)) : m'.Balanced := by
  unfold Balanced
  rw [World.reports_append hes, World.dues_append hes, hfs]
  refine List.Perm.trans ?_ (h.append hnew)
  rw [List.append_assoc, List.append_assoc, ← List.append_assoc (es.filterMap Event.report?)]
  exact List.perm_append_comm.append_left _

/-- Nothing is to be told of what happened. -/
theorem keep (h : m.Balanced) {es : List (Event α)}
    (hes : m'.world.events = m.world.events ++ es)
    (hmute : ∀ e ∈ es, e.report? = none ∧ e.due? = none)
    (hfs : m'.stack.filterMap Frame.report? = m.stack.filterMap Frame.report?) : m'.Balanced := by
  refine h.add es [] hes hfs ?_
  rw [List.filterMap_eq_nil_iff.mpr fun e he => (hmute e he).1,
    List.filterMap_eq_nil_iff.mpr fun e he => (hmute e he).2]
  exact .refl _

theorem same (h : m.Balanced) (hevents : m'.world.events = m.world.events)
    (hfs : m'.stack.filterMap Frame.report? = m.stack.filterMap Frame.report?) : m'.Balanced :=
  h.keep (hevents.trans (List.append_nil m.world.events).symm) nofun hfs

theorem posting [BEq α] (h : m.Balanced) (hpost : Posting (fun _ => False) m m') :
    m'.Balanced := by
  cases hpost with
  | pass hw hh hpledges =>
    refine h.same (World.events_eq_of_history hh) ?_
    rw [← Frame.filterMap_report?_pledges, hpledges, Frame.filterMap_report?_pledges]
  | lose _ hlost => exact hlost.elim
  | note p he =>
    refine h.keep (World.events_note ..) ?_ rfl
    simpa using ⟨Event.report?_of_isMute he, Event.due?_of_isMute he⟩
  | touch | plant => exact h.same rfl rfl
  | enrol hw hb hcl hj => exact h.same ((World.events_enrol ..).trans hj.events_eq) rfl
  | reserve hw hb hcl hj => exact h.same ((World.events_reserve ..).trans hj.events_eq) rfl
  | unwatch p =>
    exact h.keep (World.events_note ..) (by simp [Event.report?, Event.due?]) rfl
  | drop hw ho hdr hdet =>
    cases hdet with
    | found q name parent =>
      exact h.keep (World.events_note ..) (by simp [Event.report?, Event.due?]) rfl
    | missing => exact h.same rfl rfl
  | close => exact h.same rfl rfl
  | @finish w w' stk c c' id n q name hw hdet =>
    have hclosed : Balanced ⟨w.note q (.logged id name (.closed n)), stk, c'⟩ :=
      h.keep (World.events_note ..) (by simp [Event.report?, Event.due?]) rfl
    cases hdet with
    | found =>
      exact hclosed.keep (World.events_note ..) (by simp [Event.report?, Event.due?]) rfl
    | missing => exact hclosed
  | @refuse w stk c p q name id b s refusal =>
    refine h.add [.offered id s .refused, .logged id name (refusalMessage s refusal)] [] ?_ rfl ?_
    · simp
    · cases refusal <;> exact .refl _
  | @accept w stk c p q name id b s =>
    have haccept : Balanced ⟨(w.note p (.offered id s .accepted)).modify id (·.accept s),
        .waking b.slot.wakers :: .announcing id (b.updates + 1) s b.registry.entries :: stk,
        .proceed⟩ :=
      h.add [.offered id s .accepted] [.accepted id s.revision] (World.events_note ..) rfl
        (.refl _)
    unfold World.adopt
    simp only
    split
    · exact haccept.keep (World.events_note ..) (by simp [Event.report?, Event.due?]) rfl
    · exact haccept
  | @announce w stk c q name id n s ls =>
    have hold : (w.reports ++ Account.accepted id s.revision :: stk.filterMap Frame.report?).Perm
      w.dues := h
    unfold Balanced
    rw [World.reports_append (World.events_note ..), World.dues_append (World.events_note ..)]
    show ((w.reports ++ [Account.accepted id s.revision]) ++ stk.filterMap Frame.report?).Perm
      (w.dues ++ [])
    rw [List.append_nil, List.append_assoc]
    exact hold
  | @fail w stk c p q name id parent l d r outcome error ho hcomplaint =>
    refine h.add [.applied id r outcome, .logged id name (.transformationFailed r error)] []
      ?_ rfl ?_
    · simp
    · have hdue : Event.due? (.applied (α := α) id r outcome) = some (.failed id r error) := by
        simp [Event.due?, hcomplaint]
      rw [List.filterMap_cons_some hdue]
      exact .refl _
  | @run w w' stk frames c t hran =>
    have hframes : (frames ++ stk).filterMap Frame.report? = stk.filterMap Frame.report? := by
      cases hran with
      | inactive | stale => rfl
      | called p q elsewhere hr ha hn hcalls => cases hcalls <;> rfl
    cases hran with
    | inactive p => exact h.keep (World.events_note ..) (by simp [Event.report?, Event.due?]) rfl
    | stale p q name =>
      exact h.add [.ran t true, .logged t.watcher name (.staleDelivery t.listener t.update)] []
        (by simp) rfl (.refl _)
    | @called r p q elsewhere audience =>
      exact h.add [.ran t true, .called audience t elsewhere] [] (by simp) hframes (.refl _)

end Balanced

/-! ## No pledge is lost where no waker panics -/

/-- Only the waking of wakers stands where an update is to be announced. -/
theorem waking_of_stands_announcing {w : World α} {f : Frame α} {stk : List (Frame α)}
    {id : WatcherId} {n : Nat} {s : Latest α} {ls : List ListenerId}
    (h : f.Stands w (.announcing id n s ls :: stk)) : ∃ ws, f = .waking ws := by
  cases f with
  | waking ws => exact ⟨ws, rfl⟩
  | script site todo => cases site <;> simp [Frame.Stands, Frame.OnDelivering] at h
  | _ => simp [Frame.Stands, World.Operable, Frame.OnOffering, Frame.OnRunning, Frame.OnHolding,
      Frame.OnClosing] at h

/-- A panic that is under way has not reached a frame that completes a slot. -/
def Unharmed (m : Machine α) : Prop :=
  ∀ payload f, m.control = .unwind payload → m.stack.head? = some f → f.isCompletion = false

/-- A panic that takes a frame off, and is no waker's, reaches no frame that completes a slot. -/
theorem Unharmed.unwind {w : World α} {f : Frame α} {stk : List (Frame α)} {payload : Payload}
    (h : Unharmed ⟨w, f :: stk, .unwind payload⟩) (hs : w.Stacked (f :: stk))
    (hwaker : wakersCalm ⟨w, f :: stk, .unwind payload⟩ = true) :
    Unharmed ⟨w, stk, .unwind payload⟩ := by
  rintro payload' g - hg
  obtain ⟨stk, rfl⟩ := List.head?_eq_some_iff.mp hg
  have hf : f.isCompletion = false := h payload f rfl rfl
  have hnot : ∀ ws, f ≠ .waking ws := by
    rintro ws rfl
    exact nomatch hf
  cases g with
  | waking ws =>
    obtain ⟨name, todo, rfl⟩ := waker_of_stands hs.1
    exact nomatch hwaker
  | announcing id n s ls =>
    obtain ⟨ws, heq⟩ := waking_of_stands_announcing hs.1
    exact absurd heq (hnot ws)
  | closing id n =>
    obtain ⟨ws, heq⟩ := waking_of_stands hs.1
    exact absurd heq (hnot ws)
  | _ => rfl

variable [BEq α] {P : Machine α → Prop} {m : Machine α}

theorem Reached.unharmed (h : m.Reached P) (hP : ∀ x, P x → x.wakersCalm = true) :
    m.Unharmed := by
  refine (h.invariant (I := Unharmed) nofun ?_ ?_).2
  · intro x x' hx hI hmove
    have hcalm : ∀ {w : World α} {stk : List (Frame α)} {c : Control α}, c.Calm →
        Unharmed ⟨w, stk, c⟩ := fun hc payload _ heq => absurd heq (hc payload)
    cases hmove with
    | raise payload hop =>
      rintro _ f - hf
      obtain ⟨stk, rfl⟩ := List.head?_eq_some_iff.mp hf
      cases f with
      | script => rfl
      | _ => exact hop.elim
    | unwind hlost => exact hI.unwind hx.stacked (hP _ hlost)
    | steer hc | leave hc | enter hc | finish _ _ hc | wake _ hc | announce _ _ hc | skip hc =>
      exact hcalm hc
    | close | accept | fail | suppress | derive | defer => exact hcalm Control.calm_proceed
    | remark | rename | enqueue | dequeue | enlist | drop | plant | enrol | reserve | unwatch | miss
      | rebuff => exact hI
  · rintro x t x' - - ⟨hc, htakes, hran⟩
    exact fun _ _ heq => nomatch heq

omit [BEq α] in
/-- Where no waker panics, what comes next loses no pledge. -/
theorem Unharmed.spares (h : m.Unharmed) : m.MayLose fun _ => False := by
  intro f payload hf hc hpledge
  have hnone := h payload f hc hf
  cases f with
  | announcing | closing => exact nomatch hnone
  | _ => exact nomatch hpledge

theorem Reached.balanced (h : m.Reached P) (hP : ∀ x, P x → x.wakersCalm = true) :
    m.Balanced := by
  induction h with
  | initial => exact .refl _
  | next hreach hx hn ih =>
    exact hn.keeps (P := fun _ => False) hreach.wellFormed (hreach.unharmed hP).spares
      Balanced.posting ih

end Machine

end WatchTree
