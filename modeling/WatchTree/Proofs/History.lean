import WatchTree.World
import Mathlib.Data.List.Basic

/-!
# Reading a history

A history as a list of events, oldest first, and what can be read off it: the states a watcher has
accepted, and for one registration the tasks that were handed to its executor, those that were run
while it was active, and those that its listener was called with.
-/

namespace WatchTree

variable {α : Type}

/-- The task is for this registration. -/
def Task.isFor (t : Task α) (id : WatcherId) (listener : ListenerId) : Prop :=
  t.watcher = id ∧ t.listener = listener

instance (t : Task α) (id : WatcherId) (listener : ListenerId) : Decidable (t.isFor id listener) :=
  inferInstanceAs (Decidable (_ ∧ _))

theorem Task.isFor_self (t : Task α) : t.isFor t.watcher t.listener := ⟨rfl, rfl⟩

/-- It reports no outcome that is accounted for. -/
def Diagnostic.isMute : Diagnostic → Bool
  | registrationIgnored _ | listenerPanicked .. | fetchFailed .. | pollerFinished => true
  | _ => false

namespace Event

/-! ## What an event tells -/

/-- Neither an offer nor anything about a listener or a transformation, and no message that
something calls for. -/
def isIdle : Event α → Bool
  | .did .. | .woken _ | .fetched _ | .paused .. => true
  | .logged _ _ message => message.isMute
  | _ => false

/-- It tells neither that a state was accepted nor anything about a task. -/
def isQuiet : Event α → Bool
  | .offered _ _ .accepted | .handedOver _ | .ran .. | .called .. => false
  | _ => true

theorem isQuiet_of_isIdle {e : Event α} (h : e.isIdle = true) : e.isQuiet = true := by
  cases e <;> first | rfl | exact nomatch h

@[simp] def acceptance? (id : WatcherId) : Event α → Option (Latest α)
  | .offered j s .accepted => if j = id then some s else none
  | _ => none

@[simp] def handover? : Event α → Option (Task α)
  | .handedOver t => some t
  | _ => none

/-- The task that was run, and whether its registration was active. -/
@[simp] def execution? : Event α → Option (Task α × Bool)
  | .ran t active => some (t, active)
  | _ => none

@[simp] def invocation? : Event α → Option (Task α)
  | .called _ t _ => some t
  | _ => none

/-! ## What a list of events tells -/

def accepted (id : WatcherId) (es : List (Event α)) : List (Latest α) :=
  es.filterMap (acceptance? id)

def handovers (es : List (Event α)) : List (Task α) := es.filterMap handover?

def executions (es : List (Event α)) : List (Task α × Bool) := es.filterMap execution?

def invocations (es : List (Event α)) : List (Task α) := es.filterMap invocation?

def handoversTo (id : WatcherId) (listener : ListenerId) (es : List (Event α)) : List (Task α) :=
  (handovers es).filter (·.isFor id listener)

/-- The tasks run for a registration while it was active. -/
def runsOf (id : WatcherId) (listener : ListenerId) (es : List (Event α)) : List (Task α) :=
  ((executions es).filter fun x => x.2 ∧ x.1.isFor id listener).map Prod.fst

/-- The tasks that the listener of a registration was called with. -/
def callsTo (id : WatcherId) (listener : ListenerId) (es : List (Event α)) : List (Task α) :=
  (invocations es).filter (·.isFor id listener)

section Append

variable (id : WatcherId) (listener : ListenerId) (es fs : List (Event α))

theorem accepted_append : accepted id (es ++ fs) = accepted id es ++ accepted id fs :=
  List.filterMap_append

theorem handovers_append : handovers (es ++ fs) = handovers es ++ handovers fs :=
  List.filterMap_append

theorem executions_append : executions (es ++ fs) = executions es ++ executions fs :=
  List.filterMap_append

theorem invocations_append : invocations (es ++ fs) = invocations es ++ invocations fs :=
  List.filterMap_append

theorem callsTo_append :
    callsTo id listener (es ++ fs) = callsTo id listener es ++ callsTo id listener fs := by
  unfold callsTo
  rw [invocations_append, List.filter_append]

end Append

section Quiet

variable {es : List (Event α)} (h : ∀ e ∈ es, e.isQuiet = true)

include h

theorem filterMap_eq_nil_of_quiet {β : Type} {f : Event α → Option β}
    (hf : ∀ e : Event α, e.isQuiet = true → f e = none) : es.filterMap f = [] :=
  List.filterMap_eq_nil_iff.mpr fun e he => hf e (h e he)

theorem accepted_of_quiet (id : WatcherId) : accepted id es = [] :=
  filterMap_eq_nil_of_quiet h fun e he => by
    cases e with
    | offered j s reception => cases reception <;> first | rfl | exact nomatch he
    | _ => rfl

theorem handovers_of_quiet : handovers es = [] :=
  filterMap_eq_nil_of_quiet h fun e he => by cases e <;> first | rfl | exact nomatch he

theorem executions_of_quiet : executions es = [] :=
  filterMap_eq_nil_of_quiet h fun e he => by cases e <;> first | rfl | exact nomatch he

theorem invocations_of_quiet : invocations es = [] :=
  filterMap_eq_nil_of_quiet h fun e he => by cases e <;> first | rfl | exact nomatch he

end Quiet

end Event

/-! ## Maxima -/

/-- The tasks of a list that are newer than all tasks before them, given those before the list. -/
def Task.maximaAfter (before : List (Task α)) : List (Task α) → List (Task α)
  | [] => []
  | t :: ts =>
    if ∀ b ∈ before, b.update < t.update then t :: maximaAfter (before ++ [t]) ts
    else maximaAfter (before ++ [t]) ts

/-- The strict left-to-right maxima of a list of tasks, by the numbers of their updates. -/
def Task.maxima (ts : List (Task α)) : List (Task α) := maximaAfter [] ts

theorem Task.maximaAfter_concat (t : Task α) (ts : List (Task α)) :
    ∀ before, maximaAfter before (ts ++ [t]) = maximaAfter before ts ++
      if ∀ b ∈ before ++ ts, b.update < t.update then [t] else [] := by
  induction ts with
  | nil =>
    intro before
    simp [maximaAfter]
  | cons a ts ih =>
    intro before
    rw [List.cons_append, maximaAfter, maximaAfter, ih, List.append_assoc, List.singleton_append]
    split
    · exact (List.cons_append).symm
    · rfl

theorem Task.maxima_concat (ts : List (Task α)) (t : Task α) :
    maxima (ts ++ [t]) = maxima ts ++ if ∀ b ∈ ts, b.update < t.update then [t] else [] :=
  maximaAfter_concat t ts []

theorem Task.maximaAfter_sublist (ts : List (Task α)) :
    ∀ before, (maximaAfter before ts).Sublist ts := by
  induction ts with
  | nil => exact fun _ => List.Sublist.slnil
  | cons a ts ih =>
    intro before
    rw [maximaAfter]
    split
    · exact (ih _).cons_cons a
    · exact (ih _).cons a

theorem Task.mem_of_mem_maxima {ts : List (Task α)} {t : Task α} (h : t ∈ maxima ts) : t ∈ ts :=
  (maximaAfter_sublist ts []).subset h

/-! ## The events of a world -/

namespace World

/-- The events so far, oldest first. -/
def events (w : World α) : List (Event α) := (w.history.map Entry.event).reverse

/-- A world with one more event. -/
def note (w : World α) (onPoller : Bool) (e : Event α) : World α :=
  { w with history := ⟨onPoller, e⟩ :: w.history }

@[simp] theorem events_note (w : World α) (p : Bool) (e : Event α) :
    (w.note p e).events = w.events ++ [e] := by
  unfold events note
  rw [List.map_cons, List.reverse_cons]

theorem events_eq_of_history {w w' : World α} (h : w'.history = w.history) :
    w'.events = w.events := by unfold events; rw [h]

abbrev accepted (w : World α) (id : WatcherId) : List (Latest α) := Event.accepted id w.events

/-- The tasks that the listener of a registration was called with. -/
abbrev callsTo (w : World α) (id : WatcherId) (listener : ListenerId) : List (Task α) :=
  Event.callsTo id listener w.events

/-- The state is the one that the watcher accepted as this update. -/
def Genuine (w : World α) (id : WatcherId) (update : Nat) (s : Latest α) : Prop :=
  ∃ k, update = k + 1 ∧ (w.accepted id)[k]? = some s

end World

end WatchTree
