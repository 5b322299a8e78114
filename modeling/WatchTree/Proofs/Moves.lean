import WatchTree.Machine.Run
import WatchTree.Proofs.Views
import Mathlib.Logic.Relation

/-!
# Moves

What a machine can do, once for all invariants. `Frame.Stands` says which frame may stand on which
stack and what is known of it there. `Move` lists the elementary changes of a machine in which no
task is run, each with the reason for it and with what is logged about it; `Runs` is the running of
one task, from the moment it is taken from where it was waiting. A turn is a number of moves, at
most one task being run at its end. What leaves out some of the reasons is derived from this list,
case by case.
-/

namespace WatchTree

variable {α : Type}

/-! ## Facts about a world that outlast every step -/

namespace World

/-- Operations may be carried out at this site: if it is a transformation, then it has some. -/
def Licensed (w : World α) : Site → Prop
  | .derivation label => ∃ c p l d, w.origin? c = some (.child p l d) ∧ d.label = label ∧
      ∃ n, d.actions n ≠ []
  | _ => True

/-- The task was handed to an executor that queues. -/
def Queued (w : World α) (t : Task α) : Prop :=
  t ∈ Event.handovers w.events ∧
    ∃ r q, w.registration? t.watcher t.listener = some r ∧ r.executor.disposal = .queue q

/-- The task is for the subscription of this child. -/
def Feeds (w : World α) (t : Task α) (child : WatcherId) : Prop :=
  ∃ d, w.origin? child = some (.child t.watcher t.listener d)

/-- The handles of a root stand for roots. -/
def RootHandles (w : World α) (handles : Bindings Handle) : Prop :=
  ∀ b ∈ handles, b.2.face = .root ∨ b.2.face = .plainRoot → w.IsRoot b.2.target

/-- An operation may begin on this stack. -/
def Operable (w : World α) : List (Frame α) → Prop
  | [] => True
  | .script site _ :: _ => w.Licensed site
  | _ => False

end World

/-! ## Which frame stands where -/

namespace Frame

/-- An operation holds its watcher. -/
def OnHolding : List (Frame α) → Prop
  | holding _ :: _ => True
  | _ => False

/-- Something that may offer a state to a watcher. -/
def OnOffering : List (Frame α) → Prop
  | holding _ :: _ | pushing _ :: _ | calling _ :: _ => True
  | _ => False

/-- A listener is being registered. -/
def OnRegistering : List (Frame α) → Prop
  | watching .. :: _ | constructing .. :: _ => True
  | _ => False

/-- Something that hands tasks to executors. -/
def OnDelivering : List (Frame α) → Prop
  | fanOut .. :: _ | watching .. :: _ | constructing .. :: _ => True
  | _ => False

theorem onDelivering_of_onRegistering : ∀ {stk : List (Frame α)},
    OnRegistering stk → OnDelivering stk
  | watching .. :: _, _ | constructing .. :: _, _ => trivial

/-- Something that runs tasks. -/
def OnRunning : List (Frame α) → Prop
  | script (.executor ..) _ :: _ | draining .. :: _ | picking .. :: _ => True
  | _ => False

/-- Something that wakes the wakers of a slot. -/
def OnCompleting : List (Frame α) → Prop
  | announcing .. :: _ | closing .. :: _ => True
  | _ => False

/-- Something that closes a watcher. -/
def OnClosing : List (Frame α) → Prop
  | holding _ :: _ | ending _ :: _ => True
  | _ => False

/-- What a frame stands on, and what is known while it does. -/
def Stands (w : World α) : Frame α → List (Frame α) → Prop
  | holding _, stk => w.Operable stk
  | script (.observer _) _, stk => ∃ t rest, stk = calling t :: rest
  | script (.derivation label) todo, stk =>
    (∃ c s rest, stk = applying c s :: rest) ∧ (todo ≠ [] → w.Licensed (.derivation label))
  | script (.waker _) _, stk => ∃ ws rest, stk = waking ws :: rest
  | script (.executor ..) _, stk => OnDelivering stk
  | script .fetch _, stk => ∃ p reply rest, stk = fetching p reply :: rest
  | script .elsewhere _, stk => ∃ p rest, stk = polling p :: rest
  | waking _, stk => OnCompleting stk
  | announcing id n s _, stk => w.Genuine id n s ∧ OnOffering stk
  | fanOut id n s _, stk => w.Genuine id n s ∧ OnOffering stk
  | calling t, stk => t ∈ Event.invocations w.events ∧ OnRunning stk
  | applying c s, stk => ∃ t rest, stk = calling t :: rest ∧ t.state = s ∧ w.Feeds t c
  | watching .., stk => OnHolding stk
  | constructing .., stk => OnHolding stk
  | closing .., stk => OnClosing stk
  | draining tasks _, stk => w.Operable stk ∧ ∀ t ∈ tasks, w.Queued t
  | picking .., stk => w.Operable stk
  | polling p, stk => w.IsRoot p.root ∧ OnHolding stk
  | fetching p _, stk => w.IsRoot p.root ∧ OnHolding stk
  | pushing p, stk => w.IsRoot p.root ∧ OnHolding stk
  | ending p, stk => w.IsRoot p.root ∧ OnHolding stk

/-- It can be put on a stack at any time. -/
def isPlain : Frame α → Bool
  | waking _ | announcing .. | fanOut .. | calling _ | applying .. | closing .. => false
  | _ => true

/-- Nothing is lost when it is taken off. -/
def isDone : Frame α → Bool
  | waking (_ :: _) | announcing .. | fanOut _ _ _ (_ :: _) | applying .. | closing .. => false
  | _ => true

end Frame

/-- Every frame stands where it may. -/
def World.Stacked (w : World α) : List (Frame α) → Prop
  | [] => True
  | f :: stk => f.Stands w stk ∧ w.Stacked stk

/-- No panic is under way. -/
def Control.Calm (c : Control α) : Prop := ∀ payload, c ≠ .unwind payload

theorem Control.calm_proceed : (Control.proceed : Control α).Calm := fun _ h => nomatch h

theorem Control.calm_answer (a : Answer α) : (Control.answer a).Calm := fun _ h => nomatch h

/-- Tasks are run as soon as they are handed over. -/
def Disposal.isImmediate : Disposal → Bool
  | .inline | .thread => true
  | _ => false

/-! ## Elementary changes -/

/-- What is logged about the application of a transformation. -/
def Outcome.complaint? : Outcome α → Option String
  | .value _ => none
  | .failed error => some error
  | .panicked payload => some ("transformation panicked: " ++ payload.message)

namespace World

/-- A watcher does not accept a state, and says so unless it is closed: the world after. -/
inductive Rebuffs [BEq α] (w : World α) (id : WatcherId) (b : Watcher α) (s : Latest α) :
    Reception → World α → Prop
  | closed (p : Bool) : b.closed = true →
      Rebuffs w id b s .watcherClosed (w.note p (.offered id s .watcherClosed))
  | refused (p q : Bool) (name : String) {refusal : Watcher.Refusal} : b.closed = false →
      b.refusal s = some refusal →
      Rebuffs w id b s .refused ((w.note p (.offered id s .refused)).note q
        (.logged id name (Machine.refusalMessage s refusal)))

/-- The subscription of a watcher is taken out of its parent's registry, which is logged, if it is
still there: the world after. -/
inductive Detaches (w : World α) (id : WatcherId) (message : String → Diagnostic) :
    World α → Prop
  | found {p : WatcherId} {l : ListenerId} {d : Derivation α} (q : Bool) (name parent : String) :
      w.origin? id = some (.child p l d) → w.isRegistered p l = true →
      Detaches w id message ((w.unregister p l).note q (.logged id name (message parent)))
  | missing : (∀ p l d, w.origin? id = some (.child p l d) → w.isRegistered p l = false) →
      Detaches w id message w

/-- A world in which a watcher has accepted a state. -/
def adopt (w : World α) (p q : Bool) (name : String) (id : WatcherId) (b : Watcher α)
    (s : Latest α) : World α :=
  let w' := (w.note p (.offered id s .accepted)).modify id (·.accept s)
  if b.slot.isPending then w'.note q (.logged id name (.initialized s.revision)) else w'

/-- A listener joins a watcher: a child that does so is there before its subscription. -/
inductive Joins (w : World α) (id : WatcherId) (b : Watcher α) :
    Listener α → Executor α → World α → Prop
  | observer (label : Name) (valueOnly : Bool) (actions : Actions α) (executor : Executor α) :
      Joins w id b (.observer label valueOnly actions) executor w
  | child (name : String) (d : Derivation α) :
      Joins w id b (.subscription w.watchers.length) ⟨.inline, fun _ => []⟩
        (w.addWatcher { name, origin := .child id b.registry.nextId d })

namespace Joins

variable {w w' : World α} {id : WatcherId} {b : Watcher α} {listener : Listener α}
  {executor : Executor α} (h : w.Joins id b listener executor w')

include h

theorem watcher?_eq {j : WatcherId} {a : Watcher α} (ha : w.watcher? j = some a) :
    w'.watcher? j = some a := by
  cases h with
  | observer => exact ha
  | child name d =>
    rw [watcher?_addWatcher, if_neg]
    · exact ha
    · rintro rfl
      rw [watcher?_length] at ha
      exact nomatch ha

theorem sound (hw : w.SoundRegistries) : w'.SoundRegistries := by
  cases h with
  | observer => exact hw
  | child name d =>
    intro j a ha
    rw [watcher?_addWatcher] at ha
    split at ha
    · rw [← Option.some.inj ha]
      exact .empty
    · exact hw j a ha

theorem updates_eq (j : WatcherId) : w'.updates j = w.updates j := by
  cases h with
  | observer => rfl
  | child name d => exact updates_addWatcher _ _ _ rfl

theorem latest?_eq (j : WatcherId) : w'.latest? j = w.latest? j := by
  cases h with
  | observer => rfl
  | child name d => exact latest?_addWatcher _ _ _ rfl

theorem isClosed_eq (j : WatcherId) : w'.isClosed j = w.isClosed j := by
  cases h with
  | observer => rfl
  | child name d => exact isClosed_addWatcher _ _ _ rfl

theorem lastId_eq (j : WatcherId) : w'.lastId j = w.lastId j := by
  cases h with
  | observer => rfl
  | child name d => exact lastId_addWatcher _ _ _ rfl

theorem registration?_eq (j : WatcherId) (l : ListenerId) :
    w'.registration? j l = w.registration? j l := by
  cases h with
  | observer => rfl
  | child name d => exact registration?_addWatcher _ _ _ rfl l

theorem events_eq : w'.events = w.events := by
  cases h with
  | observer => rfl
  | child name d => rfl

theorem origin?_mono {c : WatcherId} {o : Origin α} (ho : w.origin? c = some o) :
    w'.origin? c = some o := by
  obtain ⟨a, ha, rfl⟩ := exists_watcher?_of_origin? ho
  exact origin?_of_watcher? (h.watcher?_eq ha)

/-- Nothing changes in the tree but that a new child may hang below the watcher, whose next id is
its subscription. -/
theorem origin?_eq_or {c : WatcherId} {o : Origin α} (ho : w'.origin? c = some o) :
    w.origin? c = some o ∨ listener = .subscription c ∧ executor.disposal = .inline ∧
      c = w.watchers.length ∧ ∃ d, o = .child id b.registry.nextId d := by
  cases h with
  | observer => exact .inl ho
  | child name d =>
    rw [origin?_addWatcher] at ho
    split at ho
    · rename_i hc
      subst hc
      exact .inr ⟨rfl, rfl, rfl, d, (Option.some.inj ho).symm⟩
    · exact .inl ho

/-- A new subscription is that of a child. -/
theorem origin?_subscription {c : WatcherId} (hl : listener = .subscription c) :
    ∃ d, w'.origin? c = some (.child id b.registry.nextId d) := by
  cases h with
  | observer => exact nomatch hl
  | child name d =>
    cases hl
    refine ⟨d, ?_⟩
    rw [origin?_addWatcher, if_pos rfl]

end Joins

/-- A task is handed to the executor of its registration, in a fan-out or as the replay for a new
registration: the world and the stack before and after. -/
inductive Dispatches (w : World α) : List (Frame α) → Task α → World α → List (Frame α) → Prop
  | spread {id : WatcherId} {n : Nat} {s : Latest α} {l : ListenerId} {ls : List ListenerId}
      {stk : List (Frame α)} {r : Registration α} (p : Bool) (todo : List (Op α)) :
      w.registration? id l = some r → r.active = true →
      Dispatches w (.fanOut id n s (l :: ls) :: stk) ⟨id, l, n, s⟩ (w.handOver p ⟨id, l, n, s⟩)
        (.script (.executor id l) todo :: .fanOut id n s ls :: stk)
  | replay {id : WatcherId} {b : Watcher α} {s : Latest α} {listener : Listener α}
      {executor : Executor α} {w' : World α} {stk : List (Frame α)} (p : Bool)
      (todo : List (Op α)) :
      w.watcher? id = some b → b.closed = false → b.latest = some s →
      w.Joins id b listener executor w' → Frame.OnRegistering stk →
      Dispatches w stk ⟨id, b.registry.nextId, b.updates, s⟩
        ((w'.enrol id listener executor).handOver p ⟨id, b.registry.nextId, b.updates, s⟩)
        (.script (.executor id b.registry.nextId) todo :: stk)

end World

/-- An elementary change of a machine in which no task is run. Where a panic takes a frame off, or a
child accepts a value, the machine satisfies `P`. -/
inductive Move [BEq α] (P : Machine α → Prop) : Machine α → Machine α → Prop
  /-- The control passes on. -/
  | steer {w : World α} {stk : List (Frame α)} {c c' : Control α} :
      c'.Calm → Move P ⟨w, stk, c⟩ ⟨w, stk, c'⟩
  /-- An operation panics. -/
  | raise {w : World α} {stk : List (Frame α)} {c : Control α} (payload : Payload) :
      w.Operable stk → Move P ⟨w, stk, c⟩ ⟨w, stk, .unwind payload⟩
  /-- A panic takes a frame off. -/
  | unwind {w : World α} {f : Frame α} {stk : List (Frame α)} {payload : Payload} :
      P ⟨w, f :: stk, .unwind payload⟩ →
      Move P ⟨w, f :: stk, .unwind payload⟩ ⟨w, stk, .unwind payload⟩
  /-- A frame is taken off. -/
  | leave {w : World α} {f : Frame α} {stk : List (Frame α)} {c : Control α} :
      c.Calm → f.isDone = true → Move P ⟨w, f :: stk, c⟩ ⟨w, stk, c⟩
  /-- A frame is put on. -/
  | enter {w : World α} {f : Frame α} {stk : List (Frame α)} {c : Control α} :
      c.Calm → f.isPlain = true → f.Stands w stk → Move P ⟨w, stk, c⟩ ⟨w, f :: stk, c⟩
  /-- Something without consequences is recorded. -/
  | remark {w : World α} {stk : List (Frame α)} {c : Control α} (p : Bool) {e : Event α} :
      e.isIdle = true → Move P ⟨w, stk, c⟩ ⟨w.note p e, stk, c⟩
  /-- Names change their meaning. -/
  | rename {w w' : World α} {stk : List (Frame α)} {c : Control α} :
      w'.watchers = w.watchers → w'.queues = w.queues → w'.history = w.history →
      w.RootHandles w'.handles →
      Move P ⟨w, stk, c⟩ ⟨w', stk, c⟩
  /-- A task is appended to a queue. -/
  | enqueue {w : World α} {stk : List (Frame α)} {c : Control α} (name : Name) {t : Task α} :
      w.Queued t → Move P ⟨w, stk, c⟩ ⟨w.setQueue name (w.queue name ++ [t]), stk, c⟩
  /-- Tasks are taken out of a queue. -/
  | dequeue {w : World α} {stk : List (Frame α)} {c : Control α} (name : Name)
      {ts : List (Task α)} :
      ts ⊆ w.queue name → Move P ⟨w, stk, c⟩ ⟨w.setQueue name ts, stk, c⟩
  /-- A waker is left in a pending slot. -/
  | enlist {w : World α} {stk : List (Frame α)} {c : Control α} {id : WatcherId} {b : Watcher α}
      (p : Bool) (waker : Name) :
      w.watcher? id = some b → b.slot.isPending = true →
      Move P ⟨w, stk, c⟩
        ⟨(w.note p (.enlisted id waker)).modify id fun b => { b with slot := b.slot.enlist waker },
          stk, c⟩
  /-- A child is dropped. -/
  | drop {w w' : World α} {stk : List (Frame α)} {c : Control α} {id p : WatcherId}
      {l : ListenerId} {d : Derivation α} :
      w.origin? id = some (.child p l d) → w.isDropped id = false →
      (w.modify id fun b => { b with dropped := true }).Detaches id .droppedUnclosed w' →
      Move P ⟨w, stk, c⟩ ⟨w', stk, c⟩
  /-- A root is made. -/
  | plant {w : World α} {stk : List (Frame α)} {c : Control α} (name : String) :
      Move P ⟨w, stk, c⟩ ⟨w.addWatcher { name, origin := .root }, stk, c⟩
  /-- A listener is registered before there is anything to tell it. -/
  | enrol {w w' : World α} {stk : List (Frame α)} {c : Control α} {id : WatcherId} {b : Watcher α}
      {listener : Listener α} {executor : Executor α} :
      w.watcher? id = some b → b.closed = false → b.latest = none →
      w.Joins id b listener executor w' →
      Move P ⟨w, stk, c⟩ ⟨w'.enrol id listener executor, stk, c⟩
  /-- A listener comes to a closed watcher. -/
  | reserve {w w' : World α} {stk : List (Frame α)} {c : Control α} {id : WatcherId}
      {b : Watcher α} {listener : Listener α} {executor : Executor α} :
      w.watcher? id = some b → b.closed = true → w.Joins id b listener executor w' →
      Move P ⟨w, stk, c⟩ ⟨w'.reserve id, stk, c⟩
  /-- A listener is taken out of its registry. -/
  | unwatch {w : World α} {stk : List (Frame α)} {c : Control α} (p : Bool) {id : WatcherId}
      {l : ListenerId} :
      w.isRegistered id l = true →
      Move P ⟨w, stk, c⟩ ⟨(w.note p (.unwatched id l true)).unregister id l, stk, c⟩
  /-- A listener to be taken out is not there. -/
  | miss {w : World α} {stk : List (Frame α)} {c : Control α} (p : Bool) {id : WatcherId}
      {l : ListenerId} :
      w.isRegistered id l = false →
      Move P ⟨w, stk, c⟩ ⟨w.note p (.unwatched id l false), stk, c⟩
  /-- A close begins. -/
  | close {w : World α} {stk : List (Frame α)} {c : Control α} {id : WatcherId} {b : Watcher α} :
      c.Calm → w.watcher? id = some b → b.closed = false → Frame.OnClosing stk →
      Move P ⟨w, stk, c⟩
        ⟨w.modify id Watcher.close,
          .waking b.slot.wakers :: .closing id b.registry.entries.length :: stk, .proceed⟩
  /-- A close ends. -/
  | finish {w w' : World α} {stk : List (Frame α)} {c : Control α} {id : WatcherId} {n : Nat}
      (q : Bool) (name : String) :
      c.Calm → (w.note q (.logged id name (.closed n))).Detaches id .detached w' →
      Move P ⟨w, .closing id n :: stk, c⟩ ⟨w', stk, c⟩
  /-- A waker is woken. -/
  | wake {w : World α} {stk : List (Frame α)} {c : Control α} (p : Bool) {waker : Name}
      {rest : List Name} :
      c.Calm → Move P ⟨w, .waking (waker :: rest) :: stk, c⟩
        ⟨w.note p (.woken waker), .waking rest :: stk, c⟩
  /-- A root does not accept a state. -/
  | rebuff {w w' : World α} {stk : List (Frame α)} {c : Control α} {id : WatcherId}
      {b : Watcher α} {s : Latest α} {reception : Reception} :
      w.watcher? id = some b → b.origin = .root → w.Rebuffs id b s reception w' →
      Move P ⟨w, stk, c⟩ ⟨w', stk, c⟩
  /-- A root accepts a state. -/
  | accept {w : World α} {stk : List (Frame α)} {c : Control α} (p q : Bool) (name : String)
      {id : WatcherId} {b : Watcher α} {s : Latest α} :
      c.Calm → w.watcher? id = some b → b.origin = .root → b.closed = false →
      b.refusal s = none → Frame.OnOffering stk →
      Move P ⟨w, stk, c⟩
        ⟨w.adopt p q name id b s,
          .waking b.slot.wakers :: .announcing id (b.updates + 1) s b.registry.entries :: stk,
          .proceed⟩
  /-- A transformation gives no value. -/
  | fail {w : World α} {stk : List (Frame α)} {c : Control α} (p q : Bool) (name : String)
      {id parent : WatcherId} {s : Latest α} {l : ListenerId} {d : Derivation α}
      {outcome : Outcome α} {error : String} :
      w.origin? id = some (.child parent l d) →
      (c.Calm ∧ outcome = d.apply s.value ∨
        ∃ payload, c = .unwind payload ∧ outcome = .panicked payload) →
      outcome.complaint? = some error →
      Move P ⟨w, .applying id s :: stk, c⟩
        ⟨(w.note p (.applied id s.revision outcome)).note q
          (.logged id name (.transformationFailed s.revision error)), stk, .proceed⟩
  /-- A child does not accept its transformation's value. -/
  | suppress {w w' : World α} {stk : List (Frame α)} {c : Control α} (p : Bool)
      {id parent : WatcherId} {b : Watcher α} {s : Latest α} {l : ListenerId} {d : Derivation α}
      {y : α} {reception : Reception} :
      c.Calm → w.watcher? id = some b → b.origin = .child parent l d →
      d.apply s.value = .value y →
      (w.note p (.applied id s.revision (.value y))).Rebuffs id b ⟨s.revision, y⟩ reception w' →
      Move P ⟨w, .applying id s :: stk, c⟩ ⟨w', stk, .proceed⟩
  /-- A child accepts its transformation's value. -/
  | derive {w : World α} {stk : List (Frame α)} {c : Control α} (o p q : Bool) (name : String)
      {id parent : WatcherId} {b : Watcher α} {s : Latest α} {l : ListenerId} {d : Derivation α}
      {y : α} :
      P ⟨w, .applying id s :: stk, c⟩ →
      c.Calm → w.watcher? id = some b → b.origin = .child parent l d →
      d.apply s.value = .value y → b.closed = false → b.refusal ⟨s.revision, y⟩ = none →
      Move P ⟨w, .applying id s :: stk, c⟩
        ⟨(w.note o (.applied id s.revision (.value y))).adopt p q name id b ⟨s.revision, y⟩,
          .waking b.slot.wakers ::
            .announcing id (b.updates + 1) ⟨s.revision, y⟩ b.registry.entries :: stk,
          .proceed⟩
  /-- The wakers have been woken, and the listeners' turn comes. -/
  | announce {w : World α} {stk : List (Frame α)} {c : Control α} (q : Bool) (name : String)
      {id : WatcherId} {n : Nat} {s : Latest α} {ls : List ListenerId} :
      c.Calm → Move P ⟨w, .announcing id n s ls :: stk, c⟩
        ⟨w.note q (.logged id name (.acceptedUpdate s.revision ls.length)),
          .fanOut id n s ls :: stk, c⟩
  /-- A listener that has left in the meantime is passed over. -/
  | skip {w : World α} {stk : List (Frame α)} {c : Control α} {id : WatcherId} {n : Nat}
      {s : Latest α} {l : ListenerId} {ls : List ListenerId} :
      c.Calm → (∀ r, w.registration? id l = some r → r.active = false) →
      Move P ⟨w, .fanOut id n s (l :: ls) :: stk, c⟩ ⟨w, .fanOut id n s ls :: stk, c⟩
  /-- A task is handed over without being run. -/
  | defer {w w' : World α} {stk stk' : List (Frame α)} {c : Control α} {t : Task α}
      {r : Registration α} :
      c.Calm → w.Dispatches stk t w' stk' →
      w'.registration? t.watcher t.listener = some r → r.executor.disposal.isImmediate = false →
      Move P ⟨w, stk, c⟩ ⟨w', stk', .proceed⟩

/-! ## Running a task -/

namespace World

/-- A task is taken from where it was waiting, to be run: the world and the stack before and
after. -/
inductive Takes (w : World α) : List (Frame α) → Task α → World α → List (Frame α) → Prop
  | dispatched {stk stk' : List (Frame α)} {t : Task α} {w' : World α} :
      w.Dispatches stk t w' stk' → Takes w stk t w' stk'
  | drained {stk : List (Frame α)} {t : Task α} {ts : List (Task α)} {k : Nat} :
      w.Queued t → Takes w (.draining (t :: ts) k :: stk) t w (.draining ts (k + 1) :: stk)
  | picked {stk : List (Frame α)} {t : Task α} {q : Name} {i k : Nat} {is : List Nat} :
      w.Queued t → Takes w (.picking q (i :: is) k :: stk) t w (.picking q is (k + 1) :: stk)

/-- Who is called with a task, and the frames that do it. -/
inductive Calls (w : World α) (t : Task α) (r : Registration α) :
    Audience → List (Frame α) → Prop
  | observer {label : Name} {valueOnly : Bool} {actions : Actions α} :
      r.listener = .observer label valueOnly actions →
      Calls w t r (.observer label valueOnly)
        [.script (.observer label) (actions (r.calls + 1)), .calling t]
  | child {child : WatcherId} {d : Derivation α} :
      r.listener = .subscription child →
      w.origin? child = some (.child t.watcher t.listener d) →
      Calls w t r (.child child)
        [.script (.derivation d.label) (d.actions (r.calls + 1)), .applying child t.state,
          .calling t]

/-- A task that has been taken is run: the world before and after, and the frames that carry the
call if it leads to one. -/
inductive Ran (w : World α) (t : Task α) : World α → List (Frame α) → Prop
  | inactive {r : Registration α} (p : Bool) :
      w.registration? t.watcher t.listener = some r → r.active = false →
      Ran w t (w.note p (.ran t false)) []
  | stale {r : Registration α} (p q : Bool) (name : String) :
      w.registration? t.watcher t.listener = some r → r.active = true → t.update ≤ r.delivered →
      Ran w t ((w.note p (.ran t true)).note q
        (.logged t.watcher name (.staleDelivery t.listener t.update))) []
  | called {r : Registration α} (p q elsewhere : Bool) {audience : Audience}
      {frames : List (Frame α)} :
      w.registration? t.watcher t.listener = some r → r.active = true → r.delivered < t.update →
      w.Calls t r audience frames →
      Ran w t (((w.note p (.ran t true)).tell t).note q (.called audience t elsewhere)) frames

end World

/-- The running of a task. -/
inductive Runs : Machine α → Task α → Machine α → Prop
  | mk {w w' w'' : World α} {stk stk' frames : List (Frame α)} {c : Control α} {t : Task α} :
      c.Calm → w.Takes stk t w' stk' → w'.Ran t w'' frames →
      Runs ⟨w, stk, c⟩ t ⟨w'', frames ++ stk', .proceed⟩

/-- A number of moves, and then perhaps the running of a task. -/
def Turn [BEq α] (P : Machine α → Prop) (m m' : Machine α) : Prop :=
  ∃ m₁, Relation.ReflTransGen (Move P) m m₁ ∧ (m' = m₁ ∨ ∃ t, Runs m₁ t m')

end WatchTree
