import WatchTree.Proofs.Reachability

/-!
# What is written down

Moves and runs in terms of what the log says about them. A `Machine.Posting` forgets what is known
of control, frames and handles: what calls for a message comes together with the message, except
that an accepted update is announced after its wakers and that a close ends after them. The frames
that wait for that are pledges. A panic can lose a pledge; where it does, the machine satisfies `P`.
Every move and every run is a number of postings (`Move.posts`, `Runs.posts`).
-/

namespace WatchTree

variable {α : Type}

open Relation

/-! ## Messages that nothing calls for -/

/-- It calls for no message and is no message that something calls for. -/
def Event.isMute : Event α → Bool
  | .logged _ _ message => message.isMute
  | .offered _ _ reception => decide (reception = .watcherClosed)
  | .applied _ _ (.value _) => true
  | .unwatched _ _ found => !found
  | .called .. | .ran .. | .applied .. => false
  | _ => true

theorem Event.isMute_of_isIdle {e : Event α} (h : e.isIdle = true) : e.isMute = true := by
  cases e <;> first | exact h | exact nomatch h

namespace Frame

/-- A message is to come. -/
def isPledge : Frame α → Bool
  | announcing .. | closing .. => true
  | _ => false

def pledges (stk : List (Frame α)) : List (Frame α) := stk.filter isPledge

theorem pledges_cons {f : Frame α} (h : f.isPledge = false) (stk : List (Frame α)) :
    pledges (f :: stk) = pledges stk := List.filter_cons_of_neg (by simp [h])

theorem isPledge_of_isPlain {f : Frame α} (h : f.isPlain = true) : f.isPledge = false := by
  cases f <;> first | rfl | exact nomatch h

theorem isPledge_of_isDone {f : Frame α} (h : f.isDone = true) : f.isPledge = false := by
  cases f <;> first | rfl | exact nomatch h

end Frame

open WatchTree.Frame

/-! ## Elementary changes -/

/-- An elementary change of a machine, with what is logged about it. -/
inductive Machine.Posting [BEq α] (P : Machine α → Prop) : Machine α → Machine α → Prop
  /-- Control, names, queues and frames that are no pledges. -/
  | pass {w w' : World α} {stk stk' : List (Frame α)} {c c' : Control α} :
      w'.watchers = w.watchers → w'.history = w.history → pledges stk' = pledges stk →
      Posting P ⟨w, stk, c⟩ ⟨w', stk', c'⟩
  /-- A panic takes a pledge off. -/
  | lose {w : World α} {f : Frame α} {stk : List (Frame α)} {payload : Payload} :
      f.isPledge = true → P ⟨w, f :: stk, .unwind payload⟩ →
      Posting P ⟨w, f :: stk, .unwind payload⟩ ⟨w, stk, .unwind payload⟩
  | note {w : World α} {stk : List (Frame α)} {c : Control α} (p : Bool) {e : Event α} :
      e.isMute = true → Posting P ⟨w, stk, c⟩ ⟨w.note p e, stk, c⟩
  /-- What a registration has been told, or who waits for a first value. -/
  | touch {w : World α} {stk : List (Frame α)} {c : Control α} (id : WatcherId)
      {f : Watcher α → Watcher α} :
      (∀ b, (f b).origin = b.origin) → (∀ b, (f b).closed = b.closed) →
      (∀ b, (f b).dropped = b.dropped) → (∀ b, (f b).slot.first? = b.slot.first?) →
      (∀ b, (f b).registry.entries = b.registry.entries) →
      (∀ b, (f b).registry.lastId = b.registry.lastId) →
      Posting P ⟨w, stk, c⟩ ⟨w.modify id f, stk, c⟩
  /-- A root is made. -/
  | plant {w : World α} {stk : List (Frame α)} {c : Control α} (name : String) :
      Posting P ⟨w, stk, c⟩ ⟨w.addWatcher { name, origin := .root }, stk, c⟩
  /-- A listener is registered. -/
  | enrol {w w' : World α} {stk : List (Frame α)} {c : Control α} {id : WatcherId} {b : Watcher α}
      {listener : Listener α} {executor : Executor α} :
      w.Ledger → w.watcher? id = some b → b.closed = false → w.Joins id b listener executor w' →
      Posting P ⟨w, stk, c⟩ ⟨w'.enrol id listener executor, stk, c⟩
  /-- A listener comes to a closed watcher. -/
  | reserve {w w' : World α} {stk : List (Frame α)} {c : Control α} {id : WatcherId}
      {b : Watcher α} {listener : Listener α} {executor : Executor α} :
      w.Ledger → w.watcher? id = some b → b.closed = true → w.Joins id b listener executor w' →
      Posting P ⟨w, stk, c⟩ ⟨w'.reserve id, stk, c⟩
  /-- A listener is taken out of its registry. -/
  | unwatch {w : World α} {stk : List (Frame α)} {c : Control α} (p : Bool) {id : WatcherId}
      {l : ListenerId} :
      w.Ledger → w.isRegistered id l = true →
      Posting P ⟨w, stk, c⟩ ⟨(w.note p (.unwatched id l true)).unregister id l, stk, c⟩
  /-- A child is dropped. -/
  | drop {w w' : World α} {stk : List (Frame α)} {c : Control α} {id p : WatcherId}
      {l : ListenerId} {d : Derivation α} :
      w.Ledger → w.origin? id = some (.child p l d) → w.isDropped id = false →
      (w.modify id fun b => { b with dropped := true }).Detaches id .droppedUnclosed w' →
      Posting P ⟨w, stk, c⟩ ⟨w', stk, c⟩
  /-- A close begins. -/
  | close {w : World α} {stk : List (Frame α)} {c : Control α} {id : WatcherId} {b : Watcher α} :
      w.Ledger → w.watcher? id = some b → b.closed = false →
      Posting P ⟨w, stk, c⟩
        ⟨w.modify id Watcher.close,
          .waking b.slot.wakers :: .closing id b.registry.entries.length :: stk, .proceed⟩
  /-- A close ends. -/
  | finish {w w' : World α} {stk : List (Frame α)} {c c' : Control α} {id : WatcherId} {n : Nat}
      (q : Bool) (name : String) :
      w.Ledger → (w.note q (.logged id name (.closed n))).Detaches id .detached w' →
      Posting P ⟨w, .closing id n :: stk, c⟩ ⟨w', stk, c'⟩
  /-- A state is refused. -/
  | refuse {w : World α} {stk : List (Frame α)} {c : Control α} (p q : Bool) (name : String)
      {id : WatcherId} {b : Watcher α} {s : Latest α} {refusal : Watcher.Refusal} :
      w.watcher? id = some b → b.closed = false → b.refusal s = some refusal →
      Posting P ⟨w, stk, c⟩
        ⟨(w.note p (.offered id s .refused)).note q
          (.logged id name (refusalMessage s refusal)), stk, c⟩
  /-- A state is accepted. -/
  | accept {w : World α} {stk : List (Frame α)} {c : Control α} (p q : Bool) (name : String)
      {id : WatcherId} {b : Watcher α} {s : Latest α} :
      w.watcher? id = some b → b.closed = false → b.refusal s = none →
      Posting P ⟨w, stk, c⟩
        ⟨w.adopt p q name id b s,
          .waking b.slot.wakers :: .announcing id (b.updates + 1) s b.registry.entries :: stk,
          .proceed⟩
  /-- An accepted update is announced. -/
  | announce {w : World α} {stk : List (Frame α)} {c : Control α} (q : Bool) (name : String)
      {id : WatcherId} {n : Nat} {s : Latest α} {ls : List ListenerId} :
      Posting P ⟨w, .announcing id n s ls :: stk, c⟩
        ⟨w.note q (.logged id name (.acceptedUpdate s.revision ls.length)),
          .fanOut id n s ls :: stk, .proceed⟩
  /-- A transformation gives no value. -/
  | fail {w : World α} {stk : List (Frame α)} {c : Control α} (p q : Bool) (name : String)
      {id parent : WatcherId} {l : ListenerId} {d : Derivation α} {r : Revision}
      {outcome : Outcome α} {error : String} :
      w.origin? id = some (.child parent l d) → outcome.complaint? = some error →
      Posting P ⟨w, stk, c⟩
        ⟨(w.note p (.applied id r outcome)).note q
          (.logged id name (.transformationFailed r error)), stk, c⟩
  /-- A task is run. -/
  | run {w w' : World α} {stk frames : List (Frame α)} {c : Control α} {t : Task α} :
      w.Ran t w' frames → Posting P ⟨w, stk, c⟩ ⟨w', frames ++ stk, .proceed⟩

/-! ## Moves and runs -/

/-- `P` holds if a panic is about to take a pledge off. -/
def Machine.MayLose (P : Machine α → Prop) (m : Machine α) : Prop :=
  ∀ f payload, m.stack.head? = some f → m.control = .unwind payload → f.isPledge = true → P m

section Posts

open Machine (Posting MayLose)

variable [BEq α] {P : Machine α → Prop} {m m' : Machine α} {w w' : World α}
  {stk stk' : List (Frame α)} {c c' : Control α} {t : Task α}

/-- Handing a task over is recorded, and counted. -/
theorem World.handOver_posts (p : Bool) (t : Task α) :
    ReflTransGen (Posting P) ⟨w, stk, c⟩ ⟨w.handOver p t, stk, c⟩ :=
  .tail (.single (.note p rfl)) (.touch t.watcher (fun _ => rfl) (fun _ => rfl) (fun _ => rfl)
    (fun _ => rfl) (fun _ => rfl) fun _ => rfl)

theorem World.Dispatches.posts (hw : w.Ledger) (h : w.Dispatches stk t w' stk') :
    ReflTransGen (Posting P) ⟨w, stk, c⟩ ⟨w', stk', c'⟩ := by
  cases h with
  | spread p todo hr ha => exact (World.handOver_posts p _).tail (.pass rfl rfl rfl)
  | replay p todo hb hcl hl hj hreg =>
    have henrol : ReflTransGen (Posting P) ⟨w, stk, c⟩ ⟨_, stk, c⟩ := .single (.enrol hw hb hcl hj)
    exact (henrol.trans (World.handOver_posts p _)).tail (.pass rfl rfl rfl)

theorem World.Rebuffs.posting {id : WatcherId} {b : Watcher α} {s : Latest α}
    {reception : Reception} (hb : w.watcher? id = some b) (h : w.Rebuffs id b s reception w') :
    Posting P ⟨w, stk, c⟩ ⟨w', stk, c⟩ := by
  cases h with
  | closed p hcl => exact .note p rfl
  | refused p q name hcl hr => exact .refuse p q name hb hcl hr

theorem Move.posts (hm : m.WellFormed) (h : Move (MayLose P) m m') :
    ReflTransGen (Posting P) m m' := by
  have hw : m.world.Ledger := hm.ledger
  cases h with
  | steer | raise | enqueue | dequeue | skip => exact .single (.pass rfl rfl rfl)
  | @unwind w f stk payload hlost =>
    cases hf : f.isPledge with
    | true => exact .single (.lose hf (hlost f payload rfl rfl hf))
    | false => exact .single (.pass rfl rfl (Frame.pledges_cons hf stk).symm)
  | leave hc hf =>
    exact .single (.pass rfl rfl (Frame.pledges_cons (Frame.isPledge_of_isDone hf) _).symm)
  | enter hc hf hs =>
    exact .single (.pass rfl rfl (Frame.pledges_cons (Frame.isPledge_of_isPlain hf) _))
  | remark p he => exact .single (.note p (Event.isMute_of_isIdle he))
  | rename hwatchers hq hhistory hr => exact .single (.pass hwatchers hhistory rfl)
  | @enlist w stk c id b p waker hb hp =>
    have hfirst : ∀ b : Watcher α, (b.slot.enlist waker).first? = b.slot.first? := fun b => by
      cases b.slot <;> rfl
    exact .tail (.single (.note p rfl)) (.touch id (fun _ => rfl) (fun _ => rfl) (fun _ => rfl)
      hfirst (fun _ => rfl) fun _ => rfl)
  | drop ho hdropped hdetaches => exact .single (.drop hw ho hdropped hdetaches)
  | plant name => exact .single (.plant name)
  | enrol hb hcl hl hj => exact .single (.enrol hw hb hcl hj)
  | reserve hb hcl hj => exact .single (.reserve hw hb hcl hj)
  | unwatch p hr => exact .single (.unwatch p hw hr)
  | miss p hr => exact .single (.note p rfl)
  | close hc hb hcl hs => exact .single (.close hw hb hcl)
  | finish q name hc hdetaches => exact .single (.finish q name hw hdetaches)
  | wake p hc => exact .tail (.single (.note p rfl)) (.pass rfl rfl rfl)
  | rebuff hb ho hr => exact .single (hr.posting hb)
  | accept p q name hc hb ho hcl hr hs => exact .single (.accept p q name hb hcl hr)
  | @fail w stk c p q name id parent s l d outcome error ho hout hcomplaint =>
    have hpopped : Posting P ⟨w, .applying id s :: stk, c⟩ ⟨w, stk, .proceed⟩ := .pass rfl rfl rfl
    exact .head hpopped (.single (.fail p q name ho hcomplaint))
  | @suppress w w' stk c p id parent b s l d y reception hc hb ho hy hr =>
    have hpopped : Posting P ⟨w, .applying id s :: stk, c⟩ ⟨w, stk, .proceed⟩ := .pass rfl rfl rfl
    exact .head hpopped (.tail (.single (.note p rfl)) (hr.posting hb))
  | @derive w stk c o p q name id parent b s l d y hok hc hb ho hy hcl hr =>
    have hpopped : Posting P ⟨w, .applying id s :: stk, c⟩ ⟨w, stk, .proceed⟩ := .pass rfl rfl rfl
    exact .head hpopped (.tail (.single (.note o rfl)) (.accept p q name hb hcl hr))
  | announce q name hc => exact .tail (.single (.announce q name)) (.pass rfl rfl rfl)
  | defer hc hd hr hi => exact hd.posts hw

theorem Runs.posts (hm : m.WellFormed) (h : Runs m t m') : ReflTransGen (Posting P) m m' := by
  cases h with
  | @mk w w' w'' stk stk' frames c t hc ht hr =>
    have htaken : ReflTransGen (Posting P) ⟨w, stk, c⟩ ⟨w', stk', c⟩ := by
      cases ht with
      | dispatched hd => exact hd.posts hm.ledger
      | drained | picked => exact .single (.pass rfl rfl rfl)
    exact htaken.tail (.run hr)

/-- What postings preserve is preserved by what comes next. -/
theorem Machine.Next.keeps {I : Machine α → Prop} (h : m.Next m') (hm : m.WellFormed)
    (hP : m.MayLose P) (hkeep : ∀ {x x'}, I x → Posting P x x' → I x') (hI : I m) : I m' := by
  have hposts : ∀ {x x' : Machine α}, I x → ReflTransGen (Posting P) x x' → I x' := by
    intro x x' hx h
    induction h with
    | refl => exact hx
    | tail _ hpost ih => exact hkeep ih hpost
  exact (turn_invariant (fun hx hI hmove => hposts hI (hmove.posts hx))
    (fun hx hI hruns => hposts hI (hruns.posts hx)) (h.turn hm hP) hm hI).2.1

end Posts

end WatchTree
