import WatchTree.Proofs.Leftovers

/-!
# Issuing ids

A watcher issues an id where somebody begins to watch it or to derive a child from it, and nowhere
else (`Next.quiet_or_issues`). The id is one more than the one that it issued last, whether it is
open or closed, and no other watcher issues one at that moment (`Issues.counts`). In the course of a
run a watcher therefore issues 1, 2, 3 and so on (`Run.issuedIds_iff`). As long as there are fewer
than `2 ^ 64` of them, a counter of 64 bits counts in the same way.
-/

namespace WatchTree

variable {α : Type}

def ListenerId.upTo (n : Nat) : List ListenerId := (List.range' 1 n).map .mk

theorem ListenerId.upTo_succ (n : Nat) : upTo (n + 1) = upTo n ++ [⟨n + 1⟩] := by
  unfold upTo
  rw [List.range'_1_concat, List.map_append, Nat.add_comm 1 n]
  rfl

/-- A listener is registered where it begins. -/
def Op.registers : Op α → Bool
  | .child .. | .watch .. => true
  | _ => false

/-! ## Where no id is issued -/

/-- No watcher has issued an id. -/
def Machine.Quiet (m m' : Machine α) : Prop := ∀ id, m'.world.lastId id = m.world.lastId id

namespace Machine

variable {m m' : Machine α} {E : Effect → Prop}

theorem Changes.quiet (h : m.Changes E m') (hE : ¬ E .registers) : m.Quiet m' := by
  refine h.lift (R := Quiet) (fun _ _ => rfl) (fun h h' id => (h' id).trans (h id)) ?_
  intro x y hchange id
  have hsame : y.world.watchers = x.world.watchers → y.world.lastId id = x.world.lastId id :=
    fun h => by
      unfold World.lastId World.watcher?
      rw [h]
  cases hchange with
  | beside hwatchers | rename _ hwatchers => exact hsame hwatchers
  | grow name origin _ hwatchers =>
    refine Eq.trans ?_ (World.lastId_addWatcher x.world { name, origin } id rfl)
    unfold World.lastId World.watcher?
    rw [inWorld, hwatchers]
    rfl
  | count | enlist | unregister | drop => exact World.lastId_modify x.world _ id fun _ => rfl
  | register _ _ he => exact absurd he hE
  | _ => rfl

variable [BEq α]

theorem Walk.quiet (h : m.Walk E m') (hE : ¬ E .registers) : m.Quiet m' := by
  obtain ⟨x, hx, rfl | hlast⟩ := h
  · exact hx.quiet hE
  · intro id
    refine Eq.trans ?_ (hx.quiet hE id)
    cases hlast with
    | @accept j b s _ hb hcl hr =>
      have haccept : ((x.world.note x.onPoller (.offered j s .accepted)).modify j
          (·.accept s)).lastId id = x.world.lastId id := World.lastId_modify _ _ id fun _ => rfl
      show (World.adopt ..).lastId id = _
      unfold World.adopt
      simp only
      split <;> exact haccept
    | close => exact World.lastId_modify x.world _ id fun _ => rfl
    | start => rfl

theorem perform_quiet (m : Machine α) {op : Op α} (h : op.registers = false) :
    m.Quiet (m.perform op) := by
  refine (Walk.perform m fun _ he => he).quiet fun hregisters => ?_
  cases op with
  | child | watch => exact nomatch h
  | _ => exact hregisters

/-- A frame that goes on, unless an operation begins. -/
theorem resume_quiet (m : Machine α) {f : Frame α}
    (h : ∀ site op todo, f ≠ .script site (op :: todo)) : m.Quiet (m.resume f) := by
  refine (Walk.resume m f fun _ he => he).quiet fun hregisters => ?_
  cases f with
  | script site todo =>
    cases todo with
    | nil => exact hregisters
    | cons op todo => exact h site op todo rfl
  | _ => exact hregisters

theorem unwound_quiet (m : Machine α) (payload : Payload) (f : Frame α) :
    m.Quiet (m.unwound payload f) := by
  cases f with
  | script => exact fun _ => rfl
  | _ => exact (Walk.unwound m payload _ fun _ he => he).quiet id

end Machine

/-! ## Where an id is issued -/

/-- A watcher that counts its ids on. -/
theorem World.lastId_mapRegistry {w : World α} {id : WatcherId} {b : Watcher α}
    (hb : w.watcher? id = some b) {f : Registry α → Registry α}
    (hf : ∀ r, (f r).lastId = r.lastId + 1) (j : WatcherId) :
    (w.mapRegistry id f).lastId j = w.lastId j + if j = id then 1 else 0 := by
  unfold mapRegistry
  by_cases hj : j = id
  · subst hj
    rw [if_pos rfl, lastId_of_watcher? (watcher?_modify_self hb _), lastId_of_watcher? hb]
    exact hf _
  · unfold lastId
    rw [if_neg hj, watcher?_modify_of_ne _ (Ne.symm hj)]
    rfl

namespace Machine

variable {m m' : Machine α} {id : WatcherId} {l : ListenerId}

/-- The watcher issues the id after the one it issued last, and no other watcher issues any. -/
structure Counts (m : Machine α) (id : WatcherId) (l : ListenerId) (m' : Machine α) : Prop where
  number : l.number = m.world.lastId id + 1
  lastId : ∀ j, m'.world.lastId j = m.world.lastId j + if j = id then 1 else 0

/-- A registration uses up an id, and nothing that it leads to does. -/
theorem register_quiet (m : Machine α) (id : WatcherId) (b : Watcher α) (listener : Listener α)
    (executor : Executor α) : ∃ f : Registry α → Registry α, (∀ r, (f r).lastId = r.lastId + 1) ∧
      (m.inWorld (·.mapRegistry id f)).Quiet (m.register id b listener executor) := by
  unfold register
  split
  · exact ⟨Registry.reserve, fun _ => rfl, fun _ => rfl⟩
  · refine ⟨fun r => r.insert listener executor, fun _ => rfl, ?_⟩
    simp only
    split
    · exact fun _ => rfl
    · exact (Changes.handOver_ofTask _ _).quiet fun he => he

theorem register_counts {w : World α} {b : Watcher α} {listener : Listener α}
    {executor : Executor α} (hb : m.world.watcher? id = some b)
    (hj : m.world.Joins id b listener executor w) (stk : List (Frame α)) :
    m.Counts id b.registry.nextId (register ⟨w, stk, .proceed⟩ id b listener executor) where
  number := World.Ledger.nextId_number hb
  lastId j := by
    obtain ⟨f, hf, hquiet⟩ := register_quiet ⟨w, stk, .proceed⟩ id b listener executor
    refine (hquiet j).trans ((World.lastId_mapRegistry (hj.watcher?_eq hb) hf j).trans ?_)
    rw [hj.lastId_eq]

variable [BEq α]

/-- Whoever watches is registered above two frames, which keep the id and the watcher. -/
theorem perform_watch {name label : Name} {valueOnly : Bool} {disposal : Disposal}
    {onHandover actions : Actions α} {hd : Handle} {b : Watcher α}
    (h : m.world.resolve? name = some (hd, b)) :
    m.perform (.watch name label valueOnly disposal onHandover actions) =
      register ⟨m.world, .watching label b.registry.nextId :: .holding hd.target :: m.stack,
        .proceed⟩ hd.target b (.observer label valueOnly actions) ⟨disposal, onHandover⟩ := by
  show m.withHandle name _ = _
  unfold withHandle
  rw [h]
  rfl

/-- A new child keeps the id of its subscription. -/
theorem perform_child {watcher name : Name} {label : String} {apply : α → Outcome α}
    {actions : Actions α} {hd : Handle} {b : Watcher α}
    (h : m.world.resolve? watcher = some (hd, b)) (hname : m.world.handle? name = none) :
    m.perform (.child watcher name (.ok label) apply actions) =
      register ⟨m.world.addWatcher {
          name := b.name ++ " -> " ++ label
          origin := .child hd.target b.registry.nextId ⟨name, apply, actions⟩ },
        .constructing name m.world.watchers.length :: .holding hd.target :: m.stack, .proceed⟩
        hd.target b (.subscription m.world.watchers.length) ⟨.inline, fun _ => []⟩ := by
  show m.withHandle watcher _ = _
  unfold withHandle
  rw [h]
  simp only
  rw [hname]
  rfl

/-- A watcher issues an id: a listener will be told it when its registration ends, whatever stands
above that, or a new child keeps it for its subscription. -/
inductive Issues (m : Machine α) (id : WatcherId) (l : ListenerId) (m' : Machine α) : Prop
  | watch {name label : Name} {valueOnly : Bool} {disposal : Disposal}
      {onHandover actions : Actions α} {frames stk : List (Frame α)} :
      m.Begins (.watch name label valueOnly disposal onHandover actions) stk m' →
      m'.stack = frames ++ .watching label l :: .holding id :: stk → Issues m id l m'
  | child {watcher name : Name} {label : Except WatchError String} {apply : α → Outcome α}
      {actions : Actions α} {d : Derivation α} {stk : List (Frame α)} :
      m.Begins (.child watcher name label apply actions) stk m' →
      m'.world.origin? m.world.watchers.length = some (.child id l d) → Issues m id l m'

theorem Begins.watch_issues {name label : Name} {valueOnly : Bool} {disposal : Disposal}
    {onHandover actions : Actions α} {stk : List (Frame α)} {hd : Handle} {b : Watcher α}
    (h : m.Begins (.watch name label valueOnly disposal onHandover actions) stk m')
    (hresolve : m.world.resolve? name = some (hd, b)) :
    (∃ frames, m'.stack =
      frames ++ .watching label b.registry.nextId :: .holding hd.target :: stk) ∧
      m.Counts hd.target b.registry.nextId m' := by
  rw [h.eq, perform_watch (m := ⟨m.world, stk, .proceed⟩) hresolve]
  exact ⟨(Changes.register (E := fun _ => True) _ _ _ _ _ trivial trivial
    fun _ => trivial).frames.imp
      fun _ => And.left,
    register_counts (World.resolve?_eq_some hresolve).2 (.observer ..) _⟩

theorem Begins.child_issues {watcher name : Name} {label : String} {apply : α → Outcome α}
    {actions : Actions α} {stk : List (Frame α)} {hd : Handle} {b : Watcher α}
    (h : m.Begins (.child watcher name (.ok label) apply actions) stk m')
    (hresolve : m.world.resolve? watcher = some (hd, b)) (hname : m.world.handle? name = none) :
    m'.world.origin? m.world.watchers.length =
        some (.child hd.target b.registry.nextId ⟨name, apply, actions⟩) ∧
      m.Counts hd.target b.registry.nextId m' := by
  rw [h.eq, perform_child (m := ⟨m.world, stk, .proceed⟩) hresolve hname]
  refine ⟨?_, register_counts (World.resolve?_eq_some hresolve).2 (.child ..) _⟩
  rw [origin?_register]
  exact (World.origin?_addWatcher ..).trans (if_pos rfl)

/-- Somebody watches a watcher that there is, or nothing happens. -/
theorem Begins.watch_or {name label : Name} {valueOnly : Bool} {disposal : Disposal}
    {onHandover actions : Actions α} {stk : List (Frame α)}
    (h : m.Begins (.watch name label valueOnly disposal onHandover actions) stk m') :
    m' = ⟨m.world, stk, .answer .invalid⟩ ∨ ∃ hd b, m.world.resolve? name = some (hd, b) := by
  cases hresolve : m.world.resolve? name with
  | none =>
    refine .inl (h.eq.trans ?_)
    show withHandle ⟨m.world, stk, .proceed⟩ name _ = _
    unfold withHandle
    rw [hresolve]
    rfl
  | some x => exact .inr ⟨x.1, x.2, rfl⟩

/-- A child of a watcher that there is comes to be, under a label and a name that are free, or
nothing happens. -/
theorem Begins.child_or {watcher name : Name} {label : Except WatchError String}
    {apply : α → Outcome α} {actions : Actions α} {stk : List (Frame α)}
    (h : m.Begins (.child watcher name label apply actions) stk m') :
    m'.world = m.world ∨ ∃ text hd b, label = .ok text ∧
      m.world.resolve? watcher = some (hd, b) ∧ m.world.handle? name = none := by
  have heq : m' = withHandle ⟨m.world, stk, .proceed⟩ watcher _ := h.eq
  unfold withHandle at heq
  cases hresolve : m.world.resolve? watcher with
  | none =>
    rw [hresolve] at heq
    exact .inl (by rw [heq]; rfl)
  | some x =>
    obtain ⟨hd, b⟩ := x
    rw [hresolve] at heq
    simp only at heq
    cases hname : m.world.handle? name with
    | some _ =>
      rw [hname] at heq
      exact .inl (by rw [heq]; rfl)
    | none =>
      rw [hname] at heq
      cases label with
      | error e => exact .inl (by rw [heq]; rfl)
      | ok text => exact .inr ⟨text, hd, b, rfl, rfl, rfl⟩

/-- What is issued is the next id. -/
theorem Issues.counts (h : m.Issues id l m') : m.Counts id l m' := by
  cases h with
  | @watch name label valueOnly disposal onHandover actions frames stk hbegin hstack =>
    rcases hbegin.watch_or with rfl | ⟨hd, b, hresolve⟩
    · exact absurd (congrArg List.length hstack) (by simp; omega)
    · obtain ⟨⟨frames', hstack'⟩, hcounts⟩ := hbegin.watch_issues hresolve
      -- both end in the same frames, so what stands above them has the same length
      have heq := (List.append_inj' (hstack'.symm.trans hstack) rfl).2
      rw [List.cons.injEq, List.cons.injEq] at heq
      obtain ⟨hwatching, hholding, -⟩ := heq
      rw [← (Frame.watching.inj hwatching).2, ← Frame.holding.inj hholding]
      exact hcounts
  | @child watcher name label apply actions d stk hbegin ho =>
    rcases hbegin.child_or with hworld | ⟨text, hd, b, rfl, hresolve, hname⟩
    · rw [hworld, World.origin?_length] at ho
      exact nomatch ho
    · obtain ⟨ho', hcounts⟩ := hbegin.child_issues hresolve hname
      obtain ⟨rfl, rfl, -⟩ := Origin.child.inj (Option.some.inj (ho'.symm.trans ho))
      exact hcounts

theorem Begins.quiet_or_issues {op : Op α} {stk : List (Frame α)} (h : m.Begins op stk m') :
    m.Quiet m' ∨ ∃ id l, m.Issues id l m' := by
  cases hop : op.registers with
  | false =>
    refine .inl ?_
    rw [h.eq]
    exact perform_quiet ⟨m.world, stk, .proceed⟩ hop
  | true =>
    cases op with
    | watch name label valueOnly disposal onHandover actions =>
      rcases h.watch_or with rfl | ⟨hd, b, hresolve⟩
      · exact .inl fun _ => rfl
      · obtain ⟨⟨frames, hstack⟩, -⟩ := h.watch_issues hresolve
        exact .inr ⟨_, _, .watch h hstack⟩
    | child watcher name label apply actions =>
      rcases h.child_or with hworld | ⟨text, hd, b, rfl, hresolve, hname⟩
      · exact .inl fun id => by rw [hworld]
      · exact .inr ⟨_, _, .child h (h.child_issues hresolve hname).1⟩
    | _ => exact nomatch hop

/-- Ids are issued where an operation begins that registers a listener, and nowhere else. -/
theorem Next.quiet_or_issues (h : m.Next m') : m.Quiet m' ∨ ∃ id l, m.Issues id l m' := by
  cases h with
  | start op hs => exact (Begins.outside hs).quiet_or_issues
  | step hs =>
    obtain ⟨w, stk, c⟩ := m
    obtain ⟨f, stk, rfl⟩ := List.exists_cons_of_ne_nil hs
    cases c with
    | unwind payload => exact .inl (unwound_quiet ⟨w, stk, .unwind payload⟩ payload f)
    | answer a =>
      refine .inl ?_
      cases f with
      | script => exact fun _ => rfl
      | holding id => exact resume_quiet ⟨w, stk, .answer a⟩ (f := .holding id) nofun
      | _ => exact resume_quiet ⟨w, stk, .answer a⟩ nofun
    | proceed =>
      by_cases hf : ∃ site op todo, f = .script site (op :: todo)
      · obtain ⟨site, op, todo, rfl⟩ := hf
        exact (Begins.inside rfl rfl).quiet_or_issues
      · have hno : ∀ site op todo, f ≠ .script site (op :: todo) :=
          fun site op todo heq => hf ⟨site, op, todo, heq⟩
        exact .inl (resume_quiet ⟨w, stk, .proceed⟩ hno)

/-- At one moment at most one id is issued, by one watcher. -/
theorem Issues.unique {id' : WatcherId} {l' : ListenerId} (h : m.Issues id l m')
    (h' : m.Issues id' l' m') : id' = id ∧ l' = l := by
  have hid : id' = id := by
    have hlast := h.counts.lastId id
    rw [h'.counts.lastId, if_pos rfl] at hlast
    by_contra hne
    rw [if_neg (Ne.symm hne)] at hlast
    omega
  subst hid
  have hnumber := h.counts.number.trans h'.counts.number.symm
  cases l
  cases l'
  exact ⟨rfl, congrArg ListenerId.mk hnumber.symm⟩

theorem Next.lastId_eq (h : m.Next m') (hnone : ∀ l, ¬ m.Issues id l m') :
    m'.world.lastId id = m.world.lastId id := by
  rcases h.quiet_or_issues with hquiet | ⟨id', l, hissues⟩
  · exact hquiet id
  · rw [hissues.counts.lastId, if_neg, Nat.add_zero]
    rintro rfl
    exact hnone l hissues

/-! ## Runs -/

/-- The ids that a watcher has issued in a run, the first one first. -/
inductive IssuedIds (id : WatcherId) : List (Machine α) → List ListenerId → Prop
  | initial (m : Machine α) : IssuedIds id [m] []
  | issue {m m' : Machine α} {ms : List (Machine α)} {ls : List ListenerId} {l : ListenerId} :
      IssuedIds id (m :: ms) ls → m.Issues id l m' → IssuedIds id (m' :: m :: ms) (ls ++ [l])
  | pass {m m' : Machine α} {ms : List (Machine α)} {ls : List ListenerId} :
      IssuedIds id (m :: ms) ls → (∀ l, ¬ m.Issues id l m') → IssuedIds id (m' :: m :: ms) ls

/-- In the course of a run every watcher issues 1, 2, 3 and so on, up to the id that it issued
last. -/
theorem Run.issuedIds_iff {ms : List (Machine α)} (h : Run ms) (id : WatcherId) :
    ∀ m ∈ ms.head?, ∀ ls, IssuedIds id ms ls ↔ ls = ListenerId.upTo (m.world.lastId id) := by
  induction h with
  | initial =>
    rintro m ⟨⟩ ls
    constructor
    · rintro ⟨⟩
      rfl
    · rintro rfl
      exact .initial _
  | @next m m' ms hrun hn ih =>
    rintro _ ⟨⟩ ls
    have hbefore : ∀ ls, IssuedIds id (m :: ms) ls ↔ ls = ListenerId.upTo (m.world.lastId id) :=
      ih m rfl
    by_cases hissued : ∃ l, m.Issues id l m'
    · obtain ⟨l, hissues⟩ := hissued
      obtain ⟨hnumber, hlast⟩ := hissues.counts
      rw [hlast, if_pos rfl, ListenerId.upTo_succ, ← hnumber]
      constructor
      · intro hids
        cases hids with
        | issue hids hissues' => rw [(hbefore _).mp hids, (hissues.unique hissues').2]
        | pass _ hnone => exact absurd hissues (hnone l)
      · rintro rfl
        exact .issue ((hbefore _).mpr rfl) hissues
    · have hnone : ∀ l, ¬ m.Issues id l m' := fun l hissues => hissued ⟨l, hissues⟩
      rw [hn.lastId_eq hnone, ← hbefore]
      constructor
      · intro hids
        cases hids with
        | issue _ hissues => exact absurd hissues (hnone _)
        | pass hids => exact hids
      · exact fun hids => .pass hids hnone

end Machine

end WatchTree
