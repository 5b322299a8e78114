import WatchTree.Proofs.DepthFirst
import WatchTree.Proofs.WakerSteps

/-!
# The order of a delivery

What a delivery to a tree of passive callbacks comes to can be read off the tree as it is before:
`World.cascade` lists the wakers, the calls of listeners and the applications of transformations in
the order in which they happen, each child's delivery right after the application that it follows
from. No branch of the tree changes what is listed for another one (`World.cascade_congr`), so that
the recursion on worlds tells the same (`World.tells_deliver`).
-/

namespace WatchTree

variable {α : Type}

/-! ## What is told -/

/-- It tells something else than how a task came to its listener, that an offer was not taken, what
an operation of a callback answered or what was logged. -/
def Event.isTiding : Event α → Bool
  | .did .. | .logged .. | .handedOver _ | .ran .. | .offered _ _ .refused
  | .offered _ _ .watcherClosed => false
  | _ => true

namespace World

/-- The events that tell what was done with a state, oldest first. -/
def tidings (w : World α) : List (Event α) := w.events.filter Event.isTiding

/-- What an application of a child's transformation comes to: it panics with the first of its
operations that does. -/
def application (w : World α) (c : WatcherId) (n : Nat) (v : α) : Outcome α :=
  match w.parent? c with
  | none => .failed ""
  | some (_, _, d) => d.outcome ((d.actions n).findSome? Op.panic?) v

section Cascade

variable [BEq α]

/-- The watcher is open and accepts the state. -/
def takes (w : World α) (c : WatcherId) (s : Latest α) : Bool :=
  (w.watcher? c).any fun b => b.reception s = .accepted

/-- What it comes to that a listener is informed, if `next` is what a child's delivery comes to: one
call; and for a child one application, and its delivery if it takes the value. -/
def retelling (w : World α) (next : WatcherId → Latest α → List (Event α)) (t : Task α) :
    List (Event α) :=
  match w.registration? t.watcher t.listener with
  | none => []
  | some r =>
    match r.listener with
    | .observer label valueOnly _ => [.called (.observer label valueOnly) t false]
    | .subscription c =>
      let outcome := w.application c (r.calls + 1) t.state.value
      .called (.child c) t false :: .applied c t.state.revision outcome ::
        match outcome.state? t.state.revision with
        | some s => if w.takes c s then next c s else []
        | none => []

/-- What the delivery of a state comes to: the watcher accepts it, the wakers of a first value are
woken in the order in which they came, and the listeners are informed in the order of their ids. -/
def cascade (w : World α) : Nat → WatcherId → Latest α → List (Event α)
  | 0, _, _ => []
  | depth + 1, id, s =>
    match w.watcher? id with
    | none => []
    | some b =>
      .offered id s .accepted :: (b.slot.wakers.map .woken ++
        b.registry.entries.flatMap fun l => w.retelling (cascade w depth) ⟨id, l, b.updates + 1, s⟩)

end Cascade

/-! ## One branch does not matter to another -/

section Branches

variable {w w' : World α} (hp : w.Poised)

include hp

/-- Of two watchers whose updates reach a third, those of one reach the other. -/
theorem Reaches.comparable {a b j : WatcherId} (h : w.Reaches a j) (h' : w.Reaches b j) :
    w.Reaches a b ∨ w.Reaches b a := by
  induction h with
  | refl => exact .inr h'
  | @step p x l r ha hr hactive hl ih =>
    cases h' with
    | refl => exact .inl (ha.step hr hactive hl)
    | @step p' _ l' r' hb hr' hactive' hl' =>
      obtain ⟨d, hd⟩ := hp.fed hr hl
      obtain ⟨d', hd'⟩ := hp.fed hr' hl'
      cases hd.symm.trans hd'
      exact ih hb

/-- The updates of a child do not reach its siblings. -/
theorem not_reaches_sibling {id c c' : WatcherId} {l l' : ListenerId} {r r' : Registration α}
    (hr : w.registration? id l = some r) (hl : r.listener = .subscription c)
    (hr' : w.registration? id l' = some r') (hl' : r'.listener = .subscription c') (hne : l ≠ l') :
    ¬ w.Reaches c c' := by
  obtain ⟨d, hd⟩ := hp.fed hr hl
  obtain ⟨d', hd'⟩ := hp.fed hr' hl'
  intro h
  cases h with
  | refl =>
    cases hd.symm.trans hd'
    exact hne rfl
  | @step p _ k a hreach ha _ hsub =>
    obtain ⟨e, he⟩ := hp.fed ha hsub
    cases hd'.symm.trans he
    exact Nat.not_lt_of_le (hreach.le hp) (hp.later hd)

/-- What informing a listener touches, no update of a sibling child reaches. -/
theorem not_touches_sibling {t : Task α} {c : WatcherId} {l : ListenerId} {r : Registration α}
    (hr : w.registration? t.watcher l = some r) (hl : r.listener = .subscription c)
    (hne : l ≠ t.listener) {j : WatcherId} (hj : w.Reaches c j) : ¬ w.Touches t j := by
  rintro (rfl | ⟨r', hr', c', hl', hj'⟩)
  · exact Nat.lt_irrefl _ (hj.lt hp hr hl)
  · rcases hj.comparable hp hj' with h | h
    · exact not_reaches_sibling hp hr hl hr' hl' hne h
    · exact not_reaches_sibling hp hr' hl' hr hl hne.symm h

end Branches

/-- For the listener of a task everything is as before: how often it was called, and all that the
updates of its child can reach. -/
def SameFor (w w' : World α) (t : Task α) : Prop :=
  ∃ r r', w.registration? t.watcher t.listener = some r ∧
    w'.registration? t.watcher t.listener = some r' ∧ r'.listener = r.listener ∧
    r'.calls = r.calls ∧
    ∀ c, r.listener = .subscription c → ∀ j, w.Reaches c j → w'.watcher? j = w.watcher? j

section Congruence

variable [BEq α] {w w' : World α}

theorem retelling_congr {next next' : WatcherId → Latest α → List (Event α)} {t : Task α}
    (h : w.SameFor w' t)
    (hnext : ∀ c, (∀ j, w.Reaches c j → w'.watcher? j = w.watcher? j) →
      ∀ s, next' c s = next c s) : w'.retelling next' t = w.retelling next t := by
  obtain ⟨r, r', hr, hr', hl, hcalls, hsame⟩ := h
  unfold retelling
  simp only [hr, hr', hl, hcalls]
  cases hsub : r.listener with
  | observer => rfl
  | subscription c =>
    have hwatcher := hsame c hsub
    have happlication : w'.application c = w.application c := by
      unfold application parent?
      rw [hwatcher c .refl]
    have htakes : w'.takes c = w.takes c := by
      unfold takes
      rw [hwatcher c .refl]
    simp only [happlication, htakes, hnext c hwatcher]

theorem cascade_congr (hp : w.Poised) (depth : Nat) {id : WatcherId}
    (h : ∀ j, w.Reaches id j → w'.watcher? j = w.watcher? j) (s : Latest α) :
    w'.cascade depth id s = w.cascade depth id s := by
  induction depth generalizing id s with
  | zero => rfl
  | succ depth ih =>
    unfold cascade
    rw [h id .refl]
    cases hb : w.watcher? id with
    | none => rfl
    | some b =>
      simp only [List.cons.injEq, true_and, List.append_cancel_left_eq]
      refine List.flatMap_congr fun l hl => retelling_congr ?_ fun c hc s => ih hc s
      obtain ⟨r, hr, ha⟩ := hp.entry hb hl
      have hr' : w'.registration? id l = some r := by
        rw [← hr]
        unfold registration?
        rw [h id .refl]
      refine ⟨r, r, hr, hr', rfl, rfl, fun c hsub j hj => h j ?_⟩
      exact (Reaches.step .refl hr ha hsub).trans hj

end Congruence

/-! ## The recursion on worlds tells the same -/

section Tells

variable {w : World α} {p : Bool}

theorem tidings_note (e : Event α) :
    (w.note p e).tidings = w.tidings ++ if e.isTiding then [e] else [] := by
  unfold tidings
  rw [events_note, List.filter_append, List.filter_singleton]
  cases e.isTiding <;> rfl

theorem tidings_of_history {w' : World α} (h : w'.history = w.history) :
    w'.tidings = w.tidings := by
  unfold tidings
  rw [events_eq_of_history h]

/-- An event that is no tiding. -/
theorem tidings_aside {e : Event α} (h : e.isTiding = false) :
    (w.note p e).tidings = w.tidings := by
  rw [tidings_note, h]
  exact List.append_nil _

theorem tidings_passOn (t : Task α) : (w.passOn p t).tidings = w.tidings :=
  (tidings_aside rfl).trans (tidings_aside (w := w) (p := p) (e := .handedOver t) rfl)

theorem tidings_adopt (q : Bool) (name : String) (id : WatcherId) (b : Watcher α) (s : Latest α) :
    (w.adopt p q name id b s).tidings = w.tidings ++ [.offered id s .accepted] := by
  have hoffered : ((w.note p (.offered id s .accepted)).modify id (·.accept s)).tidings =
      w.tidings ++ [.offered id s .accepted] := tidings_note _
  unfold adopt
  simp only
  split
  · exact (tidings_aside rfl).trans hoffered
  · exact hoffered

variable [BEq α]

theorem tidings_carryOut (label : Name) {ops : List (Op α)}
    (h : ∀ op ∈ ops, op.isPassive = true) : (w.carryOut p label ops).1.tidings = w.tidings := by
  induction ops generalizing w with
  | nil => rfl
  | cons op ops ih =>
    obtain ⟨-, hhistory, -⟩ := start_passive (h op (List.mem_cons_self ..)) w
    have hrest := fun op hop => h op (List.mem_cons_of_mem _ hop)
    have hstart := tidings_of_history hhistory
    unfold carryOut
    rcases heq : w.start op with ⟨w₁, stk, c⟩
    rw [heq] at hstart
    cases c with
    | proceed => exact (ih hrest).trans hstart
    | answer a => exact (ih hrest).trans ((tidings_aside rfl).trans hstart)
    | unwind payload => exact hstart

theorem tidings_rouse {name : Name} (h : w.Gentle [name]) :
    (w.rouse p name).tidings = w.tidings ++ [.woken name] := by
  unfold rouse
  cases hwaker : w.wakers.lookup name with
  | none => exact tidings_note _
  | some waker =>
    have hactions := h name (List.mem_singleton_self _) waker hwaker (waker.wakes + 1)
    exact (tidings_carryOut name fun op hop => (hactions op hop).1).trans (tidings_note _)

theorem tidings_awaken {names : List Name} (h : w.Gentle names) :
    (names.foldl (rouse p) w).tidings = w.tidings ++ names.map .woken := by
  induction names generalizing w with
  | nil => exact (List.append_nil _).symm
  | cons name names ih =>
    have hflows : w.Flows (fun _ => False) (w.rouse p name) := .rouse h.cons.1
    rw [List.foldl_cons, ih (h.cons.2.flows hflows), tidings_rouse h.cons.1, List.append_assoc]
    rfl

theorem tidings_announce {id : WatcherId} {b : Watcher α} (h : w.Primed id)
    (hb : w.watcher? id = some b) (s : Latest α) :
    (w.announce p id b s).tidings =
      w.tidings ++ .offered id s .accepted :: b.slot.wakers.map .woken := by
  calc (w.announce p id b s).tidings
      = (b.slot.wakers.foldl (rouse p) (w.adopt p p b.name id b s)).tidings := tidings_aside rfl
    _ = (w.adopt p p b.name id b s).tidings ++ b.slot.wakers.map .woken :=
        tidings_awaken (h.gentle_adopt hb p s)
    _ = w.tidings ++ .offered id s .accepted :: b.slot.wakers.map .woken := by
        rw [tidings_adopt, List.append_assoc]
        rfl

/-- What becomes of a state that a watcher accepts is told by the cascade, as long as there are only
so many watchers after it. -/
def Tells (depth : Nat) (take : World α → WatcherId → Latest α → World α) : Prop :=
  ∀ {w : World α} {c : WatcherId} {b : Watcher α} {s : Latest α}, w.Primed c →
    w.watcher? c = some b → b.closed = false → b.refusal s = none →
    w.watchers.length ≤ c + depth → (take w c s).tidings = w.tidings ++ w.cascade depth c s

variable {depth : Nat} {take : World α → WatcherId → Latest α → World α} (htake : Tells depth take)

include htake

theorem tidings_propose {c : WatcherId} (h : w.Primed c) (hlen : w.watchers.length ≤ c + depth)
    (s : Latest α) :
    (w.propose p take c s).tidings =
      w.tidings ++ if w.takes c s then w.cascade depth c s else [] := by
  unfold propose takes
  cases hb : w.watcher? c with
  | none => exact (List.append_nil _).symm
  | some b =>
    simp only [Option.any_some, decide_eq_true_eq, Watcher.reception_eq_accepted_iff]
    split
    · rename_i hcl
      rw [if_neg (by simp [hcl]), List.append_nil]
      exact tidings_aside rfl
    · rename_i hcl
      rw [Bool.not_eq_true] at hcl
      cases hr : b.refusal s with
      | some refusal =>
        rw [if_neg (by simp), List.append_nil]
        exact (tidings_aside rfl).trans (tidings_aside rfl)
      | none =>
        rw [if_pos ⟨hcl, rfl⟩]
        exact htake h hb hcl hr hlen

theorem tidings_conclude {c : WatcherId} (h : w.Primed c) (hlen : w.watchers.length ≤ c + depth)
    (revision : Revision) (outcome : Outcome α) :
    (w.conclude p take c revision outcome).tidings =
      w.tidings ++ .applied c revision outcome ::
        match outcome.state? revision with
        | some s => if w.takes c s then w.cascade depth c s else []
        | none => [] := by
  have hnote : (w.note p (.applied c revision outcome)).tidings =
      w.tidings ++ [.applied c revision outcome] := tidings_note _
  cases outcome with
  | value v =>
    have hflows : w.Flows (fun _ => False) (w.note p (.applied c revision (.value v))) :=
      .note w p _
    have hcascade : (w.note p (.applied c revision (.value v))).cascade depth c ⟨revision, v⟩ =
        w.cascade depth c ⟨revision, v⟩ :=
      cascade_congr h.poised depth (fun _ _ => World.watcher?_note ..) ⟨revision, v⟩
    refine (tidings_propose htake (h.flows hflows) hlen ⟨revision, v⟩).trans ?_
    rw [hcascade, hnote, List.append_assoc]
    rfl
  | failed error => exact (tidings_aside rfl).trans hnote
  | panicked payload => exact (tidings_aside rfl).trans hnote

theorem tidings_notify {t : Task α} {r : Registration α} (h : w.Primed t.watcher)
    (hr : w.registration? t.watcher t.listener = some r) (ha : r.active = true)
    (hle : t.update ≤ w.updates t.watcher)
    (hlen : w.watchers.length ≤ t.watcher + (depth + 1)) :
    (w.notify p take t r).tidings = w.tidings ++ w.retelling (w.cascade depth) t := by
  unfold retelling
  simp only [hr]
  cases hl : r.listener with
  | observer label valueOnly actions =>
    obtain ⟨w₁, panic, hops, hout, hnotify, -⟩ := h.notify_observer hr ha hl p take
    have htold : ((w.tell t).note p (.called (.observer label valueOnly) t false)).tidings =
        w.tidings ++ [.called (.observer label valueOnly) t false] := tidings_note _
    have hdone := (tidings_carryOut (p := p) label hops).trans htold
    rw [hout] at hdone
    rw [hnotify]
    cases panic with
    | none => exact hdone
    | some payload => exact (tidings_aside rfl).trans hdone
  | subscription c =>
    obtain ⟨d, w₁, panic, hd, hops, hout, hnotify, hsame, -, hprimed, hlen₁⟩ :=
      h.notify_subscription hr ha hl hle hlen p take
    have htold : ((w.tell t).note p (.called (.child c) t false)).tidings =
        w.tidings ++ [.called (.child c) t false] := tidings_note _
    have hdone := (tidings_carryOut (p := p) d.label hops).trans htold
    have hpanic := panic_carryOut (w := (w.tell t).note p (.called (.child c) t false)) (p := p)
      d.label hops
    rw [hout] at hdone hpanic
    have happlied : w.application c (r.calls + 1) t.state.value =
        d.outcome panic t.state.value := by
      unfold application
      rw [parent?_eq_some_iff.mpr hd]
      exact congrArg (d.outcome · t.state.value) hpanic.symm
    -- Neither the child nor what hangs on it has changed when it takes what comes of it.
    have hwatcher : ∀ j, w.Reaches c j → w₁.watcher? j = w.watcher? j := by
      intro j hj
      unfold watcher?
      rw [hsame.watchers]
      exact watcher?_modify_of_ne w (Nat.ne_of_lt (hj.lt h.poised hr hl)) _
    have htakes : w₁.takes c = w.takes c := by
      unfold takes
      rw [hwatcher c .refl]
    rw [hnotify, tidings_conclude htake hprimed hlen₁, hdone, htakes, List.append_assoc]
    simp only [happlied, cascade_congr h.poised depth hwatcher]
    rfl

theorem tidings_inform {t : Task α} {ls : List ListenerId}
    (h : w.Handing t.watcher t.update (t.listener :: ls))
    (hlen : w.watchers.length ≤ t.watcher + (depth + 1)) :
    (w.inform p take t).tidings = w.tidings ++ w.retelling (w.cascade depth) t := by
  obtain ⟨r, hr, ha, -, hr₁, hinform⟩ := h.registration p take
  have hpassed : w.Flows (· = t.watcher) (w.passOn p t) := .passOn p rfl
  have hsame : w.SameFor (w.passOn p t) t := by
    refine ⟨r, _, hr, hr₁, rfl, rfl, fun c hsub j hj => hpassed.outside j ?_⟩
    exact (Nat.ne_of_lt (hj.lt h.primed.poised hr hsub)).symm
  have hnotified := tidings_notify (p := p) htake (h.primed.flows hpassed) hr₁ ha
    (h.updates_passOn p) (hpassed.length ▸ hlen)
  have hretold := retelling_congr hsame
    fun c hc s => cascade_congr h.primed.poised depth hc s
  rw [hinform]
  exact hnotified.trans (congr (congrArg _ (tidings_passOn t)) hretold)

/-- What is told of all listeners, as it could be told before any of them was informed. -/
theorem tidings_informAll (htakes : Confines depth take) {w₀ : World α} (hw₀ : w₀.Poised)
    (htree : w₀.SameTree w) {id : WatcherId} {n : Nat} {s : Latest α} {ls : List ListenerId}
    (h : w.Handing id n ls) (hlen : w.watchers.length ≤ id + (depth + 1))
    (hsame : ∀ l ∈ ls, w₀.SameFor w ⟨id, l, n, s⟩) :
    (ls.foldl (fun w l => w.inform p take ⟨id, l, n, s⟩) w).tidings =
      w.tidings ++ ls.flatMap fun l => w₀.retelling (w₀.cascade depth) ⟨id, l, n, s⟩ := by
  induction ls generalizing w with
  | nil => exact (List.append_nil _).symm
  | cons l ls ih =>
    obtain ⟨hflows, hothers, hrest⟩ :=
      Handing.inform (p := p) htakes (t := ⟨id, l, n, s⟩) h hlen
    have hl := (List.nodup_cons.mp h.nodup).1
    have hretold := retelling_congr (hsame l (List.mem_cons_self ..))
      fun c hc s => cascade_congr hw₀ depth hc s
    have hkept : ∀ k ∈ ls, w₀.SameFor (w.inform p take ⟨id, l, n, s⟩) ⟨id, k, n, s⟩ := by
      intro k hk
      have hne : k ≠ l := fun heq => hl (heq ▸ hk)
      obtain ⟨r, r', hr, hr', hlistener, hcalls, hwatcher⟩ := hsame k (List.mem_cons_of_mem _ hk)
      refine ⟨r, r', hr, (hothers k hne).trans hr', hlistener, hcalls, fun c hsub j hj => ?_⟩
      have hsibling := not_touches_sibling (t := ⟨id, l, n, s⟩) h.primed.poised hr'
        (hlistener.trans hsub) hne (htree.reaches hj)
      exact (hflows.outside j hsibling).trans (hwatcher c hsub j hj)
    have htree' : w₀.SameTree (w.inform p take ⟨id, l, n, s⟩) :=
      fun j => (hflows.sameTree j).trans (htree j)
    rw [List.foldl_cons, ih htree' hrest (hflows.length ▸ hlen) hkept,
      tidings_inform (t := ⟨id, l, n, s⟩) htake h hlen, hretold, List.append_assoc]
    rfl

omit htake in
/-- The recursion on worlds does what the cascade lists. -/
theorem tells_deliver (p : Bool) (depth : Nat) :
    Tells depth (deliver p depth : World α → WatcherId → Latest α → World α) := by
  induction depth with
  | zero =>
    intro w c b s _ hb _ _ hlen
    exact absurd (lt_length hb) (Nat.not_lt_of_le hlen)
  | succ depth ih =>
    intro w c b s h hb _ _ hlen
    obtain ⟨hflows, hregistration, hhanding⟩ := h.announce hb p s
    have hsame : ∀ l ∈ b.registry.entries,
        w.SameFor (w.announce p c b s) ⟨c, l, b.updates + 1, s⟩ := by
      intro l hl
      obtain ⟨r, hr, -⟩ := h.poised.entry hb hl
      refine ⟨r, r, hr, (hregistration l).trans hr, rfl, rfl, fun x hsub j hj => ?_⟩
      exact hflows.outside j (Nat.ne_of_lt (hj.lt h.poised hr hsub)).symm
    have hall := tidings_informAll (p := p) ih (confines_deliver p depth) h.poised
      hflows.sameTree hhanding (hflows.length ▸ hlen) hsame
    unfold deliver cascade
    simp only [hb]
    rw [hall, tidings_announce h hb, List.append_assoc]
    rfl

end Tells

end World

/-! ## Pushes -/

namespace Machine

variable [BEq α] {P : Machine α → Prop} {m : Machine α} {id : WatcherId} {b : Watcher α}
  {s : Latest α}

theorem Reached.poised (h : m.Reached P) : m.world.Poised where
  entry {id b l} hb hl := by
    obtain ⟨r, hr, ha⟩ := ((h.wellFormed.ledger.sound id b hb).mem_entries_iff l).mp hl
    exact ⟨r, (World.registration?_of_watcher? hb l).trans hr, ha⟩
  nodup {id b} hb := (h.wellFormed.ledger.sound id b hb).entries_nodup
  fed hr hl := h.wellFormed.ledger.fed hr hl
  later ho := (h.wellFormed.ledger.parent ho).1
  behind {j b} hb l r hr := by
    have hle := h.deliveries.delivered_le_updates h.wellFormed.ledger
      ((World.registration?_of_watcher? hb l).trans hr)
    rwa [World.updates_of_watcher? hb] at hle

/-- Where no waker panics, every child that is subscribed when nothing is under way is open: it
takes a state if it has none or one with another value. -/
theorem Reached.takes_iff (h : m.Reached P) (hP : ∀ x, P x → x.wakersCalm = true)
    (hs : m.stack = []) {top j : WatcherId} {c : Watcher α} (hj : m.world.Reaches top j)
    (hne : j ≠ top) (hc : m.world.watcher? j = some c) (s : Latest α) :
    m.world.takes j s = true ↔ ∀ t, c.latest = some t → (t.value == s.value) = false := by
  cases hj with
  | refl => exact absurd rfl hne
  | @step p _ l r hp hr ha hl =>
    obtain ⟨d, hd⟩ := h.poised.fed hr hl
    have hregistered : m.world.isRegistered p l = true :=
      (World.isRegistered_iff h.wellFormed.ledger.sound p l).mpr ⟨r, hr, ha⟩
    have hopen : c.closed = false := by
      cases hcl : c.closed with
      | false => rfl
      | true =>
        have htidy := (h.orderly hP).tidy.closed hd ((World.isClosed_of_watcher? hc).trans hcl)
        rw [hs, hregistered] at htidy
        rcases htidy with hclosing | hnot
        · exact absurd hclosing List.not_mem_nil
        · exact nomatch hnot
    have horigin : c.origin = .child p l d :=
      Option.some.inj ((World.origin?_of_watcher? hc).symm.trans hd)
    unfold World.takes
    simp only [hc, Option.any_some, decide_eq_true_eq, Watcher.reception_eq_accepted_iff, hopen,
      true_and, Watcher.refusal, horigin]
    cases c.latest with
    | none => simp
    | some t => cases hv : t.value == s.value <;> simp [hv]

/-- A push on a root that accepts the state is done when the state has been delivered. -/
theorem push_goes {w w' : World α} {name : Name} {face : Face} {value : Given α}
    (hhandle : w.handle? name = some ⟨id, face⟩) (hface : face = .root ∨ face = .plainRoot)
    (hb : w.watcher? id = some b) (hroot : w'.IsRoot id) {stk : List (Frame α)}
    (hoffer : Goes (offer ⟨w, .holding id :: stk, .proceed⟩ id ⟨s.revision, value.on face⟩)
      ⟨w', .holding id :: stk, .answer (.bool true)⟩) (ctl : Control α) :
    Goes (perform ⟨w, stk, ctl⟩ (.push name s.revision value)) ⟨w', stk, .answer (.bool true)⟩ := by
  have hresolve : w.resolve? name = some (⟨id, face⟩, b) := by
    unfold World.resolve?
    rw [hhandle]
    simp [hb]
  have hpush : perform ⟨w, stk, ctl⟩ (.push name s.revision value) =
      offer ⟨w, .holding id :: stk, .proceed⟩ id ⟨s.revision, value.on face⟩ := by
    unfold perform withHandle
    simp only [hresolve]
    rcases hface with rfl | rfl <;> rfl
  rw [hpush]
  have hrelease := release_root (m := ⟨w', stk, .answer (.bool true)⟩) hroot
  exact hoffer.trans (.of_step hrelease)

/-- What comes of a state that a watcher is offered, up to so many layers below it. -/
structure GoesDepthFirst (m : Machine α) (depth : Nat) (id : WatcherId) (s : Latest α) : Prop where
  offer : ∀ stk ctl, Goes (offer ⟨m.world, stk, ctl⟩ id s)
    ⟨m.world.deliver (stk.any Frame.onPoller) depth id s, stk, .answer (.bool true)⟩
  push : ∀ name face value, m.world.handle? name = some ⟨id, face⟩ →
    (face = .root ∨ face = .plainRoot) → value.on face = s.value →
    ∀ stk ctl, Goes (perform ⟨m.world, stk, ctl⟩ (.push name s.revision value))
      ⟨m.world.deliver (stk.any Frame.onPoller) depth id s, stk, .answer (.bool true)⟩
  tidings : ∀ p, (m.world.deliver p depth id s).tidings =
    m.world.tidings ++ m.world.cascade depth id s
  outside : ∀ p j, ¬ m.world.Reaches id j →
    (m.world.deliver p depth id s).watcher? j = m.world.watcher? j

/-- The listeners of a watcher stand in the order of their ids, and its wakers in the order in which
its futures were first polled with them. -/
structure InOrder (m : Machine α) : Prop where
  listeners : ∀ j c, m.world.watcher? j = some c →
    c.registry.entries.Pairwise fun k l => k.number < l.number
  wakers : ∀ j c, m.world.watcher? j = some c → c.slot.isPending = true →
    c.slot.wakers = (m.world.polled j).eraseDups

theorem Reached.inOrder (h : m.Reached P) : m.InOrder where
  listeners j c hc := by
    have hsound := h.wellFormed.ledger.sound j c hc
    rw [hsound.entries_eq]
    exact List.pairwise_map.mpr (hsound.ascending.filter _)
  wakers j c hc hp := by
    have hslot := World.slot_of_watcher? hc
    rw [← hslot] at hp ⊢
    exact h.left hp

/-- After any history, a state that a root accepts is delivered depth first, if all callbacks that
it leads to are passive and all executors run their tasks at once: the machine comes to the world
that the recursion over the tree gives, and answers that the state was accepted. What has happened
is what can be read off the tree as it was before, and what the updates of the root cannot reach has
not changed. The listeners and the wakers stand in order. Where no waker has panicked and nothing
else is under way, a subscribed child takes a state if it has none or one with another value. -/
theorem pushes_go_depth_first (h : m.Reached P) (hroot : m.world.IsRoot id)
    (hb : m.world.watcher? id = some b) (haccepts : b.reception s = .accepted)
    (hpassive : m.world.PassiveFrom id) {depth : Nat} (hdepth : m.world.watchers.length ≤ depth) :
    m.GoesDepthFirst depth id s ∧ m.InOrder ∧
    ((∀ x, P x → x.wakersCalm = true) → m.stack = [] → ∀ j c, m.world.Reaches id j → j ≠ id →
      m.world.watcher? j = some c → ∀ s', m.world.takes j s' = true ↔
        ∀ t, c.latest = some t → (t.value == s'.value) = false) := by
  obtain ⟨hcl, hr⟩ := Watcher.reception_eq_accepted_iff.mp haccepts
  have hprimed : m.world.Primed id := ⟨h.poised, hpassive⟩
  have hlen : m.world.watchers.length ≤ id + depth := Nat.le_add_left_of_le hdepth
  have hflows : ∀ p, m.world.Flows (m.world.Reaches id) (m.world.deliver p depth id s) :=
    fun p => World.confines_deliver p depth hprimed hb hcl hr hlen
  have hoffer : ∀ stk ctl, Goes (offer ⟨m.world, stk, ctl⟩ id s)
      ⟨m.world.deliver (stk.any Frame.onPoller) depth id s, stk, .answer (.bool true)⟩ :=
    fun stk ctl => follows_deliver _ depth hprimed hb hcl hr hlen rfl
  have hpush : ∀ name face value, m.world.handle? name = some ⟨id, face⟩ →
      (face = .root ∨ face = .plainRoot) → value.on face = s.value →
      ∀ stk ctl, Goes (perform ⟨m.world, stk, ctl⟩ (.push name s.revision value))
        ⟨m.world.deliver (stk.any Frame.onPoller) depth id s, stk, .answer (.bool true)⟩ := by
    intro name face value hhandle hface hvalue stk ctl
    obtain ⟨revision, v⟩ := s
    obtain rfl : value.on face = v := hvalue
    exact push_goes hhandle hface hb (((hflows _).sameTree.origin?_eq id).trans hroot)
      (hoffer (.holding id :: stk) .proceed) ctl
  have hgoes : m.GoesDepthFirst depth id s :=
    { offer := hoffer
      push := hpush
      tidings := fun p => World.tells_deliver p depth hprimed hb hcl hr hlen
      outside := fun p => (hflows p).outside }
  exact ⟨hgoes, h.inOrder, fun hP hs j c hj hne hc s' => h.takes_iff hP hs hj hne hc s'⟩

/-! ### A tree with two layers below the root -/

/-- A root with a listener that looks and panics, one that was taken out and registered again, and a
child. The child has two of its own: one with a waker in its slot, and one whose transformation
panics. -/
def orchard : Machine Nat :=
  ({ world := {} } : Machine Nat).carry 12
    [.root "r" "r" false, .watch "r" "l" false .inline (fun _ => []) (fun _ => []),
      .child "r" "a" (.ok "a") (fun n => .value (n / 2)) (fun _ => []),
      .watch "r" "k" false .inline (fun _ => []) (fun _ => [.ask .ids, .panic .other]),
      .child "a" "b" (.ok "b") .value (fun _ => []),
      .watch "b" "h" true .inline (fun _ => []) (fun _ => []),
      .child "a" "c" (.ok "c") .value (fun _ => [.panic (.text "late")]),
      .future "f" (.watcher "b"), .futurePoll "f" "w" (fun _ => [.ask (.latest "r")]),
      .unwatch "r" "l", .watch "r" "l" false .inline (fun _ => []) (fun _ => [])]

theorem reached_orchard : orchard.Reached fun x => x.wakersCalm = true :=
  Reached.carry .initial (by decide +kernel)

theorem passive_orchard : orchard.world.PassiveFrom 0 := by
  have hregistrants : orchard.world.registrants =
      [(.observer "l" false fun _ => [], ⟨.inline, fun _ => []⟩),
        (.subscription 1, ⟨.inline, fun _ => []⟩),
        (.observer "k" false fun _ => [.ask .ids, .panic .other], ⟨.inline, fun _ => []⟩),
        (.observer "l" false fun _ => [], ⟨.inline, fun _ => []⟩),
        (.subscription 2, ⟨.inline, fun _ => []⟩), (.subscription 3, ⟨.inline, fun _ => []⟩),
        (.observer "h" true fun _ => [], ⟨.inline, fun _ => []⟩)] := by
    with_unfolding_all rfl
  have horigins : orchard.world.watchers.map Watcher.origin =
      [.root, .child 0 ⟨2⟩ ⟨"a", fun n => .value (n / 2), fun _ => []⟩,
        .child 1 ⟨1⟩ ⟨"b", .value, fun _ => []⟩,
        .child 1 ⟨2⟩ ⟨"c", .value, fun _ => [.panic (.text "late")]⟩] := by
    with_unfolding_all rfl
  have hwakers : orchard.world.wakers.map (·.2.actions) = [fun _ => [.ask (.latest "r")]] := by
    with_unfolding_all rfl
  refine .of_all ?_ ?_ ?_ 0
  · rw [hregistrants]
    simp [Op.isPassive]
  · rw [horigins]
    simp [Op.isPassive]
  · rw [hwakers]
    simp [Op.isPassive, Op.panic?]

theorem pushes_go_depth_first_orchard :
    Goes (orchard.world.start (.push "r" ⟨1⟩ ⟨10, 10⟩))
        ⟨orchard.world.deliver false 4 0 ⟨⟨1⟩, 10⟩, [], .answer (.bool true)⟩ ∧
      (orchard.world.deliver false 4 0 ⟨⟨1⟩, 10⟩).tidings = orchard.world.tidings ++
        [.offered 0 ⟨⟨1⟩, 10⟩ .accepted,
          .called (.child 1) ⟨0, ⟨2⟩, 1, ⟨⟨1⟩, 10⟩⟩ false, .applied 1 ⟨1⟩ (.value 5),
          .offered 1 ⟨⟨1⟩, 5⟩ .accepted,
          .called (.child 2) ⟨1, ⟨1⟩, 1, ⟨⟨1⟩, 5⟩⟩ false, .applied 2 ⟨1⟩ (.value 5),
          .offered 2 ⟨⟨1⟩, 5⟩ .accepted, .woken "w",
          .called (.observer "h" true) ⟨2, ⟨1⟩, 1, ⟨⟨1⟩, 5⟩⟩ false,
          .called (.child 3) ⟨1, ⟨2⟩, 1, ⟨⟨1⟩, 5⟩⟩ false,
          .applied 3 ⟨1⟩ (.panicked (.text "late")),
          .called (.observer "k" false) ⟨0, ⟨3⟩, 1, ⟨⟨1⟩, 10⟩⟩ false,
          .called (.observer "l" false) ⟨0, ⟨4⟩, 1, ⟨⟨1⟩, 10⟩⟩ false] := by
  have hroot : orchard.world.IsRoot 0 := show orchard.world.origin? 0 = some .root by
    with_unfolding_all rfl
  obtain ⟨b, hb, -⟩ := World.exists_watcher?_of_origin? hroot
  have haccepts : b.reception ⟨⟨1⟩, 10⟩ = .accepted := by
    have htakes : orchard.world.takes 0 ⟨⟨1⟩, 10⟩ = true := by decide +kernel
    unfold World.takes at htakes
    rw [hb] at htakes
    exact of_decide_eq_true htakes
  have hdepth : orchard.world.watchers.length ≤ 4 := by decide +kernel
  obtain ⟨hgoes, -⟩ :=
    pushes_go_depth_first reached_orchard hroot hb haccepts passive_orchard hdepth
  refine ⟨hgoes.push "r" .root ⟨10, 10⟩ (by with_unfolding_all rfl) (.inl rfl) rfl [] .proceed, ?_⟩
  rw [hgoes.tidings false]
  with_unfolding_all rfl

end Machine

end WatchTree
