import WatchTree.Proofs.RootIntake
import WatchTree.Proofs.Pointers
import WatchTree.Scenario.Argument

/-!
# Children at JSON pointers

A child at a pointer of a child at another one does in two steps what the child at both pointers,
one written after the other, does at once (`Json.Pointer.fuses`). So the two accept the same states
(`Machine.Lookup.accepted_outer`), which hold what the pointers address below the latest document
(`World.Shows`). Which documents came to the root is all that matters, so a root of values that may
be missing has the children of a plain one that is fed the same documents (`Machine.Lookup.twins`).
-/

namespace WatchTree

namespace Json.Pointer

/-- How a child of this name at a pointer gets its values. -/
def derivation (name : Name) (p : String) : Derivation Node where
  label := name
  apply node := .value (resolve p node)
  actions _ := []

/-- The nodes at a pointer below those of these states, each that equals the one before left out. -/
def kept (p : String) (ss : List (Latest Node)) : List (Latest Node) :=
  Latest.distinct (ss.map fun s => ⟨s.revision, resolve p s.value⟩)

theorem kept_derivation (name : Name) (p : String) (ss : List (Latest Node)) :
    (derivation name p).kept ss = kept p ss := by
  unfold Derivation.kept kept Outcome.states
  rw [List.filterMap_map]
  exact congrArg Latest.distinct (congrFun List.filterMap_eq_map ss)

/-- A pointer after another one does at once what the two do one after the other. -/
theorem fuses {p q : String} (hp : isPointer p = true) (hq : isPointer q = true) (a b c : Name) :
    Derivation.Fuses (derivation a p) (derivation b q) (derivation c (p ++ q)) where
  apply node := congrArg Outcome.value (resolve_append hp hq node)
  respects _ _ h := resolve_beq h q

theorem kept_append {p q : String} (hp : isPointer p = true) (hq : isPointer q = true)
    (ss : List (Latest Node)) : kept q (kept p ss) = kept (p ++ q) ss := by
  rw [← kept_derivation "" p, ← kept_derivation "" q, ← kept_derivation "" (p ++ q)]
  exact (fuses hp hq "" "" "").kept_eq ss

/-- What was kept last is equal to what the pointer addresses now. -/
theorem exists_getLast?_kept (p : String) {ss : List (Latest Node)} {s : Latest Node}
    (hs : ss.getLast? = some s) :
    ∃ x, (kept p ss).getLast? = some x ∧ (x.value == resolve p s.value) = true := by
  obtain ⟨x, hx, hvalue⟩ := (derivation "" p).exists_getLast?_kept hs rfl
  rw [kept_derivation] at hx
  refine ⟨x, hx, ?_⟩
  rcases hvalue with hvalue | hvalue
  · rw [hvalue]
    exact BEq.rfl
  · exact hvalue

end Json.Pointer

open Json

/-- A child holds what the pointer addresses below the latest value of another watcher: nothing if
and only if there is nothing, or a step is missing; a null if and only if the path leads to one. -/
def World.Shows (w : World Node) (u x : WatcherId) (p : String) : Prop :=
  (w.latest? u = none → w.latest? x = none) ∧
    ∀ s, w.latest? u = some s → ∃ t, w.latest? x = some t ∧
      (t.value = none ↔
        s.value = none ∨ ∃ v, s.value = some v ∧ Pointer.BreaksOff v (Pointer.tokens p)) ∧
      (t.value = some .null ↔
        ∃ v, s.value = some v ∧ Pointer.Leads v (Pointer.tokens p) .null)

theorem World.shows_of_kept {w : World Node} (hw : w.Ledger) {u x : WatcherId} {p : String}
    {ss : List (Latest Node)} (hss : ss.getLast? = w.latest? u)
    (hx : w.accepted x = Pointer.kept p ss) : w.Shows u x p := by
  have hlatest : w.latest? x = (Pointer.kept p ss).getLast? := by rw [hw.latest_eq, hx]
  constructor
  · intro hnone
    rw [hnone, List.getLast?_eq_none_iff] at hss
    rw [hlatest, hss]
    rfl
  · intro s hs
    obtain ⟨t, ht, he⟩ := Pointer.exists_getLast?_kept p (hss.trans hs)
    refine ⟨t, hlatest.trans ht, ?_, ?_⟩
    · rw [eq_none_iff_of_beq he, Pointer.resolve_eq_none_iff]
    · rw [eq_null_iff_of_beq he, Pointer.resolve_eq_some_iff]

namespace Machine

/-! ## How children at pointers come -/

/-- A pointer that is accepted makes a child of the watcher that a handle refers to. -/
theorem perform_pointer {m : Machine Node} {watcher name : Name} {hd : Handle} {b : Watcher Node}
    {p : String} (hp : Pointer.isPointer p = true)
    (hresolve : m.world.resolve? watcher = some (hd, b)) (hfree : m.world.handle? name = none) :
    (m.perform (.pointer watcher name p)).world.origin? m.world.watchers.length =
      some (.child hd.target b.registry.nextId (Pointer.derivation name p)) := by
  have hlabel : Pointer.childLabel p = .ok ("JSON pointer " ++ p) := if_pos hp
  show (withHandle m watcher _).world.origin? _ = _
  unfold withHandle
  simp only [hresolve, hfree, hlabel, Option.isSome_none, Bool.false_eq_true, if_false]
  rw [origin?_register]
  exact (World.origin?_addWatcher m.world _ _).trans (if_pos rfl)

/-- Between two machines of an undisturbed run there came to be a child `a` of `r` at `p`, its child
`b` at `q` and a further child `c` of `r` at `p ++ q`, while `r` accepted nothing. All three are
open, and unless the root was closed they are subscribed. -/
structure Lookup (m₀ m₁ : Machine Node) (r a b c : WatcherId) (p q : String) : Prop where
  reached : m₀.Reached (·.undisturbed = true)
  later : m₀.Later (·.undisturbed = true) m₁
  quiet : m₁.stack = []
  new : ∀ x ∈ [a, b, c], m₀.world.watcher? x = none
  inner : ∃ l name, m₁.world.origin? a = some (.child r l (Pointer.derivation name p))
  outer : ∃ l name, m₁.world.origin? b = some (.child a l (Pointer.derivation name q))
  direct : ∃ l name, m₁.world.origin? c = some (.child r l (Pointer.derivation name (p ++ q)))
  unclosed : ∀ x ∈ [a, b, c], m₁.world.isClosed x = false
  subscribed : m₀.world.isClosed r = false → ∀ x ∈ [a, b, c], m₁.world.Subscribed x
  same : m₁.world.accepted r = m₀.world.accepted r

namespace Lookup

variable {m₀ m₁ m : Machine Node} {r a b c : WatcherId} {p q : String}
  (hl : Lookup m₀ m₁ r a b c p q) (hp : Pointer.isPointer p = true)
  (hq : Pointer.isPointer q = true)

include hl hp hq

theorem fusion : ∃ x y z, Fusion m₀ m₁ r a b c (Pointer.derivation x p) (Pointer.derivation y q)
    (Pointer.derivation z (p ++ q)) := by
  obtain ⟨l, x, hinner⟩ := hl.inner
  obtain ⟨l', y, houter⟩ := hl.outer
  obtain ⟨l'', z, hdirect⟩ := hl.direct
  exact ⟨x, y, z, hl.reached, hl.later, hl.quiet, hl.new, ⟨l, hinner⟩, ⟨l', houter⟩,
    ⟨l'', hdirect⟩, hl.unclosed, hl.subscribed, hl.same, Pointer.fuses hp hq x y z⟩

section Accepted

variable (hadd : m₁.Additive (·.undisturbed = true) m) (hs : m.stack = []) (hpass : m.world.Passive)

include hadd hs hpass

theorem accepted_inner :
    m.world.accepted a = Pointer.kept p (Fusion.told m₀ m r) := by
  obtain ⟨x, _, _, hf⟩ := hl.fusion hp hq
  exact (hf.accepted_inner hadd hs hpass).trans (Pointer.kept_derivation x p _)

theorem accepted_direct :
    m.world.accepted c = Pointer.kept (p ++ q) (Fusion.told m₀ m r) := by
  obtain ⟨_, _, z, hf⟩ := hl.fusion hp hq
  exact (hf.accepted_direct hadd hs hpass).trans (Pointer.kept_derivation z _ _)

theorem accepted_outer :
    m.world.accepted b = Pointer.kept (p ++ q) (Fusion.told m₀ m r) := by
  obtain ⟨_, _, z, hf⟩ := hl.fusion hp hq
  exact (hf.accepted_outer hadd hs hpass).trans (Pointer.kept_derivation z _ _)

end Accepted

/-! ### What the children are told -/

omit hp hq in
/-- If the root was open, the last state that its children were told is its latest. -/
theorem getLast?_told (hadd : m₁.Additive (·.undisturbed = true) m)
    (hcl : m₀.world.isClosed r = false) :
    (Fusion.told m₀ m r).getLast? = m.world.latest? r := by
  have hw₀ := hl.reached.wellFormed
  have hlater := hl.later.trans hadd.later
  have hw := hlater.wellFormed hw₀
  have hle := (hlater.extends_world hw₀).updates_le hw₀.ledger hw.ledger r
  rw [hw.ledger.updates_eq r] at hle
  unfold Fusion.told
  rw [if_neg (by rw [hcl]; exact Bool.false_ne_true), hw.ledger.latest_eq, List.getLast?_drop]
  split
  · rw [List.getLast?_eq_none_iff.mpr (List.length_eq_zero_iff.mp (by omega))]
  · rfl

omit hp hq in
theorem isClosed_root (hcl : m₀.world.isClosed r = false) : m₁.world.isClosed r = false := by
  obtain ⟨l, name, ho⟩ := hl.inner
  obtain ⟨p', l', d', ho', hreg⟩ := hl.subscribed hcl a (List.mem_cons_self ..)
  obtain ⟨rfl, rfl, -⟩ := Origin.child.inj (Option.some.inj (ho'.symm.trans ho))
  have hreach := hl.reached.later hl.later
  rw [← Bool.not_eq_true]
  intro hclosed
  have hgone : m₁.world.Gone p' l' := .inl hclosed
  exact nomatch hreg.symm.trans (hgone.not_registered hreach.shut hreach.wellFormed.ledger)

omit hp hq in
/-- The children of an open root are told its latest state of the time when they came and what it
takes of the states that are pushed from then on. -/
theorem told_of_fed {face : Face} {fed : List (Revision × Given Node)} (hfed : m₁.Fed r face fed m)
    (hface : face = .root ∨ face = .plainRoot) (hcl : m₀.world.isClosed r = false) :
    Fusion.told m₀ m r = (fed.map (pushed face)).foldl Latest.intake
      (m₀.world.latest? r).toList := by
  have hw₀ := hl.reached.wellFormed.ledger
  have haccepted := hfed.accepted_eq (hl.reached.later hl.later) hl.quiet hface
    (hl.isClosed_root hcl)
  unfold Fusion.told
  rw [if_neg (by rw [hcl]; exact Bool.false_ne_true), haccepted, hl.same, hw₀.updates_eq,
    hw₀.latest_eq]
  rcases List.eq_nil_or_concat (m₀.world.accepted r) with hnil | ⟨older, s, heq⟩
  · rw [hnil]
    rfl
  · have hlen : max (older ++ [s]).length 1 - 1 = older.length := by simp
    rw [heq, List.concat_eq_append, hlen, List.getLast?_concat,
      Latest.foldl_intake_append _ fun h => absurd h (List.cons_ne_nil s []), List.drop_left]
    rfl

/-- Two roots, one of them plain, that had the same latest state and are fed the same documents have
the same children. -/
theorem twins {m₀' m₁' m' : Machine Node} {r' a' b' c' : WatcherId}
    (hl' : Lookup m₀' m₁' r' a' b' c' p q) {fed fed' : List (Revision × Given Node)}
    (hfed : m₁.Fed r .plainRoot fed m) (hfed' : m₁'.Fed r' .root fed' m')
    (hdocs : fed.map (pushed .plainRoot) = fed'.map (pushed .root))
    (hlatest : m₀.world.latest? r = m₀'.world.latest? r')
    (hclosed : m₀.world.isClosed r = m₀'.world.isClosed r') (hpass : m.world.Passive)
    (hpass' : m'.world.Passive) :
    ∀ y ∈ [(a, a'), (b, b'), (c, c')], m.world.accepted y.1 = m'.world.accepted y.2 := by
  have htold : Fusion.told m₀ m r = Fusion.told m₀' m' r' := by
    cases hcl : m₀.world.isClosed r with
    | true =>
      unfold Fusion.told
      rw [if_pos hcl, if_pos (hclosed.symm.trans hcl)]
    | false =>
      rw [hl.told_of_fed hfed (.inr rfl) hcl, hl'.told_of_fed hfed' (.inl rfl)
        (hclosed.symm.trans hcl), hdocs, hlatest]
  have hs := hfed.quiet hl.quiet
  have hs' := hfed'.quiet hl'.quiet
  have hadd := hfed.additive
  have hadd' := hfed'.additive
  intro y hy
  simp only [List.mem_cons, List.not_mem_nil, or_false] at hy
  rcases hy with rfl | rfl | rfl
  · exact (hl.accepted_inner hp hq hadd hs hpass).trans
      (htold ▸ (hl'.accepted_inner hp hq hadd' hs' hpass').symm)
  · exact (hl.accepted_outer hp hq hadd hs hpass).trans
      (htold ▸ (hl'.accepted_outer hp hq hadd' hs' hpass').symm)
  · exact (hl.accepted_direct hp hq hadd hs hpass).trans
      (htold ▸ (hl'.accepted_direct hp hq hadd' hs' hpass').symm)

end Lookup

/-- Two pointers, one written after the other, are accepted as one. In a run in which callbacks
operate on no watcher and no executor and no waker panics, let a child at the first one, a child of
it at the second one and a child of the root at both be created while the root accepts nothing. From
then on, as long as states are pushed and listeners registered, the last two agree whenever nothing
is under way: they have the same latest state and have accepted the same states. If the root was
open, each child shows what its pointer addresses below its parent's value: nothing if and only if
that is missing or a step of the path is, and a null if and only if the path leads to one. A plain
root and one of values that may be missing, with the same latest state to begin with, have equal
children after the same documents have been pushed into them. -/
theorem pointers_compose {p q : String} (hp : Pointer.isPointer p = true)
    (hq : Pointer.isPointer q = true) :
    (∀ {m : Machine Node} {watcher name : Name} {hd : Handle} {b : Watcher Node},
      m.world.resolve? watcher = some (hd, b) → m.world.handle? name = none →
      (m.perform (.pointer watcher name (p ++ q))).world.origin? m.world.watchers.length =
        some (.child hd.target b.registry.nextId (Pointer.derivation name (p ++ q)))) ∧
    ∀ {m₀ m₁ : Machine Node} {r a b c : WatcherId}, Lookup m₀ m₁ r a b c p q →
      (∀ m, m₁.Additive (·.undisturbed = true) m → m.stack = [] → m.world.Passive →
        m.world.latest? b = m.world.latest? c ∧ m.world.accepted b = m.world.accepted c ∧
        (m₀.world.isClosed r = false → m.world.Shows r a p ∧ m.world.Shows a b q ∧
          m.world.Shows r b (p ++ q) ∧ m.world.Shows r c (p ++ q))) ∧
      ∀ {m m₀' m₁' m' : Machine Node} {r' a' b' c' : WatcherId}
        {docs : List (Revision × Json)} {fed fed' : List (Revision × Given Node)},
        Lookup m₀' m₁' r' a' b' c' p q → m₀.world.latest? r = m₀'.world.latest? r' →
        m₀.world.isClosed r = m₀'.world.isClosed r' →
        fed.map (fun d => (d.1, d.2.plain)) = docs.map (fun d => (d.1, some d.2)) →
        fed'.map (fun d => (d.1, d.2.node)) = docs.map (fun d => (d.1, some d.2)) →
        m₁.Fed r .plainRoot fed m → m₁'.Fed r' .root fed' m' → m.world.Passive →
        m'.world.Passive → ∀ y ∈ [(a, a'), (b, b'), (c, c')],
          m.world.latest? y.1 = m'.world.latest? y.2 ∧
            m.world.accepted y.1 = m'.world.accepted y.2 := by
  refine ⟨perform_pointer (Pointer.isPointer_append hp hq), fun {m₀ m₁ r a b c} hl => ⟨?_, ?_⟩⟩
  · intro m hadd hs hpass
    have hw := ((hl.reached.later hl.later).later hadd.later).wellFormed.ledger
    have ha := hl.accepted_inner hp hq hadd hs hpass
    have hb := hl.accepted_outer hp hq hadd hs hpass
    have hc := hl.accepted_direct hp hq hadd hs hpass
    have hsame := hb.trans hc.symm
    refine ⟨by rw [hw.latest_eq, hw.latest_eq, hsame], hsame, fun hcl => ?_⟩
    have hlast := hl.getLast?_told hadd hcl
    refine ⟨World.shows_of_kept hw hlast ha, World.shows_of_kept hw (hw.latest_eq a).symm ?_,
      World.shows_of_kept hw hlast hb, World.shows_of_kept hw hlast hc⟩
    rw [hb, ha, Pointer.kept_append hp hq]
  · intro m m₀' m₁' m' r' a' b' c' docs fed fed' hl' hlatest hclosed hplain hnode hfed hfed' hpass
      hpass' y hy
    have hdocs : fed.map (pushed .plainRoot) = fed'.map (pushed .root) := by
      have h := congrArg (List.map fun d => (⟨d.1, d.2⟩ : Latest Node)) (hplain.trans hnode.symm)
      rw [List.map_map, List.map_map] at h
      exact h
    have hsame := hl.twins hp hq hl' hfed hfed' hdocs hlatest hclosed hpass hpass' y hy
    have hw := (hl.reached.later (hl.later.trans hfed.additive.later)).wellFormed.ledger
    have hw' := (hl'.reached.later (hl'.later.trans hfed'.additive.later)).wellFormed.ledger
    exact ⟨by rw [hw.latest_eq, hw'.latest_eq, hsame], hsame⟩

/-! ### An item, and keys with escapes -/

def document (items : List Json) : Json := .obj [("a/b", .arr items), ("other", .bool true)]

/-- A root with a document, plain or of values that may be missing, -/
def sown (plain : Bool) : Machine Node :=
  ({ world := {} } : Machine Node).carry 24
    [.root "r" "r" plain,
      .push "r" ⟨1⟩ (Scenario.given (some (document [.int 0, .obj [("~", .int 5)]])))]

/-- with a child at the items, that one's child below the second item and a child at both, -/
def sprouted (plain : Bool) : Machine Node :=
  (sown plain).carry 24
    [.pointer "r" "a" "/a~1b", .pointer "a" "b" "/1/~0", .pointer "r" "c" ("/a~1b" ++ "/1/~0")]

/-- These documents put a null in that place and take the second item away. -/
def supplied : List (Revision × Json) :=
  [(⟨2⟩, document [.int 0, .obj [("~", .null)]]), (⟨3⟩, document [.int 0])]

def supplies (docs : List (Revision × Json)) : List (Revision × Given Node) :=
  docs.map fun d => (d.1, Scenario.given (some d.2))

def pruned (plain : Bool) : Machine Node :=
  (sprouted plain).carry 48 ((supplies supplied).map fun d => .push "r" d.1 d.2)

theorem reached_sown (plain : Bool) : (sown plain).Reached (·.undisturbed = true) :=
  Reached.carry .initial (by cases plain <;> decide +kernel)

theorem later_sprouted (plain : Bool) :
    (sown plain).Later (·.undisturbed = true) (sprouted plain) :=
  Later.refl.carry (by cases plain <;> decide +kernel)

theorem lookup_sprouted (plain : Bool) :
    Lookup (sown plain) (sprouted plain) 0 1 2 3 "/a~1b" "/1/~0" where
  reached := reached_sown plain
  later := later_sprouted plain
  quiet := List.isEmpty_iff.mp (by cases plain <;> decide +kernel)
  new x hx := by
    have hlen : (sown plain).world.watchers.length = 1 := by cases plain <;> decide +kernel
    refine List.getElem?_eq_none ?_
    simp only [List.mem_cons, List.not_mem_nil, or_false] at hx
    rw [hlen]
    rcases hx with rfl | rfl | rfl <;> decide
  inner := ⟨⟨1⟩, "a", by cases plain <;> with_unfolding_all rfl⟩
  outer := ⟨⟨1⟩, "b", by cases plain <;> with_unfolding_all rfl⟩
  direct := ⟨⟨2⟩, "c", by cases plain <;> with_unfolding_all rfl⟩
  unclosed := by cases plain <;> decide +kernel
  subscribed _ x hx := by
    simp only [List.mem_cons, List.not_mem_nil, or_false] at hx
    rcases hx with rfl | rfl | rfl
    · exact ⟨0, ⟨1⟩, Pointer.derivation "a" "/a~1b", by cases plain <;> with_unfolding_all rfl,
        by cases plain <;> decide +kernel⟩
    · exact ⟨1, ⟨1⟩, Pointer.derivation "b" "/1/~0", by cases plain <;> with_unfolding_all rfl,
        by cases plain <;> decide +kernel⟩
    · exact ⟨0, ⟨2⟩, Pointer.derivation "c" ("/a~1b" ++ "/1/~0"),
        by cases plain <;> with_unfolding_all rfl, by cases plain <;> decide +kernel⟩
  same := by cases plain <;> with_unfolding_all rfl

theorem fed_pruned (plain : Bool) :
    (sprouted plain).Fed 0 (if plain then .plainRoot else .root) (supplies supplied)
      (pruned plain) := by
  have hquiet : (sprouted plain).stack = [] := (lookup_sprouted plain).quiet
  exact Fed.nil.carry ((reached_sown plain).later (later_sprouted plain)) hquiet
    (by cases plain <;> with_unfolding_all rfl) (by cases plain <;> simp)
    (by cases plain <;> decide +kernel) (List.isEmpty_iff.mp (by cases plain <;> decide +kernel))

theorem passive_pruned (plain : Bool) : (pruned plain).world.Passive := by
  have horigins : (pruned plain).world.watchers.map Watcher.origin =
      [.root, .child 0 ⟨1⟩ (Pointer.derivation "a" "/a~1b"),
        .child 1 ⟨1⟩ (Pointer.derivation "b" "/1/~0"),
        .child 0 ⟨2⟩ (Pointer.derivation "c" ("/a~1b" ++ "/1/~0"))] := by
    cases plain <;> with_unfolding_all rfl
  refine .of_origins horigins fun p l d hmem n => ?_
  simp only [List.mem_cons, Origin.child.injEq, reduceCtorEq, List.not_mem_nil, or_false,
    false_or] at hmem
  rcases hmem with ⟨-, -, rfl⟩ | ⟨-, -, rfl⟩ | ⟨-, -, rfl⟩ <;> rfl

theorem pointers_compose_pruned :
    (∃ hd b, ((sown true).perform (.pointer "r" "c" ("/a~1b" ++ "/1/~0"))).world.origin? 1 =
        some (.child hd b (Pointer.derivation "c" ("/a~1b" ++ "/1/~0")))) ∧
      (pruned false).world.accepted 3 =
        [⟨⟨1⟩, some (.int 5)⟩, ⟨⟨2⟩, some .null⟩, ⟨⟨3⟩, none⟩] ∧
      (pruned false).world.accepted 2 = (pruned false).world.accepted 3 ∧
      (pruned false).world.Shows 0 2 ("/a~1b" ++ "/1/~0") ∧
      (pruned true).world.accepted 2 = (pruned false).world.accepted 2 := by
  obtain ⟨hmade, hlookup⟩ := pointers_compose (p := "/a~1b") (q := "/1/~0") (by decide +kernel)
    (by decide +kernel)
  obtain ⟨b, hresolve⟩ : ∃ b, (sown true).world.resolve? "r" = some (⟨0, .plainRoot⟩, b) :=
    ⟨_, by with_unfolding_all rfl⟩
  have hlen : (sown true).world.watchers.length = 1 := by decide +kernel
  have hfree : (sown true).world.handle? "c" = none := by with_unfolding_all rfl
  have hchild := hmade hresolve hfree
  rw [hlen] at hchild
  have hquiet : (pruned false).stack = [] := List.isEmpty_iff.mp (by decide +kernel)
  obtain ⟨-, hsame, hshows⟩ := (hlookup (lookup_sprouted false)).1 _ (fed_pruned false).additive
    hquiet (passive_pruned false)
  have hplain : (supplies supplied).map (fun d => (d.1, d.2.plain)) =
      supplied.map fun d => (d.1, some d.2) := by with_unfolding_all rfl
  have hnode : (supplies supplied).map (fun d => (d.1, d.2.node)) =
      supplied.map fun d => (d.1, some d.2) := by with_unfolding_all rfl
  have htwins := (hlookup (lookup_sprouted true)).2 (lookup_sprouted false)
    (by with_unfolding_all rfl) (by with_unfolding_all rfl) hplain hnode (fed_pruned true)
    (fed_pruned false) (passive_pruned true) (passive_pruned false) (2, 2) (by simp)
  exact ⟨⟨_, _, hchild⟩, by with_unfolding_all rfl, hsame,
    (hshows (by decide +kernel)).2.2.1, htwins.2⟩

end Machine

end WatchTree
