import WatchTree.Json.Derived

/-!
# Paths through JSON values

1. Equal values differ in the signs of zeros at most (`Json.beq_iff_normal`), so that equality is
   symmetric and transitive, and what a pointer addresses below equal nodes is equal
   (`Json.Pointer.resolve_beq`).
2. A slash ends a token whatever the tokens around it are, so the tokens of two pointers, one
   written after the other, are those of the one and then those of the other, and the second is
   resolved below what the first addresses (`Json.Pointer.resolve_append`).
3. A pointer addresses the value that its tokens lead to step by step, and nothing if and only if
   there is nothing to begin with or a step is missing (`Json.Pointer.resolve_eq_none_iff`).
-/

namespace WatchTree

/-! ## Equal values -/

namespace Binary64

/-- Zero without its sign, any other number as it is. -/
def normal (x : Binary64) : Binary64 := if x.isZero then ⟨0⟩ else x

theorem same_iff_normal {x y : Binary64} : x.same y = true ↔ x.normal = y.normal := by
  have hzero : isZero ⟨0⟩ = true := by decide
  rw [same, Bool.or_eq_true, decide_eq_true_eq, Bool.and_eq_true]
  unfold normal
  by_cases hx : x.isZero = true <;> by_cases hy : y.isZero = true <;> grind

end Binary64

namespace Json

mutual

/-- The value with zeros that have no sign. -/
def normal : Json → Json
  | .null => .null
  | .bool b => .bool b
  | .int n => .int n
  | .real x => .real x.normal
  | .str s => .str s
  | .arr items => .arr (normalItems items)
  | .obj fields => .obj (normalFields fields)

def normalItems : List Json → List Json
  | [] => []
  | a :: rest => a.normal :: normalItems rest

def normalFields : List (String × Json) → List (String × Json)
  | [] => []
  | (k, a) :: rest => (k, a.normal) :: normalFields rest

end

mutual

theorem same_iff_normal (a b : Json) : a.same b = true ↔ a.normal = b.normal := by
  cases a with
  | real x => cases b <;> simp [same, normal, Binary64.same_iff_normal]
  | arr as => cases b <;> simp [same, normal, sameItems_iff_normal as]
  | obj as => cases b <;> simp [same, normal, sameFields_iff_normal as]
  | _ => cases b <;> simp [same, normal]
termination_by structural a

theorem sameItems_iff_normal (as bs : List Json) :
    sameItems as bs = true ↔ normalItems as = normalItems bs := by
  cases as with
  | nil => cases bs <;> simp [sameItems, normalItems]
  | cons a as =>
    cases bs <;> simp [sameItems, normalItems, same_iff_normal a, sameItems_iff_normal as]
termination_by structural as

theorem sameFields_iff_normal (as bs : List (String × Json)) :
    sameFields as bs = true ↔ normalFields as = normalFields bs := by
  cases as with
  | nil => cases bs <;> simp [sameFields, normalFields]
  | cons a as =>
    obtain ⟨k, a⟩ := a
    cases bs <;> simp [sameFields, normalFields, same_iff_normal a, sameFields_iff_normal as]
termination_by structural as

end

theorem beq_iff_normal {a b : Json} : (a == b) = true ↔ a.normal = b.normal := same_iff_normal a b

theorem node_beq_iff_normal {x y : Node} : (x == y) = true ↔ x.map normal = y.map normal := by
  cases x <;> cases y <;> simp [beq_iff_normal]

instance : EquivBEq Node where
  rfl := node_beq_iff_normal.mpr rfl
  symm h := node_beq_iff_normal.mpr (node_beq_iff_normal.mp h).symm
  trans h h' :=
    node_beq_iff_normal.mpr ((node_beq_iff_normal.mp h).trans (node_beq_iff_normal.mp h'))

/-- A missing node is equal to no other. -/
theorem eq_none_iff_of_beq {x y : Node} (h : (x == y) = true) : x = none ↔ y = none := by
  cases x <;> cases y <;> simp_all

/-- A null is equal to nothing else. -/
theorem eq_null_iff_of_beq {x y : Node} (h : (x == y) = true) :
    x = some .null ↔ y = some .null := by
  have hnull : ∀ a : Json, a.normal = .null ↔ a = .null := fun a => by cases a <;> simp [normal]
  have hnode : ∀ z : Node, z = some .null ↔ z.map normal = some .null := fun z => by
    cases z <;> simp [hnull]
  rw [hnode x, hnode y, node_beq_iff_normal.mp h]

theorem getElem?_normalItems (items : List Json) (i : Nat) :
    (normalItems items)[i]? = items[i]?.map normal := by
  induction items generalizing i with
  | nil => rfl
  | cons a rest ih =>
    cases i with
    | zero => rfl
    | succ i => exact ih i

theorem lookup_normalFields (fields : List (String × Json)) (key : String) :
    (normalFields fields).lookup key = (fields.lookup key).map normal := by
  induction fields with
  | nil => rfl
  | cons a rest ih =>
    obtain ⟨k, a⟩ := a
    rw [normalFields, List.lookup_cons, List.lookup_cons]
    cases key == k with
    | true => rfl
    | false => exact ih

namespace Pointer

theorem step_normal (v : Json) (token : String) :
    step v.normal token = (step v token).map normal := by
  cases v with
  | obj fields => exact lookup_normalFields fields token
  | arr items =>
    cases hi : index? token with
    | none => simp [step, normal, hi]
    | some i => simp [step, normal, hi, getElem?_normalItems]
  | _ => rfl

theorem walk_normal (v : Json) (ts : List String) :
    walk v.normal ts = (walk v ts).map normal := by
  induction ts generalizing v with
  | nil => rfl
  | cons t ts ih =>
    rw [walk, walk, step_normal]
    cases step v t with
    | none => rfl
    | some w => exact ih w

theorem resolve_normal (p : String) (node : Node) :
    resolve p (node.map normal) = (resolve p node).map normal := by
  cases node with
  | none => rfl
  | some v => exact walk_normal v (tokens p)

/-- Below equal nodes a pointer addresses equal ones. -/
theorem resolve_beq {x y : Node} (h : (x == y) = true) (p : String) :
    (resolve p x == resolve p y) = true := by
  rw [node_beq_iff_normal] at h ⊢
  rw [← resolve_normal, h, resolve_normal]

/-! ## One pointer after the other -/

theorem split_ne_nil (cs : List Char) : split cs ≠ [] := by
  cases cs with
  | nil => exact List.cons_ne_nil _ _
  | cons c cs =>
    rw [split]
    split
    · exact List.cons_ne_nil _ _
    · split <;> exact List.cons_ne_nil _ _

/-- A slash ends a token. -/
theorem split_append_slash (cs ds : List Char) :
    split (cs ++ '/' :: ds) = split cs ++ split ds := by
  induction cs with
  | nil => simp [split]
  | cons c cs ih =>
    rw [List.cons_append, split, split, ih]
    by_cases hc : c = '/'
    · rw [if_pos hc, if_pos hc, List.cons_append]
    · rw [if_neg hc, if_neg hc]
      cases hs : split cs with
      | nil => exact absurd hs (split_ne_nil cs)
      | cons token rest => rfl

theorem isPointer_iff {p : String} :
    isPointer p = true ↔ p.toList = [] ∨ ∃ cs, p.toList = '/' :: cs := by
  unfold isPointer
  cases p.toList with
  | nil => simp
  | cons c cs => simp

section Append

variable {p q : String} (hp : isPointer p = true) (hq : isPointer q = true)

include hp hq

theorem isPointer_append : isPointer (p ++ q) = true := by
  rw [isPointer_iff, String.toList_append]
  rcases isPointer_iff.mp hp with hp | ⟨cs, hp⟩
  · rw [hp]
    exact isPointer_iff.mp hq
  · rw [hp]
    exact .inr ⟨_, rfl⟩

theorem tokens_append : tokens (p ++ q) = tokens p ++ tokens q := by
  unfold tokens
  rw [String.toList_append]
  rcases isPointer_iff.mp hp with hp | ⟨cs, hp⟩
  · rw [hp]
    rfl
  rcases isPointer_iff.mp hq with hq | ⟨ds, hq⟩
  · rw [hp, hq]
    simp
  · rw [hp, hq]
    show (split (cs ++ '/' :: ds)).map unescape = _
    rw [split_append_slash, List.map_append]

omit hp hq in
theorem walk_append (v : Json) (ts us : List String) :
    walk v (ts ++ us) = (walk v ts).bind (walk · us) := by
  induction ts generalizing v with
  | nil => rfl
  | cons t ts ih =>
    rw [List.cons_append, walk, walk]
    cases step v t with
    | none => rfl
    | some w => exact ih w

/-- What two pointers address, one written after the other, is what the second one addresses below
what the first one does. -/
theorem resolve_append (node : Node) : resolve (p ++ q) node = resolve q (resolve p node) := by
  cases node with
  | none => rfl
  | some v =>
    show walk v (tokens (p ++ q)) = (walk v (tokens p)).bind (walk · (tokens q))
    rw [tokens_append hp hq, walk_append]

end Append

/-! ## Where a path leads -/

/-- The tokens lead from one value to another: each is the key of a field of an object, or stands
for the index of an item of an array. -/
inductive Leads : Json → List String → Json → Prop
  | here (v : Json) : Leads v [] v
  | field {fields : List (String × Json)} {key : String} {v w : Json} {ts : List String} :
      fields.lookup key = some v → Leads v ts w → Leads (.obj fields) (key :: ts) w
  | item {items : List Json} {token : String} {i : Nat} {v w : Json} {ts : List String} :
      index? token = some i → items[i]? = some v → Leads v ts w → Leads (.arr items) (token :: ts) w

/-- Some of the tokens lead to a value below which there is nothing at the next one. -/
def BreaksOff (v : Json) (ts : List String) : Prop :=
  ∃ before t after w, ts = before ++ t :: after ∧ Leads v before w ∧ ∀ x, ¬ Leads w [t] x

theorem leads_cons_iff {v w : Json} {t : String} {ts : List String} :
    Leads v (t :: ts) w ↔ ∃ x, step v t = some x ∧ Leads x ts w := by
  constructor
  · intro h
    cases h with
    | field hl h => exact ⟨_, hl, h⟩
    | item hi hl h => exact ⟨_, by simp [step, hi, hl], h⟩
  · rintro ⟨x, hstep, h⟩
    cases v with
    | obj fields => exact .field hstep h
    | arr items =>
      obtain ⟨i, hi, hx⟩ := Option.bind_eq_some_iff.mp hstep
      exact .item hi hx h
    | _ => exact nomatch hstep

theorem walk_eq_some_iff {v w : Json} {ts : List String} :
    walk v ts = some w ↔ Leads v ts w := by
  induction ts generalizing v with
  | nil =>
    constructor
    · rintro ⟨⟩
      exact .here _
    · rintro ⟨⟩
      rfl
  | cons t ts ih =>
    rw [leads_cons_iff, walk, Option.bind_eq_some_iff]
    exact exists_congr fun x => and_congr_right fun _ => ih

theorem walk_eq_none_iff {v : Json} {ts : List String} : walk v ts = none ↔ BreaksOff v ts := by
  constructor
  · intro h
    induction ts generalizing v with
    | nil => exact nomatch h
    | cons t ts ih =>
      cases hstep : step v t with
      | none =>
        refine ⟨[], t, ts, v, rfl, .here v, fun x hx => ?_⟩
        obtain ⟨y, hy, -⟩ := leads_cons_iff.mp hx
        exact nomatch hstep.symm.trans hy
      | some x =>
        rw [walk, hstep] at h
        obtain ⟨before, t', after, w, rfl, hlead, hnone⟩ := ih h
        exact ⟨t :: before, t', after, w, rfl, leads_cons_iff.mpr ⟨x, hstep, hlead⟩, hnone⟩
  · rintro ⟨before, t, after, w, rfl, hlead, hnone⟩
    rw [walk_append, walk_eq_some_iff.mpr hlead]
    show (step w t).bind _ = none
    cases hstep : step w t with
    | none => rfl
    | some x => exact absurd (leads_cons_iff.mpr ⟨x, hstep, .here x⟩) (hnone x)

/-- A pointer addresses a value if its tokens lead to it. -/
theorem resolve_eq_some_iff {p : String} {node : Node} {w : Json} :
    resolve p node = some w ↔ ∃ v, node = some v ∧ Leads v (tokens p) w := by
  unfold resolve
  rw [Option.bind_eq_some_iff]
  exact exists_congr fun v => and_congr_right fun _ => walk_eq_some_iff

/-- A pointer addresses nothing if there is nothing to begin with or a step is missing. -/
theorem resolve_eq_none_iff {p : String} {node : Node} :
    resolve p node = none ↔ node = none ∨ ∃ v, node = some v ∧ BreaksOff v (tokens p) := by
  cases node with
  | none => simp [resolve]
  | some v => simp [resolve, walk_eq_none_iff]

end Pointer

end Json

end WatchTree
