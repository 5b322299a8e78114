import WatchTree.Registry
import Mathlib.Data.List.Nodup

/-!
# Sound registries

In a sound registry the records stand in ascending order of their ids, none above the id issued
last, and the entries are the ids of the active records, in the same order. Every operation keeps
this, and each says in one equation what it does to the registration with a given id.
-/

namespace WatchTree

variable {α : Type}

namespace Registration

def retire (e : Registration α) : Registration α := { e with active := false }

@[simp] theorem retire_id (e : Registration α) : e.retire.id = e.id := rfl
@[simp] theorem retire_listener (e : Registration α) : e.retire.listener = e.listener := rfl
@[simp] theorem retire_executor (e : Registration α) : e.retire.executor = e.executor := rfl
@[simp] theorem retire_active (e : Registration α) : e.retire.active = false := rfl
@[simp] theorem retire_delivered (e : Registration α) : e.retire.delivered = e.delivered := rfl

theorem retire_of_inactive {e : Registration α} (h : e.active = false) : e.retire = e := by
  cases e
  subst h
  rfl

end Registration

namespace Registry

/-- Ids ascend up to the one issued last, and the entries are the ids of the active records. -/
structure Sound (r : Registry α) : Prop where
  ascending : r.records.Pairwise fun a b => a.id.number < b.id.number
  issued : ∀ e ∈ r.records, e.id.number ≤ r.lastId
  entries_eq : r.entries = (r.records.filter (·.active)).map (·.id)

/-! ## The registration with an id -/

theorem mem_records_of_find? {r : Registry α} {id : ListenerId} {e : Registration α}
    (h : r.find? id = some e) : e ∈ r.records := List.mem_of_find?_eq_some h

theorem id_of_find? {r : Registry α} {id : ListenerId} {e : Registration α}
    (h : r.find? id = some e) : e.id = id := by
  have := List.find?_some h
  simpa using this

theorem find?_update (r : Registry α) (id j : ListenerId) (f : Registration α → Registration α)
    (hf : ∀ e, (f e).id = e.id) :
    (r.update id f).find? j = if j = id then (r.find? j).map f else r.find? j := by
  unfold find? update
  simp only
  induction r.records with
  | nil => simp
  | cons e es ih =>
    rw [List.map_cons, List.find?_cons, List.find?_cons]
    have hid : (if e.id = id then f e else e).id = e.id := by
      split
      · exact hf e
      · rfl
    rw [hid]
    by_cases he : e.id = j
    · by_cases hj : j = id
      · simp [he, hj]
      · simp [he, hj]
    · simpa [he] using ih

@[simp] theorem find?_reserve (r : Registry α) (j : ListenerId) :
    r.reserve.find? j = r.find? j := rfl

theorem find?_remove (r : Registry α) (id j : ListenerId) :
    (r.remove id).find? j = if j = id then (r.find? j).map Registration.retire else r.find? j :=
  find?_update _ id j Registration.retire fun _ => rfl

namespace Sound

variable {r : Registry α}

theorem ids_nodup (h : r.Sound) : (r.records.map (·.id)).Nodup :=
  List.pairwise_map.mpr <| h.ascending.imp fun hlt he => by
    rw [he] at hlt
    omega

theorem eq_of_mem (h : r.Sound) {a b : Registration α} (ha : a ∈ r.records) (hb : b ∈ r.records)
    (hab : a.id = b.id) : a = b :=
  List.inj_on_of_nodup_map h.ids_nodup ha hb hab

theorem find?_eq_some_of_mem (h : r.Sound) {e : Registration α} (he : e ∈ r.records) :
    r.find? e.id = some e := by
  cases hf : r.find? e.id with
  | none =>
    have := List.find?_eq_none.mp hf e he
    simp at this
  | some a => rw [h.eq_of_mem (mem_records_of_find? hf) he (id_of_find? hf)]

theorem mem_entries_iff (h : r.Sound) (id : ListenerId) :
    id ∈ r.entries ↔ ∃ e, r.find? id = some e ∧ e.active = true := by
  rw [h.entries_eq, List.mem_map]
  constructor
  · rintro ⟨e, he, rfl⟩
    rw [List.mem_filter] at he
    exact ⟨e, h.find?_eq_some_of_mem he.1, he.2⟩
  · rintro ⟨e, he, ha⟩
    exact ⟨e, List.mem_filter.mpr ⟨mem_records_of_find? he, ha⟩, id_of_find? he⟩

/-- An id that was not issued yet names no registration. -/
theorem find?_of_lt (h : r.Sound) {l : ListenerId} (hl : r.lastId < l.number) :
    r.find? l = none := by
  cases he : r.find? l with
  | none => rfl
  | some e =>
    have hissued := h.issued e (mem_records_of_find? he)
    rw [id_of_find? he] at hissued
    exact absurd hissued (Nat.not_le_of_lt hl)

/-- The id to be issued next names no registration. -/
theorem find?_nextId (h : r.Sound) : r.find? r.nextId = none :=
  h.find?_of_lt (Nat.lt_succ_self _)

theorem find?_insert (h : r.Sound) (listener : Listener α) (executor : Executor α)
    (j : ListenerId) :
    (r.insert listener executor).find? j =
      if j = r.nextId then some { id := r.nextId, listener, executor } else r.find? j := by
  have happ : (r.insert listener executor).find? j =
      (r.find? j).or
        (if r.nextId = j then some { id := r.nextId, listener, executor } else none) := by
    unfold find? insert
    rw [List.find?_append]
    congr 1
    by_cases hj : r.nextId = j <;> simp [hj]
  rw [happ]
  by_cases hj : j = r.nextId
  · subst hj
    rw [h.find?_nextId]
    simp
  · rw [if_neg (Ne.symm hj), if_neg hj, Option.or_none]

/-! ## What keeps a registry sound -/

theorem empty : ({} : Registry α).Sound :=
  ⟨List.Pairwise.nil, by simp, rfl⟩

/-- Ids may be used up without a registration. -/
theorem raise (h : r.Sound) {n : Nat} (hn : r.lastId ≤ n) : Sound { r with lastId := n } :=
  ⟨h.ascending, fun e he => Nat.le_trans (h.issued e he) hn, h.entries_eq⟩

theorem reserve (h : r.Sound) : r.reserve.Sound := h.raise (Nat.le_succ _)

theorem insert (h : r.Sound) (listener : Listener α) (executor : Executor α) :
    (r.insert listener executor).Sound where
  ascending := by
    refine List.pairwise_append.mpr ⟨h.ascending, List.pairwise_singleton _ _, ?_⟩
    intro a ha b hb
    rw [List.mem_singleton] at hb
    subst hb
    exact Nat.lt_succ_of_le (h.issued a ha)
  issued e he := by
    rcases List.mem_append.mp he with he | he
    · exact Nat.le_succ_of_le (h.issued e he)
    · rw [List.mem_singleton] at he
      subst he
      exact Nat.le_refl _
  entries_eq := by
    show r.entries ++ [r.nextId] = _
    unfold Registry.insert
    rw [List.filter_append, List.map_append, ← h.entries_eq]
    rfl

/-- Changing what a registration has been told keeps a registry sound. -/
theorem update (h : r.Sound) (id : ListenerId) {f : Registration α → Registration α}
    (hid : ∀ e, (f e).id = e.id) (hactive : ∀ e, (f e).active = e.active) :
    (r.update id f).Sound where
  ascending := by
    refine List.pairwise_map.mpr (h.ascending.imp fun {a b} hab => ?_)
    split <;> split <;> simpa only [hid] using hab
  issued e he := by
    obtain ⟨a, ha, rfl⟩ := List.mem_map.mp he
    have := h.issued a ha
    split
    · rw [hid]; exact this
    · exact this
  entries_eq := by
    have hkeep : ∀ l : List (Registration α),
        ((l.map fun e => if e.id = id then f e else e).filter (·.active)).map (·.id) =
          (l.filter (·.active)).map (·.id) := by
      intro l
      induction l with
      | nil => rfl
      | cons a l ih =>
        have ha : (if a.id = id then f a else a).active = a.active := by
          split
          · exact hactive a
          · rfl
        have hi : (if a.id = id then f a else a).id = a.id := by
          split
          · exact hid a
          · rfl
        rw [List.map_cons, List.filter_cons, List.filter_cons, ha]
        split
        · rw [List.map_cons, List.map_cons, ih, hi]
        · exact ih
    exact h.entries_eq.trans (hkeep r.records).symm

theorem entries_nodup (h : r.Sound) : r.entries.Nodup := by
  rw [h.entries_eq]
  refine List.pairwise_map.mpr ((h.ascending.filter _).imp fun {a b} hab heq => ?_)
  rw [heq] at hab
  omega

theorem remove (h : r.Sound) (id : ListenerId) : (r.remove id).Sound where
  ascending := by
    refine List.pairwise_map.mpr (h.ascending.imp fun {a b} hab => ?_)
    split <;> split <;> exact hab
  issued e he := by
    obtain ⟨a, ha, rfl⟩ := List.mem_map.mp he
    have := h.issued a ha
    split <;> exact this
  entries_eq := by
    have hdrop : ∀ l : List (Registration α),
        ((l.map fun e => if e.id = id then { e with active := false } else e).filter
          (·.active)).map (·.id) = ((l.filter (·.active)).map (·.id)).filter (· ≠ id) := by
      intro l
      induction l with
      | nil => rfl
      | cons a l ih =>
        rw [List.map_cons, List.filter_cons, List.filter_cons]
        by_cases ha : a.id = id
        · cases hb : a.active <;> simp [ha] <;> simpa using ih
        · cases hb : a.active <;> simp [ha, hb] <;> simpa using ih
    show r.entries.erase id = _
    rw [h.entries_nodup.erase_eq_filter, h.entries_eq]
    refine Eq.trans ?_ (hdrop r.records).symm
    congr 1
    funext x
    by_cases hx : x = id <;> simp [hx]

/-- Clearing a registry retires every registration. -/
theorem clear_records (h : r.Sound) : r.clear.records = r.records.map Registration.retire := by
  refine List.map_congr_left ?_
  intro e he
  by_cases hin : r.entries.contains e.id = true
  · rw [if_pos hin]
    rfl
  · rw [if_neg hin]
    have hina : e.active = false := by
      by_contra hact
      rw [Bool.not_eq_false] at hact
      refine hin (List.contains_iff_mem.mpr ((h.mem_entries_iff e.id).mpr ?_))
      exact ⟨e, h.find?_eq_some_of_mem he, hact⟩
    exact (Registration.retire_of_inactive hina).symm

theorem find?_clear (h : r.Sound) (j : ListenerId) :
    r.clear.find? j = (r.find? j).map Registration.retire := by
  unfold Registry.find?
  rw [h.clear_records, List.find?_map]
  rfl

theorem clear (h : r.Sound) : r.clear.Sound where
  ascending := by
    rw [h.clear_records]
    exact List.pairwise_map.mpr h.ascending
  issued e he := by
    rw [h.clear_records] at he
    obtain ⟨a, ha, rfl⟩ := List.mem_map.mp he
    exact h.issued a ha
  entries_eq := by
    rw [h.clear_records]
    show [] = _
    symm
    rw [List.map_eq_nil_iff, List.filter_eq_nil_iff]
    intro e he
    obtain ⟨a, -, rfl⟩ := List.mem_map.mp he
    simp

end Sound

end Registry

end WatchTree
