import WatchTree.Backoff
import Mathlib.Algebra.Order.Field.Power
import Mathlib.Algebra.Order.Field.Rat
import Mathlib.Tactic.Linarith
import Mathlib.Tactic.NormNum

/-!
# Numbers of seconds

The values that the bits of numbers stand for, and what becomes of them as durations. A multiplier
is accepted if its value is at least one or if it is infinite (`Binary64.atLeastOne_iff`). A number
of seconds becomes a duration unless it is infinite, no number, negative, or not below `2 ^ 64`
(`Duration.ofSeconds?_eq_none_iff`).
-/

namespace WatchTree

/-! ## Values of numbers -/

namespace Binary64

variable (x : Binary64)

/-- The absolute value of a finite number. -/
def absolute : ℚ := x.significand * 2 ^ x.power

/-- The value of a finite number. -/
def value : ℚ := if x.negative then -x.absolute else x.absolute

theorem fraction_lt : x.fraction < 2 ^ 52 := Nat.mod_lt _ (by decide)

theorem significand_lt : x.significand < 2 ^ 53 := by
  have hlt := x.fraction_lt
  unfold significand
  simp only [Nat.pow_eq]
  split <;> omega

theorem absolute_nonneg : 0 ≤ x.absolute := by
  unfold absolute
  positivity

theorem absolute_eq_zero_iff : x.absolute = 0 ↔ x.isZero = true := by
  have hpower : (2 : ℚ) ^ x.power ≠ 0 := zpow_ne_zero _ two_ne_zero
  have hsignificand : x.significand = 0 ↔ x.isZero = true := by
    unfold isZero significand
    by_cases h : x.field = 0 <;> simp [h]
  unfold absolute
  rw [mul_eq_zero_iff_right hpower, Nat.cast_eq_zero, hsignificand]

theorem value_neg_iff : x.value < 0 ↔ x.negative = true ∧ x.isZero = false := by
  have hnonneg := x.absolute_nonneg
  rw [← Bool.not_eq_true x.isZero, ← absolute_eq_zero_iff]
  unfold value
  split
  · rename_i hneg
    rw [neg_lt_zero, and_iff_right hneg]
    exact ⟨ne_of_gt, fun hne => lt_of_le_of_ne hnonneg (Ne.symm hne)⟩
  · rename_i hneg
    exact iff_of_false (not_lt_of_ge hnonneg) fun h => hneg h.1

theorem value_of_nonneg (h : ¬ x.value < 0) : x.value = x.absolute := by
  unfold value at h ⊢
  split
  · rename_i hneg
    rw [if_pos hneg, neg_lt_zero] at h
    rw [le_antisymm (le_of_not_gt h) x.absolute_nonneg, neg_zero]
  · rfl

/-- The exponent alone decides whether an absolute value is at least one. -/
theorem one_le_absolute_iff : 1 ≤ x.absolute ↔ 1023 ≤ x.field := by
  unfold absolute
  by_cases hfield : 1023 ≤ x.field
  · refine iff_of_true ?_ hfield
    have hsignificand : 2 ^ 52 ≤ x.significand := by
      unfold significand
      rw [if_neg (by omega)]
      exact Nat.le_add_right _ _
    have hpower : -52 ≤ x.power := by
      unfold power
      omega
    calc (1 : ℚ) = 2 ^ 52 * 2 ^ (-52 : ℤ) := by norm_num
      _ ≤ x.significand * 2 ^ x.power := mul_le_mul (by exact_mod_cast hsignificand)
        (zpow_le_zpow_right₀ one_le_two hpower) (by positivity) (by positivity)
  · refine iff_of_false (not_le_of_gt ?_) hfield
    have hpower : x.power ≤ -53 := by
      unfold power
      omega
    calc x.significand * 2 ^ x.power ≤ x.significand * (2 : ℚ) ^ (-53 : ℤ) :=
          mul_le_mul_of_nonneg_left (zpow_le_zpow_right₀ one_le_two hpower) (by positivity)
      _ < 2 ^ 53 * (2 : ℚ) ^ (-53 : ℤ) :=
          mul_lt_mul_of_pos_right (by exact_mod_cast x.significand_lt) (by positivity)
      _ = 1 := by norm_num

/-- Without a sign the bits are the exponent and the fraction. -/
theorem bits_of_not_negative (h : x.negative = false) :
    x.bits.toNat = x.field * 2 ^ 52 + x.fraction := by
  unfold negative at h
  unfold field fraction
  simp only [Nat.pow_eq, decide_eq_false_iff_not] at *
  omega

/-- Infinity is at least one, and a finite number if its value is. -/
theorem atLeastOne_iff : x.atLeastOne = true ↔
    x.isNaN = false ∧ x.negative = false ∧ (x.isFinite = true → 1 ≤ x.value) := by
  unfold atLeastOne
  rw [Bool.and_eq_true, Bool.and_eq_true, Bool.not_eq_true', Bool.not_eq_true', and_assoc,
    decide_eq_true_iff]
  refine and_congr_right fun _ => and_congr_right fun hneg => ?_
  have hfraction := x.fraction_lt
  have hone : one.bits.toNat = 1023 * 2 ^ 52 := by decide
  have hfield : one.bits.toNat ≤ x.bits.toNat ↔ 1023 ≤ x.field := by
    rw [hone, x.bits_of_not_negative hneg]
    omega
  rw [hfield, ← one_le_absolute_iff]
  unfold value
  rw [if_neg (by rw [hneg]; exact Bool.false_ne_true)]
  refine ⟨fun h _ => h, fun h => ?_⟩
  by_cases hfinite : x.isFinite = true
  · exact h hfinite
  · rw [one_le_absolute_iff]
    unfold isFinite at hfinite
    simp only [ne_eq, decide_eq_true_eq, not_not] at hfinite
    omega

end Binary64

/-! ## Durations -/

namespace Duration

theorem nanos_injective : Function.Injective nanos := by
  rintro ⟨a⟩ ⟨b⟩ rfl
  rfl

theorem nanos_max (a b : Duration) : (max a b).nanos = max a.nanos b.nanos := by
  show (if a ≤ b then b else a).nanos = _
  by_cases h : a ≤ b
  · rw [if_pos h]
    exact (max_eq_right h).symm
  · rw [if_neg h]
    exact (max_eq_left (Nat.le_of_not_le h)).symm

theorem nanos_min (a b : Duration) : (min a b).nanos = min a.nanos b.nanos := by
  show (if a ≤ b then a else b).nanos = _
  by_cases h : a ≤ b
  · rw [if_pos h]
    exact (min_eq_left h).symm
  · rw [if_neg h]
    exact (min_eq_right (Nat.le_of_not_le h)).symm

instance : LinearOrder Duration := .lift nanos nanos_injective nanos_max nanos_min

theorem roundDiv_one (n : Nat) : roundDiv n 1 = n := by
  unfold roundDiv
  simp [Nat.mod_one]

theorem roundDiv_le (n d : Nat) : roundDiv n d ≤ n / d + 1 := by
  unfold roundDiv
  simp only
  split <;> omega

/-- The nearest number of nanoseconds is below `2 ^ 64` seconds exactly if the number is. -/
theorem roundDiv_lt_iff (x : Binary64) :
    roundDiv (x.significand * Nat.pow 2 x.power.toNat * perSecond) (Nat.pow 2 (-x.power).toNat) <
      Nat.pow 2 64 * perSecond ↔ x.absolute < 2 ^ 64 := by
  have hlt := x.significand_lt
  unfold Binary64.absolute
  rcases le_total 0 x.power with hpower | hpower
  · -- a whole number of seconds is not rounded
    obtain ⟨k, hk⟩ := Int.eq_ofNat_of_zero_le hpower
    have hwhole : Nat.pow 2 (-x.power).toNat = 1 := by
      rw [Int.toNat_of_nonpos (by omega)]
    rw [hwhole, roundDiv_one, Nat.mul_lt_mul_right (by decide), hk, zpow_natCast, Int.toNat_natCast]
    exact_mod_cast Iff.rfl
  · -- whatever may have a fraction is far below
    refine iff_of_true ?_ ?_
    · have hround := roundDiv_le
        (x.significand * Nat.pow 2 x.power.toNat * perSecond) (Nat.pow 2 (-x.power).toNat)
      have hdiv := Nat.div_le_self
        (x.significand * Nat.pow 2 x.power.toNat * perSecond) (Nat.pow 2 (-x.power).toNat)
      have hwhole : x.significand * Nat.pow 2 x.power.toNat = x.significand := by
        rw [Int.toNat_of_nonpos hpower]
        exact Nat.mul_one _
      rw [hwhole] at hround hdiv ⊢
      simp only [Nat.pow_eq, perSecond] at *
      omega
    · calc x.significand * (2 : ℚ) ^ x.power ≤ x.significand * 1 :=
            mul_le_mul_of_nonneg_left (zpow_le_one_of_nonpos₀ one_le_two hpower) (by positivity)
        _ < 2 ^ 53 := by
            rw [mul_one]
            exact_mod_cast hlt
        _ < 2 ^ 64 := by norm_num

/-- What is no duration: infinities, NaN, negative numbers and those from `2 ^ 64` seconds on. -/
theorem ofSeconds?_eq_none_iff (x : Binary64) :
    ofSeconds? x = none ↔ x.isFinite = false ∨ x.value < 0 ∨ 2 ^ 64 ≤ x.value := by
  have hguard : (!x.isFinite || (x.negative && !x.isZero)) = true ↔
      x.isFinite = false ∨ x.value < 0 := by
    rw [x.value_neg_iff]
    simp
  rw [← or_assoc, ← hguard]
  unfold ofSeconds?
  split
  · rename_i h
    exact iff_of_true rfl (.inl h)
  · rename_i h
    have hvalue : x.value = x.absolute :=
      x.value_of_nonneg fun hneg => h (hguard.mpr (.inr hneg))
    rw [or_iff_right h, hvalue, ← not_lt, ← roundDiv_lt_iff]
    simp only
    split
    · rename_i hlt
      exact iff_of_false nofun (not_not_intro hlt)
    · rename_i hlt
      exact iff_of_true rfl hlt

end Duration

end WatchTree
