import Mathlib.Data.List.Range

/-!
# Counting the indices of a range

`countRange p low high` counts the indices from `low` up to `high` that satisfy
`p`. A count splits at any index between (`countRange_add`), changes by what one
index contributes when `p` changes there alone (`countRange_update`), and says
that every index satisfies `p` when it reaches the length of the range
(`countRange_eq_length_iff`), and that none does when it is zero
(`countRange_eq_zero_iff`).
-/

set_option autoImplicit false

namespace Art.Machine

/-- How many indices from `low` up to `high` satisfy `p`. -/
def countRange (p : Nat → Bool) (low high : Nat) : Nat :=
  (List.range' low (high - low)).countP p

variable (p : Nat → Bool)

@[simp] theorem countRange_self (index : Nat) : countRange p index index = 0 := by
  simp [countRange]

/-- The count over a range is the sum of the counts over its two parts. -/
theorem countRange_add {low middle high : Nat} (lower : low ≤ middle) (upper : middle ≤ high) :
    countRange p low high = countRange p low middle + countRange p middle high := by
  unfold countRange
  have split := @List.range'_append low (middle - low) (high - middle) 1
  rw [Nat.one_mul, Nat.add_sub_cancel' lower] at split
  have whole : middle - low + (high - middle) = high - low := by omega
  rw [← List.countP_append, split, whole]

/-- The count over one index. -/
theorem countRange_single (index : Nat) : countRange p index (index + 1) = if p index then 1 else 0 := by
  simp [countRange, List.countP_cons]

/-- The count reads `p` on the range only. -/
theorem countRange_congr {q : Nat → Bool} {low high : Nat} (same : ∀ i, low ≤ i → i < high → p i = q i) :
    countRange p low high = countRange q low high := by
  unfold countRange
  apply List.countP_congr
  intro i member
  rw [List.mem_range'_1] at member
  rw [same i member.1 (by omega)]

theorem countRange_le (low high : Nat) : countRange p low high ≤ high - low := by
  unfold countRange
  have length : (List.range' low (high - low)).length = high - low := by simp
  exact List.countP_le_length.trans length.le

/-- The count is the length of the range exactly when every index satisfies `p`. -/
theorem countRange_eq_length_iff {low high : Nat} :
    countRange p low high = high - low ↔ ∀ i, low ≤ i → i < high → p i = true := by
  unfold countRange
  have length : (List.range' low (high - low)).length = high - low := by simp
  constructor
  · intro count i low_le lt_high
    have all := List.countP_eq_length.1 (count.trans length.symm)
    exact all i (List.mem_range'_1.2 ⟨low_le, by omega⟩)
  · intro all
    refine (List.countP_eq_length.2 fun i member => ?_).trans length
    rw [List.mem_range'_1] at member
    exact all i member.1 (by omega)

/-- The count is zero exactly when no index satisfies `p`. -/
theorem countRange_eq_zero_iff {low high : Nat} :
    countRange p low high = 0 ↔ ∀ i, low ≤ i → i < high → p i = false := by
  unfold countRange
  rw [List.countP_eq_zero]
  constructor
  · intro none i low_le lt_high
    simpa using none i (List.mem_range'_1.2 ⟨low_le, by omega⟩)
  · intro none i member
    rw [List.mem_range'_1] at member
    simp [none i member.1 (by omega)]

/-- A positive count has an index that satisfies `p`. -/
theorem exists_of_countRange_pos {low high : Nat} (positive : 0 < countRange p low high) :
    ∃ i, low ≤ i ∧ i < high ∧ p i = true := by
  unfold countRange at positive
  obtain ⟨i, member, holds⟩ := List.countP_pos_iff.1 positive
  rw [List.mem_range'_1] at member
  exact ⟨i, member.1, by omega, holds⟩

/-- When `p` changes at one index of the range alone, the count is the counts on
either side of it and what the index contributes now. -/
theorem countRange_update {q : Nat → Bool} {low high index : Nat} (lower : low ≤ index) (upper : index < high)
    (same : ∀ i, i ≠ index → q i = p i) :
    countRange q low high = countRange p low index + (if q index then 1 else 0) + countRange p (index + 1) high := by
  have below : countRange q low index = countRange p low index :=
    countRange_congr q fun i _ before => same i (by omega)
  have above : countRange q (index + 1) high = countRange p (index + 1) high :=
    countRange_congr q fun i after _ => same i (by omega)
  rw [countRange_add q lower (Nat.le_of_lt upper), countRange_add q (Nat.le_add_right index 1) upper,
    countRange_single, below, above, Nat.add_assoc]

end Art.Machine
