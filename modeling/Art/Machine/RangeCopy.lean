import Mathlib.Logic.Function.Basic

/-!
# Copying a range of cells

A memory here is a function from cells `(region, offset)` to values. A copy of `n`
cells reads the source range and writes the destination range one cell at a time,
each read seeing the writes before it. `forwardCopy` goes from the first cell up,
`backwardCopy` from the last cell down.

What a copy means is `copyRange`: each cell of the destination range receives what
the matching source cell held before the copy, as if through a temporary, and every
other cell keeps its value. A loop meets that meaning exactly when none of its
writes lands on a source cell it has still to read: the forward loop when the
regions differ, the destination starts at or below the source, or the ranges do
not meet (`forwardCopy_eq_copyRange`), the backward loop in the mirror cases
(`backwardCopy_eq_copyRange`).

A copy that stops at the first value a test rejects copies the cells before it;
`leadingCount` counts them, and `leadingCount_spec` says it is the longest such
prefix.
-/

set_option autoImplicit false

namespace Art.Machine

variable {ρ V : Type}

/-! ## The meaning of a copy -/

section Meaning

variable [DecidableEq ρ]

/-- The copy of `n` cells from `(s, sPos)` to `(d, dPos)` through a temporary. -/
def copyRange (mem : ρ × Nat → V) (d : ρ) (dPos : Nat) (s : ρ) (sPos n : Nat) : ρ × Nat → V :=
  fun cell => if cell.1 = d ∧ dPos ≤ cell.2 ∧ cell.2 < dPos + n then mem (s, sPos + (cell.2 - dPos)) else mem cell

variable (mem : ρ × Nat → V) (d s : ρ) (dPos sPos n : Nat)

@[simp] theorem copyRange_zero : copyRange mem d dPos s sPos 0 = mem := by
  funext cell
  simp only [copyRange]
  rw [if_neg fun ⟨_, low, high⟩ => by omega]

/-- A cell of the destination range receives the old value of its source cell. -/
theorem copyRange_apply_dest {k : Nat} (inside : k < n) :
    copyRange mem d dPos s sPos n (d, dPos + k) = mem (s, sPos + k) := by
  simp only [copyRange, true_and]
  rw [if_pos ⟨by omega, by omega⟩, Nat.add_sub_cancel_left]

/-- Every cell outside the destination range keeps its value. -/
theorem copyRange_apply_of_not_dest {cell : ρ × Nat}
    (outside : cell.1 ≠ d ∨ cell.2 < dPos ∨ dPos + n ≤ cell.2) :
    copyRange mem d dPos s sPos n cell = mem cell := by
  simp only [copyRange]
  rw [if_neg fun ⟨same, low, high⟩ => by
    rcases outside with other | below | above
    · exact other same
    all_goals omega]

/-- Writing the first cell and copying the rest is the whole copy, when the first
write lands on no source cell of the rest. -/
theorem copyRange_update_first
    (unread : ∀ j < n, (s, sPos + 1 + j) ≠ (d, dPos)) :
    copyRange (Function.update mem (d, dPos) (mem (s, sPos))) d (dPos + 1) s (sPos + 1) n =
      copyRange mem d dPos s sPos (n + 1) := by
  funext ⟨r, i⟩
  simp only [copyRange]
  by_cases inRest : r = d ∧ dPos + 1 ≤ i ∧ i < dPos + 1 + n
  · obtain ⟨rfl, low, high⟩ := inRest
    have read := unread (i - (dPos + 1)) (by omega)
    rw [if_pos ⟨rfl, low, high⟩, if_pos ⟨rfl, by omega, by omega⟩, Function.update_of_ne read]
    congr 2
    omega
  · rw [if_neg inRest]
    by_cases first : r = d ∧ i = dPos
    · obtain ⟨rfl, rfl⟩ := first
      rw [Function.update_self, if_pos ⟨rfl, Nat.le_refl _, by omega⟩, Nat.sub_self, Nat.add_zero]
    · have other : (r, i) ≠ (d, dPos) := by
        intro same
        simp only [Prod.mk.injEq] at same
        exact first same
      rw [Function.update_of_ne other, if_neg fun ⟨region, low, high⟩ => by
        subst region
        have later : i ≠ dPos := fun equal => first ⟨rfl, equal⟩
        exact inRest ⟨rfl, by omega, by omega⟩]

/-- Writing the last cell and copying the rest is the whole copy, when the last
write lands on no source cell of the rest. -/
theorem copyRange_update_last
    (unread : ∀ j < n, (s, sPos + j) ≠ (d, dPos + n)) :
    copyRange (Function.update mem (d, dPos + n) (mem (s, sPos + n))) d dPos s sPos n =
      copyRange mem d dPos s sPos (n + 1) := by
  funext ⟨r, i⟩
  simp only [copyRange]
  by_cases inRest : r = d ∧ dPos ≤ i ∧ i < dPos + n
  · obtain ⟨rfl, low, high⟩ := inRest
    have read := unread (i - dPos) (by omega)
    rw [if_pos ⟨rfl, low, high⟩, if_pos ⟨rfl, low, by omega⟩, Function.update_of_ne read]
  · rw [if_neg inRest]
    by_cases last : r = d ∧ i = dPos + n
    · obtain ⟨rfl, rfl⟩ := last
      rw [Function.update_self, if_pos ⟨rfl, by omega, by omega⟩, Nat.add_sub_cancel_left]
    · have other : (r, i) ≠ (d, dPos + n) := by
        intro same
        simp only [Prod.mk.injEq] at same
        exact last same
      rw [Function.update_of_ne other, if_neg fun ⟨region, low, high⟩ => by
        subst region
        have earlier : i ≠ dPos + n := fun equal => last ⟨rfl, equal⟩
        exact inRest ⟨rfl, low, by omega⟩]

end Meaning

/-! ## The two loops -/

section Loops

variable [DecidableEq ρ]

/-- Copy `n` cells one at a time from the first one up. -/
def forwardCopy (mem : ρ × Nat → V) (d : ρ) (dPos : Nat) (s : ρ) (sPos : Nat) : Nat → ρ × Nat → V
  | 0 => mem
  | n + 1 => forwardCopy (Function.update mem (d, dPos) (mem (s, sPos))) d (dPos + 1) s (sPos + 1) n

/-- Copy `n` cells one at a time from the last one down. -/
def backwardCopy (mem : ρ × Nat → V) (d : ρ) (dPos : Nat) (s : ρ) (sPos : Nat) : Nat → ρ × Nat → V
  | 0 => mem
  | n + 1 => backwardCopy (Function.update mem (d, dPos + n) (mem (s, sPos + n))) d dPos s sPos n

/-- The forward loop is the copy when it never overwrites a source cell before
reading it. The induction is on the number of cells, with the memory and both
positions moving along. -/
theorem forwardCopy_eq_copyRange (mem : ρ × Nat → V) (d s : ρ) (dPos sPos n : Nat)
    (safe : d ≠ s ∨ dPos ≤ sPos ∨ sPos + n ≤ dPos) :
    forwardCopy mem d dPos s sPos n = copyRange mem d dPos s sPos n := by
  induction n generalizing mem dPos sPos with
  | zero => simp [forwardCopy]
  | succ n ih =>
      have rest : d ≠ s ∨ dPos + 1 ≤ sPos + 1 ∨ sPos + 1 + n ≤ dPos + 1 := by
        rcases safe with other | ordered | apart
        exacts [.inl other, .inr (.inl (by omega)), .inr (.inr (by omega))]
      rw [forwardCopy, ih _ _ _ rest]
      apply copyRange_update_first
      intro j _ same
      obtain ⟨rfl, position⟩ := Prod.mk.inj same
      rcases safe with other | ordered | apart
      · exact other rfl
      all_goals omega

/-- The backward loop is the copy when it never overwrites a source cell before
reading it. -/
theorem backwardCopy_eq_copyRange (mem : ρ × Nat → V) (d s : ρ) (dPos sPos n : Nat)
    (safe : d ≠ s ∨ sPos ≤ dPos ∨ dPos + n ≤ sPos) :
    backwardCopy mem d dPos s sPos n = copyRange mem d dPos s sPos n := by
  induction n generalizing mem with
  | zero => simp [backwardCopy]
  | succ n ih =>
      have rest : d ≠ s ∨ sPos ≤ dPos ∨ dPos + n ≤ sPos := by
        rcases safe with other | ordered | apart
        exacts [.inl other, .inr (.inl ordered), .inr (.inr (by omega))]
      rw [backwardCopy, ih _ rest]
      apply copyRange_update_last
      intro j _ same
      obtain ⟨rfl, position⟩ := Prod.mk.inj same
      rcases safe with other | ordered | apart
      · exact other rfl
      all_goals omega

end Loops

/-! ## The longest accepted prefix -/

/-- How many of the `n` indices from `i` up pass `ok` before the first that fails. -/
def leadingCount (ok : Nat → Bool) (i : Nat) : Nat → Nat
  | 0 => 0
  | n + 1 => if ok i then leadingCount ok (i + 1) n + 1 else 0

/-- `leadingCount` is the length of the longest prefix that passes: at most `n`,
every index before it passes, and the index at it fails when it is not `n`. -/
theorem leadingCount_spec (ok : Nat → Bool) (i n : Nat) :
    leadingCount ok i n ≤ n ∧ (∀ j < leadingCount ok i n, ok (i + j) = true) ∧
      (leadingCount ok i n < n → ok (i + leadingCount ok i n) = false) := by
  induction n generalizing i with
  | zero => simp [leadingCount]
  | succ n ih =>
      obtain ⟨le, passes, fails⟩ := ih (i + 1)
      by_cases first : ok i = true
      · simp only [leadingCount, first, if_true]
        refine ⟨by omega, ?_, ?_⟩
        · intro j below
          cases j with
          | zero => exact first
          | succ j =>
              rw [← passes j (by omega)]
              congr 1
              omega
        · intro below
          rw [← fails (by omega)]
          congr 1
          omega
      · simp only [leadingCount, first, Bool.false_eq_true, if_false]
        refine ⟨by omega, fun j below => absurd below (by omega), fun _ => ?_⟩
        simpa using first

/-- When every index passes, all `n` do. -/
theorem leadingCount_eq_self {ok : Nat → Bool} {i n : Nat} (passes : ∀ j < n, ok (i + j) = true) :
    leadingCount ok i n = n := by
  obtain ⟨le, -, fails⟩ := leadingCount_spec ok i n
  by_contra short
  have failing := fails (by omega)
  rw [passes _ (by omega)] at failing
  exact Bool.noConfusion failing

end Art.Machine
