import Mathlib.Data.Int.Init

/-!
# Binary search over a range of indices

The loop

    while (hi >= lo) {
      mid = (hi + lo) / 2;
      compare = <the key compared with the entry at mid>;
      if (compare > 0) lo = mid + 1;
      else if (compare < 0) hi = mid - 1;
      else return mid;
    }
    return not-found;

is `binarySearch`, with `compareAt` the comparison at an index. A comparison may
fail (`none`), and the search with it. The midpoint is `(hi + lo) / 2` as C divides,
toward zero; it lies in `lo..hi` (`tdiv_two_mem`), so the range shrinks at every turn.

The search is only as good as the direction of its comparison. When the comparison
at an index is positive below an index `k`, zero at `k` and negative above it, the
search finds `k` (`binarySearch_eq_of_sorted`). When it is negative over the whole
range, the search moves left to the end and finds nothing
(`binarySearch_eq_none_of_neg`); from `lo ≥ 0` the midpoint stays below `hi`, so a
comparison negative below `hi` is enough (`binarySearch_eq_none_of_neg_below`).
-/

set_option autoImplicit false

namespace Art.Machine

/-- The midpoint of a nonempty range lies in it. -/
theorem tdiv_two_mem {lo hi : Int} (inRange : lo ≤ hi) : lo ≤ (hi + lo).tdiv 2 ∧ (hi + lo).tdiv 2 ≤ hi := by
  by_cases nonneg : 0 ≤ hi + lo
  · rw [Int.tdiv_eq_ediv_of_nonneg nonneg]
    omega
  · -- a negative sum is divided toward zero, so the midpoint rounds up
    have negated : (hi + lo).tdiv 2 = -((-(hi + lo)).tdiv 2) := by rw [Int.neg_tdiv, Int.neg_neg]
    rw [negated, Int.tdiv_eq_ediv_of_nonneg (by omega)]
    omega

variable (compareAt : Int → Option Int)

/-- The loop of a binary search over `lo..hi` for an index at which `compareAt` is
zero: `some (some mid)` when it finds one, `some none` when the range runs empty,
and `none` when a comparison fails. -/
def binarySearch (lo hi : Int) : Option (Option Int) :=
  if hi ≥ lo then
    match compareAt ((hi + lo).tdiv 2) with
    | none => none
    | some compare =>
      if compare > 0 then binarySearch ((hi + lo).tdiv 2 + 1) hi
      else if compare < 0 then binarySearch lo ((hi + lo).tdiv 2 - 1)
      else some (some ((hi + lo).tdiv 2))
  else some none
termination_by (hi + 1 - lo).toNat
decreasing_by
  all_goals
    have := tdiv_two_mem ‹hi ≥ lo›
    omega

variable {compareAt}

/-- **Search of a sorted range.** If the comparison is defined on `lo..hi`,
positive below `k`, zero at `k` and negative above it, the search finds `k`. -/
theorem binarySearch_eq_of_sorted {k lo hi : Int} (low : lo ≤ k) (high : k ≤ hi)
    (sorted : ∀ i, lo ≤ i → i ≤ hi →
      ∃ c, compareAt i = some c ∧ (i < k → 0 < c) ∧ (i = k → c = 0) ∧ (k < i → c < 0)) :
    binarySearch compareAt lo hi = some (some k) := by
  fun_induction binarySearch compareAt lo hi with
  | case1 lo hi inRange undefined =>
      obtain ⟨mid, _⟩ := tdiv_two_mem inRange
      obtain ⟨c, defined, _⟩ := sorted _ mid (by omega)
      rw [defined] at undefined
      cases undefined
  | case2 lo hi inRange compare atMid positive ih =>
      -- the comparison is positive at the midpoint only below `k`: `k` lies to the right
      have bounds := tdiv_two_mem inRange
      obtain ⟨c, defined, _, atK, above⟩ := sorted _ bounds.1 bounds.2
      rw [defined, Option.some.injEq] at atMid
      subst atMid
      rcases Int.lt_trichotomy ((hi + lo).tdiv 2) k with right | same | left
      · exact ih (by omega) high fun i lower upper => sorted i (by omega) upper
      · have := atK same
        omega
      · have := above left
        omega
  | case3 lo hi inRange compare atMid notPositive negative ih =>
      -- negative at the midpoint only above `k`: `k` lies to the left
      have bounds := tdiv_two_mem inRange
      obtain ⟨c, defined, below, atK, _⟩ := sorted _ bounds.1 bounds.2
      rw [defined, Option.some.injEq] at atMid
      subst atMid
      rcases Int.lt_trichotomy ((hi + lo).tdiv 2) k with right | same | left
      · have := below right
        omega
      · have := atK same
        omega
      · exact ih low (by omega) fun i lower upper => sorted i lower (by omega)
  | case4 lo hi inRange compare atMid notPositive notNegative =>
      -- zero at the midpoint only at `k`
      have bounds := tdiv_two_mem inRange
      obtain ⟨c, defined, below, _, above⟩ := sorted _ bounds.1 bounds.2
      rw [defined, Option.some.injEq] at atMid
      subst atMid
      have same : (hi + lo).tdiv 2 = k := by
        rcases Int.lt_trichotomy ((hi + lo).tdiv 2) k with midBelow | same | midAbove
        · have := below midBelow
          omega
        · exact same
        · have := above midAbove
          omega
      rw [same]
  | case5 lo hi empty => omega

/-- **A comparison negative everywhere finds nothing.** -/
theorem binarySearch_eq_none_of_neg {lo hi : Int}
    (negative : ∀ i, lo ≤ i → i ≤ hi → ∃ c, compareAt i = some c ∧ c < 0) :
    binarySearch compareAt lo hi = some none := by
  fun_induction binarySearch compareAt lo hi with
  | case1 lo hi inRange undefined =>
      have bounds := tdiv_two_mem inRange
      obtain ⟨c, defined, _⟩ := negative _ bounds.1 bounds.2
      rw [defined] at undefined
      cases undefined
  | case2 lo hi inRange compare atMid positive =>
      have bounds := tdiv_two_mem inRange
      obtain ⟨c, defined, below⟩ := negative _ bounds.1 bounds.2
      rw [defined, Option.some.injEq] at atMid
      omega
  | case3 lo hi inRange compare atMid notPositive isNegative ih =>
      have bounds := tdiv_two_mem inRange
      exact ih fun i lower upper => negative i lower (by omega)
  | case4 lo hi inRange compare atMid notPositive notNegative =>
      have bounds := tdiv_two_mem inRange
      obtain ⟨c, defined, below⟩ := negative _ bounds.1 bounds.2
      rw [defined, Option.some.injEq] at atMid
      omega
  | case5 => rfl

/-- From `lo ≥ 0` the first midpoint lies below `hi`, and the search never comes
back to `hi`: a comparison negative below `hi` finds nothing, whatever it is at `hi`. -/
theorem binarySearch_eq_none_of_neg_below {lo hi : Int} (nonneg : 0 ≤ lo) (below : lo < hi)
    (negative : ∀ i, lo ≤ i → i < hi → ∃ c, compareAt i = some c ∧ c < 0) :
    binarySearch compareAt lo hi = some none := by
  have midBelow : (hi + lo).tdiv 2 < hi := by
    rw [Int.tdiv_eq_ediv_of_nonneg (by omega)]
    omega
  have bounds := tdiv_two_mem (Int.le_of_lt below)
  obtain ⟨c, defined, isNegative⟩ := negative _ bounds.1 midBelow
  rw [binarySearch, if_pos (Int.le_of_lt below), defined]
  simp only [if_neg (Int.not_lt.2 (Int.le_of_lt isNegative)), if_pos isNegative]
  exact binarySearch_eq_none_of_neg fun i lower upper => negative i lower (by omega)

end Art.Machine
