import Mathlib.Data.List.Chain

/-!
# The lexicographic order of lists

Lists compare by `compare` element by element, the shorter prefix first
(`List.compareLex`). A comparison decided by `<` and `=` is fixed by those two
relations (`compareOfLessAndEq_eq_of_iff`), so two orders that agree on them agree.
The first two different elements decide the order of two lists
(`compare_cons_of_ne`), and an equal head passes the comparison on to the tails
(`compare_cons_self`). A map that keeps the order of every two elements keeps the
order of every two lists (`compare_map`).

A list whose neighbours increase increases along its whole length
(`pairwise_of_isChain`): a sorted table is checked pair by pair, and searched with
the order of every two entries.
-/

set_option autoImplicit false

namespace Art.Machine

/-- A comparison by `<` and `=` is determined by them. -/
theorem compareOfLessAndEq_eq_of_iff {α β : Type} [LT α] [DecidableLT α] [DecidableEq α] [LT β] [DecidableLT β]
    [DecidableEq β] {a b : α} {x y : β} (lt : a < b ↔ x < y) (eq : a = b ↔ x = y) :
    compareOfLessAndEq a b = compareOfLessAndEq x y := by
  unfold compareOfLessAndEq
  simp only [lt, eq]

section Lists

variable {α : Type} [Ord α]

/-- Two lists that start with different elements compare as those do. -/
theorem compare_cons_of_ne [Std.LawfulEqOrd α] {x y : α} (xs ys : List α) (different : x ≠ y) :
    compare (x :: xs) (y :: ys) = compare x y := by
  rw [List.compare_cons_cons]
  cases ordered : compare x y
  · rfl
  · exact absurd (Std.LawfulEqCmp.compare_eq_iff_eq.1 ordered) different
  · rfl

/-- Two lists with the same head compare as their tails. -/
theorem compare_cons_self [Std.ReflOrd α] (x : α) (xs ys : List α) :
    compare (x :: xs) (x :: ys) = compare xs ys := by
  rw [List.compare_cons_cons, Std.ReflOrd.compare_self]
  rfl

/-- Lists compare as their images under a map that keeps every comparison. -/
theorem compare_map {β : Type} [Ord β] (f : α → β) (keeps : ∀ x y, compare (f x) (f y) = compare x y) :
    ∀ xs ys : List α, compare (xs.map f) (ys.map f) = compare xs ys
  | [], [] | [], _ :: _ | _ :: _, [] => rfl
  | x :: xs, y :: ys => by
      rw [List.map_cons, List.map_cons, List.compare_cons_cons, List.compare_cons_cons, keeps,
        compare_map f keeps xs ys]

/-- A chain of increasing elements increases along the whole list. -/
theorem pairwise_of_isChain [Std.TransOrd α] {l : List α}
    (chain : l.IsChain fun a b => compare a b = .lt) : l.Pairwise fun a b => compare a b = .lt :=
  haveI : Trans (fun a b : α => compare a b = .lt) (fun a b => compare a b = .lt) (fun a b => compare a b = .lt) :=
    ⟨Std.TransCmp.lt_trans⟩
  chain.pairwise

end Lists

end Art.Machine
