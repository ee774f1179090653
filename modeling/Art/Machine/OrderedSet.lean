import Mathlib

/-!
# Ordered sets as sorted lists

A `std::set` over a linear order is iterated from its least element up; here it is
that list, strictly increasing (`List.Pairwise (· < ·)`). `insert` puts an element
in its place unless it is there already, and `List.erase` takes one out; both keep
the list sorted (`pairwise_insert`, `pairwise_erase`).

The walks of the set that the code makes are list functions of this list: a scan
from `begin()` for the first element that passes a test finds the least such element
(`find?_least`), `rbegin()` is the greatest element (`getLast?_greatest`), the walk
from `upper_bound(b)` up is the list of the elements above `b` and starts with the
least of them (`filter_lt_head`), and the walk from there down is the reversed list of
the elements below `b`, which starts with the greatest of them
(`reverse_filter_gt_head`).

A `std::set` under a comparator `lt` that the code supplies is the list of its elements in
that order (`List.Pairwise lt`). `insertBy lt` puts an element in its place unless an element
equivalent to it is there; `lowerBound lt key` is the first element not below `key`, and on a
sorted list it is the least such (`lowerBound_least`); with none, every element is below `key`
(`lowerBound_eq_none`). `before lt key` is the last element below `key`, the one that `--it`
reaches from `lower_bound(key)`.
-/

set_option autoImplicit false

namespace Art.Machine.OrderedSet

variable {α : Type} [LinearOrder α]

/-- `std::set::insert`: `a` in its place, or the set unchanged when it holds `a`. -/
def insert (a : α) : List α → List α
  | [] => [a]
  | b :: l => if a < b then a :: b :: l else if a = b then b :: l else b :: insert a l

@[simp] theorem mem_insert {a x : α} {l : List α} : x ∈ insert a l ↔ x = a ∨ x ∈ l := by
  induction l with
  | nil => simp [insert]
  | cons b l ih =>
      unfold insert
      split_ifs with below same
      · simp
      · subst same
        simp
      · simp only [List.mem_cons, ih]
        tauto

theorem pairwise_insert (a : α) {l : List α} (sorted : l.Pairwise (· < ·)) : (insert a l).Pairwise (· < ·) := by
  induction l with
  | nil => simp [insert]
  | cons b l ih =>
      rw [List.pairwise_cons] at sorted
      unfold insert
      split_ifs with below same
      · -- `a` goes first: it is below `b`, hence below every later element
        refine List.pairwise_cons.2 ⟨fun x member => ?_, List.pairwise_cons.2 sorted⟩
        rcases List.mem_cons.1 member with rfl | later
        · exact below
        · exact below.trans (sorted.1 x later)
      · exact List.pairwise_cons.2 sorted
      · -- `a` goes after `b`, which is below it
        have above : b < a := lt_of_le_of_ne (not_lt.1 below) (Ne.symm same)
        refine List.pairwise_cons.2 ⟨fun x member => ?_, ih sorted.2⟩
        rcases mem_insert.1 member with rfl | later
        · exact above
        · exact sorted.1 x later

theorem pairwise_erase (a : α) {l : List α} (sorted : l.Pairwise (· < ·)) : (l.erase a).Pairwise (· < ·) :=
  sorted.sublist List.erase_sublist

theorem mem_erase {a x : α} {l : List α} (sorted : l.Pairwise (· < ·)) : x ∈ l.erase a ↔ x ≠ a ∧ x ∈ l :=
  List.Nodup.mem_erase_iff (sorted.imp ne_of_lt)

/-- The scan from `begin()` for the first element that passes `p` finds the least
element that does. -/
theorem find?_least {p : α → Bool} {l : List α} {a : α} (sorted : l.Pairwise (· < ·)) (found : l.find? p = some a) :
    a ∈ l ∧ p a ∧ ∀ x ∈ l, x < a → p x = false := by
  obtain ⟨passes, before, after, rfl, failed⟩ := List.find?_eq_some_iff_append.1 found
  refine ⟨by simp, passes, fun x member below => ?_⟩
  rcases List.mem_append.1 member with early | late
  · simpa using failed x early
  · -- an element from `a` on is at least `a`
    rw [List.pairwise_append] at sorted
    rcases List.mem_cons.1 late with rfl | later
    · exact absurd below (lt_irrefl x)
    · exact absurd (List.rel_of_pairwise_cons sorted.2.1 later) (not_lt.2 below.le)

/-- `rbegin()` is the greatest element. -/
theorem getLast?_greatest {l : List α} {a : α} (sorted : l.Pairwise (· < ·)) (last : l.getLast? = some a) :
    a ∈ l ∧ ∀ x ∈ l, x ≤ a := by
  obtain ⟨before, rfl⟩ := List.getLast?_eq_some_iff.1 last
  refine ⟨by simp, fun x member => ?_⟩
  rcases List.mem_append.1 member with early | late
  · exact (List.pairwise_append.1 sorted).2.2 x early a (by simp) |>.le
  · rw [List.mem_singleton.1 late]

/-- The greatest element is `rbegin()`. -/
theorem getLast?_eq_of_greatest {l : List α} {a : α} (sorted : l.Pairwise (· < ·)) (member : a ∈ l)
    (greatest : ∀ x ∈ l, x ≤ a) : l.getLast? = some a := by
  obtain ⟨b, last⟩ : ∃ b, l.getLast? = some b := Option.isSome_iff_exists.1 (List.getLast?_isSome.2 (List.ne_nil_of_mem member))
  obtain ⟨listed, above⟩ := getLast?_greatest sorted last
  rw [last, le_antisymm (greatest b listed) (above a member)]

/-- The walk up from `upper_bound(b)` starts with the least element above `b`, and
goes on through elements of the set. -/
theorem filter_lt_head {l rest : List α} {b a : α} (sorted : l.Pairwise (· < ·))
    (walk : l.filter (fun x => b < x) = a :: rest) :
    a ∈ l ∧ b < a ∧ (∀ x ∈ l, b < x → a ≤ x) ∧ ∀ x ∈ rest, x ∈ l := by
  obtain ⟨before, after, rfl, skipped, passes, tail⟩ := List.filter_eq_cons_iff.1 walk
  have above : b < a := by simpa using passes
  refine ⟨by simp, above, fun x member bx => ?_, fun x later => ?_⟩
  · rcases List.mem_append.1 member with early | late
    · exact absurd (by simpa using bx) (skipped x early)
    · rw [List.pairwise_append] at sorted
      rcases List.mem_cons.1 late with rfl | later
      · exact le_rfl
      · exact (List.rel_of_pairwise_cons sorted.2.1 later).le
  · rw [← tail] at later
    exact List.mem_append_right _ (List.mem_cons_of_mem _ (List.mem_filter.1 later).1)

/-- The walk down from `upper_bound(b)` starts with the greatest element below `b`,
and goes on through elements of the set. -/
theorem reverse_filter_gt_head {l rest : List α} {b a : α} (sorted : l.Pairwise (· < ·))
    (walk : (l.filter (fun x => x < b)).reverse = a :: rest) :
    a ∈ l ∧ a < b ∧ (∀ x ∈ l, x < b → x ≤ a) ∧ ∀ x ∈ rest, x ∈ l := by
  have last : (l.filter (fun x => x < b)).getLast? = some a := by
    rw [← List.head?_reverse, walk, List.head?_cons]
  obtain ⟨member, greatest⟩ := getLast?_greatest (sorted.filter _) last
  rw [List.mem_filter] at member
  refine ⟨member.1, by simpa using member.2, fun x inSet below => greatest x ?_, fun x later => ?_⟩
  · exact List.mem_filter.2 ⟨inSet, by simpa using below⟩
  · have listed : x ∈ (l.filter (fun x => x < b)).reverse := by rw [walk]; exact List.mem_cons_of_mem _ later
    exact (List.mem_filter.1 (List.mem_reverse.1 listed)).1

/-! ## Under a comparator -/

section Comparator

variable {β : Type} (lt : β → β → Bool)

/-- `std::set::insert` under the comparator `lt`: `a` in its place, or the set unchanged when it
holds an element equivalent to `a`. -/
def insertBy (a : β) : List β → List β
  | [] => [a]
  | b :: l => if lt a b then a :: b :: l else if lt b a then b :: insertBy a l else b :: l

/-- `std::set::lower_bound(key)` under the comparator `lt`: the first element not below `key`. -/
def lowerBound (key : β) (l : List β) : Option β := l.find? fun b => !lt b key

/-- The last element below `key`: on a sorted list, the one before `lower_bound(key)`. -/
def before (key : β) (l : List β) : Option β := (l.filter fun b => lt b key).getLast?

variable {lt}

/-- **`lower_bound` finds the least element not below the key**: every other element that is not
below the key comes after it. -/
theorem lowerBound_least {key a : β} {l : List β} (sorted : l.Pairwise fun x y => lt x y = true)
    (found : lowerBound lt key l = some a) :
    a ∈ l ∧ lt a key = false ∧ ∀ x ∈ l, lt x key = false → x = a ∨ lt a x = true := by
  obtain ⟨passes, front, back, rfl, skipped⟩ := List.find?_eq_some_iff_append.1 found
  refine ⟨by simp, by simpa using passes, fun x member notBelow => ?_⟩
  rcases List.mem_append.1 member with early | late
  · have below := skipped x early
    simp [notBelow] at below
  · rcases List.mem_cons.1 late with rfl | later
    · exact Or.inl rfl
    · exact Or.inr (List.rel_of_pairwise_cons (List.pairwise_append.1 sorted).2.1 later)

/-- With no `lower_bound`, every element is below the key. -/
theorem lowerBound_eq_none {key : β} {l : List β} (none : lowerBound lt key l = none) :
    ∀ x ∈ l, lt x key = true := by
  intro x member
  simpa using List.find?_eq_none.1 none x member

/-- With an element not below the key, `lower_bound` finds something. -/
theorem lowerBound_exists {key x : β} {l : List β} (member : x ∈ l) (notBelow : lt x key = false) :
    ∃ a, lowerBound lt key l = some a := by
  cases found : lowerBound lt key l with
  | some a => exact ⟨a, rfl⟩
  | none =>
      have below := lowerBound_eq_none found x member
      rw [notBelow] at below
      contradiction

/-- With every element comparable to `a`, `insertBy` adds `a` to the others. -/
theorem insertBy_perm {a : β} {l : List β} (total : ∀ b ∈ l, lt a b = true ∨ lt b a = true) :
    (insertBy lt a l).Perm (a :: l) := by
  induction l with
  | nil => simp [insertBy]
  | cons b l ih =>
      rw [insertBy]
      split
      · exact List.Perm.refl _
      · next notBelow =>
          have after : lt b a = true := (total b (by simp)).resolve_left notBelow
          rw [if_pos after]
          exact ((ih fun c member => total c (by simp [member])).cons b).trans (List.Perm.swap a b l)

theorem mem_insertBy {a x : β} {l : List β} (total : ∀ b ∈ l, lt a b = true ∨ lt b a = true) :
    x ∈ insertBy lt a l ↔ x = a ∨ x ∈ l := by
  rw [(insertBy_perm total).mem_iff, List.mem_cons]

/-- **`insertBy` keeps a set sorted**, under a transitive comparator that orders `a` and every
element. -/
theorem pairwise_insertBy (trans : ∀ x y z : β, lt x y = true → lt y z = true → lt x z = true) {a : β}
    {l : List β} (sorted : l.Pairwise fun x y => lt x y = true) (total : ∀ b ∈ l, lt a b = true ∨ lt b a = true) :
    (insertBy lt a l).Pairwise fun x y => lt x y = true := by
  induction l with
  | nil => simp [insertBy]
  | cons b l ih =>
      obtain ⟨above, sortedRest⟩ := List.pairwise_cons.1 sorted
      rw [insertBy]
      split
      · next below =>
          refine List.pairwise_cons.2 ⟨fun c member => ?_, sorted⟩
          rcases List.mem_cons.1 member with rfl | later
          · exact below
          · exact trans _ _ _ below (above c later)
      · next notBelow =>
          have after : lt b a = true := (total b (by simp)).resolve_left notBelow
          have restTotal : ∀ c ∈ l, lt a c = true ∨ lt c a = true := fun c member => total c (by simp [member])
          rw [if_pos after]
          refine List.pairwise_cons.2 ⟨fun c member => ?_, ih sortedRest restTotal⟩
          rcases (mem_insertBy restTotal).1 member with rfl | later
          · exact after
          · exact above c later

/-- On a sorted set, `lower_bound` of an element's own key is that element. -/
theorem lowerBound_self {a : β} {l : List β} (irrefl : lt a a = false) (sorted : l.Pairwise fun x y => lt x y = true)
    (member : a ∈ l) : lowerBound lt a l = some a := by
  obtain ⟨front, back, rfl⟩ := List.append_of_mem member
  have below : ∀ x ∈ front, lt x a = true := fun x early =>
    (List.pairwise_append.1 sorted).2.2 x early a List.mem_cons_self
  rw [lowerBound, List.find?_append, List.find?_eq_none.2 (fun x early => by simp [below x early]), Option.none_or]
  simp [irrefl]

end Comparator

end Art.Machine.OrderedSet
