import Mathlib
import Art.Machine.Loop

/-!
# The largest immune region

`ImmuneSpaces::CreateLargestImmuneRegion` (`immune_spaces.cc`) picks the address range
`[best_begin, best_end)` that the collector treats as immune as a whole, without asking which
space an object lies in. It makes an interval of each immune space, tagged as heap, and one of
the oat file of each image space, tagged as not heap (`immuneIntervals`); sorts them; and walks
them in order (`visitInterval`), keeping the current region of intervals that abut and the
region with the most heap bytes so far. A region starts only at a heap interval: an oat file
that does not extend the current region is skipped.

**What it computes.** For pairwise disjoint, non-empty intervals above address 0, the region is
the union of a chain of the intervals, each ending where the next begins, that starts and ends
with a heap interval, and no such chain has more heap bytes; with no heap interval it is empty
(`IsLargestImmuneRegion`, `largestImmuneRegion_spec`).

**The loop's invariant** (`Visited`). After the sorted intervals `done`, these split as
`pre ++ run ++ post` (`CurrentRegion`): `run` is the current region, `post` the oat files
skipped since, and every run that starts on heap and abuts throughout, taken back from the end
of `done`, lies inside `run`. The best region is a chain of `done` with at least the heap bytes
of every chain of `done`. The body skips an oat file (`visited_skip`), extends the region by one
(`visited_extendOat`), or takes a heap interval (`visited_heap`) that extends the region
(`CurrentRegion.extend`) or restarts it (`Visited.reset`) and may make it the best
(`Visited.record`).

**Why the sorted order is enough.** Sorted, disjoint, non-empty intervals follow one another
(`ordered_mergeSort`), so the intervals of any chain are consecutive in the sorted list
(`consecutive_of_abutting`): the best over the runs of that list is the best over all chains.
-/

set_option autoImplicit false

namespace Art.Runtime.Gc.Collector

open Art.Machine

/-! ## The model -/

/-- An entry of `intervals`: `std::tuple</*start*/uintptr_t, /*end*/uintptr_t, /*is_heap*/bool>`. -/
structure Interval where
  start : Nat
  stop : Nat
  isHeap : Bool
  deriving DecidableEq, Repr

namespace Interval

/-- `std::tuple`'s `operator<`: lexicographic, with `false < true`. -/
def lt (a b : Interval) : Bool :=
  a.start < b.start || !(b.start < a.start) && (a.stop < b.stop || !(b.stop < a.stop) && (!a.isHeap && b.isHeap))

/-- The order `std::sort` leaves the tuples in: `a` may stand before `b` when `b < a` fails. -/
def le (a b : Interval) : Bool := !b.lt a

/-- The heap bytes of an interval; an oat file holds no objects. -/
def heapSize (x : Interval) : Nat := if x.isHeap then x.stop - x.start else 0

end Interval

/-- The locals of `CreateLargestImmuneRegion`, all `0u` at the start. -/
structure RegionState where
  bestBegin : Nat := 0
  bestEnd : Nat := 0
  bestHeapSize : Nat := 0
  curBegin : Nat := 0
  curEnd : Nat := 0
  curHeapSize : Nat := 0
  deriving DecidableEq, Repr

/-- The body of the loop over the sorted intervals; a failed `DCHECK` is `none`. -/
def visitInterval (s : RegionState) (interval : Interval) : Option RegionState :=
  if ¬(interval.start ≤ interval.stop ∧ s.curEnd ≤ interval.start) then none
  -- `continue`: an oat file never starts a region
  else if interval.start ≠ s.curEnd ∧ interval.isHeap = false then some s
  else
    let s := if interval.start ≠ s.curEnd then { s with curBegin := interval.start, curHeapSize := 0 } else s
    let s := { s with curEnd := interval.stop }
    if interval.isHeap then
      let s := { s with curHeapSize := s.curHeapSize + (interval.stop - interval.start) }
      if s.curHeapSize > s.bestHeapSize then
        some { s with bestBegin := s.curBegin, bestEnd := s.curEnd, bestHeapSize := s.curHeapSize }
      else some s
    else some s

/-- The sort and the loop of `CreateLargestImmuneRegion`: the region `[best_begin, best_end)`. -/
def largestImmuneRegion (intervals : List Interval) : Option (Nat × Nat) :=
  ((intervals.mergeSort Interval.le).foldlM visitInterval {}).map fun s => (s.bestBegin, s.bestEnd)

/-- `kPageSize`. -/
def kPageSize : Nat := 4096

/-- What `CreateLargestImmuneRegion` reads of an immune space: `Begin()`, `Limit()`, and for an
image space its `GetImageEnd()` and the `[Begin(), End())` of its oat file, if it has one. -/
structure ContinuousSpace where
  begin : Nat
  limit : Nat
  image : Option (Nat × Option (Nat × Nat))
  deriving DecidableEq, Repr

/-- The first loop of `CreateLargestImmuneRegion`: an image space reaches to its image end
rounded up to a page, and its oat file goes before it as an interval that is not heap. -/
def immuneIntervals (spaces : List ContinuousSpace) : List Interval :=
  spaces.flatMap fun space =>
    match space.image with
    | none => [⟨space.begin, space.limit, true⟩]
    | some (imageEnd, oatFile) =>
        let spaceEnd := (imageEnd + kPageSize - 1) / kPageSize * kPageSize
        (match oatFile with
          | some (oatBegin, oatEnd) => [⟨oatBegin, oatEnd, false⟩]
          | none => []) ++ [⟨space.begin, spaceEnd, true⟩]

/-- `ImmuneSpaces::CreateLargestImmuneRegion`: the largest immune region of the spaces. -/
def createLargestImmuneRegion (spaces : List ContinuousSpace) : Option (Nat × Nat) :=
  largestImmuneRegion (immuneIntervals spaces)

/-! ## Chains of intervals -/

/-- Two intervals that share no address. -/
def Interval.Disjoint (a b : Interval) : Prop := a.stop ≤ b.start ∨ b.stop ≤ a.start

instance (a b : Interval) : Decidable (Interval.Disjoint a b) := inferInstanceAs (Decidable (_ ∨ _))

/-- The heap bytes of a sequence of intervals. -/
def heapBytes (intervals : List Interval) : Nat := (intervals.map Interval.heapSize).sum

/-- Each interval of `run` ends where the next begins. -/
def Abutting (run : List Interval) : Prop := run.IsChain fun a b => a.stop = b.start

/-- A sequence of abutting intervals that starts and ends with a heap interval. -/
structure IsHeapChain (chain : List Interval) : Prop where
  nonempty : chain ≠ []
  abutting : Abutting chain
  startsOnHeap : ∀ x ∈ chain.head?, x.isHeap = true
  endsOnHeap : ∀ x ∈ chain.getLast?, x.isHeap = true

/-- Each interval ends before every later one begins. -/
def Ordered (intervals : List Interval) : Prop := intervals.Pairwise fun a b => a.stop ≤ b.start

/-- **What the immune region is for**: it is the union of a chain of the intervals that has the
most heap bytes of all their chains, and empty when no interval is heap. -/
def IsLargestImmuneRegion (intervals : List Interval) (region : Nat × Nat) : Prop :=
  ((∀ x ∈ intervals, x.isHeap = false) → region = (0, 0)) ∧
  ((∃ x ∈ intervals, x.isHeap = true) → ∃ chain, IsHeapChain chain ∧ (∀ x ∈ chain, x ∈ intervals) ∧
    (∀ addr, region.1 ≤ addr ∧ addr < region.2 ↔ ∃ x ∈ chain, x.start ≤ addr ∧ addr < x.stop) ∧
    ∀ other, IsHeapChain other → (∀ x ∈ other, x ∈ intervals) → heapBytes other ≤ heapBytes chain)

@[simp] theorem heapBytes_nil : heapBytes [] = 0 := rfl

@[simp] theorem heapBytes_append (a b : List Interval) : heapBytes (a ++ b) = heapBytes a + heapBytes b := by
  simp [heapBytes]

@[simp] theorem heapBytes_singleton (x : Interval) : heapBytes [x] = x.heapSize := by
  simp [heapBytes]

theorem heapBytes_le_of_suffix {chain run : List Interval} (suffix : chain <:+ run) :
    heapBytes chain ≤ heapBytes run := by
  obtain ⟨front, rfl⟩ := suffix
  simp

theorem heapSize_pos {x : Interval} (heap : x.isHeap = true) (nonempty : x.start < x.stop) : 0 < x.heapSize := by
  simp only [Interval.heapSize, heap, if_true]
  omega

/-- A non-empty suffix ends where the list ends. -/
theorem getLast?_of_suffix {α : Type} {l₁ l₂ : List α} (suffix : l₁ <:+ l₂) (nonempty : l₁ ≠ []) :
    l₁.getLast? = l₂.getLast? := by
  obtain ⟨front, rfl⟩ := suffix
  rw [List.getLast?_append]
  cases last : l₁.getLast? with
  | none => exact absurd (List.getLast?_eq_none_iff.1 last) nonempty
  | some y => rfl

/-- In an abutting `chain ++ [x]`, the last interval of `chain` ends where `x` begins. -/
theorem stop_eq_of_abutting {chain : List Interval} {x : Interval} (abutting : Abutting (chain ++ [x])) :
    ∀ y ∈ chain.getLast?, y.stop = x.start :=
  fun y last => (List.isChain_append.1 abutting).2.2 y last x rfl

/-- In an ordered list split as `front ++ back`, an interval of `front` ends before one of `back`. -/
theorem Ordered.stop_le {l : List Interval} (front back : List Interval) (ordered : Ordered l) (split : l = front ++ back)
    {a b : Interval} (before : a ∈ front) (after : b ∈ back) : a.stop ≤ b.start := by
  subst split
  exact (List.pairwise_append.1 ordered).2.2 a before b after

/-! ## The sorted order -/

namespace Interval

theorem le_total (a b : Interval) : (a.le b || b.le a) = true := by
  simp only [le, lt]
  cases a.isHeap <;> cases b.isHeap <;> simp <;> omega

theorem le_trans (a b c : Interval) : a.le b → b.le c → a.le c := by
  simp only [le, lt]
  cases a.isHeap <;> cases b.isHeap <;> cases c.isHeap <;> simp <;> omega

theorem start_le_of_le {a b : Interval} (le : a.le b) : a.start ≤ b.start := by
  simp only [Interval.le, lt, Bool.not_eq_true', Bool.or_eq_false_iff, decide_eq_false_iff_not] at le
  omega

theorem Disjoint.symm {a b : Interval} (disjoint : a.Disjoint b) : b.Disjoint a :=
  Or.symm disjoint

end Interval

/-- **Sorted intervals follow one another**: `std::sort` of pairwise disjoint, non-empty intervals
puts each before every later one. -/
theorem ordered_mergeSort {intervals : List Interval} (nonempty : ∀ x ∈ intervals, x.start < x.stop)
    (disjoint : intervals.Pairwise Interval.Disjoint) : Ordered (intervals.mergeSort Interval.le) := by
  have perm := List.mergeSort_perm intervals Interval.le
  have sorted := List.pairwise_mergeSort Interval.le_trans Interval.le_total intervals
  have apart := (perm.pairwise_iff Interval.Disjoint.symm).2 disjoint
  refine (sorted.and apart).imp_of_mem fun {a b} _ memB ⟨le, apart⟩ => ?_
  have startLe := Interval.start_le_of_le le
  have nonemptyB := nonempty b (perm.mem_iff.1 memB)
  rcases apart with before | after
  · exact before
  · omega

/-- **The intervals of a chain are consecutive in an ordered list**: an abutting sequence of
members of the list stands in it as one block. -/
theorem exists_split_of_abutting {sorted : List Interval} (ordered : Ordered sorted)
    (nonempty : ∀ x ∈ sorted, x.start < x.stop) :
    ∀ (a : Interval) (rest : List Interval), Abutting (a :: rest) → a ∈ sorted → (∀ x ∈ rest, x ∈ sorted) →
      ∃ front back, sorted = front ++ a :: rest ++ back
  | a, [], _, mem, _ => by
      obtain ⟨front, back, split⟩ := List.append_of_mem mem
      exact ⟨front, back, by simp [split]⟩
  | a, b :: rest, abutting, mem, members => by
      obtain ⟨abuts, abuttingRest⟩ := List.isChain_cons_cons.1 abutting
      obtain ⟨front, back, split⟩ := exists_split_of_abutting ordered nonempty b rest abuttingRest
        (members b List.mem_cons_self) fun x m => members x (List.mem_cons_of_mem b m)
      have nonemptyA := nonempty a mem
      have nonemptyB := nonempty b (members b List.mem_cons_self)
      -- `a` ends where `b` begins, so it is the interval just before `b`
      rw [split, List.append_assoc, List.mem_append] at mem
      rcases mem with inFront | after
      · obtain ⟨front₁, between, rfl⟩ := List.append_of_mem inFront
        cases between with
        | nil => exact ⟨front₁, back, by simp [split]⟩
        | cons y between =>
            have nonemptyY := nonempty y (by simp [split])
            have aBefore := ordered.stop_le (front₁ ++ [a]) (y :: between ++ b :: rest ++ back)
              (a := a) (b := y) (by simp [split]) (by simp) List.mem_cons_self
            have yBefore := ordered.stop_le (front₁ ++ a :: y :: between) (b :: rest ++ back)
              (a := y) (b := b) (by simp [split]) (by simp) List.mem_cons_self
            omega
      · rcases List.mem_cons.1 after with rfl | later
        · omega
        · have bBefore := ordered.stop_le (front ++ [b]) (rest ++ back)
            (a := b) (b := a) (by simp [split]) (by simp) later
          omega

theorem consecutive_of_abutting {sorted chain : List Interval} (ordered : Ordered sorted)
    (nonempty : ∀ x ∈ sorted, x.start < x.stop) (nonemptyChain : chain ≠ []) (abutting : Abutting chain)
    (members : ∀ x ∈ chain, x ∈ sorted) : chain <:+: sorted := by
  obtain ⟨a, rest, rfl⟩ := List.exists_cons_of_ne_nil nonemptyChain
  obtain ⟨front, back, split⟩ := exists_split_of_abutting ordered nonempty a rest abutting
    (members a List.mem_cons_self) fun x m => members x (List.mem_cons_of_mem a m)
  exact ⟨front, back, split.symm⟩

/-- An abutting chain of intervals reaches from its first start to its last stop. -/
theorem start_le_stop_of_abutting : ∀ {chain : List Interval} {first last : Interval}, Abutting chain →
    (∀ x ∈ chain, x.start ≤ x.stop) → chain.head? = some first → chain.getLast? = some last →
      first.start ≤ last.stop
  | [a], _, _, _, nonempty, head, tail => by
      simp only [List.head?_cons, List.getLast?_singleton, Option.some.injEq] at head tail
      subst head tail
      exact nonempty a List.mem_cons_self
  | a :: b :: rest, _, last, abutting, nonempty, head, tail => by
      obtain ⟨abuts, abuttingRest⟩ := List.isChain_cons_cons.1 abutting
      simp only [List.head?_cons, Option.some.injEq] at head
      subst head
      have reaches : b.start ≤ last.stop := start_le_stop_of_abutting abuttingRest
        (fun x m => nonempty x (List.mem_cons_of_mem a m)) rfl (by rwa [List.getLast?_cons_cons] at tail)
      have nonemptyA := nonempty a List.mem_cons_self
      omega

/-- **The union of a chain** of intervals is the range from its first start to its last stop. -/
theorem mem_union_iff : ∀ {chain : List Interval} {first last : Interval}, Abutting chain →
    (∀ x ∈ chain, x.start ≤ x.stop) → chain.head? = some first → chain.getLast? = some last → ∀ addr,
      (first.start ≤ addr ∧ addr < last.stop ↔ ∃ x ∈ chain, x.start ≤ addr ∧ addr < x.stop)
  | [a], _, _, _, _, head, tail, addr => by
      simp only [List.head?_cons, List.getLast?_singleton, Option.some.injEq] at head tail
      subst head tail
      simp
  | a :: b :: rest, _, last, abutting, nonempty, head, tail, addr => by
      obtain ⟨abuts, abuttingRest⟩ := List.isChain_cons_cons.1 abutting
      simp only [List.head?_cons, Option.some.injEq] at head
      subst head
      have nonemptyRest : ∀ x ∈ b :: rest, x.start ≤ x.stop := fun x m => nonempty x (List.mem_cons_of_mem a m)
      have tailRest : (b :: rest).getLast? = some last := by rwa [List.getLast?_cons_cons] at tail
      have reaches := start_le_stop_of_abutting abuttingRest nonemptyRest rfl tailRest
      have nonemptyA := nonempty a List.mem_cons_self
      -- the range splits at `a.stop = b.start` into `a` and the range of the rest
      simp only [List.mem_cons (l := b :: rest), or_and_right, exists_or, exists_eq_left]
      rw [← mem_union_iff abuttingRest nonemptyRest rfl tailRest addr]
      omega

/-! ## One step of the loop -/

section Visit

variable {s : RegionState} {x : Interval}

/-- An oat file that does not begin where the current region ends is skipped. -/
theorem visitInterval_skip (checks : x.start ≤ x.stop ∧ s.curEnd ≤ x.start) (jump : x.start ≠ s.curEnd)
    (oat : x.isHeap = false) : visitInterval s x = some s := by
  rw [visitInterval, if_neg (not_not.2 checks), if_pos ⟨jump, oat⟩]

/-- An oat file that begins where the current region ends extends it. -/
theorem visitInterval_extendOat (checks : x.start ≤ x.stop ∧ s.curEnd ≤ x.start) (abuts : x.start = s.curEnd)
    (oat : x.isHeap = false) : visitInterval s x = some { s with curEnd := x.stop } := by
  rw [visitInterval, if_neg (not_not.2 checks), if_neg fun skip => skip.1 abuts]
  simp [abuts, oat]

/-- **A heap interval** extends the current region, or restarts it when it does not begin where
that ends; the region becomes the best when it has more heap bytes. -/
theorem visitInterval_heap (checks : x.start ≤ x.stop ∧ s.curEnd ≤ x.start) (heap : x.isHeap = true) :
    ∃ next, visitInterval s x = some next ∧
      next.curBegin = (if x.start = s.curEnd then s.curBegin else x.start) ∧ next.curEnd = x.stop ∧
      next.curHeapSize = (if x.start = s.curEnd then s.curHeapSize else 0) + x.heapSize ∧
      (s.bestHeapSize < next.curHeapSize ∧ next.bestBegin = next.curBegin ∧ next.bestEnd = next.curEnd ∧
          next.bestHeapSize = next.curHeapSize ∨
        next.curHeapSize ≤ s.bestHeapSize ∧ next.bestBegin = s.bestBegin ∧ next.bestEnd = s.bestEnd ∧
          next.bestHeapSize = s.bestHeapSize) := by
  rw [visitInterval, if_neg (not_not.2 checks), if_neg (by simp [heap])]
  simp only [heap, if_true, Interval.heapSize]
  by_cases abuts : x.start = s.curEnd
  · simp only [abuts, ne_eq, not_true_eq_false, if_false, if_true]
    split
    · exact ⟨_, rfl, rfl, rfl, rfl, Or.inl ⟨by assumption, rfl, rfl, rfl⟩⟩
    · exact ⟨_, rfl, rfl, rfl, rfl, Or.inr ⟨Nat.le_of_not_lt (by assumption), rfl, rfl, rfl⟩⟩
  · simp only [abuts, ne_eq, not_false_eq_true, if_false, if_true]
    split
    · exact ⟨_, rfl, rfl, rfl, rfl, Or.inl ⟨by assumption, rfl, rfl, rfl⟩⟩
    · exact ⟨_, rfl, rfl, rfl, rfl, Or.inr ⟨Nat.le_of_not_lt (by assumption), rfl, rfl, rfl⟩⟩

end Visit
/-! ## The invariant of the loop -/

/-- The locals `cur_*` after the sorted intervals `pre ++ run ++ post`: `run` is the current
region, and every run that starts on heap and abuts, taken back from the end of the intervals,
lies inside it, so that the intervals `post` after it are oat files that did not extend it. -/
structure CurrentRegion (s : RegionState) (pre run post : List Interval) : Prop where
  abutting : Abutting run
  head : ∃ x ∈ run.head?, x.isHeap = true ∧ s.curBegin = x.start
  last : ∃ x ∈ run.getLast?, s.curEnd = x.stop
  heapSize : s.curHeapSize = heapBytes run
  anchored : ∀ chain, chain <:+ pre ++ run ++ post → chain ≠ [] → Abutting chain →
    (∀ x ∈ chain.head?, x.isHeap = true) → post = [] ∧ chain <:+ run

/-- The locals `best_*` hold the region of `chain` and its heap bytes. -/
structure BestRegion (s : RegionState) (chain : List Interval) : Prop where
  isHeapChain : IsHeapChain chain
  head : ∃ x ∈ chain.head?, s.bestBegin = x.start
  last : ∃ x ∈ chain.getLast?, s.bestEnd = x.stop
  heapSize : s.bestHeapSize = heapBytes chain

/-- **The invariant of the loop** after the sorted intervals `done`: before the first heap
interval every local is still `0`; from it on there is a current region, the best region is a
chain of `done`, and no chain of `done` has more heap bytes. -/
structure Visited (done : List Interval) (s : RegionState) : Prop where
  current : (∀ x ∈ done, x.isHeap = false) ∧ s = {} ∨
    ∃ pre run post, done = pre ++ run ++ post ∧ CurrentRegion s pre run post
  best : s.bestHeapSize = 0 ∧ s.bestBegin = 0 ∧ s.bestEnd = 0 ∨ ∃ chain, chain <:+: done ∧ BestRegion s chain
  optimal : ∀ chain, chain <:+: done → IsHeapChain chain → heapBytes chain ≤ s.bestHeapSize
  currentLeBest : s.curHeapSize ≤ s.bestHeapSize

section Invariant

variable {done pre run : List Interval} {x : Interval} {s next : RegionState}

theorem CurrentRegion.run_ne_nil {post : List Interval} (current : CurrentRegion s pre run post) : run ≠ [] := by
  rintro rfl
  obtain ⟨_, none, -⟩ := current.head
  exact Option.not_mem_none _ none

theorem BestRegion.congr {chain : List Interval} (best : BestRegion s chain) (bestBegin : next.bestBegin = s.bestBegin)
    (bestEnd : next.bestEnd = s.bestEnd) (bestHeapSize : next.bestHeapSize = s.bestHeapSize) :
    BestRegion next chain where
  isHeapChain := best.isHeapChain
  head := bestBegin ▸ best.head
  last := bestEnd ▸ best.last
  heapSize := bestHeapSize ▸ best.heapSize

theorem visited_nil : Visited [] {} where
  current := Or.inl ⟨fun _ mem => absurd mem List.not_mem_nil, rfl⟩
  best := Or.inl ⟨rfl, rfl, rfl⟩
  optimal _ inside isHeapChain := absurd (List.eq_nil_of_infix_nil inside) isHeapChain.nonempty
  currentLeBest := Nat.le_refl 0

/-- The current region ends before the next interval begins: the second `DCHECK` passes. -/
theorem Visited.curEnd_le (visited : Visited done s) (ordered : Ordered (done ++ [x])) : s.curEnd ≤ x.start := by
  rcases visited.current with ⟨-, rfl⟩ | ⟨pre, run, post, rfl, current⟩
  · exact Nat.zero_le _
  · obtain ⟨last, isLast, curEnd⟩ := current.last
    rw [curEnd]
    exact ordered.stop_le _ _ rfl (by simp [List.mem_of_getLast? isLast]) (List.mem_singleton_self x)

/-- A run of `done` that starts on heap and abuts, taken back from its end, ends where the
current region ends. -/
theorem Visited.stop_eq_curEnd (visited : Visited done s) {chain : List Interval} (suffix : chain <:+ done)
    (nonempty : chain ≠ []) (abutting : Abutting chain) (startsOnHeap : ∀ y ∈ chain.head?, y.isHeap = true) :
    ∀ y ∈ chain.getLast?, y.stop = s.curEnd := by
  rcases visited.current with ⟨oats, -⟩ | ⟨pre, run, post, rfl, current⟩
  · -- before the first heap interval there is no such run
    obtain ⟨first, rest, rfl⟩ := List.exists_cons_of_ne_nil nonempty
    have onHeap := startsOnHeap first rfl
    rw [oats first (suffix.subset List.mem_cons_self)] at onHeap
    contradiction
  · obtain ⟨-, inRun⟩ := current.anchored chain suffix nonempty abutting startsOnHeap
    obtain ⟨last, isLast, curEnd⟩ := current.last
    intro y isLastY
    rw [getLast?_of_suffix inRun nonempty, isLast, Option.mem_def, Option.some.injEq] at isLastY
    rw [← isLastY, curEnd]

/-- **After a jump**, the only run that starts on heap, abuts, and ends with the new interval
is that interval. -/
theorem Visited.eq_singleton_of_jump (visited : Visited done s) (jump : x.start ≠ s.curEnd) {chain : List Interval}
    (suffix : chain <:+ done ++ [x]) (nonempty : chain ≠ []) (abutting : Abutting chain)
    (startsOnHeap : ∀ y ∈ chain.head?, y.isHeap = true) : chain = [x] := by
  rcases List.suffix_concat_iff.1 suffix with rfl | ⟨front, rfl, inDone⟩
  · exact absurd rfl nonempty
  · by_cases frontNil : front = []
    · rw [frontNil, List.nil_append]
    · exfalso
      have startsOnHeapFront : ∀ y ∈ front.head?, y.isHeap = true := fun y head =>
        startsOnHeap y (by rw [List.head?_append_of_ne_nil _ frontNil]; exact head)
      have last := List.getLast?_eq_some_getLast frontNil
      have atCurEnd := visited.stop_eq_curEnd inDone frontNil (List.IsChain.left_of_append abutting)
        startsOnHeapFront _ last
      exact jump (stop_eq_of_abutting abutting _ last ▸ atCurEnd)

theorem Visited.best_concat (visited : Visited done s) :
    s.bestHeapSize = 0 ∧ s.bestBegin = 0 ∧ s.bestEnd = 0 ∨ ∃ chain, chain <:+: done ++ [x] ∧ BestRegion s chain :=
  visited.best.imp_right fun ⟨chain, inside, best⟩ => ⟨chain, inside.trans ⟨[], [x], rfl⟩, best⟩

/-- No chain ends with an oat file, so one more adds no chain. -/
theorem Visited.optimal_oat (visited : Visited done s) (oat : x.isHeap = false) :
    ∀ chain, chain <:+: done ++ [x] → IsHeapChain chain → heapBytes chain ≤ s.bestHeapSize := by
  intro chain inside isHeapChain
  rcases List.infix_concat_iff.1 inside with suffix | inDone
  · rcases List.suffix_concat_iff.1 suffix with rfl | ⟨front, rfl, -⟩
    · exact absurd rfl isHeapChain.nonempty
    · have onHeap := isHeapChain.endsOnHeap x List.getLast?_concat
      rw [oat] at onHeap
      contradiction
  · exact visited.optimal chain inDone isHeapChain

/-- **Skipping an oat file** keeps the invariant: it goes after the current region. -/
theorem visited_skip (visited : Visited done s) (oat : x.isHeap = false) (jump : x.start ≠ s.curEnd) :
    Visited (done ++ [x]) s where
  current := by
    rcases visited.current with ⟨oats, fresh⟩ | ⟨pre, run, post, rfl, current⟩
    · refine Or.inl ⟨fun y mem => ?_, fresh⟩
      rcases List.mem_append.1 mem with inDone | isX
      · exact oats y inDone
      · rw [List.mem_singleton.1 isX, oat]
    · refine Or.inr ⟨pre, run, post ++ [x], by simp, { current with anchored := ?_ }⟩
      intro chain suffix nonempty abutting startsOnHeap
      -- such a run ends with `x`, so it is `[x]`, which does not start on heap
      have single := visited.eq_singleton_of_jump jump (by simpa using suffix) nonempty abutting startsOnHeap
      subst single
      have onHeap := startsOnHeap x rfl
      rw [oat] at onHeap
      contradiction
  best := visited.best_concat
  optimal := visited.optimal_oat oat
  currentLeBest := visited.currentLeBest

/-- When the next interval begins where the current region ends, no oat file was skipped
after the region: it would lie between the two. -/
theorem CurrentRegion.post_eq_nil {post : List Interval} (current : CurrentRegion s pre run post)
    (ordered : Ordered (pre ++ run ++ post ++ [x])) (nonempty : ∀ y ∈ post, y.start < y.stop)
    (abuts : x.start = s.curEnd) : post = [] := by
  refine List.eq_nil_iff_forall_not_mem.2 fun y mem => ?_
  obtain ⟨last, isLast, curEnd⟩ := current.last
  have lastBefore := ordered.stop_le (pre ++ run) (post ++ [x]) (a := last) (b := y)
    (by simp) (by simp [List.mem_of_getLast? isLast]) (by simp [mem])
  have yBefore := ordered.stop_le (pre ++ run ++ post) [x] (a := y) (b := x)
    rfl (by simp [mem]) (List.mem_singleton_self x)
  have nonemptyY := nonempty y mem
  omega

/-- **Extending the current region** by an interval that begins where it ends. -/
theorem CurrentRegion.extend (current : CurrentRegion s pre run []) (abuts : x.start = s.curEnd)
    (curBegin : next.curBegin = s.curBegin) (curEnd : next.curEnd = x.stop)
    (curHeapSize : next.curHeapSize = s.curHeapSize + x.heapSize) : CurrentRegion next pre (run ++ [x]) [] where
  abutting := by
    refine List.IsChain.append current.abutting (List.isChain_singleton x) fun y isLast z isHead => ?_
    obtain ⟨last, isLast', curEnd'⟩ := current.last
    rw [isLast', Option.mem_def, Option.some.injEq] at isLast
    rw [List.head?_singleton, Option.mem_def, Option.some.injEq] at isHead
    rw [← isLast, ← isHead, ← curEnd', abuts]
  head := by
    obtain ⟨first, isHead, heap, curBegin'⟩ := current.head
    refine ⟨first, ?_, heap, curBegin.trans curBegin'⟩
    rw [List.head?_append_of_ne_nil _ current.run_ne_nil]
    exact isHead
  last := ⟨x, List.getLast?_concat, curEnd⟩
  heapSize := by rw [curHeapSize, current.heapSize, heapBytes_append, heapBytes_singleton]
  anchored := by
    intro chain suffix nonempty abutting startsOnHeap
    refine ⟨rfl, ?_⟩
    rw [List.append_nil, ← List.append_assoc] at suffix
    rcases List.suffix_concat_iff.1 suffix with rfl | ⟨front, rfl, inDone⟩
    · exact absurd rfl nonempty
    · by_cases frontNil : front = []
      · rw [frontNil, List.nil_append]
        exact List.suffix_append run [x]
      · -- the run before `x` lay inside the current region
        have startsOnHeapFront : ∀ y ∈ front.head?, y.isHeap = true := fun y head =>
          startsOnHeap y (by rw [List.head?_append_of_ne_nil _ frontNil]; exact head)
        have inRun := (current.anchored front (by rwa [List.append_nil]) frontNil
          (List.IsChain.left_of_append abutting) startsOnHeapFront).2
        exact List.suffix_append_self_iff.2 inRun

/-- **Restarting the current region** at a heap interval that does not begin where it ends. -/
theorem Visited.reset (visited : Visited done s) (heap : x.isHeap = true) (jump : x.start ≠ s.curEnd)
    (curBegin : next.curBegin = x.start) (curEnd : next.curEnd = x.stop)
    (curHeapSize : next.curHeapSize = x.heapSize) : CurrentRegion next done [x] [] where
  abutting := List.isChain_singleton x
  head := ⟨x, rfl, heap, curBegin⟩
  last := ⟨x, rfl, curEnd⟩
  heapSize := by rw [curHeapSize, heapBytes_singleton]
  anchored _ suffix nonempty abutting startsOnHeap := by
    refine ⟨rfl, ?_⟩
    rw [visited.eq_singleton_of_jump jump (by simpa using suffix) nonempty abutting startsOnHeap]

/-- **After a heap interval** that ends the current region, the best region is the better of
the old best and the current region. -/
theorem Visited.record (visited : Visited done s) (split : done ++ [x] = pre ++ run)
    (current : CurrentRegion next pre run []) (heap : x.isHeap = true) (nonempty : x.start < x.stop)
    (recorded : s.bestHeapSize < next.curHeapSize ∧ next.bestBegin = next.curBegin ∧ next.bestEnd = next.curEnd ∧
          next.bestHeapSize = next.curHeapSize ∨
        next.curHeapSize ≤ s.bestHeapSize ∧ next.bestBegin = s.bestBegin ∧ next.bestEnd = s.bestEnd ∧
          next.bestHeapSize = s.bestHeapSize) :
    Visited (done ++ [x]) next := by
  have runNonempty := current.run_ne_nil
  have lastX : run.getLast? = some x := by
    rw [getLast?_of_suffix (List.suffix_append pre run) runNonempty, ← split, List.getLast?_concat]
  have grows : s.bestHeapSize ≤ next.bestHeapSize := by omega
  have covers : next.curHeapSize ≤ next.bestHeapSize := by omega
  refine ⟨Or.inr ⟨pre, run, [], by rw [split, List.append_nil], current⟩, ?_, ?_, covers⟩
  · rcases recorded with ⟨-, bestBegin, bestEnd, bestHeapSize⟩ | ⟨noMore, bestBegin, bestEnd, bestHeapSize⟩
    · -- the current region is the new best
      obtain ⟨first, isHead, firstHeap, curBegin⟩ := current.head
      obtain ⟨last, isLast, curEnd⟩ := current.last
      have isHeapChain : IsHeapChain run :=
        ⟨runNonempty, current.abutting, fun y head => by rw [isHead, Option.mem_def, Option.some.injEq] at head; rwa [← head],
          fun y tail => by rw [lastX, Option.mem_def, Option.some.injEq] at tail; rwa [← tail]⟩
      exact Or.inr ⟨run, ⟨pre, [], by rw [split, List.append_nil]⟩,
        ⟨isHeapChain, ⟨first, isHead, bestBegin.trans curBegin⟩, ⟨last, isLast, bestEnd.trans curEnd⟩,
          bestHeapSize.trans current.heapSize⟩⟩
    · rcases visited.best with ⟨zero, -, -⟩ | ⟨chain, inside, best⟩
      · -- there was no best yet, but the current region has heap bytes
        exfalso
        have atLeastX : x.heapSize ≤ heapBytes run :=
          heapBytes_le_of_suffix (List.singleton_suffix_iff_getLast?_eq_some.2 lastX)
        have positive := heapSize_pos heap nonempty
        have size := current.heapSize
        omega
      · exact Or.inr ⟨chain, inside.trans ⟨[], [x], rfl⟩, best.congr bestBegin bestEnd bestHeapSize⟩
  · intro chain inside isHeapChain
    rcases List.infix_concat_iff.1 inside with suffix | inDone
    · -- a chain that ends with `x` lies inside the current region
      rw [split, ← List.append_nil (pre ++ run)] at suffix
      have inRun := (current.anchored chain suffix isHeapChain.nonempty isHeapChain.abutting
        isHeapChain.startsOnHeap).2
      calc heapBytes chain ≤ heapBytes run := heapBytes_le_of_suffix inRun
        _ = next.curHeapSize := current.heapSize.symm
        _ ≤ next.bestHeapSize := covers
    · exact (visited.optimal chain inDone isHeapChain).trans grows

/-- **Extending the region by an oat file** keeps the invariant; the best is unchanged. -/
theorem visited_extendOat (visited : Visited done s) (ordered : Ordered (done ++ [x]))
    (nonempty : ∀ y ∈ done ++ [x], y.start < y.stop) (positive : 0 < x.start) (oat : x.isHeap = false)
    (abuts : x.start = s.curEnd) : Visited (done ++ [x]) { s with curEnd := x.stop } where
  current := by
    rcases visited.current with ⟨-, rfl⟩ | ⟨pre, run, post, rfl, current⟩
    · have atZero : x.start = 0 := abuts
      omega
    · obtain rfl := current.post_eq_nil ordered (fun y mem => nonempty y (by simp [mem])) abuts
      exact Or.inr ⟨pre, run ++ [x], [], by simp,
        current.extend abuts rfl rfl (by simp [Interval.heapSize, oat])⟩
  best := visited.best_concat.imp_right fun ⟨chain, inside, best⟩ => ⟨chain, inside, best.congr rfl rfl rfl⟩
  optimal := visited.optimal_oat oat
  currentLeBest := visited.currentLeBest

/-- **Taking a heap interval** keeps the invariant: the current region extends or restarts
to end with it, and the best region is updated. -/
theorem visited_heap (visited : Visited done s) (ordered : Ordered (done ++ [x]))
    (nonempty : ∀ y ∈ done ++ [x], y.start < y.stop) (positive : 0 < x.start) (heap : x.isHeap = true) :
    ∃ next, visitInterval s x = some next ∧ Visited (done ++ [x]) next := by
  have nonemptyX := nonempty x (by simp)
  obtain ⟨next, visit, curBegin, curEnd, curHeapSize, recorded⟩ :=
    visitInterval_heap ⟨nonemptyX.le, visited.curEnd_le ordered⟩ heap
  refine ⟨next, visit, ?_⟩
  obtain ⟨pre, run, split, current⟩ : ∃ pre run, done ++ [x] = pre ++ run ∧ CurrentRegion next pre run [] := by
    by_cases abuts : x.start = s.curEnd
    · rw [if_pos abuts] at curBegin curHeapSize
      rcases visited.current with ⟨-, rfl⟩ | ⟨pre, run, post, rfl, current⟩
      · have atZero : x.start = 0 := abuts
        omega
      · obtain rfl := current.post_eq_nil ordered (fun y mem => nonempty y (by simp [mem])) abuts
        exact ⟨pre, run ++ [x], by simp, current.extend abuts curBegin curEnd curHeapSize⟩
    · rw [if_neg abuts] at curBegin curHeapSize
      exact ⟨done, [x], rfl, visited.reset heap abuts curBegin curEnd (by rw [curHeapSize, Nat.zero_add])⟩
  exact visited.record split current heap nonemptyX recorded

/-- **One step of the loop** passes its checks and keeps the invariant. -/
theorem visitInterval_visited (visited : Visited done s) (ordered : Ordered (done ++ [x]))
    (nonempty : ∀ y ∈ done ++ [x], y.start < y.stop) (positive : 0 < x.start) :
    ∃ next, visitInterval s x = some next ∧ Visited (done ++ [x]) next := by
  have checks : x.start ≤ x.stop ∧ s.curEnd ≤ x.start := ⟨(nonempty x (by simp)).le, visited.curEnd_le ordered⟩
  cases heap : x.isHeap with
  | true => exact visited_heap visited ordered nonempty positive heap
  | false =>
      by_cases abuts : x.start = s.curEnd
      · exact ⟨_, visitInterval_extendOat checks abuts heap,
          visited_extendOat visited ordered nonempty positive heap abuts⟩
      · exact ⟨s, visitInterval_skip checks abuts heap, visited_skip visited heap abuts⟩

end Invariant

/-- **The whole loop** over ordered intervals passes its checks and ends in the invariant. -/
theorem foldlM_visited {sorted : List Interval} (ordered : Ordered sorted) (nonempty : ∀ x ∈ sorted, x.start < x.stop)
    (positive : ∀ x ∈ sorted, 0 < x.start) :
    ∃ final, sorted.foldlM visitInterval {} = some final ∧ Visited sorted final :=
  foldlM_invariant visitInterval Visited sorted {} visited_nil fun _ x _ before visited =>
    visitInterval_visited visited (List.Pairwise.sublist before.sublist ordered)
      (fun y mem => nonempty y (before.subset mem)) (positive x (before.subset (by simp)))

/-! ## The largest immune region -/

theorem largestImmuneRegion_spec (intervals : List Interval) (nonempty : ∀ x ∈ intervals, x.start < x.stop)
    (positive : ∀ x ∈ intervals, 0 < x.start) (disjoint : intervals.Pairwise Interval.Disjoint) :
    ∃ region, largestImmuneRegion intervals = some region ∧ IsLargestImmuneRegion intervals region := by
  have members : ∀ x, x ∈ intervals.mergeSort Interval.le ↔ x ∈ intervals :=
    fun x => (List.mergeSort_perm intervals Interval.le).mem_iff
  have ordered := ordered_mergeSort nonempty disjoint
  have nonemptySorted : ∀ x ∈ intervals.mergeSort Interval.le, x.start < x.stop :=
    fun x mem => nonempty x ((members x).1 mem)
  obtain ⟨final, loop, visited⟩ :=
    foldlM_visited ordered nonemptySorted fun x mem => positive x ((members x).1 mem)
  refine ⟨(final.bestBegin, final.bestEnd), by rw [largestImmuneRegion, loop]; rfl, ?_, ?_⟩
  · -- no heap interval: there is no chain, so the best region is still empty
    intro oats
    rcases visited.best with ⟨-, bestBegin, bestEnd⟩ | ⟨chain, inside, best⟩
    · rw [bestBegin, bestEnd]
    · exfalso
      obtain ⟨first, rest, rfl⟩ := List.exists_cons_of_ne_nil best.isHeapChain.nonempty
      have onHeap := best.isHeapChain.startsOnHeap first rfl
      rw [oats first ((members first).1 (inside.subset List.mem_cons_self))] at onHeap
      contradiction
  · rintro ⟨x, mem, heap⟩
    rcases visited.best with ⟨zero, -, -⟩ | ⟨chain, inside, best⟩
    · -- `[x]` alone is a chain with heap bytes, so the best is not empty
      exfalso
      have single : IsHeapChain [x] := ⟨List.cons_ne_nil x [], List.isChain_singleton x,
        fun y head => by rwa [List.head?_singleton, Option.mem_def, Option.some.injEq, eq_comm] at head ▸ heap,
        fun y tail => by rwa [List.getLast?_singleton, Option.mem_def, Option.some.injEq, eq_comm] at tail ▸ heap⟩
      have atMost := visited.optimal [x] ((List.singleton_infix_iff x _).2 ((members x).2 mem)) single
      have positiveX := heapSize_pos heap (nonempty x mem)
      rw [heapBytes_singleton, zero] at atMost
      omega
    · have nonemptyChain : ∀ y ∈ chain, y.start ≤ y.stop :=
        fun y m => (nonemptySorted y (inside.subset m)).le
      refine ⟨chain, best.isHeapChain, fun y m => (members y).1 (inside.subset m), fun addr => ?_, ?_⟩
      · obtain ⟨first, isHead, bestBegin⟩ := best.head
        obtain ⟨last, isLast, bestEnd⟩ := best.last
        rw [bestBegin, bestEnd]
        exact mem_union_iff best.isHeapChain.abutting nonemptyChain isHead isLast addr
      · intro other isHeapChain otherMembers
        -- a chain of the intervals is a run of the sorted intervals
        have otherInside := consecutive_of_abutting ordered nonemptySorted isHeapChain.nonempty
          isHeapChain.abutting fun y m => (members y).2 (otherMembers y m)
        rw [← best.heapSize]
        exact visited.optimal other otherInside isHeapChain

/-- A boot image, its oat file right after it, a second image right after that, and a zygote
space higher up, in the order the spaces were added. -/
def bootIntervals : List Interval :=
  [⟨24576, 32768, true⟩, ⟨4096, 8192, true⟩, ⟨8192, 12288, false⟩, ⟨12288, 20480, true⟩]

theorem bootIntervals_largestImmuneRegion :
    (∀ x ∈ bootIntervals, x.start < x.stop) ∧ (∀ x ∈ bootIntervals, 0 < x.start) ∧
      bootIntervals.Pairwise Interval.Disjoint ∧
      ∃ region, largestImmuneRegion bootIntervals = some region ∧ IsLargestImmuneRegion bootIntervals region :=
  ⟨by decide, by decide, by decide, largestImmuneRegion_spec bootIntervals (by decide) (by decide) (by decide)⟩

-- the region runs across the oat file, whose bytes do not count
example : ([⟨4096, 8192, true⟩, ⟨8192, 12288, false⟩, ⟨12288, 20480, true⟩, ⟨24576, 32768, true⟩].foldlM
    visitInterval {}).map (fun s => (s.bestBegin, s.bestEnd, s.bestHeapSize)) = some (4096, 20480, 12288) := by
  decide

end Art.Runtime.Gc.Collector
