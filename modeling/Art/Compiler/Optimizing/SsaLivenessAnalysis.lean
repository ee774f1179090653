import Mathlib
import Art.Machine.Loop

/-!
# Live intervals

A `LiveInterval` (`ssa_liveness_analysis.h`) holds the positions where an instruction's value is
live as a linked list of `LiveRange`s `[start_, end_)`, from `first_range_` to `last_range_`.
Liveness analysis builds the list from the last block backwards (`AddRange`, `AddLoopRange`,
`SetFrom`); linear scan then asks whether a position is covered (`Covers`, `CoversSlow`), where
two intervals first meet (`FirstIntersectionWith`), and splits an interval in two (`SplitAt`).
`Covers` and `FirstIntersectionWith` start their search at `range_search_start_`, a cache that
`Covers` moves forward and `SplitAt` adjusts.

The list of ranges is a Lean list, and `range_search_start_` its index into it: any index past
the last range stands for null. A failed `DCHECK` is `none`, as is a read through a null range.

**The ranges.** Ranges are well formed when each is non-empty and starts after the one before it
ends (`WellFormed`); the interval covers the positions of its ranges (`Covered`). A range added in
front (`addRange_spec`) or a loop that reaches the first range (`addLoopRange_spec`) keeps them
well formed and adds its positions. `SplitAt` returns null exactly when the interval dies before
the split position (`splitAt_none_iff`), and otherwise leaves this interval the positions before
it and the new one the rest, with the safepoints shared out (`splitAt_split`,
`splitSafepoints_of_sorted`). `CoversSlow` answers membership (`coversSlow_eq`).

**The search cache.** The invariant is that every range before `range_search_start_` ends at or
before a bound (`SearchStartBelow`). `Covers` raises the bound to its position (`covers_below`),
`SplitAt` keeps it (`splitAt_below`), and the calls that build the ranges start the search
afresh. Along a run of calls that keep the ranges well formed the bound is the largest position
searched since the cache was reset (`run_invariant`). From a position at or above the bound,
`Covers` answers as `CoversSlow` (`covers_eq_coversSlow`), and `FirstIntersectionWith` walks the
two lists of ranges to their first common position (`firstIntersectionLoop_spec`,
`firstIntersectionWith_spec`). `liveInterval_spec` collects these.

**Read without its preconditions** the statement fails (`liveInterval_counterexample`): an empty
range added in front moves the first range's start instead of adding nothing, a loop that ends
before the first range has no `last_in_loop`, a fixed interval cannot be split, and a search for
`FirstIntersectionWith` below a position passed to `Covers` fails a check.
-/

set_option autoImplicit false

namespace Art.Compiler.Optimizing.SsaLivenessAnalysis

/-! ## The model -/

/-- `LiveRange`: the positions from `start_` up to `end_` (`stop`). -/
structure LiveRange where
  start : Nat
  stop : Nat
  deriving DecidableEq, Repr

namespace LiveRange

/-- `IntersectsWith(other)`. -/
def intersectsWith (r other : LiveRange) : Bool :=
  (other.start ≤ r.start && r.start < other.stop) || (r.start ≤ other.start && other.start < r.stop)

/-- `IsBefore(other)`. -/
def isBefore (r other : LiveRange) : Bool := r.stop ≤ other.start

end LiveRange

/-- A `LiveInterval`, by the fields these functions read and write: the ranges from
`first_range_` to `last_range_`, `range_search_start_` as an index into them, the positions of
the safepoints from `first_safepoint_` to `last_safepoint_`, `is_fixed_` and `is_temp_`. -/
structure LiveInterval where
  ranges : List LiveRange
  rangeSearchStart : Nat
  safepoints : List Nat
  isFixed : Bool
  isTemp : Bool
  deriving DecidableEq, Repr

namespace LiveInterval

/-- The constructor: no ranges, no safepoints, and a null search start. -/
def init (isFixed isTemp : Bool) : LiveInterval := ⟨[], 0, [], isFixed, isTemp⟩

/-- `GetStart()`. -/
def getStart (i : LiveInterval) : Option Nat := i.ranges.head?.map LiveRange.start

/-- `GetEnd()`. -/
def getEnd (i : LiveInterval) : Option Nat := i.ranges.getLast?.map LiveRange.stop

/-- `AddRange(start, end)`. Liveness analysis visits blocks backwards, so the range goes in
front of the first one, or extends it where the next block's use begins. -/
def addRange (i : LiveInterval) (start stop : Nat) : Option LiveInterval :=
  match i.ranges with
  | [] =>
    -- `new LiveRange(start, end, nullptr)` checks `start < end`
    if start < stop then some { i with ranges := [⟨start, stop⟩], rangeSearchStart := 0 }
    else none
  | first :: rest =>
    if first.start = stop then some { i with ranges := { first with start := start } :: rest }
    else if first.start = start ∧ first.stop = stop then
      if i.isFixed then some i else none
    -- a lifetime hole: `DCHECK_GT(first_range_->GetStart(), end)`, then the constructor's checks
    else if stop < first.start ∧ start < stop then
      some { i with ranges := ⟨start, stop⟩ :: first :: rest, rangeSearchStart := 0 }
    else none

/-- The loop of `AddLoopRange`: it walks past the ranges that end before `end`, checking that
each starts at or after `start`, and gives `last_in_loop` and the ranges from `after_loop` on. -/
def addLoopRangeLoop (start stop : Nat) :
    Option LiveRange → List LiveRange → Option (Option LiveRange × List LiveRange)
  | lastInLoop, [] => some (lastInLoop, [])
  | lastInLoop, afterLoop :: rest =>
    if afterLoop.stop < stop then
      if start ≤ afterLoop.start then addLoopRangeLoop start stop (some afterLoop) rest else none
    else some (lastInLoop, afterLoop :: rest)

/-- `AddLoopRange(start, end)`: the interval is live in the whole loop `[start, end)`. -/
def addLoopRange (i : LiveInterval) (start stop : Nat) : Option LiveInterval :=
  match i.ranges with
  | [] => none
  | first :: _ =>
    if ¬start ≤ first.start then none
    else match addLoopRangeLoop start stop none i.ranges with
      | none => none
      -- uses are only in the loop
      | some (_, []) =>
        if start < stop then some { i with ranges := [⟨start, stop⟩], rangeSearchStart := 0 }
        else none
      | some (lastInLoop, afterLoop :: rest) =>
        if afterLoop.start ≤ stop then
          some { i with ranges := { afterLoop with start := start } :: rest, rangeSearchStart := 0 }
        -- the use after the loop is after a lifetime hole: `last_in_loop` is reused
        else match lastInLoop with
          | none => none
          | some _ => some { i with ranges := ⟨start, stop⟩ :: afterLoop :: rest, rangeSearchStart := 0 }

/-- `SetFrom(from)`. An interval without ranges belongs to an instruction without uses:
`usesEmpty` is `uses_.empty()` and `lifetimePosition` the position of `defined_by_`. -/
def setFrom (i : LiveInterval) (start : Nat) (usesEmpty : Bool) (lifetimePosition : Nat) :
    Option LiveInterval :=
  match i.ranges with
  | first :: rest => some { i with ranges := { first with start := start } :: rest }
  | [] =>
    if usesEmpty ∧ start = lifetimePosition then
      some { i with ranges := [⟨start, start + 2⟩], rangeSearchStart := 0 }
    else none

/-- `AddSafepoint(instruction)`, by the instruction's lifetime position. -/
def addSafepoint (i : LiveInterval) (position : Nat) : Option LiveInterval :=
  match i.safepoints.getLast? with
  | none => some { i with safepoints := [position] }
  | some last => if last < position then some { i with safepoints := i.safepoints ++ [position] } else none

/-- `ResetSearchCache()`. -/
def resetSearchCache (i : LiveInterval) : LiveInterval := { i with rangeSearchStart := 0 }

end LiveInterval

/-- The loop of `FindRangeAtOrAfter`: how many ranges from the search start on end at or before
`position`. -/
def skipRanges (position : Nat) : List LiveRange → Nat
  | [] => 0
  | range :: rest => if range.stop ≤ position then skipRanges position rest + 1 else 0

/-- Whether the range at `index` starts at or before `position`; false past the last range. -/
def startsAtOrBefore (ranges : List LiveRange) (index position : Nat) : Bool :=
  match ranges[index]? with
  | some candidate => candidate.start ≤ position
  | none => false

namespace LiveInterval

/-- `FindRangeAtOrAfter(position, search_start)`. A debug build checks that a search that does not
start at `first_range_` skips no range that ends after `position`. -/
def findRangeAtOrAfter (i : LiveInterval) (position searchStart : Nat) : Option Nat :=
  let range := searchStart + skipRanges position (i.ranges.drop searchStart)
  if searchStart = 0 ∨ i.ranges = [] then some range
  else match i.ranges[searchStart]?, i.getEnd with
    -- a null `search_start`: `DCHECK(IsDeadAt(position))`
    | none, some stop => if stop ≤ position then some range else none
    | none, none => none
    | some searchRange, _ =>
      if position < searchRange.start then
        if searchStart = skipRanges position i.ranges then some range else none
      else some range

/-- `Covers(position)`, which moves `range_search_start_` to the range it finds. -/
def covers (i : LiveInterval) (position : Nat) : Option (LiveInterval × Bool) :=
  (i.findRangeAtOrAfter position i.rangeSearchStart).map fun candidate =>
    ({ i with rangeSearchStart := candidate }, startsAtOrBefore i.ranges candidate position)

/-- `CoversSlow(position)`. -/
def coversSlow (i : LiveInterval) (position : Nat) : Option Bool :=
  (i.findRangeAtOrAfter position 0).map fun candidate => startsAtOrBefore i.ranges candidate position

end LiveInterval

/-- `kNoLifetime`: `static constexpr size_t kNoLifetime = -1`. -/
def kNoLifetime : Nat := 2 ^ 64 - 1

/-- The loop of `FirstIntersectionWith` from `my_range` and `other_range` on: it moves past the
range that is before the other and stops at the first two that intersect. -/
def firstIntersectionLoop : List LiveRange → List LiveRange → Option Nat
  | myRange :: myRest, otherRange :: otherRest =>
    if myRange.isBefore otherRange then firstIntersectionLoop myRest (otherRange :: otherRest)
    else if otherRange.isBefore myRange then firstIntersectionLoop (myRange :: myRest) otherRest
    else if myRange.intersectsWith otherRange then some (max myRange.start otherRange.start)
    else none
  | _, _ => some kNoLifetime
termination_by my other => my.length + other.length

namespace LiveInterval

/-- `FirstIntersectionWith(current)`: `current` is the interval linear scan is allocating. -/
def firstIntersectionWith (i current : LiveInterval) : Option Nat :=
  match i.getStart, current.ranges with
  | some start, otherRange :: otherRest =>
    if ¬(start ≤ otherRange.start ∨ i.isFixed) then none
    else (i.findRangeAtOrAfter otherRange.start i.rangeSearchStart).bind fun myRange =>
      firstIntersectionLoop (i.ranges.drop myRange) (otherRange :: otherRest)
  | _, _ => none

end LiveInterval

/-- `FindSafepointJustBefore(position)`, as how many safepoints there are up to the one it
returns: those before the first at or after `position`, and zero for null. -/
def findSafepointJustBefore (position : Nat) : List Nat → Nat
  | [] => 0
  | safepoint :: rest => if position ≤ safepoint then 0 else findSafepointJustBefore position rest + 1

/-- How `SplitAt` shares out the safepoints: those this interval keeps and those of the new one. -/
def splitSafepoints (safepoints : List Nat) (position : Nat) : List Nat × List Nat :=
  let newLast := findSafepointJustBefore position safepoints
  if newLast = 0 then ([], safepoints)
  else if newLast ≠ safepoints.length then (safepoints.take newLast, safepoints.drop newLast)
  else (safepoints, [])

namespace LiveInterval

/-- Whether `range_search_start_` is set and ends no earlier than `current`. -/
def searchStartInside (i : LiveInterval) (current : LiveRange) : Bool :=
  match i.ranges[i.rangeSearchStart]? with
  | some searchRange => current.stop ≤ searchRange.stop
  | none => false

/-- `SplitAt(position)`: this interval keeps the positions before `position`, and the new
interval it returns, null when this one dies before `position`, has the rest. -/
def splitAt (i : LiveInterval) (position : Nat) : Option (LiveInterval × Option LiveInterval) :=
  if i.isTemp ∨ i.isFixed then none
  else match i.getStart, i.getEnd with
  | some start, some stop =>
    if position ≤ start then none
    else if stop ≤ position then some (i, none)
    else
      let safepoints := splitSafepoints i.safepoints position
      let index := skipRanges position i.ranges
      match i.ranges[index]? with
      | none => none
      | some current =>
        let searchStart := if i.searchStartInside current then index else i.rangeSearchStart
        if position ≤ current.start then
          -- a lifetime hole: `DCHECK(previous != nullptr)`
          if index = 0 then none
          else
            some ({ i with ranges := i.ranges.take index, safepoints := safepoints.1,
                           rangeSearchStart := searchStart },
                  some ⟨i.ranges.drop index, 0, safepoints.2, false, false⟩)
        else
          -- `current` covers `position` and is cut in two
          some ({ i with ranges := i.ranges.take index ++ [⟨current.start, position⟩],
                         safepoints := safepoints.1, rangeSearchStart := searchStart },
                some ⟨{ current with start := position } :: i.ranges.drop (index + 1), 0,
                  safepoints.2, false, false⟩)
  | _, _ => none

end LiveInterval

/-! ## The covered set and well-formed ranges -/

/-- The positions that some range of `ranges` covers. -/
def Covered (ranges : List LiveRange) (position : Nat) : Prop :=
  ∃ r ∈ ranges, r.start ≤ position ∧ position < r.stop

instance (ranges : List LiveRange) : DecidablePred (Covered ranges) :=
  fun _ => inferInstanceAs (Decidable (∃ r ∈ ranges, _))

@[simp] theorem covered_nil (position : Nat) : ¬Covered [] position := by
  simp [Covered]

@[simp] theorem covered_cons {r : LiveRange} {rest : List LiveRange} {position : Nat} :
    Covered (r :: rest) position ↔ (r.start ≤ position ∧ position < r.stop) ∨ Covered rest position := by
  simp [Covered]

@[simp] theorem covered_append {l₁ l₂ : List LiveRange} {position : Nat} :
    Covered (l₁ ++ l₂) position ↔ Covered l₁ position ∨ Covered l₂ position := by
  simp only [Covered, List.mem_append]
  constructor
  · rintro ⟨r, mem | mem, covers⟩
    exacts [.inl ⟨r, mem, covers⟩, .inr ⟨r, mem, covers⟩]
  · rintro (⟨r, mem, covers⟩ | ⟨r, mem, covers⟩)
    exacts [⟨r, .inl mem, covers⟩, ⟨r, .inr mem, covers⟩]

theorem covered_of_drop {ranges : List LiveRange} {n position : Nat}
    (covered : Covered (ranges.drop n) position) : Covered ranges position :=
  let ⟨r, mem, covers⟩ := covered
  ⟨r, List.mem_of_mem_drop mem, covers⟩

/-- Well-formed ranges, as the `LiveRange` constructor checks them: each is non-empty, and each
starts after the end of the one before it. -/
structure WellFormed (ranges : List LiveRange) : Prop where
  nonempty : ∀ r ∈ ranges, r.start < r.stop
  chain : ranges.IsChain fun r next => r.stop < next.start

namespace WellFormed

theorem nil : WellFormed [] := ⟨by simp, .nil⟩

theorem singleton {r : LiveRange} (lt : r.start < r.stop) : WellFormed [r] :=
  ⟨by simpa using lt, .singleton r⟩

theorem cons_cons_iff {a b : LiveRange} {rest : List LiveRange} :
    WellFormed (a :: b :: rest) ↔ a.start < a.stop ∧ a.stop < b.start ∧ WellFormed (b :: rest) := by
  constructor
  · rintro ⟨nonempty, chain⟩
    rw [List.isChain_cons_cons] at chain
    exact ⟨nonempty a (by simp), chain.1, ⟨fun r mem => nonempty r (.tail a mem), chain.2⟩⟩
  · rintro ⟨lt, before, nonempty, chain⟩
    refine ⟨?_, List.isChain_cons_cons.mpr ⟨before, chain⟩⟩
    rintro r (_ | ⟨_, mem⟩)
    exacts [lt, nonempty r mem]

theorem of_cons {r : LiveRange} {rest : List LiveRange} (wf : WellFormed (r :: rest)) :
    WellFormed rest :=
  ⟨fun t mem => wf.nonempty t (.tail r mem), wf.chain.tail⟩

/-- A range ends before every later range starts. -/
theorem pairwise {ranges : List LiveRange} (wf : WellFormed ranges) :
    ranges.Pairwise fun r later => r.stop < later.start := by
  induction ranges with
  | nil => exact .nil
  | cons r rest ih =>
    refine List.pairwise_cons.mpr ⟨?_, ih wf.of_cons⟩
    cases rest with
    | nil => simp
    | cons next rest =>
      -- each later range starts after `next` ends, and `next` is not empty
      obtain ⟨-, before, wfNext⟩ := cons_cons_iff.mp wf
      rintro t (_ | ⟨_, mem⟩)
      · exact before
      · have afterNext := List.rel_of_pairwise_cons (ih wfNext) mem
        have nextNonempty := wfNext.nonempty next (by simp)
        omega

theorem stop_lt_start_of_mem {r t : LiveRange} {rest : List LiveRange}
    (wf : WellFormed (r :: rest)) (mem : t ∈ rest) : r.stop < t.start :=
  List.rel_of_pairwise_cons wf.pairwise mem

/-- No position before the first range is covered. -/
theorem start_le_of_covered {r : LiveRange} {rest : List LiveRange} {position : Nat}
    (wf : WellFormed (r :: rest)) (covered : Covered (r :: rest) position) : r.start ≤ position := by
  rcases covered_cons.mp covered with ⟨le, -⟩ | ⟨t, mem, le, -⟩
  · exact le
  · have before := wf.stop_lt_start_of_mem mem
    have nonempty := wf.nonempty r (by simp)
    omega

theorem take {ranges : List LiveRange} (wf : WellFormed ranges) (n : Nat) :
    WellFormed (ranges.take n) :=
  ⟨fun r mem => wf.nonempty r (List.mem_of_mem_take mem), wf.chain.take n⟩

theorem drop {ranges : List LiveRange} (wf : WellFormed ranges) (n : Nat) :
    WellFormed (ranges.drop n) :=
  ⟨fun r mem => wf.nonempty r (List.mem_of_mem_drop mem), wf.chain.drop n⟩

end WellFormed

namespace WellFormed

/-- Moving the start of the first range keeps the ranges well formed while it stays below the
range's end. -/
theorem setStart {r : LiveRange} {rest : List LiveRange} {start : Nat}
    (wf : WellFormed (r :: rest)) (lt : start < r.stop) :
    WellFormed ({ r with start := start } :: rest) := by
  cases rest with
  | nil => exact singleton lt
  | cons next rest =>
    obtain ⟨-, before, wfRest⟩ := cons_cons_iff.mp wf
    exact cons_cons_iff.mpr ⟨lt, before, wfRest⟩

/-- Every range starts at or after the first one. -/
theorem start_le_of_mem {r t : LiveRange} {rest : List LiveRange}
    (wf : WellFormed (r :: rest)) (mem : t ∈ r :: rest) : r.start ≤ t.start := by
  rcases List.mem_cons.mp mem with rfl | mem
  · exact Nat.le_refl _
  · have before := wf.stop_lt_start_of_mem mem
    have nonempty := wf.nonempty r (by simp)
    omega

end WellFormed

/-! ## Building the ranges -/

namespace LiveInterval

theorem getStart_eq_some {i : LiveInterval} {start : Nat} :
    i.getStart = some start ↔ ∃ first rest, i.ranges = first :: rest ∧ first.start = start := by
  unfold getStart
  cases i.ranges with
  | nil => simp
  | cons first rest => simp

/-- `AddRange` with a non-empty range that ends at or before the interval starts keeps the
ranges well formed and adds the range's positions to the covered set. -/
theorem addRange_spec {i : LiveInterval} {start stop : Nat} (wf : WellFormed i.ranges)
    (lt : start < stop) (before : ∀ first ∈ i.ranges.head?, stop ≤ first.start) :
    ∃ i', i.addRange start stop = some i' ∧ WellFormed i'.ranges ∧
      ∀ q, Covered i'.ranges q ↔ Covered i.ranges q ∨ start ≤ q ∧ q < stop := by
  cases ranges : i.ranges with
  | nil =>
    refine ⟨{ i with ranges := [⟨start, stop⟩], rangeSearchStart := 0 },
      by simp [addRange, ranges, lt], WellFormed.singleton lt, fun q => ?_⟩
    simp
  | cons first rest =>
    rw [ranges] at wf
    have le : stop ≤ first.start := before first (by simp [ranges])
    have nonempty := wf.nonempty first (by simp)
    rcases Nat.eq_or_lt_of_le le with meets | hole
    · -- the range meets the first one, which is extended down to `start`
      refine ⟨{ i with ranges := { first with start := start } :: rest },
        by simp [addRange, ranges, meets], wf.setStart (by omega), fun q => ?_⟩
      by_cases later : Covered rest q
      · simp [later]
      · simp [later]
        omega
    · have differs : ¬(first.start = start ∧ first.stop = stop) := by omega
      refine ⟨{ i with ranges := ⟨start, stop⟩ :: first :: rest, rangeSearchStart := 0 },
        by simp [addRange, ranges, hole.ne', differs, hole, lt],
        WellFormed.cons_cons_iff.mpr ⟨lt, hole, wf⟩, fun q => ?_⟩
      by_cases later : Covered rest q
      · simp [later]
      · simp [later]
        omega

/-- The loop of `AddLoopRange` splits the ranges into those that end before `stop` and the rest,
and `last_in_loop` is the last of the first part. -/
theorem addLoopRangeLoop_eq (start stop : Nat) (lastInLoop : Option LiveRange)
    (ranges : List LiveRange) (starts : ∀ r ∈ ranges, start ≤ r.start) :
    ∃ inLoop afterLoop, ranges = inLoop ++ afterLoop ∧ (∀ r ∈ inLoop, r.stop < stop) ∧
      (∀ r ∈ afterLoop.head?, stop ≤ r.stop) ∧
      addLoopRangeLoop start stop lastInLoop ranges = some (inLoop.getLast?.or lastInLoop, afterLoop) := by
  induction ranges generalizing lastInLoop with
  | nil => exact ⟨[], [], rfl, by simp, by simp, by simp [addLoopRangeLoop]⟩
  | cons r rest ih =>
    by_cases inside : r.stop < stop
    · obtain ⟨inLoop, afterLoop, split, ends, after, loop⟩ :=
        ih _ fun t mem => starts t (.tail r mem)
      refine ⟨r :: inLoop, afterLoop, by simp [split], ?_, after, ?_⟩
      · rintro t (_ | ⟨_, mem⟩)
        exacts [inside, ends t mem]
      · have le := starts r (by simp)
        rw [addLoopRangeLoop, if_pos inside, if_pos le, loop, List.getLast?_cons]
        cases inLoop.getLast? <;> rfl
    · exact ⟨[], r :: rest, rfl, by simp, by simpa using Nat.le_of_not_lt inside,
        by simp [addLoopRangeLoop, inside]⟩

/-- `AddLoopRange` with a loop that starts at or before the interval and ends at or after its
start keeps the ranges well formed and adds the loop's positions to the covered set. -/
theorem addLoopRange_spec {i : LiveInterval} {start stop first : Nat} (wf : WellFormed i.ranges)
    (firstStart : i.getStart = some first) (le : start ≤ first) (reaches : first ≤ stop) :
    ∃ i', i.addLoopRange start stop = some i' ∧ WellFormed i'.ranges ∧
      ∀ q, Covered i'.ranges q ↔ Covered i.ranges q ∨ start ≤ q ∧ q < stop := by
  obtain ⟨f, fs, ranges, rfl⟩ := getStart_eq_some.mp firstStart
  rw [ranges] at wf
  have starts : ∀ r ∈ f :: fs, start ≤ r.start := fun r mem => Nat.le_trans le (wf.start_le_of_mem mem)
  obtain ⟨inLoop, afterLoop, split, ends, after, loop⟩ := addLoopRangeLoop_eq start stop none _ starts
  -- the ranges the loop walks past lie inside the loop
  have inside : ∀ q, Covered inLoop q → start ≤ q ∧ q < stop := by
    rintro q ⟨r, mem, lo, hi⟩
    have := starts r (by rw [split]; exact List.mem_append_left _ mem)
    have := ends r mem
    omega
  have covered : ∀ q, Covered i.ranges q ↔ Covered inLoop q ∨ Covered afterLoop q := by
    intro q; rw [ranges, split, covered_append]
  cases afterLoop with
  | nil =>
    -- uses are only in the loop
    have firstInLoop : f ∈ inLoop := by
      have mem : f ∈ f :: fs := List.mem_cons_self
      rwa [split, List.append_nil] at mem
    have lt : start < stop := by
      have := ends f firstInLoop
      have := wf.nonempty f (by simp)
      omega
    refine ⟨{ i with ranges := [⟨start, stop⟩], rangeSearchStart := 0 },
      by simp [addLoopRange, ranges, le, loop, lt], WellFormed.singleton lt,
      fun q => ⟨fun c => .inr (by simpa using c), ?_⟩⟩
    rintro (c | c)
    · rcases (covered q).mp c with c | c
      · simpa using inside q c
      · simp at c
    · simpa using c
  | cons a rest =>
    have aStarts := starts a (by rw [split]; simp)
    have aNonempty := wf.nonempty a (by rw [split]; simp)
    have aReaches : stop ≤ a.stop := after a (by simp)
    have wfAfter : WellFormed (a :: rest) := by
      have := wf.drop inLoop.length
      rwa [split, List.drop_left] at this
    by_cases overlaps : a.start ≤ stop
    · -- there are uses after the loop: the range after it is extended down to `start`
      refine ⟨{ i with ranges := { a with start := start } :: rest, rangeSearchStart := 0 },
        by simp [addLoopRange, ranges, le, loop, overlaps], wfAfter.setStart (by omega), fun q => ?_⟩
      rw [covered, covered_cons, covered_cons]
      dsimp only
      constructor
      · rintro (⟨lo, hi⟩ | later)
        · by_cases inLoopPart : q < stop
          · exact .inr ⟨lo, inLoopPart⟩
          · exact .inl (.inr (.inl ⟨by omega, hi⟩))
        · exact .inl (.inr (.inr later))
      · rintro ((looped | ⟨lo, hi⟩ | later) | ⟨lo, hi⟩)
        · have := inside q looped
          exact .inl ⟨by omega, by omega⟩
        · exact .inl ⟨by omega, hi⟩
        · exact .inr later
        · exact .inl ⟨lo, by omega⟩
    · -- a lifetime hole after the loop: the first range is the loop's, and the loop is not empty
      have nonemptyLoop : inLoop ≠ [] := by
        rintro rfl
        simp only [List.nil_append, List.cons.injEq] at split
        rw [split.1] at ranges
        simp [getStart, ranges] at firstStart
        omega
      obtain ⟨r, looped⟩ := List.exists_mem_of_ne_nil inLoop nonemptyLoop
      have lt : start < stop := by
        have := starts r (by rw [split]; exact List.mem_append_left _ looped)
        have := ends r looped
        have := wf.nonempty r (by rw [split]; exact List.mem_append_left _ looped)
        omega
      cases last : inLoop.getLast? with
      | none => exact absurd (List.getLast?_eq_none_iff.mp last) nonemptyLoop
      | some last =>
        refine ⟨{ i with ranges := ⟨start, stop⟩ :: a :: rest, rangeSearchStart := 0 },
          by simp [addLoopRange, ranges, le, loop, overlaps, last],
          WellFormed.cons_cons_iff.mpr ⟨lt, Nat.lt_of_not_le overlaps, wfAfter⟩, fun q => ?_⟩
        rw [covered, covered_cons]
        constructor
        · rintro (inRange | later)
          · exact .inr inRange
          · exact .inl (.inr later)
        · rintro ((looped | later) | inRange)
          · exact .inl (inside q looped)
          · exact .inr later
          · exact .inl inRange

end LiveInterval

/-! ## Searching the ranges -/

section Search

variable {position : Nat}

/-- The ranges the search moves past end at or before `position`. -/
theorem stop_le_of_mem_take_skipRanges {ranges : List LiveRange} {r : LiveRange}
    (mem : r ∈ ranges.take (skipRanges position ranges)) : r.stop ≤ position := by
  induction ranges with
  | nil => simp at mem
  | cons range rest ih =>
    by_cases moves : range.stop ≤ position
    · rw [skipRanges, if_pos moves, List.take_succ_cons] at mem
      rcases List.mem_cons.mp mem with rfl | mem
      exacts [moves, ih mem]
    · simp [skipRanges, moves] at mem

/-- The search stops at the first range that ends after `position`, if the ranges before an
index all end at or before it and the range there ends after it. -/
theorem skipRanges_eq_of_getElem? {ranges : List LiveRange} {index : Nat} {r : LiveRange}
    (before : ∀ t ∈ ranges.take index, t.stop ≤ position) (at_ : ranges[index]? = some r)
    (after : position < r.stop) : skipRanges position ranges = index := by
  induction ranges generalizing index with
  | nil => simp at at_
  | cons range rest ih =>
    cases index with
    | zero =>
      simp only [List.getElem?_cons_zero, Option.some.injEq] at at_
      subst at_
      simp [skipRanges, Nat.not_le.mpr after]
    | succ index =>
      have moves : range.stop ≤ position := before range (by simp)
      rw [skipRanges, if_pos moves, @ih index (fun t mem => before t (by simp [mem])) (by simpa using at_)]

/-- A search from an index before which every range ends at or before `position` stops where a
search from the first range does. -/
theorem drop_skipRanges_of_take {ranges : List LiveRange} {start : Nat}
    (before : ∀ r ∈ ranges.take start, r.stop ≤ position) :
    ranges.drop (start + skipRanges position (ranges.drop start)) =
      ranges.drop (skipRanges position ranges) := by
  induction ranges generalizing start with
  | nil => simp
  | cons range rest ih =>
    cases start with
    | zero => simp
    | succ start =>
      have moves : range.stop ≤ position := before range (by simp)
      rw [List.drop_succ_cons, skipRanges, if_pos moves, Nat.add_right_comm, List.drop_succ_cons,
        List.drop_succ_cons, ih fun t mem => before t (by simp [mem])]

/-- Whether the range at an index starts at or before a position depends only on the ranges from
that index on. -/
theorem startsAtOrBefore_congr {ranges : List LiveRange} {index index' : Nat}
    (same : ranges.drop index = ranges.drop index') :
    startsAtOrBefore ranges index position = startsAtOrBefore ranges index' position := by
  unfold startsAtOrBefore
  rw [← List.head?_drop, ← List.head?_drop, same]

/-- `CoversSlow`'s test: the first range that ends after `position` starts at or before it
exactly when `position` is covered. -/
theorem startsAtOrBefore_skipRanges {ranges : List LiveRange} (wf : WellFormed ranges) :
    startsAtOrBefore ranges (skipRanges position ranges) position = decide (Covered ranges position) := by
  induction ranges with
  | nil => simp [startsAtOrBefore, skipRanges]
  | cons range rest ih =>
    by_cases moves : range.stop ≤ position
    · -- `range` ends before `position`, so only the later ranges can cover it
      have later : Covered (range :: rest) position ↔ Covered rest position :=
        ⟨fun c => (covered_cons.mp c).resolve_left (by omega), fun c => covered_cons.mpr (.inr c)⟩
      simpa [startsAtOrBefore, skipRanges, moves, later] using ih wf.of_cons
    · have first : Covered (range :: rest) position ↔ range.start ≤ position :=
        ⟨wf.start_le_of_covered, fun le => covered_cons.mpr (.inl ⟨le, Nat.lt_of_not_le moves⟩)⟩
      simp [startsAtOrBefore, skipRanges, moves, first]

end Search

namespace LiveInterval

/-- `CoversSlow(position)` holds exactly when a range covers `position`. -/
theorem coversSlow_eq {i : LiveInterval} (wf : WellFormed i.ranges) (position : Nat) :
    i.coversSlow position = some (decide (Covered i.ranges position)) := by
  simp [coversSlow, findRangeAtOrAfter, startsAtOrBefore_skipRanges wf]

/-- Every range before `range_search_start_` ends at or before `bound`: a search for a position
from `bound` on may start there. -/
def SearchStartBelow (i : LiveInterval) (bound : Nat) : Prop :=
  ∀ r ∈ i.ranges.take i.rangeSearchStart, r.stop ≤ bound

/-- Where `FindRangeAtOrAfter` returns, it returns the range its loop stops at. -/
theorem findRangeAtOrAfter_eq_some {i : LiveInterval} {position searchStart found : Nat}
    (h : i.findRangeAtOrAfter position searchStart = some found) :
    found = searchStart + skipRanges position (i.ranges.drop searchStart) := by
  unfold findRangeAtOrAfter at h
  dsimp only at h
  repeat' split at h
  all_goals first | exact (Option.some.inj h).symm | cases h

/-- From a search start that skips only ranges ending at or before `position`, the debug checks
of `FindRangeAtOrAfter` pass. -/
theorem findRangeAtOrAfter_of_below {i : LiveInterval} {position : Nat}
    (wf : WellFormed i.ranges) (below : SearchStartBelow i position) :
    i.findRangeAtOrAfter position i.rangeSearchStart =
      some (i.rangeSearchStart + skipRanges position (i.ranges.drop i.rangeSearchStart)) := by
  unfold findRangeAtOrAfter
  dsimp only
  by_cases first : i.rangeSearchStart = 0 ∨ i.ranges = []
  · rw [if_pos first]
  · rw [if_neg first]
    split
    · next stop atStart lastStop =>
      -- a null search start: every range ends at or before `position`
      obtain ⟨last, lastEq, rfl⟩ := Option.map_eq_some_iff.mp lastStop
      have skipsAll : i.ranges.take i.rangeSearchStart = i.ranges :=
        List.take_of_length_le (List.getElem?_eq_none_iff.mp atStart)
      rw [if_pos (below last (by rw [skipsAll]; exact List.mem_of_getLast? lastEq))]
    · next noEnd =>
      simp [getEnd] at noEnd
      exact absurd (.inr noEnd) first
    · next _ _ searchRange atStart =>
      have nonempty := wf.nonempty searchRange (List.mem_of_getElem? atStart)
      split_ifs with ahead same
      · rfl
      · -- a search start past `position`: the search from the first range stops there too
        exact absurd (skipRanges_eq_of_getElem? below atStart (by omega)).symm same
      · rfl

namespace SearchStartBelow

theorem mono {i : LiveInterval} {bound bound' : Nat} (below : SearchStartBelow i bound)
    (le : bound ≤ bound') : SearchStartBelow i bound' :=
  fun r mem => Nat.le_trans (below r mem) le

end SearchStartBelow

/-- `Covers(position)` leaves a search start before which every range ends at or before
`position` or a bound that held before. -/
theorem covers_below {i i' : LiveInterval} {bound position : Nat} {covered : Bool}
    (h : i.covers position = some (i', covered)) (below : SearchStartBelow i bound) :
    SearchStartBelow i' (max bound position) := by
  obtain ⟨found, find, result⟩ := Option.map_eq_some_iff.mp h
  cases result
  intro r mem
  rw [findRangeAtOrAfter_eq_some find, List.take_add] at mem
  rcases List.mem_append.mp mem with mem | mem
  · exact Nat.le_trans (below r mem) (Nat.le_max_left _ _)
  · exact Nat.le_trans (stop_le_of_mem_take_skipRanges mem) (Nat.le_max_right _ _)

/-- `Covers(position)` answers as `CoversSlow(position)` when every range before the search start
ends at or before `position`. -/
theorem covers_eq_coversSlow {i : LiveInterval} {position : Nat} (wf : WellFormed i.ranges)
    (below : SearchStartBelow i position) :
    ∃ searchStart, i.covers position =
      some ({ i with rangeSearchStart := searchStart }, decide (Covered i.ranges position)) := by
  refine ⟨i.rangeSearchStart + skipRanges position (i.ranges.drop i.rangeSearchStart), ?_⟩
  rw [covers, findRangeAtOrAfter_of_below wf below, Option.map_some,
    startsAtOrBefore_congr (drop_skipRanges_of_take below), startsAtOrBefore_skipRanges wf]

end LiveInterval

/-! ## Splitting an interval -/

/-- `SplitAt` shares the safepoints out by `FindSafepointJustBefore`. -/
theorem splitSafepoints_eq (safepoints : List Nat) (position : Nat) :
    splitSafepoints safepoints position =
      (safepoints.take (findSafepointJustBefore position safepoints),
        safepoints.drop (findSafepointJustBefore position safepoints)) := by
  unfold splitSafepoints
  dsimp only
  split_ifs with none_ last
  · simp [none_]
  · rfl
  · simp [Decidable.of_not_not last]

/-- On increasing safepoints, `SplitAt` keeps those before `position` and moves the others. -/
theorem splitSafepoints_of_sorted {safepoints : List Nat} (sorted : safepoints.Pairwise (· < ·))
    (position : Nat) :
    splitSafepoints safepoints position =
      (safepoints.filter (· < position), safepoints.filter (position ≤ ·)) := by
  rw [splitSafepoints_eq]
  induction safepoints with
  | nil => simp
  | cons safepoint rest ih =>
    obtain ⟨later, sortedRest⟩ := List.pairwise_cons.mp sorted
    by_cases reached : position ≤ safepoint
    · -- every safepoint from here on is at or after `position`
      have atOrAfter : ∀ s ∈ safepoint :: rest, position ≤ s := by
        rintro s (_ | ⟨_, mem⟩)
        exacts [reached, Nat.le_trans reached (Nat.le_of_lt (later s mem))]
      simp only [findSafepointJustBefore, if_pos reached, List.take_zero, List.drop_zero]
      rw [List.filter_eq_nil_iff.mpr (by simpa using atOrAfter),
        List.filter_eq_self.mpr (by simpa using atOrAfter)]
    · simp only [findSafepointJustBefore, if_neg reached, List.take_succ_cons, List.drop_succ_cons]
      have := ih sortedRest
      simp only [Prod.mk.injEq] at this
      simp [Nat.lt_of_not_le reached, reached, this]

/-- Ranges that end at or before `position`, followed by ranges that start at or after it, split
the covered set at `position`. -/
theorem covered_split {pre post : List LiveRange} {position : Nat}
    (ends : ∀ r ∈ pre, r.stop ≤ position) (starts : ∀ r ∈ post, position ≤ r.start) (q : Nat) :
    (Covered pre q ↔ Covered (pre ++ post) q ∧ q < position) ∧
      (Covered post q ↔ Covered (pre ++ post) q ∧ position ≤ q) := by
  constructor
  · constructor
    · rintro ⟨r, mem, lo, hi⟩
      exact ⟨covered_append.mpr (.inl ⟨r, mem, lo, hi⟩), Nat.lt_of_lt_of_le hi (ends r mem)⟩
    · rintro ⟨covered, before⟩
      rcases covered_append.mp covered with c | ⟨r, mem, lo, -⟩
      · exact c
      · exact absurd (Nat.le_trans (starts r mem) lo) (Nat.not_le.mpr before)
  · constructor
    · rintro ⟨r, mem, lo, hi⟩
      exact ⟨covered_append.mpr (.inr ⟨r, mem, lo, hi⟩), Nat.le_trans (starts r mem) lo⟩
    · rintro ⟨covered, after⟩
      rcases covered_append.mp covered with ⟨r, mem, -, hi⟩ | c
      · exact absurd (Nat.lt_of_lt_of_le hi (ends r mem)) (Nat.not_lt.mpr after)
      · exact c

section Cut

variable {position : Nat}

/-- While a range ends after `position`, the search stops at a range. -/
theorem getElem?_skipRanges {ranges : List LiveRange} (live : ∃ r ∈ ranges, position < r.stop) :
    ∃ current, ranges[skipRanges position ranges]? = some current := by
  induction ranges with
  | nil => simp at live
  | cons range rest ih =>
    by_cases moves : range.stop ≤ position
    · obtain ⟨r, mem, after⟩ := live
      have later : ∃ r ∈ rest, position < r.stop := by
        rcases List.mem_cons.mp mem with rfl | mem
        · omega
        · exact ⟨r, mem, after⟩
      simpa [skipRanges, moves] using ih later
    · simp [skipRanges, moves]

/-- The range the search stops at ends after `position`. -/
theorem lt_stop_of_getElem?_skipRanges {ranges : List LiveRange} {current : LiveRange}
    (at_ : ranges[skipRanges position ranges]? = some current) : position < current.stop := by
  induction ranges with
  | nil => simp [skipRanges] at at_
  | cons range rest ih =>
    by_cases moves : range.stop ≤ position
    · exact ih (by simpa [skipRanges, moves] using at_)
    · simp only [skipRanges, if_neg moves, List.getElem?_cons_zero, Option.some.injEq] at at_
      subst at_
      exact Nat.lt_of_not_le moves

theorem drop_eq_cons_of_getElem? {ranges : List LiveRange} {index : Nat} {current : LiveRange}
    (at_ : ranges[index]? = some current) : ranges.drop index = current :: ranges.drop (index + 1) := by
  obtain ⟨lt, rfl⟩ := List.getElem?_eq_some_iff.mp at_
  exact List.drop_eq_getElem_cons lt

end Cut

namespace WellFormed

/-- A range ends before a range at a later index starts. -/
theorem stop_lt_start_of_getElem? {ranges : List LiveRange} (wf : WellFormed ranges) {j k : Nat}
    {a b : LiveRange} (lt : j < k) (atJ : ranges[j]? = some a) (atK : ranges[k]? = some b) :
    a.stop < b.start := by
  obtain ⟨hj, rfl⟩ := List.getElem?_eq_some_iff.mp atJ
  obtain ⟨hk, rfl⟩ := List.getElem?_eq_some_iff.mp atK
  exact List.pairwise_iff_getElem.mp wf.pairwise j k hj hk lt

/-- Moving the end of the last range keeps the ranges well formed while it stays above the
range's start. -/
theorem setLastStop {pre : List LiveRange} {r : LiveRange} {stop : Nat}
    (wf : WellFormed (pre ++ [r])) (lt : r.start < stop) : WellFormed (pre ++ [⟨r.start, stop⟩]) := by
  obtain ⟨chainPre, -, joins⟩ := List.isChain_append.mp wf.chain
  refine ⟨?_, List.isChain_append.mpr ⟨chainPre, .singleton _, ?_⟩⟩
  · intro t mem
    rcases List.mem_append.mp mem with mem | mem
    · exact wf.nonempty t (List.mem_append_left _ mem)
    · simp only [List.mem_singleton] at mem
      subst mem
      exact lt
  · intro x last y first
    simp only [List.head?_cons, Option.mem_def, Option.some.injEq] at first
    subst first
    exact joins x last r rfl

end WellFormed

namespace LiveInterval

/-- What `SplitAt` can do: past its checks, return null when the interval dies before
`position`, or cut the ranges at the first one that ends after `position`, which starts at or
after it (a lifetime hole) or covers it. -/
theorem splitAt_cases {i : LiveInterval} {position : Nat}
    {result : LiveInterval × Option LiveInterval} (h : i.splitAt position = some result) :
    i.isTemp = false ∧ i.isFixed = false ∧ (∃ start, i.getStart = some start ∧ start < position) ∧
      ((∃ stop, i.getEnd = some stop ∧ stop ≤ position) ∧ result = (i, none) ∨
        (∃ stop, i.getEnd = some stop ∧ position < stop) ∧
        ∃ index current, index = skipRanges position i.ranges ∧ i.ranges[index]? = some current ∧
          let searchStart := if i.searchStartInside current then index else i.rangeSearchStart
          let safepoints := splitSafepoints i.safepoints position
          (position ≤ current.start ∧ index ≠ 0 ∧
              result = ({ i with ranges := i.ranges.take index, safepoints := safepoints.1,
                                 rangeSearchStart := searchStart },
                        some ⟨i.ranges.drop index, 0, safepoints.2, false, false⟩)) ∨
            (current.start < position ∧
              result = ({ i with ranges := i.ranges.take index ++ [⟨current.start, position⟩],
                                 safepoints := safepoints.1, rangeSearchStart := searchStart },
                        some ⟨{ current with start := position } :: i.ranges.drop (index + 1), 0,
                          safepoints.2, false, false⟩))) := by
  unfold splitAt at h
  by_cases tempOrFixed : i.isTemp ∨ i.isFixed
  · rw [if_pos tempOrFixed] at h
    cases h
  rw [if_neg tempOrFixed] at h
  simp only [not_or, Bool.not_eq_true] at tempOrFixed
  split at h
  · next start stop firstStart lastStop =>
    split_ifs at h with before dies
    · exact ⟨tempOrFixed.1, tempOrFixed.2, ⟨start, firstStart, Nat.lt_of_not_le before⟩,
        .inl ⟨⟨stop, lastStop, dies⟩, (Option.some.inj h).symm⟩⟩
    · refine ⟨tempOrFixed.1, tempOrFixed.2, ⟨start, firstStart, Nat.lt_of_not_le before⟩,
        .inr ⟨⟨stop, lastStop, Nat.lt_of_not_le dies⟩, ?_⟩⟩
      simp only at h
      split at h
      · cases h
      · next current atIndex =>
        refine ⟨_, current, rfl, atIndex, ?_⟩
        by_cases hole : position ≤ current.start
        · rw [if_pos hole] at h
          by_cases first : skipRanges position i.ranges = 0
          · rw [if_pos first] at h
            cases h
          · rw [if_neg first] at h
            exact .inl ⟨hole, first, (Option.some.inj h).symm⟩
        · rw [if_neg hole] at h
          exact .inr ⟨Nat.lt_of_not_le hole, (Option.some.inj h).symm⟩
  · cases h

/-- `SplitAt` past its checks returns. -/
theorem splitAt_isSome {i : LiveInterval} {position start : Nat} (notTemp : i.isTemp = false)
    (notFixed : i.isFixed = false) (firstStart : i.getStart = some start) (after : start < position) :
    ∃ result, i.splitAt position = some result := by
  obtain ⟨first, rest, ranges, rfl⟩ := getStart_eq_some.mp firstStart
  have nonempty : i.ranges ≠ [] := by simp [ranges]
  have lastStop : i.getEnd = some (i.ranges.getLast nonempty).stop := by
    simp [getEnd, List.getLast?_eq_some_getLast nonempty]
  unfold splitAt
  rw [if_neg (by simp [notTemp, notFixed]), firstStart, lastStop]
  simp only
  rw [if_neg (Nat.not_le.mpr after)]
  by_cases dies : (i.ranges.getLast nonempty).stop ≤ position
  · exact ⟨_, if_pos dies⟩
  rw [if_neg dies]
  obtain ⟨current, atIndex⟩ := getElem?_skipRanges
    ⟨_, List.getLast_mem nonempty, Nat.lt_of_not_le dies⟩
  rw [atIndex]
  simp only
  by_cases hole : position ≤ current.start
  · -- the first range starts before `position`, so a hole is past it
    have moved : skipRanges position i.ranges ≠ 0 := by
      intro zero
      rw [zero, ranges, List.getElem?_cons_zero, Option.some.injEq] at atIndex
      subst atIndex
      omega
    rw [if_pos hole, if_neg moved]
    exact ⟨_, rfl⟩
  · rw [if_neg hole]
    exact ⟨_, rfl⟩

/-- Where `SplitAt` returns null, this interval is unchanged. -/
theorem splitAt_eq_self {i i' : LiveInterval} {position : Nat}
    (h : i.splitAt position = some (i', none)) : i' = i := by
  obtain ⟨-, -, -, ⟨-, same⟩ | ⟨-, index, current, -, -, cut⟩⟩ := splitAt_cases h
  · exact (Prod.mk.inj same).1
  · rcases cut with ⟨-, -, same⟩ | ⟨-, same⟩ <;> cases (Prod.mk.inj same).2

/-- `SplitAt` returns null exactly when the interval dies at or before `position`. -/
theorem splitAt_none_iff {i this : LiveInterval} {sibling : Option LiveInterval} {position : Nat}
    (h : i.splitAt position = some (this, sibling)) :
    sibling = none ↔ ∃ stop, i.getEnd = some stop ∧ stop ≤ position := by
  obtain ⟨-, -, -, ⟨dies, same⟩ | ⟨⟨stop, lastStop, lives⟩, index, current, -, -, cut⟩⟩ := splitAt_cases h
  · exact ⟨fun _ => dies, fun _ => (Prod.mk.inj same).2⟩
  · have cuts : sibling ≠ none := by
      rcases cut with ⟨-, -, same⟩ | ⟨-, same⟩ <;> simp [(Prod.mk.inj same).2]
    refine ⟨fun none => absurd none cuts, ?_⟩
    rintro ⟨stop', lastStop', dies⟩
    rw [lastStop, Option.some.injEq] at lastStop'
    omega

/-- Where `SplitAt` returns a new interval, this interval keeps the positions before `position`
and the new one has the others, both well formed, and the safepoints are shared out. -/
theorem splitAt_split {i this sibling : LiveInterval} {position : Nat} (wf : WellFormed i.ranges)
    (h : i.splitAt position = some (this, some sibling)) :
    WellFormed this.ranges ∧ WellFormed sibling.ranges ∧
      (∀ q, Covered this.ranges q ↔ Covered i.ranges q ∧ q < position) ∧
      (∀ q, Covered sibling.ranges q ↔ Covered i.ranges q ∧ position ≤ q) ∧
      this.safepoints = (splitSafepoints i.safepoints position).1 ∧
      sibling.safepoints = (splitSafepoints i.safepoints position).2 := by
  obtain ⟨-, -, -, ⟨-, same⟩ | ⟨-, index, current, rfl, atIndex, cut⟩⟩ := splitAt_cases h
  · simp at same
  have ends : ∀ r ∈ i.ranges.take (skipRanges position i.ranges), r.stop ≤ position :=
    fun r mem => stop_le_of_mem_take_skipRanges mem
  have reaches := lt_stop_of_getElem?_skipRanges atIndex
  have split := drop_eq_cons_of_getElem? atIndex
  have wfRest : WellFormed (current :: i.ranges.drop (skipRanges position i.ranges + 1)) :=
    split ▸ wf.drop _
  rcases cut with ⟨hole, -, result⟩ | ⟨inside, result⟩
  · -- a lifetime hole: the ranges from `current` on move to the new interval
    simp only [Prod.mk.injEq, Option.some.injEq] at result
    obtain ⟨rfl, rfl⟩ := result
    have starts : ∀ r ∈ i.ranges.drop (skipRanges position i.ranges), position ≤ r.start := by
      rw [split]
      exact fun r mem => Nat.le_trans hole (wfRest.start_le_of_mem mem)
    refine ⟨wf.take _, wf.drop _, fun q => ?_, fun q => ?_, rfl, rfl⟩
    · rw [(covered_split ends starts q).1, List.take_append_drop]
    · rw [(covered_split ends starts q).2, List.take_append_drop]
  · -- `current` covers `position`: it is cut in two
    simp only [Prod.mk.injEq, Option.some.injEq] at result
    obtain ⟨rfl, rfl⟩ := result
    have endsCut : ∀ r ∈ i.ranges.take (skipRanges position i.ranges) ++ [⟨current.start, position⟩],
        r.stop ≤ position := by
      intro r mem
      rcases List.mem_append.mp mem with mem | mem
      · exact ends r mem
      · simp only [List.mem_singleton] at mem
        subst mem
        exact Nat.le_refl _
    have startsCut : ∀ r ∈ ({ current with start := position } ::
        i.ranges.drop (skipRanges position i.ranges + 1)), position ≤ r.start := by
      rintro r (_ | ⟨_, mem⟩)
      · exact Nat.le_refl _
      · exact Nat.le_of_lt (Nat.lt_trans reaches (wfRest.stop_lt_start_of_mem mem))
    -- cutting `current` at `position` keeps the covered set
    have whole : ∀ q, Covered (i.ranges.take (skipRanges position i.ranges) ++ [⟨current.start, position⟩] ++
        { current with start := position } :: i.ranges.drop (skipRanges position i.ranges + 1)) q ↔
          Covered i.ranges q := by
      intro q
      conv_rhs => rw [← List.take_append_drop (skipRanges position i.ranges) i.ranges, split]
      simp only [covered_append, covered_cons, covered_nil, or_false, or_assoc]
      constructor
      · rintro (c | ⟨lo, hi⟩ | ⟨lo, hi⟩ | c)
        exacts [.inl c, .inr (.inl ⟨lo, by omega⟩), .inr (.inl ⟨by omega, hi⟩), .inr (.inr c)]
      · rintro (c | ⟨lo, hi⟩ | c)
        · exact .inl c
        · by_cases below : q < position
          exacts [.inr (.inl ⟨lo, below⟩), .inr (.inr (.inl ⟨Nat.le_of_not_lt below, hi⟩))]
        · exact .inr (.inr (.inr c))
    have wfCut : WellFormed (i.ranges.take (skipRanges position i.ranges) ++ [current]) := by
      have := wf.take (skipRanges position i.ranges + 1)
      rwa [List.take_add_one, atIndex, Option.toList_some] at this
    refine ⟨wfCut.setLastStop inside, wfRest.setStart reaches, fun q => ?_, fun q => ?_, rfl, rfl⟩
    · rw [(covered_split endsCut startsCut q).1, whole]
    · rw [(covered_split endsCut startsCut q).2, whole]

/-- `SplitAt` leaves this interval a search start that skips only ranges ending at or before a
bound the old one kept to. -/
theorem splitAt_below {i i' : LiveInterval} {sibling : Option LiveInterval} {position bound : Nat}
    (wf : WellFormed i.ranges) (h : i.splitAt position = some (i', sibling))
    (below : SearchStartBelow i bound) : SearchStartBelow i' bound := by
  obtain ⟨-, -, -, ⟨-, same⟩ | ⟨-, index, current, rfl, atIndex, cut⟩⟩ := splitAt_cases h
  · cases same
    exact below
  have current_nonempty := wf.nonempty current (List.mem_of_getElem? atIndex)
  have length : (i.ranges.take (skipRanges position i.ranges)).length = skipRanges position i.ranges := by
    have := (List.getElem?_eq_some_iff.mp atIndex).1
    simp only [List.length_take]
    omega
  -- a search start moved to the cut was at or after `current`
  have beforeCurrent : i.searchStartInside current = true →
      ∀ r ∈ i.ranges.take (skipRanges position i.ranges), r.stop ≤ bound := by
    intro inside r mem
    unfold searchStartInside at inside
    split at inside
    · next searchRange atSearch =>
      have reached : skipRanges position i.ranges ≤ i.rangeSearchStart := by
        refine Nat.le_of_not_lt fun lt => ?_
        have := wf.stop_lt_start_of_getElem? lt atSearch atIndex
        have := wf.nonempty searchRange (List.mem_of_getElem? atSearch)
        simp only [decide_eq_true_eq] at inside
        omega
      exact below r (List.take_subset_take_left _ reached mem)
    · cases inside
  -- a search start kept past `current` is null, and the whole interval is below the bound
  have allBelow : i.searchStartInside current = false →
      skipRanges position i.ranges < i.rangeSearchStart → ∀ r ∈ i.ranges, r.stop ≤ bound := by
    intro outside lt r mem
    unfold searchStartInside at outside
    split at outside
    · next searchRange atSearch =>
      have := wf.stop_lt_start_of_getElem? lt atIndex atSearch
      have := wf.nonempty searchRange (List.mem_of_getElem? atSearch)
      simp only [decide_eq_false_iff_not] at outside
      omega
    · next atSearch =>
      exact below r (by rw [List.take_of_length_le (List.getElem?_eq_none_iff.mp atSearch)]; exact mem)
  intro r mem
  rcases cut with ⟨-, -, result⟩ | ⟨-, result⟩
  · simp only [Prod.mk.injEq] at result
    obtain ⟨rfl, -⟩ := result
    cases inside : i.searchStartInside current
    · simp only [inside, Bool.false_eq_true, if_false, List.take_take] at mem
      exact below r (List.take_subset_take_left _ (Nat.min_le_left _ _) mem)
    · simp only [inside, if_true, List.take_take, Nat.min_self] at mem
      exact beforeCurrent inside r mem
  · simp only [Prod.mk.injEq] at result
    obtain ⟨rfl, -⟩ := result
    cases inside : i.searchStartInside current
    · simp only [inside, Bool.false_eq_true, if_false, List.take_append, List.take_take,
        List.mem_append, length] at mem
      rcases mem with mem | mem
      · exact below r (List.take_subset_take_left _ (Nat.min_le_left _ _) mem)
      · -- the new last range ends at `position`, before `current` did
        have past : skipRanges position i.ranges < i.rangeSearchStart := by
          by_contra notPast
          simp [Nat.sub_eq_zero_of_le (Nat.le_of_not_lt notPast)] at mem
        have currentBelow := allBelow inside past current (List.mem_of_getElem? atIndex)
        have reaches := lt_stop_of_getElem?_skipRanges atIndex
        obtain rfl := List.mem_singleton.mp (List.mem_of_mem_take mem)
        exact Nat.le_of_lt (Nat.lt_of_lt_of_le reaches currentBelow)
    · simp only [inside, if_true, List.take_left' length] at mem
      exact beforeCurrent inside r mem
end LiveInterval

/-! ## The first intersection -/

/-- `result` is the least position that satisfies `positions`, or `kNoLifetime` when none does. -/
def IsFirstOf (positions : Nat → Prop) (result : Nat) : Prop :=
  ((∃ q, positions q) → positions result ∧ ∀ q, positions q → result ≤ q) ∧
    ((¬∃ q, positions q) → result = kNoLifetime)

theorem IsFirstOf.congr {positions positions' : Nat → Prop} {result : Nat}
    (same : ∀ q, positions q ↔ positions' q) (first : IsFirstOf positions result) :
    IsFirstOf positions' result := by
  have : positions = positions' := funext fun q => propext (same q)
  exact this ▸ first

/-- A range that ends before the first of well-formed ranges starts shares no position with
them. -/
theorem covered_cons_and_of_isBefore {a b : LiveRange} {as bs : List LiveRange}
    (wf : WellFormed (b :: bs)) (before : a.isBefore b = true) (q : Nat) :
    Covered (a :: as) q ∧ Covered (b :: bs) q ↔ Covered as q ∧ Covered (b :: bs) q := by
  constructor
  · rintro ⟨mine, others⟩
    refine ⟨(covered_cons.mp mine).resolve_left ?_, others⟩
    rintro ⟨-, hi⟩
    have := wf.start_le_of_covered others
    simp only [LiveRange.isBefore, decide_eq_true_eq] at before
    omega
  · rintro ⟨mine, others⟩
    exact ⟨covered_cons.mpr (.inr mine), others⟩

/-- The loop of `FirstIntersectionWith` over well-formed ranges returns the first position that
both cover. -/
theorem firstIntersectionLoop_spec {my other : List LiveRange} (wfMy : WellFormed my)
    (wfOther : WellFormed other) :
    ∃ r, firstIntersectionLoop my other = some r ∧
      IsFirstOf (fun q => Covered my q ∧ Covered other q) r := by
  fun_induction firstIntersectionLoop my other with
  | case1 a as b bs before ih =>
    obtain ⟨r, loop, first⟩ := ih wfMy.of_cons wfOther
    exact ⟨r, loop, first.congr fun q => (covered_cons_and_of_isBefore wfOther before q).symm⟩
  | case2 a as b bs _ before ih =>
    obtain ⟨r, loop, first⟩ := ih wfMy wfOther.of_cons
    refine ⟨r, loop, first.congr fun q => ?_⟩
    rw [and_comm, ← covered_cons_and_of_isBefore wfMy before q, and_comm]
  | case3 a as b bs notBefore notAfter _ =>
    -- the two ranges overlap, and no position before both their starts is covered by both
    simp only [LiveRange.isBefore, decide_eq_true_eq, Nat.not_le] at notBefore notAfter
    have aNonempty := wfMy.nonempty a (by simp)
    have bNonempty := wfOther.nonempty b (by simp)
    have covers : Covered (a :: as) (max a.start b.start) ∧ Covered (b :: bs) (max a.start b.start) :=
      ⟨covered_cons.mpr (.inl ⟨by omega, by omega⟩), covered_cons.mpr (.inl ⟨by omega, by omega⟩)⟩
    refine ⟨_, rfl, fun _ => ⟨covers, ?_⟩, fun none => absurd ⟨_, covers⟩ none⟩
    rintro q ⟨mine, others⟩
    have := wfMy.start_le_of_covered mine
    have := wfOther.start_le_of_covered others
    omega
  | case4 a as b bs notBefore notAfter disjoint =>
    simp only [LiveRange.isBefore, LiveRange.intersectsWith, decide_eq_true_eq, Nat.not_le,
      Bool.or_eq_true, Bool.and_eq_true] at notBefore notAfter disjoint
    omega
  | case5 my other notBoth =>
    refine ⟨_, rfl, fun ⟨q, mine, others⟩ => ?_, fun _ => rfl⟩
    cases my with
    | nil => simp at mine
    | cons a as =>
      cases other with
      | nil => simp at others
      | cons b bs => exact (notBoth a as b bs rfl rfl).elim

namespace LiveInterval

/-- `FirstIntersectionWith(current)` returns the first position from the start of `current` on
that both intervals cover, when the search start of this interval skips only ranges that end at
or before that start. -/
theorem firstIntersectionWith_spec {i current : LiveInterval} {start : Nat}
    (wf : WellFormed i.ranges) (wfCurrent : WellFormed current.ranges)
    (currentStart : current.getStart = some start) (below : SearchStartBelow i start)
    (starts : ∃ first, i.getStart = some first ∧ (first ≤ start ∨ i.isFixed)) :
    ∃ r, i.firstIntersectionWith current = some r ∧
      IsFirstOf (fun q => start ≤ q ∧ Covered i.ranges q ∧ Covered current.ranges q) r := by
  obtain ⟨first, firstStart, before⟩ := starts
  obtain ⟨c, cs, currentRanges, rfl⟩ := getStart_eq_some.mp currentStart
  rw [currentRanges] at wfCurrent
  obtain ⟨r, loop, isFirst⟩ := firstIntersectionLoop_spec (wf.drop
    (i.rangeSearchStart + skipRanges c.start (i.ranges.drop i.rangeSearchStart))) wfCurrent
  refine ⟨r, ?_, isFirst.congr fun q => ?_⟩
  · simp only [firstIntersectionWith, firstStart, currentRanges]
    rw [if_neg (not_not.mpr before), findRangeAtOrAfter_of_below wf below, Option.bind_some, loop]
  · -- the ranges the search skips end before `current` starts
    rw [drop_skipRanges_of_take below, currentRanges]
    constructor
    · rintro ⟨mine, others⟩
      exact ⟨wfCurrent.start_le_of_covered others, covered_of_drop mine, others⟩
    · rintro ⟨atOrAfter, mine, others⟩
      refine ⟨?_, others⟩
      rw [← List.take_append_drop (skipRanges c.start i.ranges) i.ranges] at mine
      rcases covered_append.mp mine with ⟨t, mem, -, hi⟩ | later
      · exact absurd (Nat.lt_of_lt_of_le hi (stop_le_of_mem_take_skipRanges mem)) (Nat.not_lt.mpr atOrAfter)
      · exact later

end LiveInterval

/-! ## Runs of calls on one interval -/

/-- The calls that liveness analysis and linear scan make on one interval and that change it.
`splitAt` keeps this interval; the new one it returns starts runs of its own. -/
inductive Call
  | addRange (start stop : Nat)
  | addLoopRange (start stop : Nat)
  | setFrom (start : Nat) (usesEmpty : Bool) (lifetimePosition : Nat)
  | addSafepoint (position : Nat)
  | covers (position : Nat)
  | splitAt (position : Nat)
  | resetSearchCache
  deriving DecidableEq, Repr

namespace Call

/-- The calls that keep the ranges well formed: a range added in front ends at or before the
interval starts, a loop starts at or before the interval and reaches it, and a new start stays
below the end of the first range. -/
def Admissible : Call → LiveInterval → Prop
  | .addRange start stop, i => start < stop ∧ ∀ first ∈ i.ranges.head?, stop ≤ first.start
  | .addLoopRange start stop, i => ∀ first ∈ i.ranges.head?, start ≤ first.start ∧ first.start ≤ stop
  | .setFrom start _ _, i => ∀ first ∈ i.ranges.head?, start < first.stop
  | _, _ => True

/-- The largest position a search may have moved `range_search_start_` past. -/
def searchBound : Call → Nat → Nat
  | .covers position, bound => max bound position
  | .resetSearchCache, _ => 0
  | _, bound => bound

end Call

namespace LiveInterval

/-- One call, with what `Covers` answers and the interval `SplitAt` returns left aside. -/
def call (i : LiveInterval) : Call → Option LiveInterval
  | .addRange start stop => i.addRange start stop
  | .addLoopRange start stop => i.addLoopRange start stop
  | .setFrom start usesEmpty lifetimePosition => i.setFrom start usesEmpty lifetimePosition
  | .addSafepoint position => i.addSafepoint position
  | .covers position => (i.covers position).map Prod.fst
  | .splitAt position => (i.splitAt position).map Prod.fst
  | .resetSearchCache => some i.resetSearchCache

/-- A run of calls. -/
def run (i : LiveInterval) (calls : List Call) : Option LiveInterval := calls.foldlM call i

/-- Every call of a run is admissible in the state it meets. -/
def Admissible : LiveInterval → List Call → Prop
  | _, [] => True
  | i, c :: calls => c.Admissible i ∧ ∀ i', i.call c = some i' → Admissible i' calls

/-- What every call keeps: well-formed ranges, and a search start that skips only ranges ending at
or before `bound`. -/
structure Invariant (i : LiveInterval) (bound : Nat) : Prop where
  wellFormed : WellFormed i.ranges
  below : SearchStartBelow i bound

theorem searchStartBelow_of_zero {i : LiveInterval} (zero : i.rangeSearchStart = 0) (bound : Nat) :
    SearchStartBelow i bound := by
  simp [SearchStartBelow, zero]

/-- Moving the start of the first range keeps the ranges the search start skips. -/
theorem SearchStartBelow.setStart {i : LiveInterval} {first : LiveRange} {rest : List LiveRange}
    {start bound : Nat} (ranges : i.ranges = first :: rest) (below : SearchStartBelow i bound) :
    SearchStartBelow { i with ranges := { first with start := start } :: rest } bound := by
  intro r mem
  cases searchStart : i.rangeSearchStart with
  | zero => simp [searchStart] at mem
  | succ n =>
    simp only [searchStart, List.take_succ_cons, List.mem_cons] at mem
    rcases mem with rfl | mem
    · exact below first (by simp [ranges, searchStart])
    · exact below r (by simp [ranges, searchStart, mem])

theorem addRange_invariant {i i' : LiveInterval} {start stop bound : Nat}
    (admissible : (Call.addRange start stop).Admissible i) (inv : Invariant i bound)
    (h : i.addRange start stop = some i') : Invariant i' bound := by
  obtain ⟨i'', added, wf, -⟩ := addRange_spec inv.wellFormed admissible.1 admissible.2
  obtain rfl : i' = i'' := Option.some.inj (h.symm.trans added)
  refine ⟨wf, ?_⟩
  unfold addRange at h
  split at h
  · split_ifs at h
    exact Option.some.inj h ▸ searchStartBelow_of_zero rfl bound
  · next first rest ranges =>
    split_ifs at h
    · exact Option.some.inj h ▸ inv.below.setStart ranges
    · exact Option.some.inj h ▸ inv.below
    · exact Option.some.inj h ▸ searchStartBelow_of_zero rfl bound

/-- `AddLoopRange` starts the search from the new first range. -/
theorem addLoopRange_searchStart {i i' : LiveInterval} {start stop : Nat}
    (h : i.addLoopRange start stop = some i') : i'.rangeSearchStart = 0 := by
  unfold addLoopRange at h
  repeat' split at h
  all_goals first | cases h; rfl | cases h

theorem addLoopRange_invariant {i i' : LiveInterval} {start stop bound : Nat}
    (admissible : (Call.addLoopRange start stop).Admissible i) (inv : Invariant i bound)
    (h : i.addLoopRange start stop = some i') : Invariant i' bound := by
  cases ranges : i.ranges with
  | nil => simp [addLoopRange, ranges] at h
  | cons first rest =>
    obtain ⟨le, reaches⟩ := admissible first (by simp [ranges])
    obtain ⟨i'', added, wf, -⟩ :=
      addLoopRange_spec inv.wellFormed (by simp [getStart, ranges]) le reaches
    obtain rfl : i' = i'' := Option.some.inj (h.symm.trans added)
    exact ⟨wf, searchStartBelow_of_zero (addLoopRange_searchStart h) bound⟩

theorem setFrom_invariant {i i' : LiveInterval} {start lifetimePosition bound : Nat}
    {usesEmpty : Bool} (admissible : (Call.setFrom start usesEmpty lifetimePosition).Admissible i)
    (inv : Invariant i bound) (h : i.setFrom start usesEmpty lifetimePosition = some i') :
    Invariant i' bound := by
  unfold setFrom at h
  split at h
  · next first rest ranges =>
    cases h
    have wf := inv.wellFormed
    rw [ranges] at wf
    exact ⟨wf.setStart (admissible first (by simp [ranges])), inv.below.setStart ranges⟩
  · split_ifs at h
    cases h
    exact ⟨WellFormed.singleton (by simp), searchStartBelow_of_zero rfl bound⟩

/-- A call the run admits keeps the invariant, with the bound of the positions searched since the
cache was last reset. -/
theorem call_invariant {i i' : LiveInterval} {c : Call} {bound : Nat} (admissible : c.Admissible i)
    (inv : Invariant i bound) (h : i.call c = some i') : Invariant i' (c.searchBound bound) := by
  cases c with
  | addRange start stop => exact addRange_invariant admissible inv h
  | addLoopRange start stop => exact addLoopRange_invariant admissible inv h
  | setFrom start usesEmpty lifetimePosition => exact setFrom_invariant admissible inv h
  | addSafepoint position =>
    simp only [call, addSafepoint] at h
    split at h
    · cases h
      exact ⟨inv.wellFormed, inv.below⟩
    · split_ifs at h
      cases h
      exact ⟨inv.wellFormed, inv.below⟩
  | covers position =>
    obtain ⟨⟨i'', covered⟩, covers, rfl⟩ := Option.map_eq_some_iff.mp h
    obtain ⟨searchStart, same⟩ := Option.map_eq_some_iff.mp covers
    exact ⟨by cases same.2; exact inv.wellFormed, covers_below covers inv.below⟩
  | splitAt position =>
    obtain ⟨⟨i'', sibling⟩, split, rfl⟩ := Option.map_eq_some_iff.mp h
    refine ⟨?_, splitAt_below inv.wellFormed split inv.below⟩
    cases sibling with
    | none => exact splitAt_eq_self split ▸ inv.wellFormed
    | some sibling => exact (splitAt_split inv.wellFormed split).1
  | resetSearchCache =>
    cases h
    exact ⟨inv.wellFormed, searchStartBelow_of_zero rfl _⟩

/-- **The run invariant**: a run of admissible calls keeps the ranges well formed and the search
start below the largest position searched since the cache was last reset. -/
theorem run_invariant {calls : List Call} {i i' : LiveInterval} {bound : Nat}
    (admissible : Admissible i calls) (inv : Invariant i bound) (h : i.run calls = some i') :
    Invariant i' (calls.foldl (fun bound c => c.searchBound bound) bound) := by
  induction calls generalizing i bound with
  | nil =>
    cases h
    exact inv
  | cons c calls ih =>
    rw [run, List.foldlM_cons] at h
    obtain ⟨middle, first, rest⟩ := Option.bind_eq_some_iff.mp h
    exact ih (admissible.2 middle first) (call_invariant admissible.1 inv first) rest

/-- The bound of a run is at most a position at least every position passed to `Covers`. -/
theorem foldl_searchBound_le {calls : List Call} {bound position : Nat} (le : bound ≤ position)
    (above : ∀ q, Call.covers q ∈ calls → q ≤ position) :
    calls.foldl (fun bound c => c.searchBound bound) bound ≤ position := by
  induction calls generalizing bound with
  | nil => exact le
  | cons c calls ih =>
    refine ih ?_ fun q mem => above q (.tail c mem)
    cases c <;> simp only [Call.searchBound]
    all_goals first | exact le | exact Nat.zero_le _ | exact Nat.max_le.mpr ⟨le, above _ (by simp)⟩

end LiveInterval

/-! ## The ranges of a live interval -/

namespace LiveInterval

theorem liveInterval_spec (i : LiveInterval) (wf : WellFormed i.ranges) :
    (∀ start stop, start < stop → (∀ first ∈ i.getStart, stop ≤ first) →
      ∃ i', i.addRange start stop = some i' ∧ WellFormed i'.ranges ∧
        ∀ q, Covered i'.ranges q ↔ Covered i.ranges q ∨ start ≤ q ∧ q < stop) ∧
    (∀ start stop first, i.getStart = some first → start ≤ first → first ≤ stop →
      ∃ i', i.addLoopRange start stop = some i' ∧ WellFormed i'.ranges ∧
        ∀ q, Covered i'.ranges q ↔ Covered i.ranges q ∨ start ≤ q ∧ q < stop) ∧
    (i.isTemp = false → i.isFixed = false → i.safepoints.Pairwise (· < ·) →
      ∀ position start, i.getStart = some start → start < position →
      ∃ this sibling, i.splitAt position = some (this, sibling) ∧
        (sibling = none ↔ ∃ stop, i.getEnd = some stop ∧ stop ≤ position) ∧
        (sibling = none → this = i) ∧
        ∀ s, sibling = some s → WellFormed this.ranges ∧ WellFormed s.ranges ∧
          (∀ q, Covered this.ranges q ↔ Covered i.ranges q ∧ q < position) ∧
          (∀ q, Covered s.ranges q ↔ Covered i.ranges q ∧ position ≤ q) ∧
          this.safepoints = i.safepoints.filter (· < position) ∧
          s.safepoints = i.safepoints.filter (position ≤ ·)) ∧
    (∀ position, i.coversSlow position = some (decide (Covered i.ranges position))) ∧
    (∀ (j : LiveInterval) (calls : List Call), j.rangeSearchStart = 0 → WellFormed j.ranges →
      j.Admissible calls → j.run calls = some i →
      (∀ position, (∀ q, Call.covers q ∈ calls → q ≤ position) →
        (i.covers position).map Prod.snd = i.coversSlow position) ∧
      (∀ current start, WellFormed current.ranges → current.getStart = some start →
        (∀ q, Call.covers q ∈ calls → q ≤ start) →
        (∃ first, i.getStart = some first ∧ (first ≤ start ∨ i.isFixed)) →
        ∃ r, i.firstIntersectionWith current = some r ∧
          IsFirstOf (fun q => start ≤ q ∧ Covered i.ranges q ∧ Covered current.ranges q) r)) := by
  refine ⟨fun start stop lt before =>
      addRange_spec wf lt fun first mem => before first.start (Option.mem_map_of_mem _ mem),
    fun start stop first firstStart le reaches => addLoopRange_spec wf firstStart le reaches,
    ?_, coversSlow_eq wf, ?_⟩
  · intro notTemp notFixed sorted position start firstStart after
    obtain ⟨⟨this, sibling⟩, split⟩ := splitAt_isSome notTemp notFixed firstStart after
    refine ⟨this, sibling, split, splitAt_none_iff split, fun none => splitAt_eq_self (none ▸ split),
      fun s some => ?_⟩
    subst some
    obtain ⟨wfThis, wfSibling, coversThis, coversSibling, keeps, moves⟩ := splitAt_split wf split
    rw [splitSafepoints_of_sorted sorted] at keeps moves
    exact ⟨wfThis, wfSibling, coversThis, coversSibling, keeps, moves⟩
  · intro j calls start wfStart admissible ran
    have inv := run_invariant admissible ⟨wfStart, searchStartBelow_of_zero start 0⟩ ran
    refine ⟨fun position above => ?_, fun current first wfCurrent currentStart above starts => ?_⟩
    · obtain ⟨searchStart, covers⟩ := covers_eq_coversSlow inv.wellFormed
        (inv.below.mono (foldl_searchBound_le (Nat.zero_le _) above))
      rw [covers, coversSlow_eq inv.wellFormed, Option.map_some]
    · exact firstIntersectionWith_spec inv.wellFormed wfCurrent currentStart
        (inv.below.mono (foldl_searchBound_le (Nat.zero_le _) above)) starts

/-- Two ranges with a lifetime hole between them, and a safepoint in each. -/
def twoRanges : LiveInterval := ⟨[⟨0, 10⟩, ⟨20, 30⟩], 0, [3, 25], false, false⟩

theorem twoRanges_wellFormed : WellFormed twoRanges.ranges :=
  WellFormed.cons_cons_iff.mpr ⟨by decide, by decide, .singleton (by decide)⟩

theorem twoRanges_liveInterval_spec :
    WellFormed twoRanges.ranges ∧
      (∀ start stop, start < stop → (∀ first ∈ twoRanges.getStart, stop ≤ first) →
        ∃ i', twoRanges.addRange start stop = some i' ∧ WellFormed i'.ranges ∧
          ∀ q, Covered i'.ranges q ↔ Covered twoRanges.ranges q ∨ start ≤ q ∧ q < stop) ∧
      (∀ start stop first, twoRanges.getStart = some first → start ≤ first → first ≤ stop →
        ∃ i', twoRanges.addLoopRange start stop = some i' ∧ WellFormed i'.ranges ∧
          ∀ q, Covered i'.ranges q ↔ Covered twoRanges.ranges q ∨ start ≤ q ∧ q < stop) ∧
      (twoRanges.isTemp = false → twoRanges.isFixed = false → twoRanges.safepoints.Pairwise (· < ·) →
        ∀ position start, twoRanges.getStart = some start → start < position →
        ∃ this sibling, twoRanges.splitAt position = some (this, sibling) ∧
          (sibling = none ↔ ∃ stop, twoRanges.getEnd = some stop ∧ stop ≤ position) ∧
          (sibling = none → this = twoRanges) ∧
          ∀ s, sibling = some s → WellFormed this.ranges ∧ WellFormed s.ranges ∧
            (∀ q, Covered this.ranges q ↔ Covered twoRanges.ranges q ∧ q < position) ∧
            (∀ q, Covered s.ranges q ↔ Covered twoRanges.ranges q ∧ position ≤ q) ∧
            this.safepoints = twoRanges.safepoints.filter (· < position) ∧
            s.safepoints = twoRanges.safepoints.filter (position ≤ ·)) ∧
      (∀ position, twoRanges.coversSlow position = some (decide (Covered twoRanges.ranges position))) ∧
      (∀ (j : LiveInterval) (calls : List Call), j.rangeSearchStart = 0 → WellFormed j.ranges →
        j.Admissible calls → j.run calls = some twoRanges →
        (∀ position, (∀ q, Call.covers q ∈ calls → q ≤ position) →
          (twoRanges.covers position).map Prod.snd = twoRanges.coversSlow position) ∧
        (∀ current start, WellFormed current.ranges → current.getStart = some start →
          (∀ q, Call.covers q ∈ calls → q ≤ start) →
          (∃ first, twoRanges.getStart = some first ∧ (first ≤ start ∨ twoRanges.isFixed)) →
          ∃ r, twoRanges.firstIntersectionWith current = some r ∧
            IsFirstOf (fun q => start ≤ q ∧ Covered twoRanges.ranges q ∧ Covered current.ranges q) r)) :=
  ⟨twoRanges_wellFormed, liveInterval_spec twoRanges twoRanges_wellFormed⟩

/-- Read without its preconditions, the statement fails: `AddRange(6, 4)` on `[4, 10)` drops
positions 4 and 5; `AddLoopRange(2, 5)` on `[10, 20)` finds no `last_in_loop`; `SplitAt` on a
fixed interval fails its checks; and after `Covers(25)` on `[0, 10) [20, 30)` the search of
`FirstIntersectionWith` for `[5, 25)` starts past position 5, which both cover, and fails
`DCHECK_EQ` (a release build returns 20). -/
theorem liveInterval_counterexample :
    (∃ i', (⟨[⟨4, 10⟩], 0, [], false, false⟩ : LiveInterval).addRange 6 4 = some i' ∧
      Covered [⟨4, 10⟩] 4 ∧ ¬Covered i'.ranges 4) ∧
    (⟨[⟨10, 20⟩], 0, [], false, false⟩ : LiveInterval).addLoopRange 2 5 = none ∧
    (⟨[⟨0, 10⟩], 0, [], true, false⟩ : LiveInterval).splitAt 5 = none ∧
    (∃ i', (⟨[⟨0, 10⟩, ⟨20, 30⟩], 0, [], false, false⟩ : LiveInterval).covers 25 = some (i', true) ∧
      i'.firstIntersectionWith ⟨[⟨5, 25⟩], 0, [], false, false⟩ = none ∧
      Covered i'.ranges 5 ∧ Covered [⟨5, 25⟩] 5) :=
  ⟨⟨⟨[⟨6, 10⟩], 0, [], false, false⟩, by decide, by decide, by decide⟩, by decide, by decide,
    ⟨⟨[⟨0, 10⟩, ⟨20, 30⟩], 1, [], false, false⟩, by decide, by decide, by decide, by decide⟩⟩

end LiveInterval

end Art.Compiler.Optimizing.SsaLivenessAnalysis
