import Art.Machine.Binary64
import Art.Machine.Loop
import Art.Machine.RangeCount

/-!
# `HashSet`

A `HashSet` keeps its elements in an array of slots with open addressing: an
element goes to the first empty slot at or after the slot its hash selects,
wrapping at the end (`FirstAvailableSlot`), and a lookup walks the same way until
it finds the element or an empty slot (`FindIndex`). `EmptyFn` tells which slot
values are empty. `Erase` moves later elements of the walk back into the slot it
frees, so that no walk is cut by the new empty slot.

The table grows when an `Insert` finds `Size()` at `ElementsUntilExpand()`, and
`Resize` reinserts every element into a new array. The new sizes are computed in
binary64 from the load factors, truncated to an integer (`Art.Machine.Binary64`).

Every walk of the code loops until it meets an empty slot, so none ends in a
table whose slots are all full. A walk here takes at most `NumBuckets()` steps,
after which it has seen every slot, and `none` is a walk that never ends
(`probeAvailable_eq_none_iff`).

`Resize` keeps the elements and their number whenever the new size holds them
(`resize_spec`). `ShrinkToMaximumLoad` resizes to `Size()` divided by the maximum
load factor. For a maximum load factor close to one that quotient truncates to
`Size()` itself, and the table comes out full: every slot holds an element, and a
lookup of an element not in the set never returns (`shrinkToMaximumLoad_fills`).
-/

set_option autoImplicit false

namespace Art.Runtime

open Art.Machine

variable {T : Type}

/-- `EmptyFn`: which slot values are empty, and the value `MakeEmpty` stores, which
is one of them. -/
structure EmptyFn (T : Type) where
  isEmpty : T → Bool
  empty : T
  isEmpty_empty : isEmpty empty = true

/-- `kMinBuckets`. -/
def kMinBuckets : Nat := 1000

/-- `kDefaultMinLoadFactor`, the binary64 number of `0.4`. -/
def kDefaultMinLoadFactor : ℚ := Binary64.round (4 / 10)

/-- `kDefaultMaxLoadFactor`, the binary64 number of `0.7`. -/
def kDefaultMaxLoadFactor : ℚ := Binary64.round (7 / 10)

/-- The state of a `HashSet`: `num_elements_`, `num_buckets_`,
`elements_until_expand_`, the slots and the two load factors. -/
structure HashSet (T : Type) where
  numElements : Nat
  numBuckets : Nat
  elementsUntilExpand : Nat
  data : Nat → T
  minLoadFactor : ℚ
  maxLoadFactor : ℚ

namespace HashSet

section Operations

variable (emptyfn : EmptyFn T) (hashfn : T → Nat)

/-- The constructor `HashSet(min_load_factor, max_load_factor)`: no buckets. -/
def create (minLoadFactor maxLoadFactor : ℚ) : HashSet T :=
  ⟨0, 0, 0, fun _ => emptyfn.empty, minLoadFactor, maxLoadFactor⟩

/-- The default constructor. -/
def createDefault : HashSet T := create emptyfn kDefaultMinLoadFactor kDefaultMaxLoadFactor

/-- `IndexForHash`. -/
def indexForHash (s : HashSet T) (hash : Nat) : Nat :=
  if s.numBuckets = 0 then 0 else hash % s.numBuckets

/-- `NextIndex`. -/
def nextIndex (s : HashSet T) (index : Nat) : Nat :=
  if index + 1 ≥ s.numBuckets then 0 else index + 1

/-- The loop of `FirstAvailableSlot` from `index`, for at most `fuel` slots. -/
def probeAvailable (s : HashSet T) : Nat → Nat → Option Nat
  | 0, _ => none
  | fuel + 1, index =>
      if emptyfn.isEmpty (s.data index) then some index else probeAvailable s fuel (s.nextIndex index)

/-- `FirstAvailableSlot`. -/
def firstAvailableSlot (s : HashSet T) (index : Nat) : Option Nat :=
  s.probeAvailable emptyfn s.numBuckets index

/-- The loop of `FindIndex` from `index`, for at most `fuel` slots: the slot of an
element that `pred` matches with `key`, or `NumBuckets()` at an empty slot. -/
def probeFind {K : Type} (s : HashSet T) (pred : T → K → Bool) (key : K) : Nat → Nat → Option Nat
  | 0, _ => none
  | fuel + 1, index =>
      if emptyfn.isEmpty (s.data index) then some s.numBuckets
      else if pred (s.data index) key then some index
      else probeFind s pred key fuel (s.nextIndex index)

/-- `FindIndex`, which `Find` and `FindWithHash` return as an iterator: `NumBuckets()`
is `end()`. -/
def findIndex {K : Type} (s : HashSet T) (pred : T → K → Bool) (key : K) (hash : Nat) : Option Nat :=
  if s.numBuckets = 0 then some 0 else s.probeFind emptyfn pred key s.numBuckets (s.indexForHash hash)

/-- `AllocateStorage`: `numBuckets` empty slots. -/
def allocateStorage (s : HashSet T) (numBuckets : Nat) : HashSet T :=
  { s with numBuckets, data := fun _ => emptyfn.empty }

/-- One round of the loop of `Resize`: the element of the old slot `i`, if any, goes
to the first available slot from its own. -/
def reinsert (old : Nat → T) (s : HashSet T) (i : Nat) : Option (HashSet T) :=
  if emptyfn.isEmpty (old i) then some s
  else (s.firstAvailableSlot emptyfn (s.indexForHash (hashfn (old i)))).map
    fun slot => { s with data := Function.update s.data slot (old i) }

/-- `Resize`, to at least `kMinBuckets` slots. -/
def resize (s : HashSet T) (newSize : Nat) : Option (HashSet T) := do
  let newSize := if newSize < kMinBuckets then kMinBuckets else newSize
  -- `DCHECK_GE(new_size, Size())`
  if newSize < s.numElements then none
  let resized ← (List.range s.numBuckets).foldlM (reinsert emptyfn hashfn s.data) (s.allocateStorage emptyfn newSize)
  some { resized with
    elementsUntilExpand := Binary64.toSize (Binary64.mul (Binary64.ofNat resized.numBuckets) s.maxLoadFactor) }

/-- `Expand`. -/
def expand (s : HashSet T) : Option (HashSet T) :=
  s.resize emptyfn hashfn (Binary64.toSize (Binary64.div (Binary64.ofNat s.numElements) s.minLoadFactor))

/-- `InsertWithHash`. -/
def insertWithHash (s : HashSet T) (element : T) (hash : Nat) : Option (HashSet T) := do
  let s ← if s.numElements ≥ s.elementsUntilExpand then do
      let s ← s.expand emptyfn hashfn
      -- `DCHECK_LT(num_elements_, elements_until_expand_)`
      if s.numElements ≥ s.elementsUntilExpand then none
      some s
    else some s
  let index ← s.firstAvailableSlot emptyfn (s.indexForHash hash)
  some { s with data := Function.update s.data index element, numElements := s.numElements + 1 }

/-- `Insert`. -/
def insert (s : HashSet T) (element : T) : Option (HashSet T) :=
  s.insertWithHash emptyfn hashfn element (hashfn element)

/-- `NextNonEmptySlot`: the first slot after `index` that holds an element, or
`NumBuckets()`. -/
def nextNonEmptySlot (s : HashSet T) (index : Nat) : Nat :=
  let next := index + 1
  if next < s.numBuckets ∧ emptyfn.isEmpty (s.data next) then nextNonEmptySlot s next else next
termination_by s.numBuckets - index

/-- `begin()`: the first slot that holds an element, or `NumBuckets()`. -/
def begin (s : HashSet T) : Nat :=
  if s.numBuckets ≠ 0 ∧ emptyfn.isEmpty (s.data 0) then s.nextNonEmptySlot emptyfn 0 else 0

/-- The loop of `Erase`: `emptyIndex` is the slot that will become empty, `next`
the last slot looked at, and `filled` whether an element has moved into the slot
of the iterator. An element whose ideal slot is not in the cyclic range after
`emptyIndex` up to its own slot was probed from before `emptyIndex`, and moves
back into it. -/
def eraseLoop (s : HashSet T) : Nat → (Nat → T) → Nat → Nat → Bool → Option ((Nat → T) × Bool)
  | 0, _, _, _, _ => none
  | fuel + 1, data, emptyIndex, next, filled =>
      let next := s.nextIndex next
      let nextElement := data next
      if emptyfn.isEmpty nextElement then some (Function.update data emptyIndex emptyfn.empty, filled)
      else
        let nextIdealIndex := s.indexForHash (hashfn nextElement)
        let unwrappedNextIndex := if next < emptyIndex then next + s.numBuckets else next
        let unwrappedNextIdealIndex :=
          if nextIdealIndex < emptyIndex then nextIdealIndex + s.numBuckets else nextIdealIndex
        if unwrappedNextIdealIndex ≤ emptyIndex ∨ unwrappedNextIdealIndex > unwrappedNextIndex then
          eraseLoop s fuel (Function.update data emptyIndex nextElement) next next true
        else eraseLoop s fuel data emptyIndex next filled

/-- `Erase` of the element at the iterator `index`: the set after it, and the
iterator it returns, `index` itself when an element moved into the freed slot and
the next element's slot otherwise. -/
def erase (s : HashSet T) (index : Nat) : Option (HashSet T × Nat) :=
  (s.eraseLoop emptyfn hashfn s.numBuckets s.data index index false).map fun (data, filled) =>
    let erased := { s with data, numElements := s.numElements - 1 }
    (erased, if filled then index else erased.nextNonEmptySlot emptyfn index)

/-- `Clear`: `DeallocateStorage` leaves no buckets. -/
def clear (s : HashSet T) : HashSet T :=
  { s with numBuckets := 0, data := fun _ => emptyfn.empty, numElements := 0, elementsUntilExpand := 0 }

/-- `ShrinkToMaximumLoad`. -/
def shrinkToMaximumLoad (s : HashSet T) : Option (HashSet T) :=
  s.resize emptyfn hashfn (Binary64.toSize (Binary64.div (Binary64.ofNat s.numElements) s.maxLoadFactor))

/-- `SetLoadFactor`. A table without buckets has no elements, and its load factor
`0 / 0` is a NaN, which is never greater than the maximum; here it is `0`. -/
def setLoadFactor (s : HashSet T) (minLoadFactor maxLoadFactor : ℚ) : Option (HashSet T) :=
  let s := { s with
    minLoadFactor, maxLoadFactor
    elementsUntilExpand := Binary64.toSize (Binary64.mul (Binary64.ofNat s.numBuckets) maxLoadFactor) }
  -- `CalculateLoadFactor`
  let loadFactor := Binary64.div (Binary64.ofNat s.numElements) (Binary64.ofNat s.numBuckets)
  if loadFactor > maxLoadFactor then
    s.resize emptyfn hashfn (Binary64.toSize (Binary64.div (Binary64.ofNat s.numElements)
      (Binary64.mul (Binary64.add minLoadFactor maxLoadFactor) (1 / 2))))
  else some s

end Operations

/-! ## Walks -/

section Walks

variable (emptyfn : EmptyFn T) (s : HashSet T)

theorem nextIndex_lt (positive : 0 < s.numBuckets) (index : Nat) : s.nextIndex index < s.numBuckets := by
  unfold nextIndex
  split <;> omega

theorem indexForHash_lt (positive : 0 < s.numBuckets) (hash : Nat) : s.indexForHash hash < s.numBuckets := by
  unfold indexForHash
  rw [if_neg (by omega)]
  exact Nat.mod_lt _ positive

/-- From a slot, `NextIndex` is the slot after it, wrapping at `NumBuckets()`. -/
theorem nextIndex_eq_mod {index : Nat} (below : index < s.numBuckets) :
    s.nextIndex index = (index + 1) % s.numBuckets := by
  unfold nextIndex
  split
  · have last : index + 1 = s.numBuckets := by omega
    rw [last, Nat.mod_self]
  · rw [Nat.mod_eq_of_lt (by omega)]

/-- A walk of `NumBuckets()` slots from a slot meets every slot. -/
theorem exists_step_eq {index i : Nat} (below : index < s.numBuckets) (target : i < s.numBuckets) :
    ∃ k < s.numBuckets, (index + k) % s.numBuckets = i := by
  refine ⟨(i + s.numBuckets - index) % s.numBuckets, Nat.mod_lt _ (by omega), ?_⟩
  rw [Nat.add_mod_mod, show index + (i + s.numBuckets - index) = i + s.numBuckets by omega, Nat.add_mod_right,
    Nat.mod_eq_of_lt target]

/-- The walk of `FirstAvailableSlot` fails exactly when the `fuel` slots from
`index` are all full. The induction is on the fuel, with the walk moving on. -/
theorem probeAvailable_eq_none_iff {index : Nat} (below : index < s.numBuckets) (fuel : Nat) :
    s.probeAvailable emptyfn fuel index = none ↔
      ∀ k < fuel, emptyfn.isEmpty (s.data ((index + k) % s.numBuckets)) = false := by
  induction fuel generalizing index with
  | zero => simp [probeAvailable]
  | succ fuel ih =>
      have here : (index + 0) % s.numBuckets = index := by rw [Nat.add_zero, Nat.mod_eq_of_lt below]
      have later : ∀ k, (s.nextIndex index + k) % s.numBuckets = (index + (k + 1)) % s.numBuckets := by
        intro k
        rw [nextIndex_eq_mod s below, Nat.mod_add_mod, Nat.add_right_comm, Nat.add_assoc]
      unfold probeAvailable
      by_cases empty : emptyfn.isEmpty (s.data index) = true
      · rw [if_pos empty]
        refine ⟨(fun found => nomatch found), fun full => ?_⟩
        have first := full 0 (Nat.zero_lt_succ _)
        rw [here, empty] at first
        cases first
      · rw [if_neg empty, ih (s.nextIndex_lt (by omega) index)]
        constructor
        · intro rest k lt
          cases k with
          | zero => rw [here]; simpa using empty
          | succ k => rw [← later]; exact rest k (by omega)
        · intro all k lt
          rw [later]
          exact all (k + 1) (by omega)

/-- A slot the walk of `FirstAvailableSlot` returns is an empty slot of the table. -/
theorem probeAvailable_eq_some {index slot : Nat} (below : index < s.numBuckets) (fuel : Nat)
    (found : s.probeAvailable emptyfn fuel index = some slot) :
    slot < s.numBuckets ∧ emptyfn.isEmpty (s.data slot) = true := by
  induction fuel generalizing index with
  | zero => cases found
  | succ fuel ih =>
      unfold probeAvailable at found
      split at found
      · cases found
        exact ⟨below, by assumption⟩
      · exact ih (s.nextIndex_lt (by omega) index) found

/-- `FirstAvailableSlot` finds an empty slot whenever the table has one. -/
theorem firstAvailableSlot_of_hole {index : Nat} (below : index < s.numBuckets)
    (hole : ∃ i < s.numBuckets, emptyfn.isEmpty (s.data i) = true) :
    ∃ slot, s.firstAvailableSlot emptyfn index = some slot ∧ slot < s.numBuckets ∧
      emptyfn.isEmpty (s.data slot) = true := by
  cases found : s.firstAvailableSlot emptyfn index with
  | some slot => exact ⟨slot, rfl, s.probeAvailable_eq_some emptyfn below _ found⟩
  | none =>
      obtain ⟨i, inside, empty⟩ := hole
      obtain ⟨k, step, reaches⟩ := s.exists_step_eq below inside
      have full := (s.probeAvailable_eq_none_iff emptyfn below _).1 found k step
      rw [reaches, empty] at full
      cases full

/-- A walk of `FindIndex` in a table whose slots are all full and whose elements do
not match the key never ends. -/
theorem probeFind_eq_none_of_full {K : Type} {pred : T → K → Bool} {key : K}
    (full : ∀ i < s.numBuckets, emptyfn.isEmpty (s.data i) = false)
    (unmatched : ∀ i < s.numBuckets, pred (s.data i) key = false) {index : Nat} (below : index < s.numBuckets)
    (fuel : Nat) : s.probeFind emptyfn pred key fuel index = none := by
  induction fuel generalizing index with
  | zero => rfl
  | succ fuel ih =>
      unfold probeFind
      rw [if_neg (by rw [full index below]; decide), if_neg (by rw [unmatched index below]; decide)]
      exact ih (s.nextIndex_lt (by omega) index)

end Walks

/-! ## The full slots -/

section Filled

variable (emptyfn : EmptyFn T)

/-- The number of full slots, which `Size()` counts. -/
def countFilled (s : HashSet T) : Nat :=
  countRange (fun i => !emptyfn.isEmpty (s.data i)) 0 s.numBuckets

/-- A table with fewer full slots than slots has an empty one. -/
theorem exists_empty_of_countFilled_lt {s : HashSet T} (fewer : countFilled emptyfn s < s.numBuckets) :
    ∃ i < s.numBuckets, emptyfn.isEmpty (s.data i) = true := by
  by_contra full
  have counted : countFilled emptyfn s = s.numBuckets - 0 := by
    apply (countRange_eq_length_iff _).2
    intro i _ inside
    simpa using fun empty => full ⟨i, inside, empty⟩
  omega

/-- A table with as many full slots as slots has no empty one. -/
theorem full_of_countFilled_eq {s : HashSet T} (counted : countFilled emptyfn s = s.numBuckets) :
    ∀ i < s.numBuckets, emptyfn.isEmpty (s.data i) = false := by
  intro i inside
  have all := (countRange_eq_length_iff (fun i => !emptyfn.isEmpty (s.data i))).1 (by rw [Nat.sub_zero]; exact counted)
  simpa using all i (Nat.zero_le i) inside

/-- Storing an element in an empty slot fills one slot more. -/
theorem countFilled_update {s : HashSet T} {slot : Nat} (inside : slot < s.numBuckets)
    (empty : emptyfn.isEmpty (s.data slot) = true) {element : T} (full : emptyfn.isEmpty element = false) :
    countFilled emptyfn { s with data := Function.update s.data slot element } = countFilled emptyfn s + 1 := by
  unfold countFilled
  have stored := countRange_update (fun i => !emptyfn.isEmpty (s.data i)) (Nat.zero_le slot) inside
    (q := fun i => !emptyfn.isEmpty (Function.update s.data slot element i))
    (fun i other => by simp only [Function.update_of_ne other])
  have split := countRange_update (fun i => !emptyfn.isEmpty (s.data i)) (Nat.zero_le slot) inside
    (q := fun i => !emptyfn.isEmpty (s.data i)) (fun _ _ => rfl)
  simp only [Function.update_self, full, empty, Bool.not_false, Bool.not_true, if_true, Bool.false_eq_true,
    if_false] at stored split
  dsimp only
  omega

@[simp] theorem countFilled_allocateStorage (s : HashSet T) (numBuckets : Nat) :
    countFilled emptyfn (s.allocateStorage emptyfn numBuckets) = 0 := by
  unfold countFilled allocateStorage
  apply (countRange_eq_zero_iff _).2
  intro i _ _
  simp [emptyfn.isEmpty_empty]

end Filled

/-! ## Storing in a free slot -/

section Free

variable (emptyfn : EmptyFn T) (hashfn : T → Nat)

/-- A hash below `NumBuckets()` selects its own slot. -/
theorem indexForHash_of_lt (s : HashSet T) {hash : Nat} (below : hash < s.numBuckets) : s.indexForHash hash = hash := by
  unfold indexForHash
  rw [if_neg (by omega), Nat.mod_eq_of_lt below]

/-- `FirstAvailableSlot` from an empty slot is that slot. -/
theorem firstAvailableSlot_of_free (s : HashSet T) {index : Nat} (positive : 0 < s.numBuckets)
    (free : emptyfn.isEmpty (s.data index) = true) : s.firstAvailableSlot emptyfn index = some index := by
  obtain ⟨fuel, buckets⟩ : ∃ fuel, s.numBuckets = fuel + 1 := ⟨s.numBuckets - 1, by omega⟩
  rw [firstAvailableSlot, buckets, probeAvailable, if_pos free]

/-- `InsertWithHash` when the slot of the hash is empty, in the table as it is or as
`Expand` leaves it with room below the expansion point: the element goes there. -/
theorem insertWithHash_of_free (s grown : HashSet T) (element : T) (hash : Nat)
    (expanded : s.numElements < s.elementsUntilExpand ∧ grown = s ∨
      s.elementsUntilExpand ≤ s.numElements ∧ s.expand emptyfn hashfn = some grown ∧
        grown.numElements < grown.elementsUntilExpand)
    (positive : 0 < grown.numBuckets) (free : emptyfn.isEmpty (grown.data (grown.indexForHash hash)) = true) :
    s.insertWithHash emptyfn hashfn element hash =
      some { grown with
        data := Function.update grown.data (grown.indexForHash hash) element
        numElements := grown.numElements + 1 } := by
  rcases expanded with ⟨below, rfl⟩ | ⟨grow, expand, room⟩
  · simp only [insertWithHash, if_neg (Nat.not_le.mpr below), Option.bind_eq_bind, Option.bind_some,
      firstAvailableSlot_of_free emptyfn grown positive free]
  · simp only [insertWithHash, if_pos grow, expand, if_neg (Nat.not_le.mpr room), Option.bind_eq_bind,
      Option.bind_some, firstAvailableSlot_of_free emptyfn grown positive free]

/-- One round of `Resize` on an element whose slot is empty in the new array puts it
there. -/
theorem reinsert_of_free (old : Nat → T) (s : HashSet T) (i : Nat) (full : emptyfn.isEmpty (old i) = false)
    (positive : 0 < s.numBuckets) (free : emptyfn.isEmpty (s.data (s.indexForHash (hashfn (old i)))) = true) :
    reinsert emptyfn hashfn old s i =
      some { s with data := Function.update s.data (s.indexForHash (hashfn (old i))) (old i) } := by
  rw [reinsert, if_neg (by rw [full]; decide), firstAvailableSlot_of_free emptyfn s positive free]
  rfl

end Free

/-! ## `Resize` -/

section Resize

variable (emptyfn : EmptyFn T) (hashfn : T → Nat)

/-- **`Resize`.** When the new size, raised to `kMinBuckets`, is at least `Size()` and
holds every element, `Resize` puts each element in a slot of the new array, fills
as many slots as were full, and keeps the element count and the load factors. The
loop over the old slots carries how many of them were full so far, and that every
full new slot holds an element of one of them. -/
theorem resize_spec (s : HashSet T) (newSize : Nat)
    (holds : s.numElements ≤ (if newSize < kMinBuckets then kMinBuckets else newSize))
    (fits : countFilled emptyfn s ≤ (if newSize < kMinBuckets then kMinBuckets else newSize)) :
    ∃ resized, s.resize emptyfn hashfn newSize = some resized ∧
      resized.numBuckets = (if newSize < kMinBuckets then kMinBuckets else newSize) ∧
      countFilled emptyfn resized = countFilled emptyfn s ∧
      (∀ slot, emptyfn.isEmpty (resized.data slot) = true ∨
        ∃ i < s.numBuckets, emptyfn.isEmpty (s.data i) = false ∧ resized.data slot = s.data i) ∧
      resized.numElements = s.numElements ∧ resized.maxLoadFactor = s.maxLoadFactor := by
  set size := if newSize < kMinBuckets then kMinBuckets else newSize with sizeDef
  have atLeast : kMinBuckets ≤ size := by
    simp only [size]
    split_ifs <;> omega
  have positive : 0 < size := by
    unfold kMinBuckets at atLeast
    omega
  let filledBefore := fun i => countRange (fun j => !emptyfn.isEmpty (s.data j)) 0 i
  let invariant := fun (i : Nat) (state : HashSet T) =>
    state.numBuckets = size ∧ countFilled emptyfn state = filledBefore i ∧
      (∀ slot, emptyfn.isEmpty (state.data slot) = true ∨
        ∃ j < i, emptyfn.isEmpty (s.data j) = false ∧ state.data slot = s.data j) ∧
      state.numElements = s.numElements ∧ state.maxLoadFactor = s.maxLoadFactor
  have start : invariant 0 (s.allocateStorage emptyfn size) :=
    ⟨rfl, by simp [filledBefore], fun _ => .inl emptyfn.isEmpty_empty, rfl, rfl⟩
  -- one old slot: an element goes to an empty slot, of which there is one left
  have preserve : ∀ i state, i < s.numBuckets → invariant i state →
      ∃ next, reinsert emptyfn hashfn s.data state i = some next ∧ invariant (i + 1) next := by
    intro i state inside ⟨buckets, filled, elements, count, factor⟩
    have split : filledBefore (i + 1) = filledBefore i + (if emptyfn.isEmpty (s.data i) then 0 else 1) := by
      simp only [filledBefore]
      rw [countRange_add _ (Nat.zero_le i) (Nat.le_add_right i 1), countRange_single]
      cases emptyfn.isEmpty (s.data i) <;> rfl
    unfold reinsert
    by_cases empty : emptyfn.isEmpty (s.data i) = true
    · rw [if_pos empty]
      refine ⟨state, rfl, buckets, by rw [split, empty, if_pos rfl, Nat.add_zero]; exact filled, fun slot => ?_, count,
        factor⟩
      rcases elements slot with free | ⟨j, old, full, same⟩
      · exact .inl free
      · exact .inr ⟨j, by omega, full, same⟩
    · rw [if_neg empty]
      have full : emptyfn.isEmpty (s.data i) = false := by simpa using empty
      have fewer : countFilled emptyfn state < state.numBuckets := by
        have later : filledBefore (i + 1) ≤ countFilled emptyfn s := by
          simp only [filledBefore, countFilled]
          rw [countRange_add _ (Nat.zero_le (i + 1)) inside]
          omega
        rw [split, if_neg empty] at later
        omega
      obtain ⟨slot, found, slotInside, slotEmpty⟩ :=
        state.firstAvailableSlot_of_hole emptyfn (state.indexForHash_lt (by omega) _)
          (exists_empty_of_countFilled_lt emptyfn fewer)
      rw [found]
      refine ⟨_, rfl, buckets, ?_, fun other => ?_, count, factor⟩
      · rw [countFilled_update emptyfn slotInside slotEmpty full, filled, split, if_neg empty]
      · by_cases here : other = slot
        · subst here
          exact .inr ⟨i, Nat.lt_add_one i, full, Function.update_self ..⟩
        · dsimp only
          rw [Function.update_of_ne here]
          rcases elements other with free | ⟨j, old, filledOld, same⟩
          · exact .inl free
          · exact .inr ⟨j, by omega, filledOld, same⟩
  obtain ⟨final, loop, buckets, filled, elements, count, factor⟩ :=
    foldlM_range_invariant (reinsert emptyfn hashfn s.data) invariant s.numBuckets _ start preserve
  refine ⟨{ final with
    elementsUntilExpand := Binary64.toSize (Binary64.mul (Binary64.ofNat final.numBuckets) s.maxLoadFactor) },
    ?_, buckets, filled, elements, count, factor⟩
  simp only [resize, ← sizeDef, if_neg (Nat.not_lt.mpr holds)]
  rw [loop]
  rfl

/-- **A full table after `ShrinkToMaximumLoad`.** When `Size()` divided by the
maximum load factor truncates to `Size()` itself, at least `kMinBuckets`, the table
is resized to `Size()` slots, and each of them holds an element: no slot is empty,
and a lookup of a key that no element matches walks on forever. -/
theorem shrinkToMaximumLoad_fills (s : HashSet T) (counted : countFilled emptyfn s = s.numElements)
    (large : kMinBuckets ≤ s.numElements)
    (truncated : Binary64.toSize (Binary64.div (Binary64.ofNat s.numElements) s.maxLoadFactor) = s.numElements) :
    ∃ shrunk, s.shrinkToMaximumLoad emptyfn hashfn = some shrunk ∧ 0 < shrunk.numBuckets ∧
      (∀ i < shrunk.numBuckets, emptyfn.isEmpty (shrunk.data i) = false) ∧
      ∀ {K : Type} (pred : T → K → Bool) (key : K) (hash : Nat),
        (∀ i < s.numBuckets, emptyfn.isEmpty (s.data i) = false → pred (s.data i) key = false) →
        shrunk.findIndex emptyfn pred key hash = none := by
  have size : (if s.numElements < kMinBuckets then kMinBuckets else s.numElements) = s.numElements :=
    if_neg (by omega)
  obtain ⟨shrunk, resized, buckets, filled, elements, -, -⟩ :=
    s.resize_spec emptyfn hashfn s.numElements (by rw [size]) (by rw [size]; omega)
  rw [size] at buckets
  have positive : 0 < shrunk.numBuckets := by
    unfold kMinBuckets at large
    omega
  have full := full_of_countFilled_eq emptyfn (show countFilled emptyfn shrunk = shrunk.numBuckets by omega)
  refine ⟨shrunk, by rw [shrinkToMaximumLoad, truncated]; exact resized, positive, full, ?_⟩
  intro K pred key hash unmatched
  unfold findIndex
  rw [if_neg (by omega)]
  -- every slot holds one of the elements, none of which matches
  refine probeFind_eq_none_of_full emptyfn shrunk full (fun i inside => ?_) (shrunk.indexForHash_lt positive hash) _
  rcases elements i with empty | ⟨j, old, filledOld, same⟩
  · rw [full i inside] at empty
    cases empty
  · rw [same]
    exact unmatched j old filledOld

end Resize

/-- `DefaultEmptyFn<size_t>`: the value `0` is empty. -/
def sizeEmptyFn : EmptyFn Nat := ⟨fun n => n == 0, 0, rfl⟩

/-- A `HashSet<size_t>` of `HashSet(0.5, 0.9990234375)` with the identity hash of
`std::hash`, with `1` up to `k` in `numBuckets` slots, each `i` in the slot `i`. -/
def filledUpTo (numElements numBuckets elementsUntilExpand k : Nat) : HashSet Nat where
  numElements := numElements
  numBuckets := numBuckets
  elementsUntilExpand := elementsUntilExpand
  data i := if 1 ≤ i ∧ i ≤ k then i else 0
  minLoadFactor := 1 / 2
  maxLoadFactor := 1023 / 1024

/-- The set after `Insert` of 1 up to 1000: 1998 slots. -/
def thousandInserted : HashSet Nat := filledUpTo 1000 1998 1996 1000

section Run

variable {numElements numBuckets elementsUntilExpand k : Nat}

/-- The slot after the last element is free. -/
theorem filledUpTo_free :
    sizeEmptyFn.isEmpty ((filledUpTo numElements numBuckets elementsUntilExpand k).data (k + 1)) = true := by
  simp [filledUpTo, sizeEmptyFn]

/-- Storing `k + 1` in the slot `k + 1`. -/
theorem update_filledUpTo :
    Function.update (filledUpTo numElements numBuckets elementsUntilExpand k).data (k + 1) (k + 1) =
      (filledUpTo numElements numBuckets elementsUntilExpand (k + 1)).data := by
  funext i
  by_cases stored : i = k + 1
  · rw [stored, Function.update_self]
    exact (if_pos ⟨by omega, Nat.le_refl _⟩).symm
  · rw [Function.update_of_ne stored]
    simp only [filledUpTo]
    split_ifs <;> omega

/-- `Insert` of `k + 1`, after the expansion it may make, goes to the slot `k + 1`. -/
theorem insert_filledUpTo {s : HashSet Nat}
    (expanded : s.numElements < s.elementsUntilExpand ∧ filledUpTo k numBuckets elementsUntilExpand k = s ∨
      s.elementsUntilExpand ≤ s.numElements ∧
        s.expand sizeEmptyFn id = some (filledUpTo k numBuckets elementsUntilExpand k) ∧ k < elementsUntilExpand)
    (room : k + 1 < numBuckets) :
    s.insert sizeEmptyFn id (k + 1) = some (filledUpTo (k + 1) numBuckets elementsUntilExpand (k + 1)) := by
  have slot : (filledUpTo k numBuckets elementsUntilExpand k).indexForHash (id (k + 1)) = k + 1 :=
    indexForHash_of_lt _ room
  rw [insert, insertWithHash_of_free sizeEmptyFn id _ _ _ _ expanded (by show 0 < numBuckets; omega)
    (by rw [slot]; exact filledUpTo_free), slot, update_filledUpTo]
  rfl

/-- `Insert` of `k + 1` up to `k + n`, below the expansion point. The induction is on
`n`. -/
theorem insertAll_filledUpTo :
    ∀ n k, k + n ≤ elementsUntilExpand → k + n < numBuckets →
      (List.range' (k + 1) n).foldlM (fun s element => s.insert sizeEmptyFn id element)
        (filledUpTo k numBuckets elementsUntilExpand k) =
          some (filledUpTo (k + n) numBuckets elementsUntilExpand (k + n))
  | 0, k, _, _ => rfl
  | n + 1, k, below, room => by
      rw [List.range'_succ, List.foldlM_cons,
        insert_filledUpTo (s := filledUpTo k numBuckets elementsUntilExpand k)
          (.inl ⟨show k < elementsUntilExpand by omega, rfl⟩) (by omega),
        show k + (n + 1) = k + 1 + n by omega]
      exact insertAll_filledUpTo n (k + 1) (by omega) (by omega)

/-- The loop of the `Resize` of the first 999 elements to 1998 slots: after the old
slots up to `j`, each element of them is in its own slot. -/
theorem reinsert_filledUpTo : ∀ j < 1000,
    (List.range (j + 1)).foldlM (reinsert sizeEmptyFn id (filledUpTo 999 1000 999 999).data)
      ((filledUpTo 999 1000 999 999).allocateStorage sizeEmptyFn 1998) = some (filledUpTo 999 1998 999 j)
  | 0, _ => by
      -- the old slot 0 is empty
      rw [List.range_one, List.foldlM_cons, reinsert, if_pos (by simp [filledUpTo, sizeEmptyFn])]
      simp only [Option.bind_eq_bind, Option.bind_some, List.foldlM_nil, Option.pure_def, allocateStorage,
        filledUpTo, Option.some.injEq, HashSet.mk.injEq, true_and, and_true]
      funext i
      rw [if_neg (by omega)]
      rfl
  | j + 1, inside => by
      have old : (filledUpTo 999 1000 999 999).data (j + 1) = j + 1 := if_pos ⟨by omega, by omega⟩
      have slot : (filledUpTo 999 1998 999 j).indexForHash (id (j + 1)) = j + 1 :=
        indexForHash_of_lt _ (by show j + 1 < 1998; omega)
      rw [List.range_succ, List.foldlM_append, reinsert_filledUpTo j (by omega)]
      simp only [Option.bind_eq_bind, Option.bind_some, List.foldlM_cons, List.foldlM_nil]
      rw [reinsert_of_free sizeEmptyFn id _ _ _ (by rw [old]; simp [sizeEmptyFn]) (by show 0 < 1998; omega)
        (by rw [old, slot]; exact filledUpTo_free), old, slot, update_filledUpTo]
      rfl

/-- `HashSet(0.5, 0.9990234375)` after `Insert` of 1 up to 1000 is `thousandInserted`:
the first `Insert` expands to `kMinBuckets` slots, of which 999 may be full, and the
thousandth expands to 1998. -/
theorem thousandInserted_reached :
    (List.range' 1 1000).foldlM (fun s element => s.insert sizeEmptyFn id element)
      (create sizeEmptyFn (1 / 2) (1023 / 1024)) = some thousandInserted := by
  have firstSize : Binary64.toSize (Binary64.div (Binary64.ofNat 0) (1 / 2)) = 0 := by decide +kernel
  have firstLimit : Binary64.toSize (Binary64.mul (Binary64.ofNat 1000) (1023 / 1024)) = 999 := by decide +kernel
  have secondSize : Binary64.toSize (Binary64.div (Binary64.ofNat 999) (1 / 2)) = 1998 := by decide +kernel
  have secondLimit : Binary64.toSize (Binary64.mul (Binary64.ofNat 1998) (1023 / 1024)) = 1996 := by decide +kernel
  -- the first `Insert` expands the table without buckets to `kMinBuckets` slots
  have firstExpanded : (create sizeEmptyFn (1 / 2) (1023 / 1024)).expand sizeEmptyFn id = some (filledUpTo 0 1000 999 0) := by
    simp only [expand, resize, create, firstSize, Option.bind_eq_bind, List.range_zero, List.foldlM_nil,
      Option.pure_def, Option.bind_some, allocateStorage]
    rw [if_pos (by decide : 0 < kMinBuckets)]
    simp only [kMinBuckets, Nat.not_lt_zero, if_false, firstLimit, filledUpTo, Option.some.injEq, HashSet.mk.injEq,
      true_and, and_true]
    funext i
    rw [if_neg (by omega)]
    rfl
  have first := insert_filledUpTo (s := create sizeEmptyFn (1 / 2) (1023 / 1024)) (k := 0)
    (.inr ⟨Nat.le_refl 0, firstExpanded, by decide⟩) (by omega)
  -- the thousandth expands to 1998 slots, into which the loop of `Resize` moves the others
  have lastExpanded : (filledUpTo 999 1000 999 999).expand sizeEmptyFn id = some (filledUpTo 999 1998 1996 999) := by
    simp only [expand, resize, Option.bind_eq_bind]
    rw [show (filledUpTo 999 1000 999 999).numElements = 999 from rfl,
      show (filledUpTo 999 1000 999 999).minLoadFactor = 1 / 2 from rfl, secondSize, if_neg (by decide),
      if_neg (by decide),
      show (filledUpTo 999 1000 999 999).numBuckets = 999 + 1 from rfl, reinsert_filledUpTo 999 (by omega),
      Option.bind_some]
    simp only [filledUpTo, secondLimit]
  have last := insert_filledUpTo (s := filledUpTo 999 1000 999 999) (k := 999)
    (.inr ⟨Nat.le_refl 999, lastExpanded, by decide⟩) (by omega)
  have split : List.range' 1 1000 = 1 :: (List.range' 2 998 ++ [1000]) := by
    rw [List.range'_succ]
    exact congrArg (List.cons 1) (@List.range'_append 2 998 1 1).symm
  simp only [Nat.reduceAdd] at first last
  rw [split, List.foldlM_cons, first, Option.bind_eq_bind, Option.bind_some, List.foldlM_append,
    insertAll_filledUpTo 998 1 (by omega) (by omega), Option.bind_eq_bind, Option.bind_some, List.foldlM_cons,
    show 1 + 998 = 999 from rfl, last]
  rfl

end Run

/-- `ShrinkToMaximumLoad` resizes it to 1000 slots, all full, in which a lookup of
a key no element matches never returns. -/
theorem thousandInserted_shrinks_full :
    ∃ shrunk, thousandInserted.shrinkToMaximumLoad sizeEmptyFn id = some shrunk ∧ 0 < shrunk.numBuckets ∧
      (∀ i < shrunk.numBuckets, sizeEmptyFn.isEmpty (shrunk.data i) = false) ∧
      ∀ {K : Type} (pred : Nat → K → Bool) (key : K) (hash : Nat),
        (∀ i < thousandInserted.numBuckets, sizeEmptyFn.isEmpty (thousandInserted.data i) = false →
          pred (thousandInserted.data i) key = false) →
        shrunk.findIndex sizeEmptyFn pred key hash = none :=
  shrinkToMaximumLoad_fills sizeEmptyFn id thousandInserted (by decide +kernel) (by decide) (by decide +kernel)

/-! ## Erasing while iterating

`InternTable::Table::SweepWeaks` walks a set with an iterator and erases the
objects the collector did not mark. `Erase` returns the same iterator when an
element moved into the freed slot, so that the loop reads that element next. The
element that moves may come from the front of the table, past the wrap: an
element in slot `0` whose walk started in the last slot. The loop read it first,
at `begin()`, and after `Erase` of the last slot it reads it there a second time
(`erase_wraps`, `sweepWeaks_revisits_wrapped`).
-/

section Sweep

variable (emptyfn : EmptyFn T) (hashfn : T → Nat)

/-- The invariant `Erase` relies on: no empty slot lies on the walk from the slot
an element's hash selects to the slot it is in. -/
def Probing (s : HashSet T) : Prop :=
  ∀ i < s.numBuckets, emptyfn.isEmpty (s.data i) = false →
    ∀ k < (i + s.numBuckets - s.indexForHash (hashfn (s.data i))) % s.numBuckets,
      emptyfn.isEmpty (s.data ((s.indexForHash (hashfn (s.data i)) + k) % s.numBuckets)) = false

/-- The body of the loop of `SweepWeaks` at the iterator `it`: `Erase` of an object
`IsMarked` gives no new address for, and for the others the store of the new
address and `++it`. -/
def sweepStep (isMarked : T → Option T) (s : HashSet T) (it : Nat) : Option (HashSet T × Nat) :=
  match isMarked (s.data it) with
  | none => s.erase emptyfn hashfn it
  | some newObject =>
      let stored := { s with data := Function.update s.data it newObject }
      some (stored, stored.nextNonEmptySlot emptyfn it)

/-- The loop of `SweepWeaks` from the iterator `it` to `end()`, for at most `fuel`
steps: the set at the end and the objects in the order the loop reads them. -/
def sweepLoop (isMarked : T → Option T) : Nat → HashSet T → Nat → Option (HashSet T × List T)
  | 0, _, _ => none
  | fuel + 1, s, it =>
      if it = s.numBuckets then some (s, [])
      else
        (s.sweepStep emptyfn hashfn isMarked it).bind fun (next, it') =>
          (sweepLoop isMarked fuel next it').map fun (final, seen) => (final, s.data it :: seen)

/-- `InternTable::Table::SweepWeaks` of one set. Each step empties a slot or moves
the iterator on, so `2 * NumBuckets() + 1` steps reach `end()`. -/
def sweepWeaks (isMarked : T → Option T) (s : HashSet T) : Option (HashSet T × List T) :=
  sweepLoop emptyfn hashfn isMarked (2 * s.numBuckets + 1) s (s.begin emptyfn)

/-- `NextNonEmptySlot` over a run of empty slots stops at the first slot after it,
full or `NumBuckets()`. The induction is on the length of the run. -/
theorem nextNonEmptySlot_eq {s : HashSet T} {index target : Nat} (before : index < target)
    (inside : target ≤ s.numBuckets) (gap : ∀ j, index < j → j < target → emptyfn.isEmpty (s.data j) = true)
    (stops : target < s.numBuckets → emptyfn.isEmpty (s.data target) = false) :
    s.nextNonEmptySlot emptyfn index = target := by
  rw [nextNonEmptySlot]
  by_cases last : index + 1 = target
  · subst last
    rw [if_neg]
    rintro ⟨inner, empty⟩
    rw [stops inner] at empty
    contradiction
  · rw [if_pos ⟨by omega, gap (index + 1) (by omega) (by omega)⟩]
    exact nextNonEmptySlot_eq (by omega) inside (fun j after below => gap j (by omega) below) stops
termination_by target - index

/-- `begin()` of a set whose slot `0` is full. -/
theorem begin_of_full {s : HashSet T} (full : emptyfn.isEmpty (s.data 0) = false) : s.begin emptyfn = 0 := by
  simp only [begin, full, Bool.false_eq_true, and_false, if_false]

/-- The last step of `Erase`: the walk meets an empty slot and clears the slot that
became empty. -/
theorem eraseLoop_of_empty (s : HashSet T) (fuel : Nat) (data : Nat → T) (emptyIndex next : Nat) (filled : Bool)
    (empty : emptyfn.isEmpty (data (s.nextIndex next)) = true) :
    s.eraseLoop emptyfn hashfn (fuel + 1) data emptyIndex next filled =
      some (Function.update data emptyIndex emptyfn.empty, filled) := by
  simp only [eraseLoop, empty, if_true]

/-- The step of `Erase` from the last slot: the walk wraps to slot `0`, and an element
there whose walk did not start in slot `0` moves back into the last slot. -/
theorem eraseLoop_wraps {s : HashSet T} (two : 1 < s.numBuckets) (fuel : Nat) (data : Nat → T) (filled : Bool)
    (full : emptyfn.isEmpty (data 0) = false) (wrapped : 0 < s.indexForHash (hashfn (data 0))) :
    s.eraseLoop emptyfn hashfn (fuel + 1) data (s.numBuckets - 1) (s.numBuckets - 1) filled =
      s.eraseLoop emptyfn hashfn fuel (Function.update data (s.numBuckets - 1) (data 0)) 0 0 true := by
  have wraps : s.nextIndex (s.numBuckets - 1) = 0 := by
    unfold nextIndex
    rw [if_pos (by omega)]
  have below := indexForHash_lt s (by omega) (hashfn (data 0))
  simp only [eraseLoop, wraps, full, Bool.false_eq_true, if_false]
  -- the ideal slot lies outside the walk from the last slot to slot `0`
  rw [if_pos (by split <;> split <;> omega)]

/-- `Erase` of the last slot, with slot `0` full of an element whose walk wrapped and
slot `1` empty: the element moves into the last slot, and the iterator `Erase`
returns stays at the last slot, so the loop reads the element there next. -/
theorem erase_wraps {s : HashSet T} (three : 2 < s.numBuckets) (full : emptyfn.isEmpty (s.data 0) = false)
    (wrapped : 0 < s.indexForHash (hashfn (s.data 0))) (hole : emptyfn.isEmpty (s.data 1) = true) :
    s.erase emptyfn hashfn (s.numBuckets - 1) =
      some ({ s with
          data := Function.update (Function.update s.data (s.numBuckets - 1) (s.data 0)) 0 emptyfn.empty,
          numElements := s.numElements - 1 }, s.numBuckets - 1) := by
  have second : s.nextIndex 0 = 1 := by
    unfold nextIndex
    rw [if_neg (by omega)]
  have stillEmpty :
      emptyfn.isEmpty (Function.update s.data (s.numBuckets - 1) (s.data 0) (s.nextIndex 0)) = true := by
    rw [second, Function.update_of_ne (by omega)]
    exact hole
  have run : ∀ fuel, 2 ≤ fuel → s.eraseLoop emptyfn hashfn fuel s.data (s.numBuckets - 1) (s.numBuckets - 1) false =
      some (Function.update (Function.update s.data (s.numBuckets - 1) (s.data 0)) 0 emptyfn.empty, true) := by
    intro fuel enough
    obtain ⟨fuel, rfl⟩ : ∃ f, fuel = f + 1 + 1 := ⟨fuel - 2, by omega⟩
    rw [eraseLoop_wraps emptyfn hashfn (by omega) _ _ _ full wrapped,
      eraseLoop_of_empty emptyfn hashfn s _ _ _ _ _ stillEmpty]
  rw [erase, run s.numBuckets (by omega)]
  rfl

/-- The loop at `end()` stops. -/
theorem sweepLoop_end (isMarked : T → Option T) (fuel : Nat) (s : HashSet T) :
    sweepLoop emptyfn hashfn isMarked (fuel + 1) s s.numBuckets = some (s, []) := by
  simp only [sweepLoop, if_true]

/-- One step of the loop: the object at the iterator is read, and the loop goes on
from the set and iterator the body leaves. -/
theorem sweepLoop_step {isMarked : T → Option T} (fuel : Nat) {s next : HashSet T} {it it' : Nat}
    (inner : it ≠ s.numBuckets) (body : s.sweepStep emptyfn hashfn isMarked it = some (next, it')) :
    sweepLoop emptyfn hashfn isMarked (fuel + 1) s it =
      (sweepLoop emptyfn hashfn isMarked fuel next it').map fun (final, seen) => (final, s.data it :: seen) := by
  rw [sweepLoop, if_neg inner, body, Option.bind_some]

/-- The body at an object `isMarked` keeps where it is: `++it`. -/
theorem sweepStep_of_kept {isMarked : T → Option T} {s : HashSet T} {it : Nat}
    (kept : isMarked (s.data it) = some (s.data it)) :
    s.sweepStep emptyfn hashfn isMarked it = some (s, s.nextNonEmptySlot emptyfn it) := by
  simp only [sweepStep, kept, Function.update_eq_self]

/-- The body at an object `isMarked` drops: `Erase`. -/
theorem sweepStep_of_dropped {isMarked : T → Option T} {s : HashSet T} {it : Nat}
    (dropped : isMarked (s.data it) = none) :
    s.sweepStep emptyfn hashfn isMarked it = s.erase emptyfn hashfn it := by
  simp only [sweepStep, dropped]

/-- The sweep of `P` over a set with an element `y` in slot `0`, whose walk started in
the last slot, an element `x` in the last slot, and nothing between: the set keeps
the probing invariant, the loop reads `y` at `begin()`, erases `x`, which moves `y`
into the last slot, and reads `y` again there. It ends with only `y` left. -/
theorem sweepWeaks_revisits_wrapped {s : HashSet T} {erased : T → Bool} {x y : T}
    (three : 2 < s.numBuckets) (front : s.data 0 = y) (back : s.data (s.numBuckets - 1) = x)
    (between : ∀ j < s.numBuckets - 1, 0 < j → emptyfn.isEmpty (s.data j) = true)
    (yFull : emptyfn.isEmpty y = false) (xFull : emptyfn.isEmpty x = false)
    (yHome : s.indexForHash (hashfn y) = s.numBuckets - 1) (xHome : s.indexForHash (hashfn x) = s.numBuckets - 1)
    (erasesX : erased x = true) (keepsY : erased y = false) :
    Probing emptyfn hashfn s ∧
      ∃ final, sweepWeaks emptyfn hashfn (fun object => if erased object then none else some object) s =
          some (final, [y, x, y]) ∧
        final.data (final.numBuckets - 1) = y ∧
        ∀ j < final.numBuckets - 1, emptyfn.isEmpty (final.data j) = true := by
  set isMarked : T → Option T := fun object => if erased object then none else some object
  refine ⟨?probing, ?run⟩
  case probing =>
    intro i inside full k closer
    -- only slot `0` has a walk of one step, through the last slot
    by_cases first : i = 0
    · subst first
      rw [front, yHome, show 0 + s.numBuckets - (s.numBuckets - 1) = 1 by omega, Nat.mod_eq_of_lt (by omega)] at closer
      rw [show k = 0 by omega, Nat.add_zero, front, yHome, Nat.mod_eq_of_lt (by omega), back]
      exact xFull
    · by_cases last : i = s.numBuckets - 1
      · subst last
        rw [back, xHome, show s.numBuckets - 1 + s.numBuckets - (s.numBuckets - 1) = s.numBuckets by omega,
          Nat.mod_self] at closer
        omega
      · rw [between i (by omega) (by omega)] at full
        contradiction
  case run =>
    have middle : s.nextNonEmptySlot emptyfn 0 = s.numBuckets - 1 :=
      nextNonEmptySlot_eq emptyfn (by omega) (by omega) (fun j after below => between j below after)
        (fun _ => back ▸ xFull)
    have erasing := erase_wraps emptyfn hashfn three (front ▸ yFull) (by rw [front, yHome]; omega)
      (between 1 (by omega) (by omega))
    set erasedSet : HashSet T := { s with
      data := Function.update (Function.update s.data (s.numBuckets - 1) (s.data 0)) 0 emptyfn.empty,
      numElements := s.numElements - 1 }
    have moved : erasedSet.data (s.numBuckets - 1) = y := by
      simp only [erasedSet, Function.update_of_ne (show s.numBuckets - 1 ≠ 0 by omega), Function.update_self, front]
    have sameSize : erasedSet.numBuckets = s.numBuckets := rfl
    have toEnd : erasedSet.nextNonEmptySlot emptyfn (s.numBuckets - 1) = erasedSet.numBuckets :=
      nextNonEmptySlot_eq emptyfn (by omega) le_rfl (fun j after below => by omega) (fun beyond => absurd beyond (lt_irrefl _))
    have readY : isMarked (s.data 0) = some (s.data 0) := by simp only [isMarked, front, keepsY, Bool.false_eq_true, if_false]
    have readX : isMarked (s.data (s.numBuckets - 1)) = none := by simp only [isMarked, back, erasesX, if_true]
    have readMoved : isMarked (erasedSet.data (s.numBuckets - 1)) = some (erasedSet.data (s.numBuckets - 1)) := by
      simp only [isMarked, moved, keepsY, Bool.false_eq_true, if_false]
    refine ⟨erasedSet, ?_, moved, ?_⟩
    · obtain ⟨fuel, steps⟩ : ∃ fuel, 2 * s.numBuckets + 1 = fuel + 1 + 1 + 1 + 1 := ⟨2 * s.numBuckets - 3, by omega⟩
      rw [sweepWeaks, steps, begin_of_full emptyfn (front ▸ yFull),
        sweepLoop_step emptyfn hashfn _ (by omega) (sweepStep_of_kept emptyfn hashfn readY), middle,
        sweepLoop_step emptyfn hashfn _ (by omega) ((sweepStep_of_dropped emptyfn hashfn readX).trans erasing),
        sweepLoop_step emptyfn hashfn _ (by omega) (sweepStep_of_kept emptyfn hashfn readMoved),
        toEnd, sweepLoop_end]
      simp only [Option.map_some, front, back, moved]
    · intro j below
      simp only [erasedSet] at below ⊢
      by_cases first : j = 0
      · rw [first, Function.update_self]
        exact emptyfn.isEmpty_empty
      · rw [Function.update_of_ne first, Function.update_of_ne (by omega)]
        exact between j below (by omega)

end Sweep

/-- A `HashSet<size_t>` of three slots with the identity hash: `5` in the last slot,
which its hash selects, and in slot `0` the value `2`, whose hash also selects the
last slot. -/
def wrappedPair : HashSet Nat where
  numElements := 2
  numBuckets := 3
  elementsUntilExpand := 2
  data i := if i = 0 then 2 else if i = 2 then 5 else 0
  minLoadFactor := kDefaultMinLoadFactor
  maxLoadFactor := kDefaultMaxLoadFactor

/-- Sweeping `5` out of it reads `2` twice. -/
theorem wrappedPair_sweepWeaks :
    Probing sizeEmptyFn id wrappedPair ∧
      ∃ final, sweepWeaks sizeEmptyFn id (fun object => if object == 5 then none else some object) wrappedPair =
          some (final, [2, 5, 2]) ∧
        final.data (final.numBuckets - 1) = 2 ∧
        ∀ j < final.numBuckets - 1, sizeEmptyFn.isEmpty (final.data j) = true :=
  sweepWeaks_revisits_wrapped sizeEmptyFn id (by decide) rfl rfl (by decide) rfl rfl rfl rfl rfl rfl

end HashSet

end Art.Runtime
