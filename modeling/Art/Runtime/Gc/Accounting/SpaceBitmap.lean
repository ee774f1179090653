import Art.Machine.Loop
import Art.Machine.WordScan

/-!
# Space bitmaps

A `SpaceBitmap<kAlignment>` (`space_bitmap.h`) keeps one bit for each `kAlignment`-aligned
address of a heap from `heap_begin_`, in words of `kBitsPerIntPtrT` bits: the address
`heap_begin_ + j * kAlignment` is marked when bit `j` is set (`bitAt`).

`VisitMarkedRange` visits the marked addresses of a range one word at a time: the word of
the first address masked below it, the words between, and the word of the end masked
above it. It visits exactly the marked addresses of the range, in increasing order, as the
loop over every address of the range kept under `#if 0` does
(`visitMarkedRange_eq_markedSlots`, `visitMarkedRangeReference_eq_markedSlots`), whenever
the word of `visit_begin` is one of the bitmap's. The first word is read even for an empty
range; an empty range at the end of a heap whose size is a whole number of words reads the
word past the bitmap (`visitMarkedRange_reads_past_bitmap`). `Walk` visits every marked
address (`walk_eq_markedSlots`).

Reading past the bitmap, like a failed `DCHECK`, is `none`.
-/

set_option autoImplicit false

namespace Art.Runtime.Gc.Accounting

open Art.Machine

/-- `kBitsPerIntPtrT` of a 64-bit target. -/
def kBitsPerIntPtrT : Nat := 64

/-- A `SpaceBitmap<kAlignment>`: the words of the bitmap (`bitmap_begin_`, and
`bitmap_size_ / sizeof(intptr_t)` their number), `heap_begin_` and `heap_limit_`. -/
structure SpaceBitmap (kAlignment : Nat) where
  bitmap : List (BitVec 64)
  heapBegin : Nat
  heapLimit : Nat

namespace SpaceBitmap

variable {kAlignment : Nat}

/-- `OffsetToIndex`. -/
def offsetToIndex (kAlignment offset : Nat) : Nat := offset / kAlignment / kBitsPerIntPtrT

/-- `IndexToOffset`. -/
def indexToOffset (kAlignment index : Nat) : Nat := index * kAlignment * kBitsPerIntPtrT

/-- `OffsetBitIndex`. -/
def offsetBitIndex (kAlignment offset : Nat) : Nat := offset / kAlignment % kBitsPerIntPtrT

/-- `OffsetToMask`. -/
def offsetToMask (kAlignment offset : Nat) : BitVec 64 := 1#64 <<< offsetBitIndex kAlignment offset

/-- `Test`: the bit of `addr`. An address below the heap, or past the bitmap, fails a
`DCHECK`. -/
def test (b : SpaceBitmap kAlignment) (addr : Nat) : Option Bool :=
  if addr < b.heapBegin then none
  else
    let offset := addr - b.heapBegin
    (b.bitmap[offsetToIndex kAlignment offset]?).map fun word => (word &&& offsetToMask kAlignment offset) != 0

/-- The loop over the set bits of word `index`: `ptr_base + shift * kAlignment` for each
set bit, lowest first. -/
def visitWord (b : SpaceBitmap kAlignment) (index : Nat) (word : BitVec 64) : List Nat :=
  (scanBits word).map fun shift => indexToOffset kAlignment index + b.heapBegin + shift * kAlignment

/-- `VisitMarkedRange`: the addresses visited, in order. -/
def visitMarkedRange (b : SpaceBitmap kAlignment) (visitBegin visitEnd : Nat) : Option (List Nat) :=
  if ¬(visitBegin ≤ visitEnd ∧ b.heapBegin ≤ visitBegin ∧ visitEnd ≤ b.heapLimit) then none
  else
    let offsetStart := visitBegin - b.heapBegin
    let offsetEnd := visitEnd - b.heapBegin
    let indexStart := offsetToIndex kAlignment offsetStart
    let indexEnd := offsetToIndex kAlignment offsetEnd
    let bitStart := offsetStart / kAlignment % kBitsPerIntPtrT
    let bitEnd := offsetEnd / kAlignment % kBitsPerIntPtrT
    (b.bitmap[indexStart]?).bind fun leftEdge =>
      -- mask off the lower bits that are not in range
      let leftEdge := leftEdge &&& ~~~((1#64 <<< bitStart) - 1)
      if indexStart < indexEnd then
        let middle := (List.range' (indexStart + 1) (indexEnd - indexStart - 1)).mapM fun i =>
          (b.bitmap[i]?).map (visitWord b i)
        -- a `visit_end` that starts a new word reads nothing past it
        let rightEdge := if bitEnd = 0 then some 0 else b.bitmap[indexEnd]?
        middle.bind fun middle => rightEdge.map fun rightEdge =>
          visitWord b indexStart leftEdge ++ middle.flatten ++
            visitWord b indexEnd (rightEdge &&& ((1#64 <<< bitEnd) - 1))
      else some (visitWord b indexEnd (leftEdge &&& ((1#64 <<< bitEnd) - 1)))

/-- The loop that `VisitMarkedRange` keeps under `#if 0`: every `kAlignment`-th address of
the range, visited when its bit is set. -/
def visitMarkedRangeReference (b : SpaceBitmap kAlignment) (visitBegin visitEnd : Nat) : Option (List Nat) :=
  if visitEnd < visitBegin then none
  else
    let addresses := List.range' visitBegin ((visitEnd - visitBegin + kAlignment - 1) / kAlignment) kAlignment
    (addresses.mapM fun addr => (b.test addr).map fun marked => if marked then [addr] else []).map List.flatten

/-- `Walk`: the addresses visited, in order, over the words up to that of
`HeapLimit() - heap_begin_ - 1` (an `uintptr_t`). -/
def walk (b : SpaceBitmap kAlignment) : Option (List Nat) :=
  let endIndex := offsetToIndex kAlignment ((b.heapLimit - b.heapBegin + 2 ^ 64 - 1) % 2 ^ 64)
  ((List.range (endIndex + 1)).mapM fun i => (b.bitmap[i]?).map (visitWord b i)).map List.flatten

/-- The marked addresses of slots `low` to `high - 1`, in increasing order. -/
def markedSlots (b : SpaceBitmap kAlignment) (low high : Nat) : List Nat :=
  ((List.range' low (high - low)).filter (bitAt b.bitmap)).map fun j => b.heapBegin + j * kAlignment

/-! ## Visiting words -/

/-- The visits of word `index` are the marked addresses of its set bits. -/
theorem visitWord_eq (b : SpaceBitmap kAlignment) (index : Nat) (word : BitVec 64) :
    b.visitWord index word =
      (((List.range 64).filter word.getLsbD).map (64 * index + ·)).map fun j => b.heapBegin + j * kAlignment := by
  rw [visitWord, scanBits_eq_filter, List.map_map]
  apply List.map_congr_left
  intro s _
  simp only [Function.comp, indexToOffset, kBitsPerIntPtrT]
  rw [Nat.add_mul, Nat.mul_comm 64 index, Nat.mul_assoc, Nat.mul_comm kAlignment 64, ← Nat.mul_assoc]
  omega

/-- A word of the bitmap masked to its bits from `low` below `high` visits the marked
addresses of those slots. -/
theorem visitWord_of_mask (b : SpaceBitmap kAlignment) (index : Nat) {low high : Nat} (ordered : low ≤ high)
    (fits : high ≤ 64) {masked : BitVec 64}
    (bits : ∀ s, s < 64 → masked.getLsbD s = (decide (low ≤ s) && decide (s < high) && (b.bitmap.getD index 0).getLsbD s)) :
    b.visitWord index masked = b.markedSlots (64 * index + low) (64 * index + high) := by
  rw [visitWord_eq, map_filter_range_word b.bitmap index ordered fits bits, markedSlots]
  congr 3
  omega

theorem markedSlots_append (b : SpaceBitmap kAlignment) {low middle high : Nat} (first : low ≤ middle)
    (second : middle ≤ high) :
    b.markedSlots low middle ++ b.markedSlots middle high = b.markedSlots low high := by
  rw [markedSlots, markedSlots, markedSlots, ← List.map_append, ← List.filter_append, range'_append_of_le first second]

/-- Whole words, visited one after another. -/
theorem flatten_map_visitWord (b : SpaceBitmap kAlignment) (index count : Nat) :
    ((List.range' index count).map fun i => b.visitWord i (b.bitmap.getD i 0)).flatten =
      b.markedSlots (64 * index) (64 * (index + count)) := by
  have words := flatten_map_words b.bitmap count index
  simp only [visitWord_eq]
  rw [markedSlots, show 64 * (index + count) - 64 * index = 64 * count by omega, ← words, List.map_flatten,
    List.map_map]
  rfl

@[simp] theorem visitWord_zero (b : SpaceBitmap kAlignment) (index : Nat) : b.visitWord index 0 = [] := by
  rw [visitWord, scanBits, dif_pos rfl, List.map_nil]

theorem visitWord_ne_nil (b : SpaceBitmap kAlignment) (index : Nat) {word : BitVec 64} (nonzero : word ≠ 0) :
    b.visitWord index word ≠ [] := by
  rw [visitWord, scanBits, dif_neg nonzero, List.map_cons]
  exact List.cons_ne_nil _ _

/-- A word visits at most one address for each of its bits. -/
theorem length_visitWord_le (b : SpaceBitmap kAlignment) (index : Nat) (word : BitVec 64) :
    (b.visitWord index word).length ≤ kBitsPerIntPtrT := by
  rw [visitWord, List.length_map, scanBits_eq_filter]
  exact (List.length_filter_le _ _).trans (List.length_range).le

/-- The word of the first slot with the bits below that slot masked off. -/
theorem getLsbD_and_not_lowBits (word : BitVec 64) {low s : Nat} (small : low < 64) (inside : s < 64) :
    (word &&& ~~~((1#64 <<< low) - 1)).getLsbD s = (decide (low ≤ s) && decide (s < 64) && word.getLsbD s) := by
  rw [BitVec.getLsbD_and, BitVec.getLsbD_not, getLsbD_lowBits s small]
  by_cases below : s < low <;> simp [below, inside, Nat.not_le_of_gt, Nat.le_of_not_gt]

/-- The word of the end with the bits from the end on masked off. -/
theorem getLsbD_and_lowBits (word : BitVec 64) {high s : Nat} (small : high < 64) :
    (word &&& ((1#64 <<< high) - 1)).getLsbD s = (decide (0 ≤ s) && decide (s < high) && word.getLsbD s) := by
  rw [BitVec.getLsbD_and, getLsbD_lowBits s small]
  cases decide (s < high) <;> simp [Bool.and_comm]

/-- Reading words that are all the bitmap's. -/
theorem mapM_read_visitWord (b : SpaceBitmap kAlignment) {first count : Nat}
    (inside : first + count ≤ b.bitmap.length) :
    (List.range' first count).mapM (fun i => (b.bitmap[i]?).map (b.visitWord i)) =
      some ((List.range' first count).map fun i => b.visitWord i (b.bitmap.getD i 0)) :=
  mapM_eq_some_map fun i mem => by
    rw [List.mem_range'_1] at mem
    rw [List.getElem?_eq_getElem (by omega), List.getD_eq_getElem _ _ (by omega)]
    rfl

/-- **`VisitMarkedRange`.** Over a range within the heap whose first word is one of the
bitmap's, it visits the marked addresses of the range, in increasing order. The range is
split as the code splits it: the first word masked below the range, the whole words
between, and the last word masked above it, or one word masked on both sides. -/
theorem visitMarkedRange_eq_markedSlots (b : SpaceBitmap kAlignment) {visitBegin visitEnd : Nat}
    (lower : b.heapBegin ≤ visitBegin) (ordered : visitBegin ≤ visitEnd) (upper : visitEnd ≤ b.heapLimit)
    (covers : b.heapLimit - b.heapBegin ≤ b.bitmap.length * kBitsPerIntPtrT * kAlignment)
    (firstWord : offsetToIndex kAlignment (visitBegin - b.heapBegin) < b.bitmap.length) :
    b.visitMarkedRange visitBegin visitEnd =
      some (b.markedSlots ((visitBegin - b.heapBegin) / kAlignment) ((visitEnd - b.heapBegin) / kAlignment)) := by
  have slotsOrdered : (visitBegin - b.heapBegin) / kAlignment ≤ (visitEnd - b.heapBegin) / kAlignment :=
    Nat.div_le_div_right (by omega)
  have endCovered : (visitEnd - b.heapBegin) / kAlignment ≤ b.bitmap.length * 64 := by
    apply Nat.div_le_of_le_mul
    unfold kBitsPerIntPtrT at covers
    rw [Nat.mul_comm kAlignment]
    omega
  have dchecks : visitBegin ≤ visitEnd ∧ b.heapBegin ≤ visitBegin ∧ visitEnd ≤ b.heapLimit := ⟨ordered, lower, upper⟩
  simp only [visitMarkedRange, dchecks, not_true_eq_false, and_self, if_false, offsetToIndex, kBitsPerIntPtrT] at firstWord ⊢
  obtain ⟨slotStart, startEq⟩ : ∃ s, (visitBegin - b.heapBegin) / kAlignment = s := ⟨_, rfl⟩
  obtain ⟨slotEnd, endEq⟩ : ∃ s, (visitEnd - b.heapBegin) / kAlignment = s := ⟨_, rfl⟩
  simp only [startEq, endEq] at firstWord slotsOrdered endCovered ⊢
  have fitsStart : slotStart % 64 < 64 := Nat.mod_lt _ (by decide)
  have fitsEnd : slotEnd % 64 < 64 := Nat.mod_lt _ (by decide)
  rw [List.getElem?_eq_getElem firstWord, Option.bind_some, ← List.getD_eq_getElem _ 0 firstWord]
  by_cases crosses : slotStart / 64 < slotEnd / 64
  · -- the left edge, the whole words between, and the right edge
    have leftWord := @visitWord_of_mask kAlignment b (slotStart / 64) (slotStart % 64) 64 (Nat.le_of_lt fitsStart)
      (Nat.le_refl 64) (b.bitmap.getD (slotStart / 64) 0 &&& ~~~((1#64 <<< (slotStart % 64)) - 1))
      fun s inside => getLsbD_and_not_lowBits _ fitsStart inside
    rw [Nat.div_add_mod] at leftWord
    have rightSlots : b.markedSlots (64 * (slotStart / 64) + 64) (64 * (slotEnd / 64)) ++
        b.markedSlots (64 * (slotEnd / 64)) slotEnd = b.markedSlots (64 * (slotStart / 64) + 64) slotEnd :=
      markedSlots_append b (by omega) (by omega)
    rw [if_pos crosses, mapM_read_visitWord b (by omega), Option.bind_some, flatten_map_visitWord, leftWord,
      show 64 * (slotStart / 64 + 1 + (slotEnd / 64 - slotStart / 64 - 1)) = 64 * (slotEnd / 64) by omega,
      show 64 * (slotStart / 64 + 1) = 64 * (slotStart / 64) + 64 by omega]
    by_cases wordEnd : slotEnd % 64 = 0
    · -- `visit_end` starts a word: nothing of it is visited
      have emptyRight : b.visitWord (slotEnd / 64) (0 &&& ((1#64 <<< (slotEnd % 64)) - 1)) = [] := by
        have zeroed : ((0 : BitVec 64) &&& ((1#64 <<< (slotEnd % 64)) - 1)) = 0 := by simp
        rw [zeroed, visitWord_zero]
      rw [if_pos wordEnd, Option.map_some, emptyRight, List.append_nil,
        show 64 * (slotEnd / 64) = slotEnd by omega, markedSlots_append b (by omega) (by omega)]
    · have lastWord : slotEnd / 64 < b.bitmap.length := by omega
      have rightWord := @visitWord_of_mask kAlignment b (slotEnd / 64) 0 (slotEnd % 64) (Nat.zero_le _)
        (Nat.le_of_lt fitsEnd) (b.bitmap.getD (slotEnd / 64) 0 &&& ((1#64 <<< (slotEnd % 64)) - 1))
        fun s _ => getLsbD_and_lowBits _ fitsEnd
      rw [Nat.add_zero, Nat.div_add_mod] at rightWord
      rw [if_neg wordEnd, List.getElem?_eq_getElem lastWord, Option.map_some, ← List.getD_eq_getElem _ 0 lastWord,
        rightWord, List.append_assoc, rightSlots, markedSlots_append b (by omega) (by omega)]
  · -- one word holds the whole range: both masks on it
    have sameWord : slotEnd / 64 = slotStart / 64 := by omega
    have onlyWord := @visitWord_of_mask kAlignment b (slotStart / 64) (slotStart % 64) (slotEnd % 64) (by omega)
      (Nat.le_of_lt fitsEnd)
      (b.bitmap.getD (slotStart / 64) 0 &&& ~~~((1#64 <<< (slotStart % 64)) - 1) &&& ((1#64 <<< (slotEnd % 64)) - 1))
      fun s inside => by
        rw [getLsbD_and_lowBits _ fitsEnd, getLsbD_and_not_lowBits _ fitsStart inside]
        simp only [Nat.zero_le, decide_true, Bool.true_and, inside, Bool.and_true]
        cases decide (slotStart % 64 ≤ s) <;> cases decide (s < slotEnd % 64) <;> simp
    rw [Nat.div_add_mod, ← sameWord, Nat.div_add_mod] at onlyWord
    rw [if_neg crosses, ← sameWord, onlyWord]

/-! ## The reference loop -/

/-- `Test` of a slot whose word is the bitmap's reads its bit. -/
theorem test_slot (b : SpaceBitmap kAlignment) {j : Nat} (positive : 0 < kAlignment)
    (inside : j / 64 < b.bitmap.length) :
    b.test (b.heapBegin + j * kAlignment) = some (bitAt b.bitmap j) := by
  have offset : b.heapBegin + j * kAlignment - b.heapBegin = j * kAlignment := by omega
  have slot : j * kAlignment / kAlignment = j := Nat.mul_div_cancel j positive
  rw [test, if_neg (by omega)]
  simp only [offset, offsetToIndex, offsetToMask, offsetBitIndex, kBitsPerIntPtrT, slot]
  rw [List.getElem?_eq_getElem inside, Option.map_some, and_one_shiftLeft_ne_zero _ (Nat.mod_lt _ (by decide)),
    bitAt, List.getD_eq_getElem _ _ inside]

/-- **The loop kept under `#if 0`.** Over a range of aligned addresses within the bitmap,
it visits the marked addresses of the range in increasing order. -/
theorem visitMarkedRangeReference_eq_markedSlots (b : SpaceBitmap kAlignment) {visitBegin visitEnd : Nat}
    (positive : 0 < kAlignment) (beginAligned : (visitBegin - b.heapBegin) % kAlignment = 0)
    (endAligned : (visitEnd - b.heapBegin) % kAlignment = 0) (lower : b.heapBegin ≤ visitBegin)
    (ordered : visitBegin ≤ visitEnd)
    (covered : (visitEnd - b.heapBegin) / kAlignment ≤ b.bitmap.length * 64) :
    b.visitMarkedRangeReference visitBegin visitEnd =
      some (b.markedSlots ((visitBegin - b.heapBegin) / kAlignment) ((visitEnd - b.heapBegin) / kAlignment)) := by
  obtain ⟨slotStart, startEq⟩ : ∃ s, (visitBegin - b.heapBegin) / kAlignment = s := ⟨_, rfl⟩
  obtain ⟨slotEnd, endEq⟩ : ∃ s, (visitEnd - b.heapBegin) / kAlignment = s := ⟨_, rfl⟩
  have beginAt : visitBegin = b.heapBegin + slotStart * kAlignment := by
    rw [← startEq, Nat.div_mul_cancel (Nat.dvd_of_mod_eq_zero beginAligned)]
    omega
  have endAt : visitEnd = b.heapBegin + slotEnd * kAlignment := by
    rw [← endEq, Nat.div_mul_cancel (Nat.dvd_of_mod_eq_zero endAligned)]
    omega
  have slotsOrdered : slotStart ≤ slotEnd := by
    rw [← startEq, ← endEq]
    exact Nat.div_le_div_right (by omega)
  -- the loop runs once for each slot of the range
  have count : (visitEnd - visitBegin + kAlignment - 1) / kAlignment = slotEnd - slotStart := by
    rw [endAt, beginAt, Nat.add_sub_add_left, ← Nat.sub_mul, Nat.add_sub_assoc positive, Nat.mul_comm,
      Nat.mul_add_div positive, Nat.div_eq_of_lt (by omega), Nat.add_zero]
  rw [endEq] at covered
  rw [startEq, endEq, visitMarkedRangeReference, if_neg (by omega), count, beginAt, range'_step_eq_map]
  dsimp only
  rw [List.mapM_map, mapM_eq_some_map fun j mem => by
      rw [List.mem_range'_1] at mem
      rw [Function.comp, test_slot b positive (by omega)]
      rfl,
    Option.map_some]
  exact congrArg some (flatten_map_if_singleton (bitAt b.bitmap) (fun j => b.heapBegin + j * kAlignment) _)

/-- **`VisitMarkedRange` is the loop kept under `#if 0`.** Over a range of addresses aligned
with the heap, within it, and whose first word is one of the bitmap's, both visit the same
addresses in the same order. -/
theorem visitMarkedRange_eq_reference (b : SpaceBitmap kAlignment) {visitBegin visitEnd : Nat}
    (positive : 0 < kAlignment) (beginAligned : (visitBegin - b.heapBegin) % kAlignment = 0)
    (endAligned : (visitEnd - b.heapBegin) % kAlignment = 0) (lower : b.heapBegin ≤ visitBegin)
    (ordered : visitBegin ≤ visitEnd) (upper : visitEnd ≤ b.heapLimit)
    (covers : b.heapLimit - b.heapBegin ≤ b.bitmap.length * kBitsPerIntPtrT * kAlignment)
    (firstWord : offsetToIndex kAlignment (visitBegin - b.heapBegin) < b.bitmap.length) :
    b.visitMarkedRange visitBegin visitEnd = b.visitMarkedRangeReference visitBegin visitEnd := by
  have covered : (visitEnd - b.heapBegin) / kAlignment ≤ b.bitmap.length * 64 := by
    apply Nat.div_le_of_le_mul
    unfold kBitsPerIntPtrT at covers
    rw [Nat.mul_comm kAlignment]
    omega
  rw [visitMarkedRange_eq_markedSlots b lower ordered upper covers firstWord,
    visitMarkedRangeReference_eq_markedSlots b positive beginAligned endAligned lower ordered covered]

/-- An empty range at the limit of a heap that the bitmap covers word for word: the left
edge is read from the word past the bitmap, while the loop kept under `#if 0` reads
nothing and visits nothing. -/
theorem visitMarkedRange_reads_past_bitmap (b : SpaceBitmap kAlignment) (positive : 0 < kAlignment)
    (lower : b.heapBegin ≤ b.heapLimit)
    (wordForWord : b.heapLimit - b.heapBegin = b.bitmap.length * kBitsPerIntPtrT * kAlignment) :
    b.visitMarkedRange b.heapLimit b.heapLimit = none ∧
      b.visitMarkedRangeReference b.heapLimit b.heapLimit = some [] := by
  have pastEnd : offsetToIndex kAlignment (b.heapLimit - b.heapBegin) = b.bitmap.length := by
    rw [offsetToIndex, wordForWord, Nat.mul_div_cancel _ positive, Nat.mul_div_cancel _ (by decide)]
  have noWord : b.bitmap[offsetToIndex kAlignment (b.heapLimit - b.heapBegin)]? = none := by
    rw [pastEnd, List.getElem?_eq_none (Nat.le_refl _)]
  have noSteps : (b.heapLimit - b.heapLimit + kAlignment - 1) / kAlignment = 0 :=
    Nat.div_eq_of_lt (by omega)
  constructor
  · unfold visitMarkedRange
    rw [if_neg (not_not.2 ⟨Nat.le_refl _, lower, Nat.le_refl _⟩)]
    exact congrArg (fun read => Option.bind read _) noWord
  · rw [visitMarkedRangeReference, if_neg (Nat.lt_irrefl _)]
    simp only [noSteps, List.range'_zero, List.mapM_nil]
    rfl

/-- A bitmap of one word over a heap of 64 objects of 8 bytes. -/
def oneWordBitmap : SpaceBitmap 8 := ⟨[0], 0, 512⟩

theorem oneWordBitmap_reads_past_bitmap :
    oneWordBitmap.visitMarkedRange 512 512 = none ∧ oneWordBitmap.visitMarkedRangeReference 512 512 = some [] :=
  visitMarkedRange_reads_past_bitmap oneWordBitmap (by decide) (by decide) (by decide)

theorem oneWordBitmap_visitMarkedRange_eq_reference :
    oneWordBitmap.visitMarkedRange 8 256 = oneWordBitmap.visitMarkedRangeReference 8 256 :=
  visitMarkedRange_eq_reference oneWordBitmap (by decide) (by decide) (by decide) (by decide) (by decide)
    (by decide) (by decide) (by decide)

/-- **`Walk`.** Over a heap of addresses below 2^64 that is not empty, it visits the
marked addresses of every slot of the words up to that of the heap's last address, in
increasing order. -/
theorem walk_eq_markedSlots (b : SpaceBitmap kAlignment) (nonempty : b.heapBegin < b.heapLimit)
    (addressable : b.heapLimit ≤ 2 ^ 64)
    (inside : offsetToIndex kAlignment (b.heapLimit - b.heapBegin - 1) < b.bitmap.length) :
    b.walk = some (b.markedSlots 0 (64 * (offsetToIndex kAlignment (b.heapLimit - b.heapBegin - 1) + 1))) := by
  have lastOffset : (b.heapLimit - b.heapBegin + 2 ^ 64 - 1) % 2 ^ 64 = b.heapLimit - b.heapBegin - 1 := by
    rw [show b.heapLimit - b.heapBegin + 2 ^ 64 - 1 = b.heapLimit - b.heapBegin - 1 + 2 ^ 64 by omega,
      Nat.add_mod_right, Nat.mod_eq_of_lt (by omega)]
  rw [walk, lastOffset, List.range_eq_range', mapM_read_visitWord b (by omega), Option.map_some,
    flatten_map_visitWord, Nat.mul_zero, Nat.zero_add]

end SpaceBitmap

end Art.Runtime.Gc.Accounting
