import Art.Runtime.Gc.Accounting.SpaceBitmap

/-!
# Sweeping with a live and a mark bitmap

`SweepWalk` (`space_bitmap.cc`) walks the words of a live and a mark bitmap over one heap
and passes the garbage, the addresses set in the live bitmap and clear in the mark one, to a
callback, in batches gathered in a buffer of `sizeof(intptr_t) * kBitsPerIntPtrT` pointers.
The buffer is passed on as soon as it has room for less than a word of one bits.

Over a range from a word of the bitmaps to an end within the heap, every batch holds between
one pointer and the buffer's size, and the batches one after another are the garbage of the
slots from `sweep_begin` to `RoundUp(sweep_end - heap_begin_, kAlignment * kBitsPerIntPtrT)`,
in increasing order (`sweepWalk_spec`): the last word is swept whole. The loop keeps the
invariant `Swept` (`sweepWord_swept`).
-/

set_option autoImplicit false

namespace Art.Runtime.Gc.Accounting

open Art.Machine

namespace SpaceBitmap

variable {kAlignment : Nat}

/-- `buffer_size`: `sizeof(intptr_t) * kBitsPerIntPtrT` pointers. -/
def bufferSize : Nat := 8 * kBitsPerIntPtrT

/-- `live[i] & ~mark[i]`. -/
def garbageWord (live mark : SpaceBitmap kAlignment) (i : Nat) : BitVec 64 :=
  live.bitmap.getD i 0 &&& ~~~(mark.bitmap.getD i 0)

/-- One turn of the loop of `SweepWalk`, over word `i`; the state is the batches passed to
the callback and the pointers in the buffer. -/
def sweepWord (live mark : SpaceBitmap kAlignment) (state : List (List Nat) × List Nat) (i : Nat) :
    List (List Nat) × List Nat :=
  let garbage := garbageWord live mark i
  if garbage ≠ 0 then
    let buffer := state.2 ++ live.visitWord i garbage
    -- always enough slots available for an entire word of one bits
    if bufferSize - kBitsPerIntPtrT ≤ buffer.length then (state.1 ++ [buffer], [])
    else (state.1, buffer)
  else state

/-- `SweepWalk`: the batches passed to the callback, in order. -/
def sweepWalk (live mark : SpaceBitmap kAlignment) (sweepBegin sweepEnd : Nat) : Option (List (List Nat)) :=
  if ¬(live.heapBegin = mark.heapBegin ∧ live.bitmap.length = mark.bitmap.length ∧ sweepBegin ≤ sweepEnd ∧
      live.heapBegin ≤ sweepBegin) then none
  else if sweepEnd ≤ sweepBegin then some []
  else
    let start := offsetToIndex kAlignment (sweepBegin - live.heapBegin)
    let endIndex := offsetToIndex kAlignment (sweepEnd - live.heapBegin - 1)
    if ¬endIndex < live.bitmap.length then none
    else
      let state := (List.range' start (endIndex + 1 - start)).foldl (sweepWord live mark) ([], [])
      some (if 0 < state.2.length then state.1 ++ [state.2] else state.1)

/-- The bitmap of the garbage: set where `live` is set and `mark` is clear. -/
def garbage (live mark : SpaceBitmap kAlignment) : SpaceBitmap kAlignment :=
  ⟨List.zipWith (fun l m => l &&& ~~~m) live.bitmap mark.bitmap, live.heapBegin, live.heapLimit⟩

section SameSize

variable {live mark : SpaceBitmap kAlignment} (sameSize : live.bitmap.length = mark.bitmap.length)
include sameSize

theorem getD_garbage (i : Nat) : (live.garbage mark).bitmap.getD i 0 = garbageWord live mark i := by
  have length : (live.garbage mark).bitmap.length = live.bitmap.length := by
    simp [garbage, sameSize]
  by_cases inside : i < live.bitmap.length
  · rw [List.getD_eq_getElem _ _ (length ▸ inside), garbageWord, List.getD_eq_getElem _ _ inside,
      List.getD_eq_getElem _ _ (sameSize ▸ inside)]
    simp [garbage]
  · rw [List.getD_eq_default _ _ (by omega), garbageWord, List.getD_eq_default _ _ (by omega),
      List.getD_eq_default _ _ (by omega)]
    simp

@[simp] theorem bitAt_garbage (j : Nat) :
    bitAt (live.garbage mark).bitmap j = (bitAt live.bitmap j && !bitAt mark.bitmap j) := by
  rw [bitAt, getD_garbage sameSize, garbageWord, BitVec.getLsbD_and, BitVec.getLsbD_not, bitAt, bitAt]
  simp [Nat.mod_lt j (by decide : 0 < 64)]

end SameSize

/-! ## The loop -/

/-- The invariant of the loop of `SweepWalk` after the words `start` to `i - 1`. -/
structure Swept (live mark : SpaceBitmap kAlignment) (start i : Nat) (state : List (List Nat) × List Nat) :
    Prop where
  /-- The batches passed to the callback, then the buffer, are the garbage of those words. -/
  visited : state.1.flatten ++ state.2 =
    ((List.range' start (i - start)).map fun j => live.visitWord j (garbageWord live mark j)).flatten
  batches : ∀ batch ∈ state.1, 0 < batch.length ∧ batch.length ≤ bufferSize
  /-- The buffer has room for a word of one bits. -/
  room : state.2.length < bufferSize - kBitsPerIntPtrT

theorem swept_start (live mark : SpaceBitmap kAlignment) (start : Nat) : Swept live mark start start ([], []) :=
  ⟨by simp, by simp, by decide⟩

/-- One more word of garbage: with the buffer passed on, or kept, or nothing in the word. -/
theorem sweepWord_swept {live mark : SpaceBitmap kAlignment} {start i : Nat}
    {state : List (List Nat) × List Nat} (started : start ≤ i) (swept : Swept live mark start i state) :
    Swept live mark start (i + 1) (sweepWord live mark state i) := by
  obtain ⟨visited, batches, room⟩ := swept
  have next : List.range' start (i + 1 - start) = List.range' start (i - start) ++ [i] := by
    rw [show i + 1 - start = i - start + 1 by omega, List.range'_concat, Nat.one_mul, Nat.add_sub_cancel' started]
  have fits := length_visitWord_le live i (garbageWord live mark i)
  have bound : bufferSize - kBitsPerIntPtrT + kBitsPerIntPtrT = bufferSize := by decide
  dsimp only [sweepWord]
  split_ifs with nonzero full
  · -- the buffer is passed to the callback
    have filled := List.length_pos_of_ne_nil (visitWord_ne_nil live i nonzero)
    refine ⟨?_, ?_, by simp only [List.length_nil]; omega⟩
    · simp only [next, List.map_append, List.flatten_append, ← visited, List.map_singleton, List.flatten_singleton,
        List.append_nil, List.append_assoc]
    · intro batch mem
      rcases List.mem_append.1 mem with old | new
      · exact batches batch old
      · rw [List.mem_singleton.1 new, List.length_append]
        omega
  · refine ⟨?_, batches, by rw [List.length_append] at full ⊢; omega⟩
    simp only [next, List.map_append, List.flatten_append, ← visited, List.map_singleton, List.flatten_singleton,
      List.append_assoc]
  · -- a word with no garbage
    have zero : garbageWord live mark i = 0 := not_not.1 nonzero
    refine ⟨?_, batches, room⟩
    simp only [next, List.map_append, List.flatten_append, ← visited, List.map_singleton, List.flatten_singleton,
      zero, visitWord_zero, List.append_nil]

theorem foldl_sweepWord_swept (live mark : SpaceBitmap kAlignment) (start n : Nat) :
    Swept live mark start (start + n) ((List.range' start n).foldl (sweepWord live mark) ([], [])) :=
  foldl_range'_invariant (sweepWord live mark) (Swept live mark start) start n ([], []) (swept_start live mark start)
    fun _ _ started _ swept => sweepWord_swept started swept

/-- The batches after the last word, with the buffer passed on when it is not empty. -/
theorem flush_of_swept {live mark : SpaceBitmap kAlignment} {start i : Nat} {state : List (List Nat) × List Nat}
    (swept : Swept live mark start i state) :
    let batches := if 0 < state.2.length then state.1 ++ [state.2] else state.1
    (∀ batch ∈ batches, 0 < batch.length ∧ batch.length ≤ bufferSize) ∧
      batches.flatten = ((List.range' start (i - start)).map fun j => live.visitWord j (garbageWord live mark j)).flatten := by
  obtain ⟨visited, batches, room⟩ := swept
  dsimp only
  split_ifs with pending
  · refine ⟨fun batch mem => ?_, by rw [← visited, List.flatten_append, List.flatten_singleton]⟩
    rcases List.mem_append.1 mem with old | new
    · exact batches batch old
    · have bound : bufferSize - kBitsPerIntPtrT ≤ bufferSize := Nat.sub_le _ _
      rw [List.mem_singleton.1 new]
      omega
  · rw [List.length_eq_zero_iff.1 (Nat.eq_zero_of_not_pos pending), List.append_nil] at visited
    exact ⟨batches, visited⟩

/-! ## `SweepWalk` -/

/-- The words `start` to `start + n - 1` of garbage visited one after another. -/
theorem flatten_map_garbageWord {live mark : SpaceBitmap kAlignment} (sameSize : live.bitmap.length = mark.bitmap.length)
    (start n : Nat) :
    ((List.range' start n).map fun j => live.visitWord j (garbageWord live mark j)).flatten =
      (live.garbage mark).markedSlots (64 * start) (64 * (start + n)) := by
  rw [← flatten_map_visitWord]
  congr 2
  funext j
  rw [getD_garbage sameSize]
  rfl

/-- **`SweepWalk`.** For a live and a mark bitmap over one heap, which the bitmaps cover, and
a range from a word of the bitmaps to an end within the heap, the callback receives batches
of between one pointer and `buffer_size`, and one after another they are the addresses set
in `live` and clear in `mark` of the slots from `sweep_begin` to
`RoundUp(sweep_end - heap_begin_, kAlignment * kBitsPerIntPtrT)`, in increasing order. -/
theorem sweepWalk_spec (live mark : SpaceBitmap kAlignment) {sweepBegin sweepEnd : Nat}
    (sameHeap : live.heapBegin = mark.heapBegin) (sameSize : live.bitmap.length = mark.bitmap.length)
    (positive : 0 < kAlignment) (aligned : (sweepBegin - live.heapBegin) % (kAlignment * kBitsPerIntPtrT) = 0)
    (lower : live.heapBegin ≤ sweepBegin) (nonempty : sweepBegin < sweepEnd) (upper : sweepEnd ≤ live.heapLimit)
    (covers : live.heapLimit - live.heapBegin ≤ live.bitmap.length * kBitsPerIntPtrT * kAlignment) :
    ∃ batches, sweepWalk live mark sweepBegin sweepEnd = some batches ∧
      (∀ batch ∈ batches, 0 < batch.length ∧ batch.length ≤ bufferSize) ∧
      batches.flatten = (live.garbage mark).markedSlots ((sweepBegin - live.heapBegin) / kAlignment)
        ((sweepEnd - live.heapBegin + kAlignment * kBitsPerIntPtrT - 1) / (kAlignment * kBitsPerIntPtrT) *
          (kAlignment * kBitsPerIntPtrT) / kAlignment) := by
  unfold kBitsPerIntPtrT at aligned covers ⊢
  have wordBytes : 0 < kAlignment * 64 := Nat.mul_pos positive (by decide)
  obtain ⟨q, firstWord⟩ := Nat.dvd_of_mod_eq_zero aligned
  -- the slots from `sweep_begin` start word `q`, the last word is that of `sweep_end - 1`
  have start : offsetToIndex kAlignment (sweepBegin - live.heapBegin) = q := by
    rw [offsetToIndex, kBitsPerIntPtrT, Nat.div_div_eq_div_mul, firstWord, Nat.mul_div_cancel_left q wordBytes]
  have startSlot : (sweepBegin - live.heapBegin) / kAlignment = 64 * q := by
    rw [firstWord, Nat.mul_assoc, Nat.mul_div_cancel_left _ positive]
  obtain ⟨last, endIndex⟩ : ∃ last, offsetToIndex kAlignment (sweepEnd - live.heapBegin - 1) = last := ⟨_, rfl⟩
  have lastWord : (sweepEnd - live.heapBegin - 1) / (kAlignment * 64) = last := by
    rw [← endIndex, offsetToIndex, kBitsPerIntPtrT, Nat.div_div_eq_div_mul]
  have endSlot : (sweepEnd - live.heapBegin + kAlignment * 64 - 1) / (kAlignment * 64) * (kAlignment * 64) /
      kAlignment = 64 * (last + 1) := by
    rw [show sweepEnd - live.heapBegin + kAlignment * 64 - 1 = sweepEnd - live.heapBegin - 1 + kAlignment * 64 by omega,
      Nat.add_div_right _ wordBytes, lastWord, ← Nat.mul_assoc, Nat.mul_comm _ kAlignment, Nat.mul_assoc,
      Nat.mul_div_cancel_left _ positive, Nat.mul_comm]
  have inside : last < live.bitmap.length := by
    rw [← lastWord, Nat.div_lt_iff_lt_mul wordBytes]
    have := Nat.mul_assoc live.bitmap.length 64 kAlignment
    rw [Nat.mul_comm 64 kAlignment] at this
    omega
  have ordered : q ≤ last := by
    rw [← lastWord, ← Nat.mul_div_cancel_left q wordBytes, ← firstWord]
    exact Nat.div_le_div_right (by omega)
  have checks : live.heapBegin = mark.heapBegin ∧ live.bitmap.length = mark.bitmap.length ∧ sweepBegin ≤ sweepEnd ∧
      live.heapBegin ≤ sweepBegin := ⟨sameHeap, sameSize, Nat.le_of_lt nonempty, lower⟩
  have run := flush_of_swept (foldl_sweepWord_swept live mark q (last + 1 - q))
  dsimp only at run
  rw [Nat.add_sub_cancel_left, flatten_map_garbageWord sameSize, Nat.add_sub_cancel' (by omega : q ≤ last + 1)] at run
  rw [startSlot, endSlot]
  refine ⟨_, ?_, run⟩
  rw [sweepWalk, if_neg (not_not.2 checks), if_neg (Nat.not_le_of_gt nonempty)]
  simp only [start, endIndex, if_neg (not_not.2 inside)]

/-- A heap of 64 objects of 8 bytes: live at slots 0, 2 and 20, marked at slot 0. -/
def sweptLive : SpaceBitmap 8 := ⟨[0x100005], 0, 512⟩

def sweptMark : SpaceBitmap 8 := ⟨[1], 0, 512⟩

/-- Sweeping the first 100 bytes sweeps the whole word: slot 20 lies past `sweep_end`. -/
theorem sweptLive_sweepWalk :
    ∃ batches, sweepWalk sweptLive sweptMark 0 100 = some batches ∧
      (∀ batch ∈ batches, 0 < batch.length ∧ batch.length ≤ bufferSize) ∧
      batches.flatten = (sweptLive.garbage sweptMark).markedSlots ((0 - sweptLive.heapBegin) / 8)
        ((100 - sweptLive.heapBegin + 8 * kBitsPerIntPtrT - 1) / (8 * kBitsPerIntPtrT) * (8 * kBitsPerIntPtrT) / 8) :=
  sweepWalk_spec sweptLive sweptMark rfl rfl (by decide) (by decide) (by decide) (by decide) (by decide) (by decide)

example : (sweptLive.garbage sweptMark).markedSlots 0 64 = [16, 160] := by decide

end SpaceBitmap

end Art.Runtime.Gc.Accounting
