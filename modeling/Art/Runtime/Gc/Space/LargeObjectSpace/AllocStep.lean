import Art.Runtime.Gc.Space.LargeObjectSpace.Layout

/-!
# `Alloc` on a layout

`Alloc` keeps the layout of a free-list space under `2 ^ 30` bytes, for every request of
`0 < numBytes ≤ 2 ^ 44 - kAlignment` bytes, and answers best fit (`alloc_step`): the front of a
free block with the fewest pages among those that fit, else the front of the end region when it
is large enough, else null (`AllocAnswer`).

A layout says what the entry of each block's first slot holds (`Layout.entry`), and that
`free_blocks_` holds the entries just after the free blocks (`Layout.mem_freeBlocks`). The
search of `lower_bound` with the key of `temp_info` finds the entry after a free block that fits
best, or nothing when no free block fits (`Layout.lowerBound_eq_some`,
`Layout.lowerBound_eq_none`). Taking `k` pages from a free block of `p` pages splits it
(`allocSplit_layout`) or takes it whole (`allocWhole_layout`); the writes of entries that do it
are read back where they are made and nowhere else (`allocFromFreeBlock_split`,
`allocFromFreeBlock_whole`, `finishAlloc_block`).

The bound on the space keeps every block under `2 ^ 30` bytes, as the `DCHECK` of `SetByteSize`
asks; the bound on the request keeps its pages under `2 ^ 32`, which the key of the search
stores in a `uint32_t`.
-/

set_option autoImplicit false

namespace Art.Runtime.Gc.Space

open Art.Machine

namespace FreeListSpace

variable {s s' : FreeListSpace}

/-! ## The entries of a layout -/

@[simp] theorem prevFree_encode (prevFree pages : Nat) (free : Bool) :
    (AllocationInfo.encode prevFree pages free).prevFree = prevFree := rfl

/-- The entry of a block's first slot. -/
theorem Layout.entry {blocks front back : List Block} {b : Block} (layout : s.Layout blocks)
    (split : blocks = front ++ b :: back) :
    0 < b.pages ∧ (s.infoAt (cover front)).prevFree = prevFreeAfter 0 front ∧
      (s.infoAt (cover front)).alignSize = b.pages ∧ (s.infoAt (cover front)).isFree = b.free ∧
      (b.free = true → prevFreeAfter 0 front = 0) := by
  have tiles := layout.tiles
  rw [split, tiles_append, Nat.zero_add] at tiles
  obtain ⟨positive, prevFreeAt, alignSizeAt, isFreeAt, single, -⟩ := tiles.2
  exact ⟨positive, prevFreeAt, alignSizeAt, isFreeAt, single⟩

/-- The entry of the first slot after a run of blocks records the free block that ends the run. -/
theorem Layout.prevFree_cover {front rest : List Block} (layout : s.Layout (front ++ rest)) (nonempty : rest ≠ []) :
    (s.infoAt (cover front)).prevFree = prevFreeAfter 0 front := by
  cases rest with
  | nil => exact absurd rfl nonempty
  | cons b back => exact (layout.entry rfl).2.1

theorem prevFreeAfter_free (prevFree : Nat) (front : List Block) (p : Nat) :
    prevFreeAfter prevFree (front ++ [⟨true, p⟩]) = p := by
  rw [prevFreeAfter_append]
  rfl

/-- A free block is followed by a block that is not free, whose entry records it. -/
theorem Layout.after_free {blocks front back : List Block} {p : Nat} (layout : s.Layout blocks)
    (split : blocks = front ++ ⟨true, p⟩ :: back) :
    ∃ b rest, back = b :: rest ∧ b.free = false := by
  have positive := (layout.entry split).1
  cases back with
  | nil =>
      have ends := layout.endsLive
      rw [split, prevFreeAfter_free] at ends
      simp only at positive
      omega
  | cons b rest =>
      refine ⟨b, rest, rfl, ?_⟩
      have single := (layout.entry (by rw [split]; simp : blocks = (front ++ [⟨true, p⟩]) ++ b :: rest)).2.2.2.2
      rw [prevFreeAfter_free] at single
      cases free : b.free
      · rfl
      · have := single free
        simp only at positive
        omega

/-- **`free_blocks_` holds the entries just after the free blocks.** -/
theorem Layout.mem_freeBlocks {blocks : List Block} (layout : s.Layout blocks) (q : Nat) :
    q ∈ s.freeBlocks ↔ ∃ front p b back, blocks = front ++ ⟨true, p⟩ :: b :: back ∧ q = cover front + p := by
  constructor
  · intro member
    obtain ⟨start, nonzero⟩ := (layout.freeBlocks q).1 member
    obtain ⟨front', b, back, split, rfl⟩ := exists_append_of_mem_starts start
    rw [Nat.zero_add, (layout.entry split).2.1] at nonzero
    rw [Nat.zero_add]
    -- the entry records a free block just before it
    generalize pages : prevFreeAfter 0 front' = p at nonzero
    obtain ⟨front, frontSplit⟩ := eq_append_free_of_prevFreeAfter (pages ▸ nonzero)
    rw [pages] at frontSplit
    subst frontSplit
    exact ⟨front, p, b, back, by rw [split, List.append_assoc, List.singleton_append], by simp⟩
  · rintro ⟨front, p, b, back, split, rfl⟩
    have split' : blocks = (front ++ [⟨true, p⟩]) ++ b :: back := by rw [split, List.append_assoc, List.singleton_append]
    have positive := (layout.entry split).1
    have prevFreeAt := (layout.entry split').2.1
    have entry : cover (front ++ [⟨true, p⟩]) = cover front + p := by simp
    rw [prevFreeAfter_free, entry] at prevFreeAt
    refine (layout.freeBlocks _).2 ⟨?_, ?_⟩
    · rw [split', starts_append, starts, List.mem_append, Nat.zero_add, entry]
      exact .inr List.mem_cons_self
    · rw [prevFreeAt]
      simp only at positive
      omega

/-! ## The writes of `Alloc` -/

/-- An entry of the side table, read from the list. -/
theorem infoAt_mk (b e a : Nat) (infos : List AllocationInfo) (f : List Nat) (fe n nb slot : Nat) :
    (⟨b, e, a, infos, f, fe, n, nb⟩ : FreeListSpace).infoAt slot = infos.getD slot {} := rfl

theorem getD_infos (slot : Nat) : s.infos.getD slot {} = s.infoAt slot := rfl

/-- A write of one entry of the list. -/
theorem getD_set_info {infos : List AllocationInfo} {slot : Nat} (info : AllocationInfo)
    (inside : slot < infos.length) (q : Nat) :
    (infos.set slot info).getD q {} = if q = slot then info else infos.getD q {} := by
  by_cases same : q = slot
  · subst same
    simp [List.getD_eq_getElem?_getD, inside]
  · simp [List.getD_eq_getElem?_getD, same, Ne.symm same]

/-- Two states of one space: the same mapping and the same side table. -/
structure SameSpace (s' s : FreeListSpace) : Prop where
  begin : s'.begin = s.begin
  end_ : s'.end_ = s.end_
  allocationInfo : s'.allocationInfo = s.allocationInfo
  length : s'.infos.length = s.infos.length

theorem SameSpace.trans {s₁ : FreeListSpace} (second : SameSpace s' s₁) (first : SameSpace s₁ s) : SameSpace s' s :=
  ⟨second.begin.trans first.begin, second.end_.trans first.end_, second.allocationInfo.trans first.allocationInfo,
    second.length.trans first.length⟩

/-- Slots whose keys stay keep their order. -/
theorem pairwise_slotLt_congr {l : List Nat} (sorted : l.Pairwise fun a b => s.slotLt a b = true)
    (same : ∀ r ∈ l, s'.sortKey r = s.sortKey r) : l.Pairwise fun a b => s'.slotLt a b = true :=
  sorted.imp_of_mem fun {a b} first second ordered => by
    rw [slotLt, same a first, same b second]
    exact ordered

theorem mem_insertFreeBlock {info r : Nat} (fresh : info ∉ s.freeBlocks) :
    r ∈ (s.insertFreeBlock info).freeBlocks ↔ r = info ∨ r ∈ s.freeBlocks :=
  OrderedSet.mem_insertBy fun c member => s.slotLt_total (by rintro rfl; exact fresh member)

/-- `free_blocks_.insert(info)` keeps the set sorted. -/
theorem sorted_insertFreeBlock {info : Nat} (sorted : s.freeBlocks.Pairwise fun a b => s.slotLt a b = true)
    (fresh : info ∉ s.freeBlocks) :
    (s.insertFreeBlock info).freeBlocks.Pairwise fun a b => (s.insertFreeBlock info).slotLt a b = true :=
  OrderedSet.pairwise_insertBy s.slotLt_trans sorted fun c member => s.slotLt_total (by rintro rfl; exact fresh member)

/-- The first branch of `Alloc` when it takes `k` of the `p` pages of a free block, whose entry
`q + p` is in `free_blocks_`: the rest of the free block is a free block of its own, and the
entry records it and stays in the set. -/
theorem allocFromFreeBlock_split {q p k : Nat} (sorted : s.freeBlocks.Pairwise fun a b => s.slotLt a b = true)
    (listed : q + p ∈ s.freeBlocks) (unlisted : q + k ∉ s.freeBlocks) (recorded : (s.infoAt (q + p)).prevFree = p)
    (inside : q + p < s.infos.length) (positive : 0 < k) (less : k < p) (small : p * kAlignment < 2 ^ 30) :
    ∃ s₁, s.allocFromFreeBlock (k * kAlignment) (q + p) = some (s₁, q) ∧ SameSpace s₁ s ∧
      s₁.freeEnd = s.freeEnd ∧ s₁.numBytesAllocated = s.numBytesAllocated ∧
      (∀ r, s₁.infoAt r = if r = q + k then .encode 0 (p - k) true
        else if r = q + p then { s.infoAt (q + p) with prevFree := p - k } else s.infoAt r) ∧
      (∀ r, r ∈ s₁.freeBlocks ↔ r ∈ s.freeBlocks) ∧ s₁.freeBlocks.Pairwise fun a b => s₁.slotLt a b = true := by
  have remaining : ((p * kAlignment + 2 ^ 64 - k * kAlignment) % 2 ^ 64) = (p - k) * kAlignment := by
    unfold kAlignment at *
    rw [Nat.sub_mul]
    omega
  have within : q + k < s.infos.length := by omega
  have nonzero : p ≠ 0 := by omega
  have leftDiv : (p - k) * kAlignment / kAlignment = p - k := Nat.mul_div_cancel _ (by decide)
  have leftMod : (p - k) % 2 ^ 32 = p - k := by
    unfold kAlignment at small
    exact Nat.mod_eq_of_lt (by omega)
  have leftBytes : 0 < (p - k) * kAlignment := Nat.mul_pos (by omega) (by decide)
  have flags := AllocationInfo.and_flags_of_lt (show (p - k) * kAlignment < 2 ^ 30 by
    unfold kAlignment at *
    rw [Nat.sub_mul]
    omega)
  have front : q + p - (p - k) = q + k := by omega
  have apart : q + k ≠ q + p := by omega
  have apart' : q + p ≠ q + k := Ne.symm apart
  -- the state before `free_blocks_.insert(info)`
  set s₁ : FreeListSpace := { s with
    freeBlocks := s.freeBlocks.erase (q + p)
    infos := (s.infos.set (q + p) { s.infoAt (q + p) with prevFree := p - k }).set (q + k) (.encode 0 (p - k) true) }
    with s₁Def
  have computed : s.allocFromFreeBlock (k * kAlignment) (q + p) = some (s₁.insertFreeBlock (q + p), q) := by
    simp only [s₁Def, allocFromFreeBlock, getPrevFreeInfo, setPrevFreeBytes, setByteSize, AllocationInfo.setPrevFreeBytes,
      AllocationInfo.setByteSize, infoAt_mk, getD_set_info, getD_infos, inside, within, List.length_set,
      AllocationInfo.getPrevFreeBytes, Option.bind_eq_bind, Option.bind_some, Option.map_some, recorded,
      nonzero, remaining, Nat.mul_mod_left, leftDiv, leftMod, leftBytes, flags, front, apart, apart', Nat.add_sub_cancel,
      if_true, if_false, ne_eq, not_true_eq_false, gt_iff_lt, List.set_set, AllocationInfo.encode, Nat.zero_mod,
      Nat.zero_div]
  have infoAt₁ : ∀ r, s₁.infoAt r = if r = q + k then .encode 0 (p - k) true
      else if r = q + p then { s.infoAt (q + p) with prevFree := p - k } else s.infoAt r := by
    intro r
    simp only [s₁Def, infoAt_mk, getD_set_info, getD_infos, inside, within, List.length_set]
  -- the entries that stay in the set keep their keys
  have kept : ∀ r ∈ s₁.freeBlocks, s₁.sortKey r = s.sortKey r := by
    intro r member
    have other : r ≠ q + p := (List.Nodup.mem_erase_iff (nodup_of_sorted s sorted)).1 member |>.1
    have unwritten : r ≠ q + k := by
      rintro rfl
      exact unlisted ((List.Nodup.mem_erase_iff (nodup_of_sorted s sorted)).1 member).2
    exact sortKey_congr rfl (by rw [infoAt₁, if_neg unwritten, if_neg other])
  have fresh : q + p ∉ s₁.freeBlocks := fun member => (List.Nodup.mem_erase_iff (nodup_of_sorted s sorted)).1 member |>.1 rfl
  refine ⟨_, computed, ⟨rfl, rfl, rfl, by simp [s₁Def, insertFreeBlock]⟩, rfl, rfl, infoAt₁, fun r => ?_, ?_⟩
  · rw [mem_insertFreeBlock fresh, List.Nodup.mem_erase_iff (nodup_of_sorted s sorted)]
    constructor
    · rintro (rfl | ⟨-, member⟩)
      · exact listed
      · exact member
    · intro member
      by_cases same : r = q + p
      · exact .inl same
      · exact .inr ⟨same, member⟩
  · exact sorted_insertFreeBlock (pairwise_slotLt_congr (sorted.sublist List.erase_sublist) kept) fresh

/-- The first branch of `Alloc` when it takes the whole free block of `p` pages before the entry
`q + p`: the entry records no free block and leaves `free_blocks_`. -/
theorem allocFromFreeBlock_whole {q p : Nat} (sorted : s.freeBlocks.Pairwise fun a b => s.slotLt a b = true)
    (recorded : (s.infoAt (q + p)).prevFree = p) (inside : q + p < s.infos.length) (positive : 0 < p) :
    ∃ s₁, s.allocFromFreeBlock (p * kAlignment) (q + p) = some (s₁, q) ∧ SameSpace s₁ s ∧
      s₁.freeEnd = s.freeEnd ∧ s₁.numBytesAllocated = s.numBytesAllocated ∧
      (∀ r, s₁.infoAt r = if r = q + p then { s.infoAt (q + p) with prevFree := 0 } else s.infoAt r) ∧
      (∀ r, r ∈ s₁.freeBlocks ↔ r ≠ q + p ∧ r ∈ s.freeBlocks) ∧ s₁.freeBlocks.Pairwise fun a b => s₁.slotLt a b = true := by
  have nothing : ((p * kAlignment + 2 ^ 64 - p * kAlignment) % 2 ^ 64) = 0 := by
    rw [Nat.add_sub_cancel_left, Nat.mod_self]
  have nonzero : p ≠ 0 := by omega
  set s₁ : FreeListSpace := { s with
    freeBlocks := s.freeBlocks.erase (q + p)
    infos := s.infos.set (q + p) { s.infoAt (q + p) with prevFree := 0 } } with s₁Def
  have computed : s.allocFromFreeBlock (p * kAlignment) (q + p) = some (s₁, q) := by
    simp only [s₁Def, allocFromFreeBlock, getPrevFreeInfo, setPrevFreeBytes, AllocationInfo.setPrevFreeBytes,
      infoAt_mk, getD_set_info, getD_infos, inside, AllocationInfo.getPrevFreeBytes, Option.bind_eq_bind,
      Option.bind_some, Option.map_some, recorded, nonzero, nothing, Nat.zero_mod, Nat.zero_div, Nat.zero_mul,
      Nat.add_sub_cancel, if_true, if_false, ne_eq, not_true_eq_false, gt_iff_lt, Nat.lt_irrefl]
  have infoAt₁ : ∀ r, s₁.infoAt r = if r = q + p then { s.infoAt (q + p) with prevFree := 0 } else s.infoAt r := by
    intro r
    simp only [s₁Def, infoAt_mk, getD_set_info, getD_infos, inside]
  have member₁ : ∀ r, r ∈ s₁.freeBlocks ↔ r ≠ q + p ∧ r ∈ s.freeBlocks := fun r =>
    List.Nodup.mem_erase_iff (nodup_of_sorted s sorted)
  refine ⟨s₁, computed, ⟨rfl, rfl, rfl, by simp [s₁Def]⟩, rfl, rfl, infoAt₁, member₁, ?_⟩
  -- the entries that stay in the set keep their keys
  refine pairwise_slotLt_congr (sorted.sublist List.erase_sublist) fun r member => sortKey_congr rfl ?_
  rw [infoAt₁, if_neg ((member₁ r).1 member).1]

/-- The blocks of a layout lie within the side table and the space. -/
theorem Layout.cover_le {blocks : List Block} (layout : s.Layout blocks) :
    cover blocks ≤ s.infos.length ∧ cover blocks * kAlignment ≤ s.end_ - s.begin := by
  have covered := layout.tiles.endSlot_eq
  obtain ⟨⟨aligned, length⟩, ⟨within, -⟩⟩ := And.intro layout.capacity layout.freeEnd
  rw [endSlot, Nat.zero_add] at covered
  rw [length, ← covered]
  unfold kAlignment at *
  omega

/-- The first slots of a layout's blocks lie below the end region. -/
theorem Layout.address_lt {blocks : List Block} (layout : s.Layout blocks) {slot : Nat} (below : slot < cover blocks) :
    s.getAllocationAddressForSlot slot < s.end_ - s.freeEnd := by
  have covered := layout.tiles.endSlot_eq
  obtain ⟨⟨aligned, -⟩, ⟨within, alignedEnd⟩⟩ := And.intro layout.capacity layout.freeEnd
  rw [endSlot, Nat.zero_add] at covered
  rw [getAllocationAddressForSlot]
  unfold kAlignment at *
  omega

/-- The end region starts where a layout's blocks end. -/
theorem Layout.address_cover {blocks : List Block} (layout : s.Layout blocks) :
    s.getAllocationAddressForSlot (cover blocks) = s.end_ - s.freeEnd := by
  have covered := layout.tiles.endSlot_eq
  obtain ⟨⟨aligned, -⟩, ⟨within, alignedEnd⟩⟩ := And.intro layout.capacity layout.freeEnd
  rw [endSlot, Nat.zero_add] at covered
  rw [getAllocationAddressForSlot]
  unfold kAlignment at *
  omega

/-- In the slots of a run of blocks, `free_blocks_` holds the first slots of the run's blocks whose
`prev_free_` is not zero. -/
theorem Layout.mem_freeBlocks_mid {pre mid post : List Block} (layout : s.Layout (pre ++ mid ++ post)) {r : Nat}
    (above : cover pre ≤ r) (below : r < cover pre + cover mid) :
    r ∈ s.freeBlocks ↔ r ∈ starts (cover pre) mid ∧ (s.infoAt r).prevFree ≠ 0 := by
  rw [layout.freeBlocks, layout.tiles.mem_starts_append₃]
  constructor
  · rintro ⟨early | ⟨-, middle⟩ | late, free⟩
    · omega
    · exact ⟨middle, free⟩
    · omega
  · rintro ⟨middle, free⟩
    exact ⟨.inr (.inl ⟨⟨above, below⟩, middle⟩), free⟩

/-- What a layout says of a free block of `p` pages, the block `b` after it and its entry. -/
theorem Layout.freeBlock {pre post : List Block} {p : Nat} {b : Block} (layout : s.Layout (pre ++ ⟨true, p⟩ :: b :: post)) :
    0 < p ∧ 0 < b.pages ∧ b.free = false ∧ prevFreeAfter 0 pre = 0 ∧ (s.infoAt (cover pre)).prevFree = 0 ∧
      (s.infoAt (cover pre + p)).prevFree = p ∧ (s.infoAt (cover pre + p)).alignSize = b.pages ∧
      (s.infoAt (cover pre + p)).isFree = b.free ∧ cover pre + p ∈ s.freeBlocks ∧ cover pre ∉ s.freeBlocks ∧
      cover pre + p + b.pages ≤ s.infos.length ∧ (cover pre + p + b.pages) * kAlignment ≤ s.end_ - s.begin := by
  have split : pre ++ ⟨true, p⟩ :: b :: post = (pre ++ [⟨true, p⟩]) ++ b :: post := by simp
  have entryB : cover (pre ++ [⟨true, p⟩]) = cover pre + p := by simp
  obtain ⟨positive, prevFreeFront, -, -, single⟩ := layout.entry rfl
  obtain ⟨sized, recorded, alignSizeB, isFreeB, -⟩ := layout.entry split
  obtain ⟨c, rest, next, live⟩ := layout.after_free (rfl : pre ++ ⟨true, p⟩ :: b :: post = _)
  cases next
  rw [prevFreeAfter_free, entryB] at recorded
  rw [entryB] at alignSizeB isFreeB
  simp only at recorded single positive
  have frontFree := single trivial
  obtain ⟨bound, bytes⟩ := layout.cover_le
  simp only [cover_append, cover_cons] at bound bytes
  refine ⟨positive, sized, live, frontFree, by rw [prevFreeFront, frontFree], recorded, alignSizeB, isFreeB,
    (layout.mem_freeBlocks _).2 ⟨pre, p, b, post, rfl, rfl⟩,
    fun member => ((layout.freeBlocks _).1 member).2 (by rw [prevFreeFront, frontFree]), by omega, ?_⟩
  exact le_trans (Nat.mul_le_mul_right _ (by omega)) bytes

/-- The end of `Alloc` for a block of `k` pages at slot `q`, after a change of entries: the entry
of the block and the counters. -/
theorem finishAlloc_block {s₁ : FreeListSpace} (same : SameSpace s₁ s) {q k : Nat} (wide : k * kAlignment < 2 ^ 30)
    (inside : q < s.infos.length) :
    ∃ s', s₁.finishAlloc (k * kAlignment) q = some (s', some (s.getAllocationAddressForSlot q, k * kAlignment)) ∧
      SameSpace s' s ∧ s'.freeEnd = s₁.freeEnd ∧ s'.freeBlocks = s₁.freeBlocks ∧
      s'.numBytesAllocated = (s₁.numBytesAllocated + k * kAlignment) % 2 ^ 64 ∧
      ∀ r, s'.infoAt r = if r = q then .encode 0 k false else s₁.infoAt r := by
  have inside₁ : q < s₁.infos.length := by rw [same.length]; exact inside
  have pages : k * kAlignment / kAlignment = k := Nat.mul_div_cancel _ (by decide)
  have address : s₁.getAllocationAddressForSlot q = s.getAllocationAddressForSlot q := by
    rw [getAllocationAddressForSlot, getAllocationAddressForSlot, same.begin]
  refine ⟨{ s₁ with
      numObjectsAllocated := s₁.numObjectsAllocated + 1
      numBytesAllocated := (s₁.numBytesAllocated + k * kAlignment) % 2 ^ 64
      infos := s₁.infos.set q (.encode 0 k false) }, ?_, ⟨same.begin, same.end_, same.allocationInfo, ?_⟩,
    rfl, rfl, rfl, fun r => infoAt_of_set rfl inside₁ r⟩
  · rw [finishAlloc_of_lt wide (Nat.mul_mod_left _ _) inside₁, pages, address]
  · rw [List.length_set, same.length]

/-- `num_bytes_allocated_` after an `Alloc` of `k` pages that turns the run `mid` into `mid'`. -/
theorem Layout.numBytes_alloc {pre mid mid' post : List Block} (layout : s.Layout (pre ++ mid ++ post))
    (small : s.end_ - s.begin < 2 ^ 30) {k : Nat} (wide : k * kAlignment < 2 ^ 30)
    (live : liveBytes mid' = k * kAlignment + liveBytes mid) :
    (s.numBytesAllocated + k * kAlignment) % 2 ^ 64 = liveBytes (pre ++ mid' ++ post) := by
  have counted := liveBytes_le (pre ++ mid ++ post)
  have covered := layout.cover_le.2
  rw [layout.numBytesAllocated, Nat.mod_eq_of_lt (by omega)]
  rw [liveBytes_append, liveBytes_append, liveBytes_append, liveBytes_append, live]
  omega

/-- **`Alloc` from the front of a larger free block keeps the layout**: the block of `k` pages
is not free, the `p - k` pages after it stay a free block, and the entry after them records
them and stays in `free_blocks_`. -/
theorem allocSplit_layout {pre post : List Block} {p k : Nat} {b : Block}
    (layout : s.Layout (pre ++ ⟨true, p⟩ :: b :: post)) (small : s.end_ - s.begin < 2 ^ 30) (positive : 0 < k)
    (less : k < p) :
    ∃ s₁ s', s.allocFromFreeBlock (k * kAlignment) (cover pre + p) = some (s₁, cover pre) ∧
      s₁.finishAlloc (k * kAlignment) (cover pre) = some (s', some (s.getAllocationAddressForSlot (cover pre), k * kAlignment)) ∧
      s'.Layout (pre ++ [⟨false, k⟩, ⟨true, p - k⟩, b] ++ post) ∧
      s'.begin = s.begin ∧ s'.end_ = s.end_ ∧ s'.freeEnd = s.freeEnd := by
  have layout' : s.Layout (pre ++ [⟨true, p⟩, b] ++ post) := by
    rwa [List.append_assoc, List.cons_append, List.cons_append, List.nil_append]
  obtain ⟨-, sized, live, frontFree, prevFreeFront, recorded, alignSizeB, isFreeB, listed, unlistedFront, bound, bytes⟩ :=
    layout.freeBlock
  have fits : p * kAlignment < 2 ^ 30 := lt_of_le_of_lt (le_trans (Nat.mul_le_mul_right _ (by omega)) bytes) small
  have midCover : cover [⟨true, p⟩, b] = p + b.pages := by simp
  have unlisted : cover pre + k ∉ s.freeBlocks := fun member => by
    have start := ((layout'.mem_freeBlocks_mid (by omega) (by rw [midCover]; omega)).1 member).1
    simp [starts] at start
    omega
  obtain ⟨s₁, first, same, freeEnd₁, bytes₁, infoAt₁, member₁, sorted₁⟩ :=
    allocFromFreeBlock_split layout.sorted listed unlisted recorded (by omega) positive less fits
  have wide : k * kAlignment < 2 ^ 30 := lt_of_le_of_lt (Nat.mul_le_mul_right _ less.le) fits
  obtain ⟨s', finished, same', freeEnd', blocks', bytes', infoAt'⟩ := finishAlloc_block same wide (q := cover pre) (by omega)
  refine ⟨s₁, s', first, finished, ?_, same'.begin, same'.end_, freeEnd'.trans freeEnd₁⟩
  have pagesK : k < 2 ^ 30 := by unfold kAlignment at fits; omega
  have pagesLeft : p - k < 2 ^ 30 := by unfold kAlignment at fits; omega
  have middle : cover pre + k + (p - k) = cover pre + p := by omega
  refine Layout.replace layout' ⟨same'.begin, same'.end_, same'.length, freeEnd'.trans freeEnd₁⟩ (fun r away => ?_) ?_ rfl
    (fun r _ => by rw [blocks', member₁]) (fun r above below => ?_) ?_ ?_
  · -- the entries outside the free block and the one after it stay
    rw [midCover] at away
    rw [infoAt', if_neg (by omega), infoAt₁, if_neg (by omega), if_neg (by omega)]
  · -- the block, what is left of the free block, and the block after it
    have atNext : s'.infoAt (cover pre + p) = { s.infoAt (cover pre + p) with prevFree := p - k } := by
      rw [infoAt', if_neg (by omega), infoAt₁, if_neg (by omega), if_pos rfl]
    have atRest : s'.infoAt (cover pre + k) = .encode 0 (p - k) true := by
      rw [infoAt', if_neg (by omega), infoAt₁, if_pos rfl]
    have atFront : s'.infoAt (cover pre) = .encode 0 k false := by rw [infoAt', if_pos rfl]
    have nextAlign : (s'.infoAt (cover pre + p)).alignSize = b.pages := by rw [atNext]; exact alignSizeB
    have nextFree : (s'.infoAt (cover pre + p)).isFree = b.free := by rw [atNext]; exact isFreeB
    have nextPrev : (s'.infoAt (cover pre + p)).prevFree = p - k := by rw [atNext]
    rw [frontFree, midCover]
    simp only [Tiles, Block.prevFreeAfter, middle, atFront, atRest, AllocationInfo.alignSize_of_lt pagesK,
      AllocationInfo.isFree_of_lt pagesK, AllocationInfo.alignSize_of_lt pagesLeft, AllocationInfo.isFree_of_lt pagesLeft,
      nextAlign, nextFree, nextPrev, live, prevFree_encode, Bool.false_eq_true, if_true, if_false, false_implies,
      implies_true, true_and]
    omega
  · -- only the entry after the rest of the free block records free pages
    rw [midCover] at below
    rw [blocks', member₁, layout'.mem_freeBlocks_mid above (by rwa [midCover])]
    simp only [starts, List.mem_cons, List.not_mem_nil, or_false, middle, infoAt', infoAt₁]
    by_cases atFront : r = cover pre
    · simp [atFront, prevFreeFront]
    by_cases atRest : r = cover pre + k
    · have apart : cover pre + k ≠ cover pre := by omega
      simp only [atRest, apart, if_true, if_false, prevFree_encode, false_or, ne_eq, not_true_eq_false, and_false,
        iff_false, not_and]
      omega
    by_cases atNext : r = cover pre + p
    · have apart : cover pre + p ≠ cover pre := by omega
      have apart' : cover pre + p ≠ cover pre + k := by omega
      simp only [atNext, apart, apart', if_true, if_false, recorded, or_true, true_and, ne_eq]
      omega
    · simp [atFront, atRest, atNext]
  · -- the entry of the new block is the one whose key changes, and it is not in the set
    rw [blocks']
    refine pairwise_slotLt_congr sorted₁ fun r member => sortKey_congr (same'.allocationInfo.trans same.allocationInfo.symm) ?_
    rw [infoAt', if_neg]
    rintro rfl
    exact unlistedFront ((member₁ _).1 member)
  · rw [bytes', bytes₁]
    exact layout'.numBytes_alloc small wide (by simp [liveBytes, live, Nat.add_mul])

/-- **`Alloc` of a whole free block keeps the layout**: the block is not free, and the entry
after it records no free block and leaves `free_blocks_`. -/
theorem allocWhole_layout {pre post : List Block} {p : Nat} {b : Block}
    (layout : s.Layout (pre ++ ⟨true, p⟩ :: b :: post)) (small : s.end_ - s.begin < 2 ^ 30) :
    ∃ s₁ s', s.allocFromFreeBlock (p * kAlignment) (cover pre + p) = some (s₁, cover pre) ∧
      s₁.finishAlloc (p * kAlignment) (cover pre) = some (s', some (s.getAllocationAddressForSlot (cover pre), p * kAlignment)) ∧
      s'.Layout (pre ++ [⟨false, p⟩, b] ++ post) ∧ s'.begin = s.begin ∧ s'.end_ = s.end_ ∧ s'.freeEnd = s.freeEnd := by
  have layout' : s.Layout (pre ++ [⟨true, p⟩, b] ++ post) := by
    rwa [List.append_assoc, List.cons_append, List.cons_append, List.nil_append]
  obtain ⟨positive, sized, live, frontFree, prevFreeFront, recorded, alignSizeB, isFreeB, -, unlistedFront, bound,
    bytes⟩ := layout.freeBlock
  have fits : p * kAlignment < 2 ^ 30 := lt_of_le_of_lt (le_trans (Nat.mul_le_mul_right _ (by omega)) bytes) small
  have midCover : cover [⟨true, p⟩, b] = p + b.pages := by simp
  obtain ⟨s₁, first, same, freeEnd₁, bytes₁, infoAt₁, member₁, sorted₁⟩ :=
    allocFromFreeBlock_whole layout.sorted recorded (by omega) positive
  obtain ⟨s', finished, same', freeEnd', blocks', bytes', infoAt'⟩ := finishAlloc_block same fits (q := cover pre) (by omega)
  refine ⟨s₁, s', first, finished, ?_, same'.begin, same'.end_, freeEnd'.trans freeEnd₁⟩
  have pages : p < 2 ^ 30 := by unfold kAlignment at fits; omega
  refine Layout.replace layout' ⟨same'.begin, same'.end_, same'.length, freeEnd'.trans freeEnd₁⟩ (fun r away => ?_) ?_ rfl
    (fun r away => ?_) (fun r above below => ?_) ?_ ?_
  · -- the entries outside the block and the one after it stay
    rw [midCover] at away
    rw [infoAt', if_neg (by omega), infoAt₁, if_neg (by omega)]
  · -- the block and the block after it, which now follows no free block
    have atNext : s'.infoAt (cover pre + p) = { s.infoAt (cover pre + p) with prevFree := 0 } := by
      rw [infoAt', if_neg (by omega), infoAt₁, if_pos rfl]
    have atFront : s'.infoAt (cover pre) = .encode 0 p false := by rw [infoAt', if_pos rfl]
    have nextAlign : (s'.infoAt (cover pre + p)).alignSize = b.pages := by rw [atNext]; exact alignSizeB
    have nextFree : (s'.infoAt (cover pre + p)).isFree = b.free := by rw [atNext]; exact isFreeB
    have nextPrev : (s'.infoAt (cover pre + p)).prevFree = 0 := by rw [atNext]
    rw [frontFree, midCover]
    simp only [Tiles, Block.prevFreeAfter, atFront, AllocationInfo.alignSize_of_lt pages,
      AllocationInfo.isFree_of_lt pages, nextAlign, nextFree, nextPrev, live, prevFree_encode, Bool.false_eq_true,
      if_false, false_implies, true_and]
    omega
  · -- the entry after the block left the set; the others are as they were
    rw [midCover] at away
    rw [blocks', member₁]
    exact and_iff_right (by omega)
  · -- no entry of these slots records free pages any more
    rw [midCover] at below
    rw [blocks', member₁, layout'.mem_freeBlocks_mid above (by rwa [midCover])]
    simp only [starts, List.mem_cons, List.not_mem_nil, or_false, infoAt', infoAt₁]
    by_cases atFront : r = cover pre
    · simp [atFront, prevFreeFront]
    by_cases atNext : r = cover pre + p
    · simp [atNext, Nat.pos_iff_ne_zero.mp positive]
    · simp [atFront, atNext]
  · -- the entry of the new block is the one whose key changes, and it is not in the set
    rw [blocks']
    refine pairwise_slotLt_congr sorted₁ fun r member => sortKey_congr (same'.allocationInfo.trans same.allocationInfo.symm) ?_
    rw [infoAt', if_neg]
    rintro rfl
    exact unlistedFront ((member₁ _).1 member).2
  · rw [bytes', bytes₁]
    exact layout'.numBytes_alloc small fits (by simp [liveBytes, live, Nat.add_mul])

/-! ## What `Alloc` answers -/

/-- A free block of `pages` pages whose first slot is `slot`. -/
def FreeBlockAt (blocks : List Block) (slot pages : Nat) : Prop :=
  ∃ front back, blocks = front ++ ⟨true, pages⟩ :: back ∧ slot = cover front

/-- **What `Alloc` answers** for a request of `size` bytes: the front of a smallest free block
that holds it; with none, the front of the end region if it holds it; and otherwise nothing. -/
def AllocAnswer (s : FreeListSpace) (blocks : List Block) (size : Nat) : Option (Nat × Nat) → Prop
  | some (obj, bytes) => bytes = size ∧
      ((∃ slot pages, FreeBlockAt blocks slot pages ∧ size ≤ pages * kAlignment ∧
          obj = s.getAllocationAddressForSlot slot ∧
          ∀ slot' pages', FreeBlockAt blocks slot' pages' → size ≤ pages' * kAlignment → pages ≤ pages') ∨
        ((∀ slot pages, FreeBlockAt blocks slot pages → pages * kAlignment < size) ∧ size ≤ s.freeEnd ∧
          obj = s.getAllocationAddressForSlot s.endSlot))
  | none => (∀ slot pages, FreeBlockAt blocks slot pages → pages * kAlignment < size) ∧ s.freeEnd < size

/-- The entry after a free block is in `free_blocks_`, records the block and has pages of its own. -/
theorem Layout.entry_of_freeBlockAt {blocks : List Block} (layout : s.Layout blocks) {slot pages : Nat}
    (free : FreeBlockAt blocks slot pages) :
    slot + pages ∈ s.freeBlocks ∧ (s.infoAt (slot + pages)).prevFree = pages ∧ 0 < (s.infoAt (slot + pages)).alignSize := by
  obtain ⟨front, back, split, rfl⟩ := free
  obtain ⟨b, rest, rfl, -⟩ := layout.after_free split
  rw [split] at layout
  obtain ⟨-, sized, -, -, -, recorded, alignSizeB, -, listed, -⟩ := layout.freeBlock
  exact ⟨listed, recorded, alignSizeB ▸ sized⟩

/-- Below `2 ^ 44 - kAlignment` bytes, `RoundUp` to a page neither wraps nor reaches `2 ^ 44`. -/
theorem roundUp_of_le {numBytes : Nat} (positive : 0 < numBytes) (below : numBytes ≤ 2 ^ 44 - kAlignment) :
    0 < roundUp numBytes kAlignment ∧ roundUp numBytes kAlignment % kAlignment = 0 ∧
      roundUp numBytes kAlignment < 2 ^ 44 := by
  rw [roundUp, Nat.mod_eq_of_lt (by unfold kAlignment at *; omega)]
  unfold kAlignment at *
  omega

/-- With no entry at or above the key, every free block is smaller than the request. -/
theorem Layout.lowerBound_eq_none {blocks : List Block} (layout : s.Layout blocks) {k tempInfo : Nat}
    (none : s.lowerBound ⟨k, 0, tempInfo⟩ = none) : ∀ slot pages, FreeBlockAt blocks slot pages → pages < k := by
  intro slot pages free
  obtain ⟨listed, recorded, sized⟩ := layout.entry_of_freeBlockAt free
  have below : sortByPrevFree (s.sortKey (slot + pages)) ⟨k, 0, tempInfo⟩ = true := by
    simpa using List.find?_eq_none.1 none _ listed
  rcases lt_prevFree_of_sortByPrevFree rfl below with fewer | ⟨-, empty⟩
  · simpa [recorded] using fewer
  · simp only [sortKey_alignSize] at empty
    omega

/-- The entry at or above the key that `lower_bound` finds follows a free block with the fewest
pages among those with at least the key's. -/
theorem Layout.lowerBound_eq_some {blocks : List Block} (layout : s.Layout blocks) {k tempInfo info : Nat}
    (found : s.lowerBound ⟨k, 0, tempInfo⟩ = some info) :
    ∃ pre p b post, blocks = pre ++ ⟨true, p⟩ :: b :: post ∧ info = cover pre + p ∧ k ≤ p ∧
      ∀ slot pages, FreeBlockAt blocks slot pages → k ≤ pages → p ≤ pages := by
  obtain ⟨fits, smallest⟩ := lowerBound_smallest layout.sorted rfl found
  obtain ⟨pre, p, b, post, split, rfl⟩ := (layout.mem_freeBlocks info).1 (List.mem_of_find?_eq_some found)
  have recorded := (layout.entry_of_freeBlockAt ⟨pre, b :: post, split, rfl⟩).2.1
  refine ⟨pre, p, b, post, split, rfl, by simpa [recorded] using fits, fun slot pages free enough => ?_⟩
  obtain ⟨listed, recorded', sized⟩ := layout.entry_of_freeBlockAt free
  have := smallest _ listed (by simpa [recorded'] using enough) sized
  rwa [recorded, recorded'] at this

/-- **`Alloc` on a layout** of a space under `2 ^ 30` bytes, for a request below `2 ^ 44` bytes:
it answers as `AllocAnswer` says and keeps a layout, whose blocks that are not free are the old
ones and the new object. -/
theorem alloc_step {blocks : List Block} (layout : s.Layout blocks) (small : s.end_ - s.begin < 2 ^ 30)
    (tempInfo : Nat) {numBytes : Nat} (positive : 0 < numBytes) (below : numBytes ≤ 2 ^ 44 - kAlignment) :
    ∃ s' result, s.alloc tempInfo numBytes = some (s', result) ∧ s.AllocAnswer blocks (roundUp numBytes kAlignment) result ∧
      ∃ blocks', s'.Layout blocks' ∧ (s'.liveBlocks 0 blocks').Perm (s.liveBlocks 0 blocks ++ result.toList) ∧
        s'.begin = s.begin ∧ s'.end_ = s.end_ := by
  obtain ⟨sized, aligned, bounded⟩ := roundUp_of_le positive below
  have bytesK : roundUp numBytes kAlignment / kAlignment * kAlignment = roundUp numBytes kAlignment :=
    Nat.div_mul_cancel (Nat.dvd_of_mod_eq_zero aligned)
  have pagesK : 0 < roundUp numBytes kAlignment / kAlignment := by
    unfold kAlignment at *
    omega
  simp only [alloc, setPrevFreeBytes_temp aligned bounded, setByteSize_temp, AllocationInfo.alignSize, Nat.zero_and,
    Option.bind_eq_bind, Option.bind_some]
  generalize roundUp numBytes kAlignment = size at *
  generalize size / kAlignment = k at *
  subst bytesK
  cases found : s.lowerBound ⟨k, 0, tempInfo⟩ with
  | some info =>
      obtain ⟨pre, p, b, post, rfl, rfl, fits, smallest⟩ := layout.lowerBound_eq_some found
      -- the object is the front of the free block; the blocks before it are as they were
      have before : s.liveBlocks 0 (pre ++ ⟨true, p⟩ :: b :: post) =
          s.liveBlocks 0 pre ++ s.liveBlocks (cover pre + p) (b :: post) := by
        simp [liveBlocks_append, liveBlocks]
      have best : ∀ slot pages, FreeBlockAt (pre ++ ⟨true, p⟩ :: b :: post) slot pages →
          k * kAlignment ≤ pages * kAlignment → p ≤ pages := fun slot pages free enough =>
        smallest slot pages free (Nat.le_of_mul_le_mul_right enough (by decide))
      have answer : FreeBlockAt (pre ++ ⟨true, p⟩ :: b :: post) (cover pre) p := ⟨pre, b :: post, rfl, rfl⟩
      dsimp only
      rcases Nat.lt_or_eq_of_le fits with less | rfl
      · obtain ⟨s₁, s', first, finished, layout', sameBegin, sameEnd, -⟩ := allocSplit_layout layout small pagesK less
        refine ⟨s', some (s.getAllocationAddressForSlot (cover pre), k * kAlignment),
          by rw [first, Option.bind_some, finished], ⟨rfl, .inl ⟨cover pre, p, answer, Nat.mul_le_mul_right _ fits, rfl,
            best⟩⟩, _, layout', ?_, sameBegin, sameEnd⟩
        have middle : cover pre + k + (p - k) = cover pre + p := by omega
        rw [liveBlocks_congr sameBegin, before]
        simp only [List.append_assoc, liveBlocks_append, liveBlocks, if_true, if_false, Bool.false_eq_true,
          Nat.zero_add, middle, Option.toList_some, List.cons_append, List.nil_append]
        rw [← List.append_assoc]
        exact List.perm_middle.trans (List.perm_append_singleton _ _).symm
      · obtain ⟨s₁, s', first, finished, layout', sameBegin, sameEnd, -⟩ := allocWhole_layout layout small
        refine ⟨s', some (s.getAllocationAddressForSlot (cover pre), k * kAlignment),
          by rw [first, Option.bind_some, finished], ⟨rfl, .inl ⟨cover pre, k, answer, Nat.le_refl _, rfl, best⟩⟩, _,
          layout', ?_, sameBegin, sameEnd⟩
        rw [liveBlocks_congr sameBegin, before]
        simp only [List.append_assoc, liveBlocks_append, liveBlocks, if_false, Bool.false_eq_true, Nat.zero_add,
          Option.toList_some, List.cons_append, List.nil_append]
        rw [← List.append_assoc]
        exact List.perm_middle.trans (List.perm_append_singleton _ _).symm
  | none =>
      have smaller := layout.lowerBound_eq_none found
      have noFit : ∀ slot pages, FreeBlockAt blocks slot pages → pages * kAlignment < k * kAlignment :=
        fun slot pages free => Nat.mul_lt_mul_of_pos_right (smaller slot pages free) (by decide)
      simp only
      split
      · -- the front of the end region
        next enough =>
          obtain ⟨s', finished, layout', sameBegin, sameEnd, -⟩ :=
            finishAlloc_end_layout layout small (Nat.mul_pos pagesK (by decide)) (Nat.mul_mod_left _ _) enough
          have within := layout.freeEnd.1
          have slot : s.getSlotIndexForAddress (s.end_ - s.freeEnd) = some s.endSlot := by
            have : 0 < k * kAlignment := Nat.mul_pos pagesK (by decide)
            rw [getSlotIndexForAddress, if_pos (by omega), endSlot]
          refine ⟨s', some (s.getAllocationAddressForSlot s.endSlot, k * kAlignment),
            by rw [slot, Option.bind_some]; exact finished, ⟨rfl, .inr ⟨noFit, enough, rfl⟩⟩, _, layout', ?_,
            sameBegin, sameEnd⟩
          rw [liveBlocks_congr sameBegin, liveBlocks_append, ← layout.tiles.endSlot_eq]
          simp [liveBlocks, Nat.mul_div_cancel _ (by decide : 0 < kAlignment)]
      · -- nothing
        next short => exact ⟨s, none, rfl, ⟨noFit, by omega⟩, blocks, layout, by simp, rfl, rfl⟩

end FreeListSpace

end Art.Runtime.Gc.Space
