import Art.Runtime.Gc.Space.LargeObjectSpace.AllocStep

/-!
# `Free` on a layout

`Free` of a block that `Walk` reports keeps the layout of a free-list space under `2 ^ 30` bytes
that starts on a page, and answers the block's bytes (`free_step`). The block is marked free and
merged with the free block before it, if there is one, whose entry leaves `free_blocks_`
(`free_eq_mergeNext`). The last block then joins the end region (`free_end_layout`, through
`Layout.truncate`). Any other merges with the free block after it, if there is one, and the
entry of the next block that is not free records the merged block and enters `free_blocks_`
(`mergeNext_block`, `free_block_layout`).

As no free block follows a free block, the blocks on either side of the freed one up to a block
that is not free are nothing or one free block, and the proofs split on these two shapes.
-/

set_option autoImplicit false

namespace Art.Runtime.Gc.Space

open Art.Machine

namespace FreeListSpace

variable {s s' : FreeListSpace}

/-! ## The first merge -/

/-- The blocks before a block that is not free: a run ending after no free block, and then the
free block just before it, if there is one. -/
theorem Layout.split_before {pre post : List Block} {m : Nat} (layout : s.Layout (pre ++ ⟨false, m⟩ :: post)) :
    ∃ front before, pre = front ++ before ∧ prevFreeAfter 0 front = 0 ∧
      (before = [] ∨ ∃ p, 0 < p ∧ before = [⟨true, p⟩]) := by
  by_cases none : prevFreeAfter 0 pre = 0
  · exact ⟨pre, [], by simp, none, .inl rfl⟩
  · obtain ⟨front, split⟩ := eq_append_free_of_prevFreeAfter none
    rw [split, List.append_assoc, List.singleton_append] at layout
    obtain ⟨positive, -, -, -, single⟩ := layout.entry rfl
    exact ⟨front, _, split, single rfl, .inr ⟨_, positive, rfl⟩⟩

/-- The entry after a run that ends after no free block records no free pages. -/
theorem Layout.prevFree_front {front before rest : List Block} (layout : s.Layout (front ++ before ++ rest))
    (nonempty : before ++ rest ≠ []) (frontEnds : prevFreeAfter 0 front = 0) : (s.infoAt (cover front)).prevFree = 0 := by
  rw [List.append_assoc] at layout
  rw [layout.prevFree_cover nonempty, frontEnds]

theorem prevFreeAfter_before {front before : List Block} (frontEnds : prevFreeAfter 0 front = 0)
    (shape : before = [] ∨ ∃ p, 0 < p ∧ before = [⟨true, p⟩]) : prevFreeAfter 0 (front ++ before) = cover before := by
  rcases shape with rfl | ⟨p, -, rfl⟩
  · simpa using frontEnds
  · rw [prevFreeAfter_free]
    simp

/-- `RemoveFreePrev` of an entry of a sorted `free_blocks_` erases it. -/
theorem removeFreePrev_of_mem {slot : Nat} (sorted : s.freeBlocks.Pairwise fun a b => s.slotLt a b = true)
    (member : slot ∈ s.freeBlocks) (nonzero : (s.infoAt slot).prevFree ≠ 0) :
    s.removeFreePrev slot = some { s with freeBlocks := s.freeBlocks.erase slot } := by
  rw [removeFreePrev, if_neg nonzero, OrderedSet.lowerBound_self (slotLt_irrefl s slot) sorted member]
  simp

/-- **`Free` up to its second merge**, for the block of `m` pages after the blocks `front` and
`before`, the free block before it if there is one: the block is marked free and merged with
`before`, whose entry leaves `free_blocks_`. -/
theorem free_eq_mergeNext {front before post : List Block} {m : Nat}
    (layout : s.Layout (front ++ before ++ ⟨false, m⟩ :: post)) (frontEnds : prevFreeAfter 0 front = 0)
    (shape : before = [] ∨ ∃ p, 0 < p ∧ before = [⟨true, p⟩]) (small : s.end_ - s.begin < 2 ^ 30)
    (pageAligned : s.begin % kAlignment = 0) :
    ∃ s₂, s.free (s.getAllocationAddressForSlot (cover front + cover before)) =
        (s₂.mergeNext (cover front) (cover front + cover before + m) (s.end_ - s.freeEnd)
          ((cover before + m) * kAlignment)).bind (fun s₃ =>
            if m * kAlignment > s₃.numBytesAllocated then none
            else some ({ s₃ with
              numObjectsAllocated := s₃.numObjectsAllocated - 1
              numBytesAllocated := s₃.numBytesAllocated - m * kAlignment }, m * kAlignment)) ∧
      SameSpace s₂ s ∧ s₂.freeEnd = s.freeEnd ∧ s₂.numBytesAllocated = s.numBytesAllocated ∧
      (∀ r, s₂.infoAt r = if r = cover front + cover before then .encode (cover before) m true else s.infoAt r) ∧
      (∀ r, r ∈ s₂.freeBlocks ↔ r ≠ cover front + cover before ∧ r ∈ s.freeBlocks) ∧
      s₂.freeBlocks.Pairwise fun a b => s₂.slotLt a b = true := by
  obtain ⟨positive, recorded, alignSizeAt, isFreeAt, -⟩ := layout.entry rfl
  rw [cover_append, prevFreeAfter_before frontEnds shape] at recorded
  rw [cover_append] at alignSizeAt isFreeAt
  simp only at positive isFreeAt alignSizeAt
  obtain ⟨bound, bytes⟩ := layout.cover_le
  simp only [cover_append, cover_cons] at bound bytes
  have wide : m * kAlignment < 2 ^ 30 := lt_of_le_of_lt (le_trans (Nat.mul_le_mul_right _ (by omega)) bytes) small
  have pages : m < 2 ^ 30 := by unfold kAlignment at wide; omega
  have inside : cover front + cover before < s.infos.length := by omega
  have slotOf : s.getSlotIndexForAddress (s.getAllocationAddressForSlot (cover front + cover before)) =
      some (cover front + cover before) := by
    have : (cover front + cover before + 1) * kAlignment ≤ s.end_ - s.begin :=
      le_trans (Nat.mul_le_mul_right _ (by omega)) bytes
    rw [getSlotIndexForAddress, getAllocationAddressForSlot, if_pos (by constructor <;> unfold kAlignment at * <;> omega),
      Nat.add_sub_cancel_left, Nat.mul_div_cancel _ (by decide)]
  have alignedAddr : s.getAllocationAddressForSlot (cover front + cover before) % kAlignment = 0 := by
    rw [getAllocationAddressForSlot, Nat.add_mul_mod_self_right, pageAligned]
  have byteSize : (s.infoAt (cover front + cover before)).byteSize = m * kAlignment := by
    rw [AllocationInfo.byteSize, alignSizeAt]
  have marked : s.setByteSize (cover front + cover before) (m * kAlignment) true = some _ :=
    setByteSize_of_lt wide (Nat.mul_mod_left _ _)
  rw [recorded, Nat.mul_div_cancel _ (by decide : 0 < kAlignment)] at marked
  have nonzero : ¬(m = 0 ∨ kAlignment = 0) := by unfold kAlignment; omega
  simp only [free, slotOf, alignedAddr, isFreeAt, byteSize, marked, Option.bind_eq_bind, Option.bind_some, ne_eq,
    not_true_eq_false, if_false, Bool.false_eq_true, Nat.mul_eq_zero, nonzero, infoAt_mk, getD_set_info, inside,
    if_true, AllocationInfo.alignSize_of_lt pages, Option.bind_none]
  set s₁ : FreeListSpace := { s with infos := s.infos.set (cover front + cover before) (.encode (cover before) m true) }
    with s₁Def
  have infoAt₁ : ∀ r, s₁.infoAt r = if r = cover front + cover before then .encode (cover before) m true
      else s.infoAt r := infoAt_of_set rfl inside
  -- marking the block free changes no key
  have keys : ∀ r, s₁.sortKey r = s.sortKey r := by
    intro r
    by_cases here : r = cover front + cover before
    · subst here
      simp only [sortKey, infoAt₁, if_true, prevFree_encode, AllocationInfo.alignSize_of_lt pages, recorded, alignSizeAt]
      rfl
    · exact sortKey_congr rfl (by rw [infoAt₁, if_neg here])
  have sorted₁ : s₁.freeBlocks.Pairwise fun a b => s₁.slotLt a b = true :=
    pairwise_slotLt_congr layout.sorted fun r _ => keys r
  have frontPrev := layout.prevFree_front (by simp) frontEnds
  rcases shape with rfl | ⟨p, pPos, rfl⟩
  · -- no free block before: the block alone
    have unlisted : cover front ∉ s.freeBlocks := fun member =>
      ((layout.freeBlocks _).1 member).2 frontPrev
    refine ⟨s₁, ?_, ⟨rfl, rfl, rfl, by simp [s₁Def]⟩, rfl, rfl, by simpa using infoAt₁, fun r => ?_, sorted₁⟩
    · simp [mergePrevious, AllocationInfo.getPrevFreeBytes, infoAt₁]
    · simp only [cover_nil, Nat.add_zero]
      constructor
      · intro member
        exact ⟨by rintro rfl; exact unlisted member, member⟩
      · exact And.right
  · -- the free block before: its entry leaves the set, and the merge starts at its front
    simp only [cover_cons, cover_nil, Nat.add_zero] at *
    have listed : cover front + p ∈ s₁.freeBlocks :=
      (layout.mem_freeBlocks _).2 ⟨front, p, ⟨false, m⟩, post, by simp, rfl⟩
    have nonzero₁ : (s₁.infoAt (cover front + p)).prevFree ≠ 0 := by
      rw [infoAt₁, if_pos rfl, prevFree_encode]
      omega
    refine ⟨{ s₁ with freeBlocks := s₁.freeBlocks.erase (cover front + p) }, ?_, ⟨rfl, rfl, rfl, by simp [s₁Def]⟩, rfl,
      rfl, infoAt₁, fun r => List.Nodup.mem_erase_iff (nodup_of_sorted s₁ sorted₁), sorted₁.sublist List.erase_sublist⟩
    have apart : cover front ≠ cover front + p := by omega
    have pNonzero : p ≠ 0 := by omega
    have kNonzero : kAlignment ≠ 0 := by decide
    have sizes : m * kAlignment + p * kAlignment = (p + m) * kAlignment := by rw [Nat.add_mul, Nat.add_comm]
    simp only [mergePrevious, AllocationInfo.getPrevFreeBytes, removeFreePrev_of_mem sorted₁ listed nonzero₁,
      getPrevFreeInfo, infoAt_mk, getD_infos, infoAt₁, if_true, prevFree_encode, Nat.add_sub_cancel, apart, if_false,
      frontPrev, ne_eq, not_true_eq_false, Option.bind_eq_bind, Option.bind_some, Nat.mul_eq_zero, pNonzero, kNonzero,
      or_self, not_false_eq_true, true_or, not_true_eq_false, sizes]

/-! ## The second merge -/

/-- The end of `MergeNext` before a block: the free block of `total` pages from `info` is
recorded in the entry `newInfo` after it, which enters `free_blocks_`, and `info` gets its size. -/
theorem mergeNext_tail {s₃ : FreeListSpace} {info newInfo total : Nat}
    (sorted : s₃.freeBlocks.Pairwise fun a b => s₃.slotLt a b = true) (freshNew : newInfo ∉ s₃.freeBlocks)
    (freshInfo : info ∉ s₃.freeBlocks) (ends : info + total = newInfo) (infoPrev : (s₃.infoAt info).prevFree = 0)
    (inside : newInfo < s₃.infos.length) (positive : 0 < total) (wide : total * kAlignment < 2 ^ 30) :
    ∃ s₆, ((s₃.setPrevFreeBytes newInfo (total * kAlignment)).bind fun s =>
        ((s.insertFreeBlock newInfo).setByteSize info (total * kAlignment) true).bind fun s =>
          if info + (s.infoAt info).alignSize ≠ newInfo then none else some s) = some s₆ ∧
      SameSpace s₆ s₃ ∧ s₆.freeEnd = s₃.freeEnd ∧ s₆.numBytesAllocated = s₃.numBytesAllocated ∧
      s₆.numObjectsAllocated = s₃.numObjectsAllocated ∧
      (∀ r, s₆.infoAt r = if r = info then .encode 0 total true
        else if r = newInfo then { s₃.infoAt newInfo with prevFree := total } else s₃.infoAt r) ∧
      (∀ r, r ∈ s₆.freeBlocks ↔ r = newInfo ∨ r ∈ s₃.freeBlocks) ∧
      s₆.freeBlocks.Pairwise fun a b => s₆.slotLt a b = true := by
  have pages : total < 2 ^ 30 := by unfold kAlignment at wide; omega
  have apart : info ≠ newInfo := by omega
  have within : info < s₃.infos.length := by omega
  have recorded : s₃.setPrevFreeBytes newInfo (total * kAlignment) = some _ :=
    setPrevFreeBytes_of_lt (by omega) (Nat.mul_mod_left total kAlignment)
  rw [Nat.mul_div_cancel _ (by decide : 0 < kAlignment)] at recorded
  set s₄ : FreeListSpace := { s₃ with infos := s₃.infos.set newInfo { s₃.infoAt newInfo with prevFree := total } }
    with s₄Def
  have infoAt₄ : ∀ r, s₄.infoAt r = if r = newInfo then { s₃.infoAt newInfo with prevFree := total }
      else s₃.infoAt r := infoAt_of_set rfl inside
  -- the entries of the set keep their keys, and the new entry joins them
  have sorted₄ : s₄.freeBlocks.Pairwise fun a b => s₄.slotLt a b = true :=
    pairwise_slotLt_congr sorted fun r member => sortKey_congr rfl (by
      rw [infoAt₄, if_neg (by rintro rfl; exact freshNew member)])
  have sorted₅ := sorted_insertFreeBlock sorted₄ freshNew
  have member₅ : ∀ r, r ∈ (s₄.insertFreeBlock newInfo).freeBlocks ↔ r = newInfo ∨ r ∈ s₃.freeBlocks :=
    fun r => mem_insertFreeBlock freshNew
  have sized : (s₄.insertFreeBlock newInfo).setByteSize info (total * kAlignment) true = some _ :=
    setByteSize_of_lt wide (Nat.mul_mod_left total kAlignment)
  have infoPrev₅ : ((s₄.insertFreeBlock newInfo).infoAt info).prevFree = 0 := by
    show (s₄.infoAt info).prevFree = 0
    rw [infoAt₄, if_neg apart, infoPrev]
  rw [infoPrev₅, Nat.mul_div_cancel _ (by decide : 0 < kAlignment)] at sized
  set s₆ : FreeListSpace := { s₄.insertFreeBlock newInfo with
    infos := (s₄.insertFreeBlock newInfo).infos.set info (.encode 0 total true) } with s₆Def
  have infoAt₆ : ∀ r, s₆.infoAt r = if r = info then .encode 0 total true
      else (s₄.insertFreeBlock newInfo).infoAt r := infoAt_of_set rfl (by simpa [s₄Def, insertFreeBlock] using within)
  have sizeAt : info + (s₆.infoAt info).alignSize = newInfo := by
    rw [infoAt₆, if_pos rfl, AllocationInfo.alignSize_of_lt pages, ends]
  refine ⟨s₆, by simp only [recorded, sized, Option.bind_some, sizeAt, ne_eq, not_true_eq_false, if_false],
    ⟨rfl, rfl, rfl, by simp [s₆Def, s₄Def, insertFreeBlock]⟩, rfl, rfl, rfl, fun r => ?_, member₅, ?_⟩
  · rw [infoAt₆]
    exact if_congr Iff.rfl rfl (infoAt₄ r)
  · -- `info` is not in the set, so the keys of its entries stay
    refine pairwise_slotLt_congr sorted₅ fun r member => sortKey_congr rfl ?_
    rw [infoAt₆, if_neg]
    rintro rfl
    rcases (member₅ _).1 member with same | listed
    · exact apart same
    · exact freshInfo listed

/-- **`MergeNext` before a block**: the block of `m` pages at `cover front + cover before`, marked
free and merged with `before`, merges with `after`, the free block after it if there is one, up to
the block `d` that is not free; the merged block is recorded in `d`'s entry, which is in
`free_blocks_` after it. -/
theorem mergeNext_block {front before after post : List Block} {m : Nat} {d : Block} {s₂ : FreeListSpace}
    (layout : s.Layout (front ++ before ++ ⟨false, m⟩ :: (after ++ d :: post))) (frontEnds : prevFreeAfter 0 front = 0)
    (shapeAfter : after = [] ∨ ∃ p, 0 < p ∧ after = [⟨true, p⟩]) (live : d.free = false)
    (small : s.end_ - s.begin < 2 ^ 30) (same : SameSpace s₂ s)
    (infoAt₂ : ∀ r, s₂.infoAt r = if r = cover front + cover before then .encode (cover before) m true else s.infoAt r)
    (member₂ : ∀ r, r ∈ s₂.freeBlocks ↔ r ≠ cover front + cover before ∧ r ∈ s.freeBlocks)
    (sorted₂ : s₂.freeBlocks.Pairwise fun a b => s₂.slotLt a b = true) :
    ∃ s₃, s₂.mergeNext (cover front) (cover front + cover before + m) (s.end_ - s.freeEnd)
        ((cover before + m) * kAlignment) = some s₃ ∧
      SameSpace s₃ s ∧ s₃.freeEnd = s₂.freeEnd ∧ s₃.numBytesAllocated = s₂.numBytesAllocated ∧
      s₃.numObjectsAllocated = s₂.numObjectsAllocated ∧
      (∀ r, s₃.infoAt r = if r = cover front then .encode 0 (cover before + m + cover after) true
        else if r = cover front + cover before + m + cover after then
          { s₂.infoAt (cover front + cover before + m + cover after) with prevFree := cover before + m + cover after }
        else s₂.infoAt r) ∧
      (∀ r, r ∈ s₃.freeBlocks ↔ r = cover front + cover before + m + cover after ∨ r ∈ s₂.freeBlocks) ∧
      s₃.freeBlocks.Pairwise fun a b => s₃.slotLt a b = true := by
  have split : front ++ before ++ ⟨false, m⟩ :: (after ++ d :: post) =
      (front ++ before ++ ⟨false, m⟩ :: after) ++ d :: post := by simp
  obtain ⟨positive, -⟩ := layout.entry rfl
  obtain ⟨dPositive, dPrev, -, dFree, -⟩ := layout.entry split
  obtain ⟨bound, bytes⟩ := layout.cover_le
  simp only [cover_append, cover_cons, ← Nat.add_assoc] at bound bytes positive dPositive dPrev dFree
  rw [live] at dFree
  rw [prevFreeAfter_append, prevFreeAfter] at dPrev
  have wide : (cover before + m + cover after) * kAlignment < 2 ^ 30 :=
    lt_of_le_of_lt (le_trans (Nat.mul_le_mul_right _ (by omega)) bytes) small
  have notEnd : ¬s₂.getAllocationAddressForSlot (cover front + cover before + m) ≥ s.end_ - s.freeEnd := by
    have := layout.address_lt (by simp only [cover_append, cover_cons]; omega : cover front + cover before + m < _)
    rw [getAllocationAddressForSlot, same.begin]
    exact Nat.not_le_of_lt this
  -- the first slot of the run is no entry of the set: no free block ends before it
  have frontPrev : (s₂.infoAt (cover front)).prevFree = 0 := by
    rw [infoAt₂]
    split
    · next atSlot => simp only [prevFree_encode]; omega
    · exact layout.prevFree_front (by simp) frontEnds
  have frontUnlisted : cover front ∉ s₂.freeBlocks := fun member => by
    obtain ⟨apart, listed⟩ := (member₂ _).1 member
    have prev := frontPrev
    rw [infoAt₂, if_neg apart] at prev
    exact ((layout.freeBlocks _).1 listed).2 prev
  have dInside : cover front + cover before + m + cover after < s₂.infos.length := by
    rw [same.length]
    omega
  have atNext : s₂.infoAt (cover front + cover before + m) = s.infoAt (cover front + cover before + m) := by
    rw [infoAt₂, if_neg (by omega)]
  have atD : s₂.infoAt (cover front + cover before + m + cover after) =
      s.infoAt (cover front + cover before + m + cover after) := by
    rw [infoAt₂, if_neg (by omega)]
  rcases shapeAfter with rfl | ⟨p, pPositive, rfl⟩
  · -- the block after is not free: its entry records the merged block
    simp only [cover_nil, Nat.add_zero, Block.prevFreeAfter, Bool.false_eq_true, if_false] at *
    have nextFree : (s₂.infoAt (cover front + cover before + m)).isFree = false := by rw [atNext, dFree]
    have fresh : cover front + cover before + m ∉ s₂.freeBlocks := fun member =>
      ((layout.freeBlocks _).1 ((member₂ _).1 member).2).2 dPrev
    obtain ⟨s₃, tail, same₃, freeEnd₃, bytes₃, objects₃, infoAt₃, member₃, sorted₃⟩ :=
      mergeNext_tail sorted₂ fresh frontUnlisted (by omega) frontPrev dInside (by omega) wide
    refine ⟨s₃, ?_, same₃.trans same, freeEnd₃, bytes₃, objects₃, infoAt₃, member₃, sorted₃⟩
    simp only [mergeNext, notEnd, if_false, nextFree, Bool.false_eq_true, Option.bind_eq_bind, Option.bind_some,
      Option.bind_none, tail]
  · -- the free block after leaves the set, and the entry of the block after it records the merged block
    simp only [cover_cons, cover_nil, Nat.add_zero, prevFreeAfter, Block.prevFreeAfter, if_true] at *
    obtain ⟨-, -, pAlign, pFree, -⟩ := layout.entry
      (by simp : front ++ before ++ ⟨false, m⟩ :: ⟨true, p⟩ :: d :: post =
        (front ++ before ++ [⟨false, m⟩]) ++ ⟨true, p⟩ :: d :: post)
    simp only [cover_append, cover_cons, cover_nil, Nat.add_zero] at pAlign pFree
    have nextFree : (s₂.infoAt (cover front + cover before + m)).isFree = true := by rw [atNext, pFree]
    have nextSize : (s₂.infoAt (cover front + cover before + m)).alignSize = p := by rw [atNext, pAlign]
    have dFree₂ : (s₂.infoAt (cover front + cover before + m + p)).isFree = false := by rw [atD, dFree]
    have dBytes : (s₂.infoAt (cover front + cover before + m + p)).getPrevFreeBytes = p * kAlignment := by
      rw [AllocationInfo.getPrevFreeBytes, atD, dPrev]
    have listed : cover front + cover before + m + p ∈ s₂.freeBlocks :=
      (member₂ _).2 ⟨by omega, (layout.mem_freeBlocks _).2
        ⟨front ++ before ++ [⟨false, m⟩], p, d, post, by simp, by simp [Nat.add_assoc]⟩⟩
    have removed := removeFreePrev_of_mem sorted₂ listed (by rw [atD, dPrev]; omega)
    have sizes : (cover before + m) * kAlignment + p * kAlignment = (cover before + m + p) * kAlignment :=
      (Nat.add_mul _ _ _).symm
    have erased : ∀ r, r ∈ s₂.freeBlocks.erase (cover front + cover before + m + p) ↔
        r ≠ cover front + cover before + m + p ∧ r ∈ s₂.freeBlocks :=
      fun r => List.Nodup.mem_erase_iff (nodup_of_sorted s₂ sorted₂)
    set s₂' : FreeListSpace := { s₂ with freeBlocks := s₂.freeBlocks.erase (cover front + cover before + m + p) }
      with s₂'Def
    have sorted₂' : s₂'.freeBlocks.Pairwise fun a b => s₂'.slotLt a b = true := sorted₂.sublist List.erase_sublist
    obtain ⟨s₃, tail, same₃, freeEnd₃, bytes₃, objects₃, infoAt₃, member₃, sorted₃⟩ :=
      mergeNext_tail sorted₂' (fun member => ((erased _).1 member).1 rfl)
        (fun member => frontUnlisted ((erased _).1 member).2) (by omega) frontPrev dInside (by omega) wide
    refine ⟨s₃, ?_, (same₃.trans (⟨rfl, rfl, rfl, rfl⟩ : SameSpace s₂' s₂)).trans same, freeEnd₃, bytes₃, objects₃, infoAt₃, fun r => ?_,
      sorted₃⟩
    · simp only [mergeNext, notEnd, if_false, nextFree, nextSize, dFree₂, dBytes, removed, sizes, Bool.false_eq_true,
        if_true, Option.bind_eq_bind, Option.bind_some, Option.bind_none, tail]
    · rw [member₃, erased]
      by_cases here : r = cover front + cover before + m + p <;> simp [here]

/-! ## The layout after `Free` -/

/-- **Blocks that end the layout can join the end region.** With the end region grown by their
pages, the entries below them and the set's entries below them as they were, the blocks before
them are a layout. -/
theorem Layout.truncate {front tail : List Block} (layout : s.Layout (front ++ tail)) (frontEnds : prevFreeAfter 0 front = 0)
    (same : s'.begin = s.begin ∧ s'.end_ = s.end_ ∧ s'.infos.length = s.infos.length)
    (grown : s'.freeEnd = s.freeEnd + cover tail * kAlignment) (below : ∀ q < cover front, s'.infoAt q = s.infoAt q)
    (keep : ∀ q, q ∈ s'.freeBlocks ↔ q ∈ s.freeBlocks ∧ q < cover front)
    (sorted : s'.freeBlocks.Pairwise fun a b => s'.slotLt a b = true)
    (counted : s'.numBytesAllocated = liveBytes front) : s'.Layout front := by
  obtain ⟨sameBegin, sameEnd, sameLength⟩ := same
  obtain ⟨⟨aligned, length⟩, ⟨within, alignedEnd⟩⟩ := And.intro layout.capacity layout.freeEnd
  have covered := layout.tiles.endSlot_eq
  rw [endSlot, Nat.zero_add, cover_append] at covered
  have endSlot' : s'.endSlot = cover front := by
    rw [endSlot, sameBegin, sameEnd, grown]
    unfold kAlignment at *
    omega
  have tiles := layout.tiles
  rw [tiles_append, Nat.zero_add] at tiles
  refine ⟨?_, ?_, ?_, frontEnds, sorted, fun q => ?_, counted⟩
  · rw [sameBegin, sameEnd, sameLength]
    exact ⟨aligned, length⟩
  · rw [sameBegin, sameEnd, grown]
    unfold kAlignment at *
    omega
  · rw [endSlot']
    exact tiles.1.congr fun q _ early => below q early
  · rw [keep, layout.freeBlocks, starts_append, List.mem_append, Nat.zero_add]
    constructor
    · rintro ⟨⟨early | late, free⟩, early'⟩
      · exact ⟨early, by rwa [below q early']⟩
      · exact absurd (tiles.2.lt_of_mem_starts late).1 (by omega)
    · rintro ⟨early, free⟩
      have inside := (tiles.1.lt_of_mem_starts early).2
      exact ⟨⟨.inl early, by rwa [← below q inside]⟩, inside⟩

/-- The first slots of a block of `before`'s shape: the one at its start, if there is one. -/
theorem eq_of_mem_starts_single {x q : Nat} {before : List Block} (shape : before = [] ∨ ∃ p, 0 < p ∧ before = [⟨true, p⟩])
    (member : q ∈ starts x before) : q = x := by
  rcases shape with rfl | ⟨p, -, rfl⟩
  · simp [starts] at member
  · simpa [starts] using member

/-- **`Free` of the last block keeps the layout**: the block, merged with the free block before it,
joins the end region. -/
theorem free_end_layout {front before : List Block} {m : Nat} (layout : s.Layout (front ++ before ++ [⟨false, m⟩]))
    (frontEnds : prevFreeAfter 0 front = 0) (shape : before = [] ∨ ∃ p, 0 < p ∧ before = [⟨true, p⟩])
    (small : s.end_ - s.begin < 2 ^ 30) (pageAligned : s.begin % kAlignment = 0) :
    ∃ s', s.free (s.getAllocationAddressForSlot (cover front + cover before)) = some (s', m * kAlignment) ∧
      s'.Layout front ∧ s'.begin = s.begin ∧ s'.end_ = s.end_ := by
  obtain ⟨s₂, freed, same, freeEnd₂, bytes₂, infoAt₂, member₂, sorted₂⟩ :=
    free_eq_mergeNext layout frontEnds shape small pageAligned
  have atEnd : s₂.getAllocationAddressForSlot (cover front + cover before + m) = s.end_ - s.freeEnd := by
    have := layout.address_cover
    simp only [cover_append, cover_cons, cover_nil, Nat.add_zero] at this
    rw [getAllocationAddressForSlot, same.begin, ← this, getAllocationAddressForSlot]
  have merged : s₂.mergeNext (cover front) (cover front + cover before + m) (s.end_ - s.freeEnd)
      ((cover before + m) * kAlignment) = some { s₂ with freeEnd := s₂.freeEnd + (cover before + m) * kAlignment } := by
    simp [mergeNext, atEnd]
  have counted := layout.numBytesAllocated
  have liveTail : liveBytes (before ++ [⟨false, m⟩]) = m * kAlignment := by
    rcases shape with rfl | ⟨p, -, rfl⟩ <;> simp [liveBytes]
  rw [List.append_assoc, liveBytes_append, liveTail] at counted
  have enough : ¬m * kAlignment > s₂.numBytesAllocated := by omega
  rw [merged, Option.bind_some, if_neg enough] at freed
  refine ⟨_, freed, ?_, same.begin, same.end_⟩
  have layout' : s.Layout (front ++ (before ++ [⟨false, m⟩])) := by rwa [List.append_assoc] at layout
  have frontPrev := layout.prevFree_front (by simp) frontEnds
  refine layout'.truncate frontEnds ⟨same.begin, same.end_, same.length⟩ ?_ (fun q early => ?_) (fun q => ?_) sorted₂ ?_
  · simp only [freeEnd₂, cover_append, cover_cons, cover_nil, Nat.add_zero]
  · show s₂.infoAt q = s.infoAt q
    rw [infoAt₂, if_neg (by omega)]
  · -- of the run's first slots only the block's own was in the set, and it left it
    show q ∈ s₂.freeBlocks ↔ _
    rw [member₂]
    constructor
    · rintro ⟨apart, listed⟩
      refine ⟨listed, Nat.lt_of_not_le fun above => ?_⟩
      have inside := (layout'.tiles.lt_of_mem_starts ((layout'.freeBlocks q).1 listed).1).2
      rw [layout'.tiles.endSlot_eq, Nat.zero_add] at inside
      have run : s.Layout (front ++ (before ++ [⟨false, m⟩]) ++ []) := by rwa [List.append_nil]
      obtain ⟨start, free⟩ := (run.mem_freeBlocks_mid above (by rwa [cover_append] at inside)).1 listed
      rw [starts_append, List.mem_append] at start
      rcases start with first | own
      · exact free (by rw [eq_of_mem_starts_single shape first, frontPrev])
      · simp only [starts, List.mem_singleton] at own
        exact apart own
    · rintro ⟨listed, early⟩
      exact ⟨by omega, listed⟩
  · show s₂.numBytesAllocated - m * kAlignment = liveBytes front
    omega

/-- **`Free` of a block before another keeps the layout**: the block, merged with the free blocks
on either side of it, is one free block before `d`, the next block that is not free. -/
theorem free_block_layout {front before after post : List Block} {m : Nat} {d : Block}
    (layout : s.Layout (front ++ before ++ ⟨false, m⟩ :: (after ++ d :: post))) (frontEnds : prevFreeAfter 0 front = 0)
    (shapeBefore : before = [] ∨ ∃ p, 0 < p ∧ before = [⟨true, p⟩])
    (shapeAfter : after = [] ∨ ∃ p, 0 < p ∧ after = [⟨true, p⟩]) (live : d.free = false)
    (small : s.end_ - s.begin < 2 ^ 30) (pageAligned : s.begin % kAlignment = 0) :
    ∃ s', s.free (s.getAllocationAddressForSlot (cover front + cover before)) = some (s', m * kAlignment) ∧
      s'.Layout (front ++ [⟨true, cover before + m + cover after⟩, d] ++ post) ∧ s'.begin = s.begin ∧ s'.end_ = s.end_ := by
  obtain ⟨s₂, freed, same₂, freeEnd₂, bytes₂, infoAt₂, member₂, sorted₂⟩ :=
    free_eq_mergeNext layout frontEnds shapeBefore small pageAligned
  obtain ⟨s₃, merged, same₃, freeEnd₃, bytes₃, -, infoAt₃, member₃, sorted₃⟩ :=
    mergeNext_block layout frontEnds shapeAfter live small same₂ infoAt₂ member₂ sorted₂
  have layout' : s.Layout (front ++ (before ++ ⟨false, m⟩ :: (after ++ [d])) ++ post) := by simpa using layout
  have split : front ++ before ++ ⟨false, m⟩ :: (after ++ d :: post) =
      (front ++ before ++ ⟨false, m⟩ :: after) ++ d :: post := by simp
  obtain ⟨positive, -⟩ := layout.entry rfl
  obtain ⟨dPositive, dPrev, dAlign, dFree, -⟩ := layout.entry split
  simp only [cover_append, cover_cons, ← Nat.add_assoc] at positive dPositive dPrev dAlign dFree
  have afterCover : prevFreeAfter 0 after = cover after := by rcases shapeAfter with rfl | ⟨p, -, rfl⟩ <;> rfl
  rw [prevFreeAfter_append, prevFreeAfter, Block.prevFreeAfter, if_neg Bool.false_ne_true, afterCover] at dPrev
  -- the counters `Free` changes last
  have midLive : liveBytes (before ++ ⟨false, m⟩ :: (after ++ [d])) =
      m * kAlignment + liveBytes [⟨true, cover before + m + cover after⟩, d] := by
    rcases shapeBefore with rfl | ⟨p, -, rfl⟩ <;> rcases shapeAfter with rfl | ⟨r, -, rfl⟩ <;>
      simp [liveBytes, live, Nat.add_mul]
  have counted := layout'.numBytesAllocated
  rw [liveBytes_append, liveBytes_append, midLive] at counted
  have enough : ¬m * kAlignment > s₃.numBytesAllocated := by omega
  rw [merged, Option.bind_some, if_neg enough] at freed
  obtain ⟨s', freed', same', freeEnd', infoAt', member', bytes'⟩ : ∃ s', s.free (s.getAllocationAddressForSlot
      (cover front + cover before)) = some (s', m * kAlignment) ∧ SameSpace s' s ∧ s'.freeEnd = s.freeEnd ∧
      (∀ q, s'.infoAt q = s₃.infoAt q) ∧ s'.freeBlocks = s₃.freeBlocks ∧
      s'.numBytesAllocated = s₃.numBytesAllocated - m * kAlignment :=
    ⟨_, freed, ⟨same₃.begin, same₃.end_, same₃.allocationInfo, same₃.length⟩, freeEnd₃.trans freeEnd₂, fun _ => rfl, rfl,
      rfl⟩
  refine ⟨s', freed', ?_, same'.begin, same'.end_⟩
  have midCover : cover (before ++ ⟨false, m⟩ :: (after ++ [d])) = cover before + m + cover after + d.pages := by
    simp only [cover_append, cover_cons, cover_nil]
    omega
  have frontPrev := layout.prevFree_front (by simp) frontEnds
  have atFront : s'.infoAt (cover front) = .encode 0 (cover before + m + cover after) true := by
    rw [infoAt', infoAt₃, if_pos rfl]
  have atD : s'.infoAt (cover front + cover before + m + cover after) =
      { s.infoAt (cover front + cover before + m + cover after) with prevFree := cover before + m + cover after } := by
    rw [infoAt', infoAt₃, if_neg (by omega), if_pos rfl, infoAt₂, if_neg (by omega)]
  have total : cover before + m + cover after < 2 ^ 30 := by
    have := layout.cover_le.2
    simp only [cover_append, cover_cons] at this
    have := le_trans (Nat.mul_le_mul_right kAlignment (show cover before + m + cover after ≤ _ by omega)) this
    unfold kAlignment at *
    omega
  refine Layout.replace layout' ⟨same'.begin, same'.end_, same'.length, freeEnd'⟩
    (fun q away => ?_) ?_ ?_ (fun q away => ?_) (fun q above below => ?_) ?_ ?_
  · -- the entries outside the merged run stay
    rw [midCover] at away
    rw [infoAt', infoAt₃, if_neg (by omega), if_neg (by omega), infoAt₂, if_neg (by omega)]
  · -- the merged free block and `d`, whose entry records it
    have dAlign' : (s'.infoAt (cover front + cover before + m + cover after)).alignSize = d.pages := by
      rw [atD]
      exact dAlign
    have dFree' : (s'.infoAt (cover front + cover before + m + cover after)).isFree = d.free := by
      rw [atD]
      exact dFree
    have dPrev' : (s'.infoAt (cover front + cover before + m + cover after)).prevFree = cover before + m + cover after := by
      rw [atD]
    rw [frontEnds, midCover]
    simp only [Tiles, Block.prevFreeAfter, atFront, AllocationInfo.alignSize_of_lt total,
      AllocationInfo.isFree_of_lt total, ← Nat.add_assoc, dAlign', dFree', dPrev', live, prevFree_encode, if_true,
      Bool.false_eq_true, false_implies, implies_true, true_and, and_true]
    omega
  · simp [prevFreeAfter_append, prevFreeAfter, Block.prevFreeAfter, live]
  · -- the set's entries outside the run stay
    rw [midCover] at away
    rw [member', member₃, member₂]
    have apart : q ≠ cover front + cover before + m + cover after := by omega
    have apart' : q ≠ cover front + cover before := by omega
    simp [apart, apart']
  · -- in the run only `d`'s entry is in the set
    rw [midCover] at below
    have dPrev' : (s'.infoAt (cover front + cover before + m + cover after)).prevFree = cover before + m + cover after := by
      rw [atD]
    rw [member', member₃, member₂]
    simp only [starts, List.mem_cons, List.not_mem_nil, or_false]
    by_cases atNew : q = cover front + cover before + m + cover after
    · rw [atNew, dPrev']
      simp only [true_or, true_iff]
      exact ⟨.inr (by omega), by omega⟩
    -- the other first slots of the run follow a block that is not free
    have nextPrev : (s.infoAt (cover front + cover before + m)).prevFree = 0 := by
      have split : s.Layout ((front ++ before ++ [⟨false, m⟩]) ++ (after ++ d :: post)) := by simpa using layout
      have recorded := split.prevFree_cover (by simp)
      simp only [cover_append, cover_cons, cover_nil, Nat.add_zero] at recorded
      rw [recorded]
      simp [prevFreeAfter_append, prevFreeAfter, Block.prevFreeAfter]
    have unlisted : ¬(q ≠ cover front + cover before ∧ q ∈ s.freeBlocks) := by
      rintro ⟨apart, listed⟩
      obtain ⟨start, free⟩ := (layout'.mem_freeBlocks_mid above (by rwa [midCover])).1 listed
      rw [starts_append, List.mem_append, starts, List.mem_cons, starts_append, List.mem_append] at start
      rcases start with first | own | next | last
      · exact free (by rw [eq_of_mem_starts_single shapeBefore first, frontPrev])
      · exact apart own
      · exact free (by rw [eq_of_mem_starts_single shapeAfter next, nextPrev])
      · simp only [starts, List.mem_singleton] at last
        exact atNew last
    have frontPrev' : (s'.infoAt (cover front)).prevFree = 0 := by rw [atFront, prevFree_encode]
    simp only [atNew, unlisted, false_or, false_iff, not_and, not_not]
    rintro (rfl | rfl)
    · exact frontPrev'
    · omega
  · exact pairwise_slotLt_congr (member' ▸ sorted₃) fun r _ =>
      sortKey_congr (same'.allocationInfo.trans same₃.allocationInfo.symm) (infoAt' r)
  · rw [bytes', bytes₃, bytes₂, counted, liveBytes_append, liveBytes_append]
    omega

/-! ## What `Walk` reports after `Free` -/

/-- A block that is not free, at its address and with its bytes, among those `Walk` reports. -/
theorem mem_liveBlocks {slot obj bytes : Nat} {blocks : List Block} (member : (obj, bytes) ∈ s.liveBlocks slot blocks) :
    ∃ pre m post, blocks = pre ++ ⟨false, m⟩ :: post ∧ obj = s.getAllocationAddressForSlot (slot + cover pre) ∧
      bytes = m * kAlignment := by
  induction blocks generalizing slot with
  | nil => simp [liveBlocks] at member
  | cons b rest ih =>
      -- a block of the rest, seen from the slot after `b`
      have later : (obj, bytes) ∈ s.liveBlocks (slot + b.pages) rest →
          ∃ pre m post, b :: rest = pre ++ ⟨false, m⟩ :: post ∧
            obj = s.getAllocationAddressForSlot (slot + cover pre) ∧ bytes = m * kAlignment := fun member => by
        obtain ⟨pre, m, post, split, address, size⟩ := ih member
        exact ⟨b :: pre, m, post, by rw [split, List.cons_append], by rw [address, cover_cons, Nat.add_assoc], size⟩
      obtain ⟨free, pages⟩ := b
      cases free with
      | true => exact later member
      | false =>
          rcases List.mem_cons.1 member with here | further
          · simp only [Prod.mk.injEq] at here
            exact ⟨[], pages, rest, rfl, by simp [here.1], here.2⟩
          · exact later further

/-- Taking one element out of the middle of a list leaves a permutation of erasing it. -/
theorem perm_erase_middle {α : Type} [BEq α] [LawfulBEq α] (front back : List α) (x : α) :
    (front ++ back).Perm ((front ++ x :: back).erase x) :=
  ((List.perm_cons_erase (by simp)).symm.trans List.perm_middle).cons_inv.symm

/-- A run of `before`'s shape holds no block that is not free. -/
theorem liveBlocks_of_shape {before : List Block} (shape : before = [] ∨ ∃ p, 0 < p ∧ before = [⟨true, p⟩]) (slot : Nat) :
    s.liveBlocks slot before = [] := by
  rcases shape with rfl | ⟨p, -, rfl⟩ <;> rfl

/-- **`Free` of a block that `Walk` reports keeps the layout**, in a space under `2 ^ 30` bytes
that starts on a page: it answers the block's bytes, and the blocks that are not free are the
others. -/
theorem free_step {blocks : List Block} (layout : s.Layout blocks) (small : s.end_ - s.begin < 2 ^ 30)
    (pageAligned : s.begin % kAlignment = 0) {obj bytes : Nat} (live : (obj, bytes) ∈ s.liveBlocks 0 blocks) :
    ∃ s', s.free obj = some (s', bytes) ∧ ∃ blocks', s'.Layout blocks' ∧
      (s'.liveBlocks 0 blocks').Perm ((s.liveBlocks 0 blocks).erase (obj, bytes)) ∧ s'.begin = s.begin ∧
        s'.end_ = s.end_ := by
  obtain ⟨pre, m, post, rfl, rfl, rfl⟩ := mem_liveBlocks live
  obtain ⟨front, before, rfl, frontEnds, shapeBefore⟩ := layout.split_before
  rw [Nat.zero_add, cover_append]
  cases post with
  | nil =>
      -- the last block: it joins the end region
      obtain ⟨s', freed, layout', sameBegin, sameEnd⟩ := free_end_layout layout frontEnds shapeBefore small pageAligned
      refine ⟨s', freed, front, layout', ?_, sameBegin, sameEnd⟩
      rw [liveBlocks_congr sameBegin]
      simp only [liveBlocks_append, liveBlocks, liveBlocks_of_shape shapeBefore, Bool.false_eq_true, if_false,
        List.append_nil, cover_append, Nat.zero_add]
      have middle := perm_erase_middle (s.liveBlocks 0 front) []
        (s.getAllocationAddressForSlot (cover front + cover before), m * kAlignment)
      rwa [List.append_nil] at middle
  | cons b rest =>
      -- the blocks after it up to the next one that is not free
      obtain ⟨after, d, post, split, shapeAfter, dLive⟩ : ∃ after d post, b :: rest = after ++ d :: post ∧
          (after = [] ∨ ∃ p, 0 < p ∧ after = [⟨true, p⟩]) ∧ d.free = false := by
        obtain ⟨free, pages⟩ := b
        cases free with
        | false => exact ⟨[], ⟨false, pages⟩, rest, rfl, .inl rfl, rfl⟩
        | true =>
            have layout' : s.Layout ((front ++ before ++ [⟨false, m⟩]) ++ ⟨true, pages⟩ :: rest) := by simpa using layout
            obtain ⟨d, post, rfl, dLive⟩ := layout'.after_free rfl
            exact ⟨[⟨true, pages⟩], d, post, rfl, .inr ⟨pages, (layout'.entry rfl).1, rfl⟩, dLive⟩
      rw [split] at layout ⊢
      obtain ⟨s', freed, layout', sameBegin, sameEnd⟩ :=
        free_block_layout layout frontEnds shapeBefore shapeAfter dLive small pageAligned
      refine ⟨s', freed, _, layout', ?_, sameBegin, sameEnd⟩
      rw [liveBlocks_congr sameBegin]
      simp only [liveBlocks_append, liveBlocks, liveBlocks_of_shape shapeBefore, liveBlocks_of_shape shapeAfter, dLive,
        Bool.false_eq_true, if_true, if_false, List.nil_append, List.append_assoc, List.singleton_append, cover_cons,
        cover_nil, Nat.zero_add, Nat.add_zero, Nat.add_assoc]
      exact perm_erase_middle _ _ _

end FreeListSpace

end Art.Runtime.Gc.Space
