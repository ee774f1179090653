import Mathlib.Data.Nat.Bitwise
import Art.Runtime.Gc.Space.LargeObjectSpace

/-!
# The layout of a free-list space

Below its end region, a `FreeListSpace` is a list of blocks, each free or not, of some pages.
The side table describes them when the blocks tile the slots from 0 to the first slot of the
end region (`Tiles`): the entry of each block's first slot holds its pages, its free flag, and
in `prev_free_` the pages of the free block just before it, and no free block follows another.
The blocks after the first split the tiling at the first slot of the rest (`tiles_append`), and
an entry outside the first slots of the blocks can change without changing the tiling
(`Tiles.congr`).

`Walk` follows the tiling: over the blocks of a tiling it reports the blocks that are not free,
each at its address with its bytes (`walkFrom_tiles`). With no free block, `Alloc` takes the
front of the end region (`alloc_of_live`), so `Walk` after a run of them on a new space reports
what they returned (`create_allocAll_walk`).
-/

set_option autoImplicit false

namespace Art.Runtime.Gc.Space

/-- A block of a `FreeListSpace` below the end region: free or not, and its pages. -/
structure Block where
  free : Bool
  pages : Nat
  deriving DecidableEq, Repr

/-- What the entry after a block holds in `prev_free_`: the block's pages if it is free. -/
def Block.prevFreeAfter (b : Block) : Nat := if b.free then b.pages else 0

/-- The pages the blocks cover. -/
def cover (blocks : List Block) : Nat := (blocks.map Block.pages).sum

@[simp] theorem cover_nil : cover [] = 0 := rfl

@[simp] theorem cover_cons (b : Block) (blocks : List Block) : cover (b :: blocks) = b.pages + cover blocks := by
  simp [cover]

@[simp] theorem cover_append (blocks more : List Block) : cover (blocks ++ more) = cover blocks + cover more := by
  simp [cover]

/-- The `prev_free_` of the entry after the blocks: the pages of the last one if it is free, and
`prevFree` after none. -/
def prevFreeAfter : Nat → List Block → Nat
  | prevFree, [] => prevFree
  | _, b :: rest => prevFreeAfter b.prevFreeAfter rest

namespace AllocationInfo

/-- The entry `SetByteSize` leaves for a block of `pages` pages, after `prevFree` free pages. -/
def encode (prevFree pages : Nat) (free : Bool) : AllocationInfo :=
  ⟨prevFree, (pages ||| if free then kFlagFree else 0) % 2 ^ 32⟩

/-- Below `2 ^ 30` pages, `alloc_size_` gives back the pages that `SetByteSize` stored. -/
theorem alignSize_of_lt {prevFree pages : Nat} (small : pages < 2 ^ 30) (free : Bool) :
    (encode prevFree pages free).alignSize = pages := by
  have flag : (if free then kFlagFree else 0) % 2 ^ 30 = 0 := by cases free <;> decide
  rw [encode, alignSize, show kFlagsMask = 2 ^ 30 - 1 by decide, Nat.and_two_pow_sub_one_eq_mod,
    Nat.mod_mod_of_dvd _ (Nat.pow_dvd_pow 2 (by decide : 30 ≤ 32)), Nat.or_mod_two_pow, flag, Nat.or_zero,
    Nat.mod_eq_of_lt small]

/-- Below `2 ^ 30` pages, `alloc_size_` gives back the free flag that `SetByteSize` stored. -/
theorem isFree_of_lt {prevFree pages : Nat} (small : pages < 2 ^ 30) (free : Bool) :
    (encode prevFree pages free).isFree = free := by
  have high : pages.testBit 31 = false := Nat.testBit_eq_false_of_lt (by omega)
  have fits : (pages ||| if free then kFlagFree else 0) < 2 ^ 32 :=
    Nat.or_lt_two_pow (by omega) (by cases free <;> decide)
  rw [encode, isFree, Nat.mod_eq_of_lt fits, show kFlagFree = 2 ^ 31 by decide, Nat.and_two_pow, Nat.testBit_or, high]
  cases free
  · simp
  · decide

/-- Below `2 ^ 30` bytes, the `DCHECK` of `SetByteSize` passes. -/
theorem and_flags_of_lt {size : Nat} (small : size < 2 ^ 30) : size &&& ((2 ^ 32 - 1) ^^^ kFlagsMask) = 0 := by
  rw [show (2 ^ 32 - 1) ^^^ kFlagsMask = 3 * 2 ^ 30 by decide]
  apply Nat.eq_of_testBit_eq
  intro i
  rw [Nat.testBit_and, Nat.zero_testBit]
  by_cases low : i < 30
  · rw [Nat.testBit_mul_two_pow]
    simp [Nat.not_le.2 low]
  · rw [Nat.testBit_eq_false_of_lt (lt_of_lt_of_le small (Nat.pow_le_pow_right (by decide) (by omega))), Bool.false_and]

end AllocationInfo

namespace FreeListSpace

/-- **The blocks tile the slots from `slot` to `endSlot`.** The entry of each block's first slot
holds its pages and its free flag, and in `prev_free_` the pages of the free block just before
it (`prevFree` for the first); a free block does not follow a free block. -/
def Tiles (s : FreeListSpace) : Nat → Nat → List Block → Nat → Prop
  | slot, _, [], endSlot => slot = endSlot
  | slot, prevFree, b :: rest, endSlot =>
      0 < b.pages ∧ (s.infoAt slot).prevFree = prevFree ∧ (s.infoAt slot).alignSize = b.pages ∧
        (s.infoAt slot).isFree = b.free ∧ (b.free = true → prevFree = 0) ∧
        s.Tiles (slot + b.pages) b.prevFreeAfter rest endSlot

variable {s s' : FreeListSpace}

/-- A tiling ends where its blocks' pages end. -/
theorem Tiles.endSlot_eq {slot prevFree endSlot : Nat} {blocks : List Block}
    (tiles : s.Tiles slot prevFree blocks endSlot) : endSlot = slot + cover blocks := by
  induction blocks generalizing slot prevFree with
  | nil => exact tiles.symm
  | cons b rest ih =>
      have := ih tiles.2.2.2.2.2
      simp only [cover_cons]
      omega

/-- A tiling splits at the first slot of its second part. -/
theorem tiles_append {slot prevFree endSlot : Nat} (blocks more : List Block) :
    s.Tiles slot prevFree (blocks ++ more) endSlot ↔
      s.Tiles slot prevFree blocks (slot + cover blocks) ∧
        s.Tiles (slot + cover blocks) (prevFreeAfter prevFree blocks) more endSlot := by
  induction blocks generalizing slot prevFree with
  | nil => simp [Tiles, prevFreeAfter]
  | cons b rest ih =>
      have middle : slot + b.pages + cover rest = slot + cover (b :: rest) := by
        simp only [cover_cons]
        omega
      simp only [List.cons_append, Tiles, ih, middle, prevFreeAfter]
      tauto

/-- An entry outside the blocks' first slots can change: a tiling only reads those. -/
theorem Tiles.congr {slot prevFree endSlot : Nat} {blocks : List Block} (tiles : s.Tiles slot prevFree blocks endSlot)
    (agree : ∀ q, slot ≤ q → q < endSlot → s'.infoAt q = s.infoAt q) : s'.Tiles slot prevFree blocks endSlot := by
  induction blocks generalizing slot prevFree with
  | nil => exact tiles
  | cons b rest ih =>
      obtain ⟨positive, prevFreeAt, alignSizeAt, isFreeAt, single, restTiles⟩ := tiles
      have bound := restTiles.endSlot_eq
      have here := agree slot (Nat.le_refl _) (by omega)
      refine ⟨positive, here ▸ prevFreeAt, here ▸ alignSizeAt, here ▸ isFreeAt, single, ih restTiles ?_⟩
      intro q above below
      exact agree q (by omega) below

/-! ## Writes of entries -/

/-- A write of an entry of the side table is read back there and nowhere else. -/
theorem infoAt_of_set {slot : Nat} {info : AllocationInfo} (written : s'.infos = s.infos.set slot info)
    (inside : slot < s.infos.length) (q : Nat) : s'.infoAt q = if q = slot then info else s.infoAt q := by
  by_cases same : q = slot
  · subst same
    simp [infoAt, written, List.getD_eq_getElem?_getD, inside]
  · simp [infoAt, written, List.getD_eq_getElem?_getD, same, Ne.symm same]

/-- The key of an entry that a write leaves alone stays. -/
theorem sortKey_congr {q : Nat} (table : s'.allocationInfo = s.allocationInfo) (same : s'.infoAt q = s.infoAt q) :
    s'.sortKey q = s.sortKey q := by
  rw [sortKey, sortKey, table, same]

/-- Below `2 ^ 30` bytes, `SetByteSize` passes its checks and writes the pages and the flag. -/
theorem setByteSize_of_lt {slot size : Nat} {free : Bool} (small : size < 2 ^ 30) (aligned : size % kAlignment = 0) :
    s.setByteSize slot size free =
      some { s with infos := s.infos.set slot (.encode (s.infoAt slot).prevFree (size / kAlignment) free) } := by
  rw [setByteSize, AllocationInfo.setByteSize, if_neg (not_not.2 (AllocationInfo.and_flags_of_lt small)),
    if_neg (not_not.2 aligned), Option.map_some]
  rfl

/-- Below `2 ^ 44` bytes, `SetPrevFreeBytes` passes its check and writes the pages. -/
theorem setPrevFreeBytes_of_lt {slot bytes : Nat} (small : bytes < 2 ^ 44) (aligned : bytes % kAlignment = 0) :
    s.setPrevFreeBytes slot bytes =
      some { s with infos := s.infos.set slot { s.infoAt slot with prevFree := bytes / kAlignment } } := by
  have pages : bytes / kAlignment % 2 ^ 32 = bytes / kAlignment := by
    apply Nat.mod_eq_of_lt
    unfold kAlignment
    omega
  simp only [setPrevFreeBytes, AllocationInfo.setPrevFreeBytes, aligned, ne_eq, not_true_eq_false, if_false, pages,
    Option.map_some]

/-- **The end of `Alloc`** for a block under `2 ^ 30` bytes: the counters, and the block's entry
holding its pages, not free, after no free block. -/
theorem finishAlloc_of_lt {slot size : Nat} (small : size < 2 ^ 30) (aligned : size % kAlignment = 0)
    (inside : slot < s.infos.length) :
    s.finishAlloc size slot = some ({ s with
      numObjectsAllocated := s.numObjectsAllocated + 1
      numBytesAllocated := (s.numBytesAllocated + size) % 2 ^ 64
      infos := s.infos.set slot (.encode 0 (size / kAlignment) false) },
      some (s.getAllocationAddressForSlot slot, size)) := by
  simp only [finishAlloc, setPrevFreeBytes_of_lt (by omega : 0 < 2 ^ 44) (Nat.zero_mod _), setByteSize_of_lt small aligned,
    Option.bind_eq_bind, Option.bind_some]
  simp only [infoAt, List.getD_eq_getElem?_getD, List.getElem?_set_self inside, Option.getD_some, List.set_set,
    Nat.zero_div]
  rfl

/-! ## `Walk` -/

/-- The blocks that are not free, at their addresses and with their bytes, from `slot` on. -/
def liveBlocks (s : FreeListSpace) : Nat → List Block → List (Nat × Nat)
  | _, [] => []
  | slot, b :: rest =>
      if b.free then s.liveBlocks (slot + b.pages) rest
      else (s.getAllocationAddressForSlot slot, b.pages * kAlignment) :: s.liveBlocks (slot + b.pages) rest

/-- **`Walk` reports the blocks that are not free** of a tiling, given a step for each block. -/
theorem walkFrom_tiles {slot prevFree endSlot : Nat} {blocks : List Block}
    (tiles : s.Tiles slot prevFree blocks endSlot) (fuel : Nat) (enough : blocks.length ≤ fuel) :
    s.walkFrom endSlot fuel slot = some (s.liveBlocks slot blocks) := by
  induction blocks generalizing slot prevFree fuel with
  | nil =>
      rw [Tiles] at tiles
      subst tiles
      cases fuel <;> simp [walkFrom, liveBlocks]
  | cons b rest ih =>
      obtain ⟨positive, -, alignSizeAt, isFreeAt, -, restTiles⟩ := tiles
      obtain ⟨fuel, rfl⟩ : ∃ fuel', fuel = fuel' + 1 := ⟨fuel - 1, by simp at enough; omega⟩
      have before : slot < endSlot := by
        have := restTiles.endSlot_eq
        omega
      have rest := ih restTiles fuel (by simpa using enough)
      cases free : b.free <;>
        simp [walkFrom, before, alignSizeAt, isFreeAt, free, rest, liveBlocks, AllocationInfo.byteSize]

/-! ## The layout of a space -/

/-- The first slot of the end region: `GetSlotIndexForAddress(End() - free_end_)`, without its
check. -/
def endSlot (s : FreeListSpace) : Nat := (s.end_ - s.freeEnd - s.begin) / kAlignment

/-- The first slots of the blocks from `slot` on. -/
def starts : Nat → List Block → List Nat
  | _, [] => []
  | slot, b :: rest => slot :: starts (slot + b.pages) rest

/-- The bytes of the blocks that are not free. -/
def liveBytes (blocks : List Block) : Nat := cover (blocks.filter fun b => !b.free) * kAlignment

/-- **The layout of a space** as the blocks below its end region. The side table has an entry for
each page, the end region starts on a page, the blocks tile the slots below it and the last of
them is not free; `free_blocks_`, sorted, holds the first slots of the blocks that follow a free
block; `num_bytes_allocated_` counts the bytes of the blocks that are not free. -/
structure Layout (s : FreeListSpace) (blocks : List Block) : Prop where
  capacity : (s.end_ - s.begin) % kAlignment = 0 ∧ s.infos.length = (s.end_ - s.begin) / kAlignment
  freeEnd : s.begin + s.freeEnd ≤ s.end_ ∧ s.freeEnd % kAlignment = 0
  tiles : s.Tiles 0 0 blocks s.endSlot
  endsLive : prevFreeAfter 0 blocks = 0
  sorted : s.freeBlocks.Pairwise fun a b => s.slotLt a b = true
  freeBlocks : ∀ slot, slot ∈ s.freeBlocks ↔ slot ∈ starts 0 blocks ∧ (s.infoAt slot).prevFree ≠ 0
  numBytesAllocated : s.numBytesAllocated = liveBytes blocks

theorem prevFreeAfter_append (prevFree : Nat) (blocks more : List Block) :
    prevFreeAfter prevFree (blocks ++ more) = prevFreeAfter (prevFreeAfter prevFree blocks) more := by
  induction blocks generalizing prevFree with
  | nil => rfl
  | cons b rest ih => exact ih b.prevFreeAfter

theorem starts_append (slot : Nat) (blocks more : List Block) :
    starts slot (blocks ++ more) = starts slot blocks ++ starts (slot + cover blocks) more := by
  induction blocks generalizing slot with
  | nil => simp [starts]
  | cons b rest ih =>
      simp only [List.cons_append, starts, ih, cover_cons, List.cons.injEq, List.append_cancel_left_eq, true_and]
      rw [Nat.add_assoc]

theorem liveBytes_append (blocks more : List Block) : liveBytes (blocks ++ more) = liveBytes blocks + liveBytes more := by
  simp [liveBytes, Nat.add_mul]

/-- The first slots of a tiling's blocks lie below its end. -/
theorem Tiles.lt_of_mem_starts {slot prevFree endSlot q : Nat} {blocks : List Block}
    (tiles : s.Tiles slot prevFree blocks endSlot) (member : q ∈ starts slot blocks) : slot ≤ q ∧ q < endSlot := by
  induction blocks generalizing slot prevFree with
  | nil => simp [starts] at member
  | cons b rest ih =>
      have restEnd := tiles.2.2.2.2.2.endSlot_eq
      have positive := tiles.1
      rcases List.mem_cons.1 member with rfl | later
      · omega
      · have := ih tiles.2.2.2.2.2 later
        omega

theorem cover_filter_le (blocks : List Block) (p : Block → Bool) : cover (blocks.filter p) ≤ cover blocks := by
  induction blocks with
  | nil => simp
  | cons b rest ih =>
      rw [List.filter_cons]
      split <;> simp only [cover_cons] <;> omega

/-- The bytes of the blocks that are not free are at most those of all the blocks. -/
theorem liveBytes_le (blocks : List Block) : liveBytes blocks ≤ cover blocks * kAlignment :=
  Nat.mul_le_mul_right _ (cover_filter_le blocks _)

/-- A new space has no blocks: all of it is the end region. -/
theorem create_layout {begin capacity allocationInfo : Nat} (created : create begin capacity allocationInfo = some s) :
    s.Layout [] := by
  unfold create at created
  split at created
  · contradiction
  · next aligned =>
      cases created
      refine ⟨⟨by simpa using aligned, by simp⟩, ⟨by simp, by simpa using aligned⟩, ?_, rfl, List.Pairwise.nil,
        fun slot => by simp [starts], rfl⟩
      simp [Tiles, endSlot]

/-- Each block has a page at least, so a tiling has no more blocks than pages. -/
theorem Tiles.length_le {slot prevFree endSlot : Nat} {blocks : List Block}
    (tiles : s.Tiles slot prevFree blocks endSlot) : blocks.length ≤ cover blocks := by
  induction blocks generalizing slot prevFree with
  | nil => simp
  | cons b rest ih =>
      have := ih tiles.2.2.2.2.2
      have := tiles.1
      simp only [List.length_cons, cover_cons]
      omega

/-- **`Walk` of a space reports its blocks that are not free**, while the end region is not
empty (`GetAllocationInfoForAddress(End())` fails its `DCHECK`). -/
theorem walk_layout {blocks : List Block} (layout : s.Layout blocks) (room : 0 < s.freeEnd) :
    s.walk = some (s.liveBlocks 0 blocks) := by
  have within := layout.freeEnd.1
  have slot : s.getSlotIndexForAddress (s.end_ - s.freeEnd) = some s.endSlot := by
    rw [getSlotIndexForAddress, if_pos (by omega), endSlot]
  have enough : blocks.length ≤ s.endSlot := by
    have := layout.tiles.endSlot_eq
    have := layout.tiles.length_le
    omega
  simp only [walk, slot, Option.bind_eq_bind, Option.bind_some]
  exact walkFrom_tiles layout.tiles _ enough

/-! ## Changes inside a run of blocks -/

/-- A first slot of the blocks splits them there. -/
theorem exists_append_of_mem_starts {slot q : Nat} {blocks : List Block} (member : q ∈ starts slot blocks) :
    ∃ front b back, blocks = front ++ b :: back ∧ q = slot + cover front := by
  induction blocks generalizing slot with
  | nil => simp [starts] at member
  | cons b rest ih =>
      rcases List.mem_cons.1 member with rfl | later
      · exact ⟨[], b, rest, rfl, by simp⟩
      · obtain ⟨front, c, back, split, start⟩ := ih later
        refine ⟨b :: front, c, back, by rw [split, List.cons_append], ?_⟩
        simp only [cover_cons]
        omega

/-- Blocks after which `prev_free_` is not zero end with a free block of that many pages. -/
theorem eq_append_free_of_prevFreeAfter {front : List Block} (free : prevFreeAfter 0 front ≠ 0) :
    ∃ pre, front = pre ++ [⟨true, prevFreeAfter 0 front⟩] := by
  rcases List.eq_nil_or_concat' front with rfl | ⟨pre, ⟨isFree, pages⟩, rfl⟩
  · exact absurd rfl free
  · cases isFree
    · simp [prevFreeAfter_append, prevFreeAfter, Block.prevFreeAfter] at free
    · rw [prevFreeAfter_append]
      exact ⟨pre, rfl⟩

/-- In a tiling of three runs, a first slot belongs to the run whose slots hold it. -/
theorem Tiles.mem_starts_append₃ {pre mid post : List Block} {endSlot : Nat}
    (tiles : s.Tiles 0 0 (pre ++ mid ++ post) endSlot) (q : Nat) :
    q ∈ starts 0 (pre ++ mid ++ post) ↔
      q < cover pre ∧ q ∈ starts 0 pre ∨ (cover pre ≤ q ∧ q < cover pre + cover mid) ∧ q ∈ starts (cover pre) mid ∨
        cover pre + cover mid ≤ q ∧ q ∈ starts (cover pre + cover mid) post := by
  rw [List.append_assoc, tiles_append, tiles_append, Nat.zero_add] at tiles
  obtain ⟨preTiles, midTiles, postTiles⟩ := And.intro tiles.1 tiles.2
  rw [List.append_assoc, starts_append, starts_append, Nat.zero_add, List.mem_append, List.mem_append]
  have inPre := fun member => (preTiles.lt_of_mem_starts (q := q) member)
  have inMid := fun member => (midTiles.lt_of_mem_starts (q := q) member)
  have inPost := fun member => (postTiles.lt_of_mem_starts (q := q) member)
  constructor
  · rintro (early | middle | late)
    · exact .inl ⟨(inPre early).2, early⟩
    · exact .inr (.inl ⟨inMid middle, middle⟩)
    · exact .inr (.inr ⟨(inPost late).1, late⟩)
  · rintro (⟨-, early⟩ | ⟨-, middle⟩ | ⟨-, late⟩)
    · exact .inl early
    · exact .inr (.inl middle)
    · exact .inr (.inr late)

/-- **A change inside a run of blocks keeps the layout.** The side table and `free_blocks_`
change only on the slots of a run `mid`; new blocks `mid'` tile those slots and end as `mid`
does, and there `free_blocks_` holds the first slots of `mid'` after a free block. With the
set sorted and the bytes counted, the blocks with `mid'` for `mid` are a layout. -/
theorem Layout.replace {pre mid mid' post : List Block} (layout : s.Layout (pre ++ mid ++ post))
    (same : s'.begin = s.begin ∧ s'.end_ = s.end_ ∧ s'.infos.length = s.infos.length ∧ s'.freeEnd = s.freeEnd)
    (outside : ∀ q, q < cover pre ∨ cover pre + cover mid ≤ q → s'.infoAt q = s.infoAt q)
    (tiles : s'.Tiles (cover pre) (prevFreeAfter 0 pre) mid' (cover pre + cover mid))
    (endsSame : prevFreeAfter (prevFreeAfter 0 pre) mid' = prevFreeAfter (prevFreeAfter 0 pre) mid)
    (keep : ∀ q, q < cover pre ∨ cover pre + cover mid ≤ q → (q ∈ s'.freeBlocks ↔ q ∈ s.freeBlocks))
    (inside : ∀ q, cover pre ≤ q → q < cover pre + cover mid →
      (q ∈ s'.freeBlocks ↔ q ∈ starts (cover pre) mid' ∧ (s'.infoAt q).prevFree ≠ 0))
    (sorted : s'.freeBlocks.Pairwise fun a b => s'.slotLt a b = true)
    (counted : s'.numBytesAllocated = liveBytes (pre ++ mid' ++ post)) :
    s'.Layout (pre ++ mid' ++ post) := by
  obtain ⟨sameBegin, sameEnd, sameLength, sameFreeEnd⟩ := same
  have sameEndSlot : s'.endSlot = s.endSlot := by simp only [endSlot, sameBegin, sameEnd, sameFreeEnd]
  have oldTiles := layout.tiles
  rw [List.append_assoc, tiles_append, tiles_append, Nat.zero_add] at oldTiles
  obtain ⟨preTiles, -, postTiles⟩ := And.intro oldTiles.1 oldTiles.2
  have sameCover : cover mid' = cover mid := by
    have := tiles.endSlot_eq
    omega
  have newTiles : s'.Tiles 0 0 (pre ++ mid' ++ post) s'.endSlot := by
    rw [List.append_assoc, tiles_append, tiles_append, Nat.zero_add, sameCover, endsSame, sameEndSlot]
    refine ⟨preTiles.congr fun q _ below => outside q (.inl below), tiles, postTiles.congr fun q above _ => ?_⟩
    exact outside q (.inr above)
  refine ⟨?_, ?_, newTiles, ?_, sorted, fun q => ?_, counted⟩
  · rw [sameBegin, sameEnd, sameLength]
    exact layout.capacity
  · rw [sameBegin, sameEnd, sameFreeEnd]
    exact layout.freeEnd
  · rw [List.append_assoc, prevFreeAfter_append, prevFreeAfter_append, endsSame, ← prevFreeAfter_append,
      ← prevFreeAfter_append, ← List.append_assoc]
    exact layout.endsLive
  · rw [newTiles.mem_starts_append₃, sameCover]
    by_cases middle : cover pre ≤ q ∧ q < cover pre + cover mid
    · rw [inside q middle.1 middle.2]
      constructor
      · rintro ⟨start, free⟩
        exact ⟨.inr (.inl ⟨middle, start⟩), free⟩
      · rintro ⟨early | ⟨-, start⟩ | late, free⟩
        · omega
        · exact ⟨start, free⟩
        · omega
    · have away : q < cover pre ∨ cover pre + cover mid ≤ q := by omega
      rw [keep q away, layout.freeBlocks, layout.tiles.mem_starts_append₃, outside q away]
      constructor
      · rintro ⟨early | ⟨within, -⟩ | late, free⟩
        · exact ⟨.inl early, free⟩
        · exact absurd within middle
        · exact ⟨.inr (.inr late), free⟩
      · rintro ⟨early | ⟨within, -⟩ | late, free⟩
        · exact ⟨.inl early, free⟩
        · exact absurd within middle
        · exact ⟨.inr (.inr late), free⟩

/-! ## `Alloc` from the end region -/

/-- **`Alloc` from the end region keeps the layout**, in a space under `2 ^ 30` bytes: a block
that is not free, of the request's pages, follows the blocks. -/
theorem finishAlloc_end_layout {blocks : List Block} (layout : s.Layout blocks) (small : s.end_ - s.begin < 2 ^ 30)
    {size : Nat} (positive : 0 < size) (aligned : size % kAlignment = 0) (enough : size ≤ s.freeEnd) :
    ∃ s', ({ s with freeEnd := s.freeEnd - size } : FreeListSpace).finishAlloc size s.endSlot =
        some (s', some (s.getAllocationAddressForSlot s.endSlot, size)) ∧
      s'.Layout (blocks ++ [⟨false, size / kAlignment⟩]) ∧
      s'.begin = s.begin ∧ s'.end_ = s.end_ ∧ s'.freeEnd = s.freeEnd - size := by
  obtain ⟨⟨alignedCapacity, length⟩, ⟨within, alignedEnd⟩⟩ := And.intro layout.capacity layout.freeEnd
  have covered := layout.tiles.endSlot_eq
  have live := liveBytes_le blocks
  have inside : s.endSlot < s.infos.length := by
    rw [length, endSlot]
    unfold kAlignment at *
    omega
  refine ⟨_, finishAlloc_of_lt (s := { s with freeEnd := s.freeEnd - size }) (by omega) aligned inside, ?_, rfl, rfl, rfl⟩
  set entry := AllocationInfo.encode 0 (size / kAlignment) false
  set s' : FreeListSpace := ⟨s.begin, s.end_, s.allocationInfo, s.infos.set s.endSlot entry, s.freeBlocks,
    s.freeEnd - size, s.numObjectsAllocated + 1, (s.numBytesAllocated + size) % 2 ^ 64⟩
  show s'.Layout _
  have infoAt' : ∀ q, s'.infoAt q = if q = s.endSlot then entry else s.infoAt q := infoAt_of_set rfl inside
  have pages : size / kAlignment < 2 ^ 30 := by
    unfold kAlignment
    omega
  have endSlot' : s'.endSlot = s.endSlot + size / kAlignment := by
    simp only [endSlot, s']
    unfold kAlignment at *
    omega
  -- the entries of `free_blocks_` are first slots of blocks, below the new one
  have below : ∀ q ∈ s.freeBlocks, q < s.endSlot :=
    fun q member => (layout.tiles.lt_of_mem_starts ((layout.freeBlocks q).1 member).1).2
  have kept : ∀ q, q < s.endSlot → s'.infoAt q = s.infoAt q := fun q before => by
    rw [infoAt', if_neg (by omega)]
  refine ⟨⟨alignedCapacity, by simpa [s'] using length⟩, ⟨by simp only [s']; omega, ?_⟩, ?_, ?_, ?_, ?_, ?_⟩
  · simp only [s']
    unfold kAlignment at *
    omega
  · rw [tiles_append]
    refine ⟨(covered ▸ layout.tiles).congr fun q _ before => kept q (by omega), ?_⟩
    rw [← covered, layout.endsLive, endSlot']
    rw [Tiles, Tiles, infoAt', if_pos rfl]
    refine ⟨?_, rfl, AllocationInfo.alignSize_of_lt pages false, AllocationInfo.isFree_of_lt pages false,
      fun _ => rfl, rfl⟩
    show 0 < size / kAlignment
    unfold kAlignment at *
    omega
  · rw [prevFreeAfter_append, layout.endsLive]
    rfl
  · refine layout.sorted.imp_of_mem fun {a b} first second ordered => ?_
    have keyA : s'.sortKey a = s.sortKey a := sortKey_congr rfl (kept a (below a first))
    have keyB : s'.sortKey b = s.sortKey b := sortKey_congr rfl (kept b (below b second))
    rw [slotLt, keyA, keyB]
    exact ordered
  · intro slot
    rw [starts_append, ← covered, List.mem_append, infoAt']
    constructor
    · intro member
      have before := below slot member
      obtain ⟨start, free⟩ := (layout.freeBlocks slot).1 member
      exact ⟨Or.inl start, by rwa [if_neg (by omega)]⟩
    · rintro ⟨start | last, free⟩
      · have before := (layout.tiles.lt_of_mem_starts start).2
        rw [if_neg (by omega)] at free
        exact (layout.freeBlocks slot).2 ⟨start, free⟩
      · simp only [starts, List.mem_singleton] at last
        rw [if_pos last] at free
        exact absurd rfl free
  · have wide : s.numBytesAllocated + size < 2 ^ 64 := by
      rw [layout.numBytesAllocated]
      unfold kAlignment at *
      omega
    rw [show s'.numBytesAllocated = s.numBytesAllocated + size from Nat.mod_eq_of_lt wide, liveBytes_append,
      layout.numBytesAllocated]
    simp [liveBytes, Nat.div_mul_cancel (Nat.dvd_of_mod_eq_zero aligned)]

/-! ## Runs of `Alloc` in a space with no free block -/

/-- `Alloc` of each size in turn, with what each returns. -/
def allocAll (s : FreeListSpace) (tempInfo : Nat) : List Nat → Option (FreeListSpace × List (Option (Nat × Nat)))
  | [] => some (s, [])
  | numBytes :: rest => do
      let (s, object) ← s.alloc tempInfo numBytes
      let (s, objects) ← s.allocAll tempInfo rest
      some (s, object :: objects)

/-- No block is free, so every `prev_free_` at a block's first slot is zero. -/
theorem Tiles.prevFree_of_live {slot endSlot : Nat} {blocks : List Block} (tiles : s.Tiles slot 0 blocks endSlot)
    (live : ∀ b ∈ blocks, b.free = false) : ∀ q ∈ starts slot blocks, (s.infoAt q).prevFree = 0 := by
  induction blocks generalizing slot with
  | nil => simp [starts]
  | cons b rest ih =>
      obtain ⟨-, prevFreeAt, -, -, -, restTiles⟩ := tiles
      obtain ⟨notFree, restLive⟩ := List.forall_mem_cons.mp live
      rw [Block.prevFreeAfter, notFree, if_neg Bool.false_ne_true] at restTiles
      intro q member
      rw [starts, List.mem_cons] at member
      rcases member with rfl | later
      · exact prevFreeAt
      · exact ih restTiles restLive q later

/-- With no free block, `free_blocks_` is empty. -/
theorem Layout.freeBlocks_eq_nil {blocks : List Block} (layout : s.Layout blocks)
    (live : ∀ b ∈ blocks, b.free = false) : s.freeBlocks = [] := by
  refine List.eq_nil_iff_forall_not_mem.mpr fun q member => ?_
  obtain ⟨start, free⟩ := (layout.freeBlocks q).mp member
  exact free (layout.tiles.prevFree_of_live live q start)

/-- Below `2 ^ 30` bytes `RoundUp` to a page does not wrap: a request rounds to whole pages, one
at least. -/
theorem roundUp_of_lt {numBytes : Nat} (positive : 0 < numBytes) (small : numBytes < 2 ^ 30) :
    0 < roundUp numBytes kAlignment ∧ roundUp numBytes kAlignment % kAlignment = 0 := by
  rw [roundUp, Nat.mod_eq_of_lt (by unfold kAlignment; omega)]
  unfold kAlignment
  omega

/-- **`Alloc` in a space with no free block**: `lower_bound` finds nothing, so the object is the
front of the end region, as `finishAlloc_end_layout` has it. -/
theorem alloc_of_live {blocks : List Block} (layout : s.Layout blocks) (live : ∀ b ∈ blocks, b.free = false)
    (small : s.end_ - s.begin < 2 ^ 30) (tempInfo : Nat) {numBytes : Nat} (positive : 0 < numBytes)
    (below : numBytes < 2 ^ 30) (enough : roundUp numBytes kAlignment ≤ s.freeEnd) :
    ∃ s', s.alloc tempInfo numBytes =
        some (s', some (s.getAllocationAddressForSlot s.endSlot, roundUp numBytes kAlignment)) ∧
      s'.Layout (blocks ++ [⟨false, roundUp numBytes kAlignment / kAlignment⟩]) ∧
      s'.begin = s.begin ∧ s'.end_ = s.end_ ∧ s'.freeEnd = s.freeEnd - roundUp numBytes kAlignment := by
  obtain ⟨sized, aligned⟩ := roundUp_of_lt positive below
  obtain ⟨s', finished, kept⟩ := finishAlloc_end_layout layout small sized aligned enough
  have within := layout.freeEnd.1
  have slot : s.getSlotIndexForAddress (s.end_ - s.freeEnd) = some s.endSlot := by
    rw [getSlotIndexForAddress, if_pos (by omega), endSlot]
  have noFit : ∀ key, s.lowerBound key = none := fun key => by simp [lowerBound, layout.freeBlocks_eq_nil live]
  refine ⟨s', ?_, kept⟩
  simp [alloc, noFit, AllocationInfo.setPrevFreeBytes, AllocationInfo.setByteSize, aligned, enough, slot, finished]

theorem liveBlocks_append (slot : Nat) (blocks more : List Block) :
    s.liveBlocks slot (blocks ++ more) = s.liveBlocks slot blocks ++ s.liveBlocks (slot + cover blocks) more := by
  induction blocks generalizing slot with
  | nil => simp [liveBlocks]
  | cons b rest ih => cases free : b.free <;> simp [liveBlocks, free, ih, Nat.add_assoc]

/-- `Walk` reads the space's bounds only through `begin_`. -/
theorem liveBlocks_congr (same : s'.begin = s.begin) (slot : Nat) (blocks : List Block) :
    s'.liveBlocks slot blocks = s.liveBlocks slot blocks := by
  induction blocks generalizing slot with
  | nil => rfl
  | cons b rest ih => simp [liveBlocks, getAllocationAddressForSlot, same, ih]

/-- **A run of `Alloc`s in a space with no free block** that leaves room in the end region: each
object is the front of the end region, so `Walk` then reports the blocks that were there and the
objects in the order they were allocated. -/
theorem allocAll_walk (tempInfo : Nat) (sizes : List Nat) {blocks : List Block} (layout : s.Layout blocks)
    (live : ∀ b ∈ blocks, b.free = false) (small : s.end_ - s.begin < 2 ^ 30)
    (bounded : ∀ n ∈ sizes, 0 < n ∧ n < 2 ^ 30) (fits : (sizes.map (roundUp · kAlignment)).sum < s.freeEnd) :
    ∃ s' objects, s.allocAll tempInfo sizes = some (s', objects.map some) ∧
      s'.walk = some (s.liveBlocks 0 blocks ++ objects) := by
  induction sizes generalizing s blocks with
  | nil =>
      refine ⟨s, [], rfl, ?_⟩
      rw [List.append_nil]
      exact walk_layout layout (by simpa using fits)
  | cons numBytes rest ih =>
      obtain ⟨⟨positive, below⟩, restBounded⟩ := List.forall_mem_cons.mp bounded
      rw [List.map_cons, List.sum_cons] at fits
      obtain ⟨s₁, allocated, layout₁, begin₁, end₁, freeEnd₁⟩ :=
        alloc_of_live layout live small tempInfo positive below (by omega)
      have live₁ : ∀ b ∈ blocks ++ [⟨false, roundUp numBytes kAlignment / kAlignment⟩], b.free = false := by
        intro b member
        rcases List.mem_append.mp member with old | new
        · exact live b old
        · rw [List.mem_singleton.mp new]
      obtain ⟨s', objects, run, walked⟩ :=
        ih layout₁ live₁ (by rw [begin₁, end₁]; exact small) restBounded (by rw [freeEnd₁]; omega)
      refine ⟨s', (s.getAllocationAddressForSlot s.endSlot, roundUp numBytes kAlignment) :: objects,
        by simp [allocAll, allocated, run], ?_⟩
      -- the new block follows the old ones: it starts at the first slot of the end region
      have aligned := (roundUp_of_lt positive below).2
      rw [walked, liveBlocks_congr begin₁, liveBlocks_append, ← zero_add s.endSlot, ← layout.tiles.endSlot_eq]
      simp [liveBlocks, Nat.div_mul_cancel (Nat.dvd_of_mod_eq_zero aligned)]

/-- **`Walk` after a run of `Alloc`s** on a new space under `2 ^ 30` bytes that leaves room in the
end region: it reports the objects that `Alloc` returned, in the order it returned them. -/
theorem create_allocAll_walk (begin capacity allocationInfo tempInfo : Nat) (aligned : capacity % kAlignment = 0)
    (small : capacity < 2 ^ 30) (sizes : List Nat) (bounded : ∀ n ∈ sizes, 0 < n ∧ n < 2 ^ 30)
    (fits : (sizes.map (roundUp · kAlignment)).sum < capacity) :
    ∃ s s' objects, create begin capacity allocationInfo = some s ∧
      s.allocAll tempInfo sizes = some (s', objects.map some) ∧ s'.walk = some objects := by
  have created : create begin capacity allocationInfo = some ⟨begin, begin + capacity, allocationInfo,
      List.replicate (capacity / kAlignment) {}, [], capacity, 0, 0⟩ := by
    rw [create, if_neg (not_not.mpr aligned)]
  obtain ⟨s', objects, run, walked⟩ :=
    allocAll_walk tempInfo sizes (create_layout created) (by simp) (by simpa using small) bounded fits
  exact ⟨_, s', objects, created, run, by simpa [liveBlocks] using walked⟩

theorem four_pages_allocAll_walk :
    16384 % kAlignment = 0 ∧ ∃ s s' objects, create 0 16384 0 = some s ∧
      s.allocAll 0 [100, 5000] = some (s', objects.map some) ∧ s'.walk = some objects :=
  ⟨by decide, create_allocAll_walk 0 16384 0 0 (by decide) (by decide) [100, 5000] (by decide) (by decide)⟩

end FreeListSpace

end Art.Runtime.Gc.Space
