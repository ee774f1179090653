import Mathlib.Data.List.Basic
import Art.Machine.OrderedSet

/-!
# The free-list large object space

A `FreeListSpace` (`large_object_space.cc`) hands out page-aligned blocks of one mapping. It
keeps a side table with one `AllocationInfo` for each page, of which only the entry of the
first page of a block means anything: `alloc_size_` is the block's size in pages with a free
flag, and `prev_free_` is the size in pages of the free block just before it, or 0. The free
blocks are found through `free_blocks_`, the `std::set` of the entries that follow a free
block, ordered by `SortByPrevFree`: the pages free before the entry, then the entry's own
pages, then its address. The pages from `End() - free_end_` on are free and have no entry.

`Alloc` rounds the request up to whole pages and asks `free_blocks_` for the least entry not
below a key with that many pages free before it; it takes the front of that free block, or
else the front of the free region at the end. `Free` marks the block free and merges it with a
free block just before it, and with a free block or the end region just after it. `Walk`
follows `GetNextInfo` from the first entry to the entry of `End() - free_end_`; a block whose
size is 0 pages is a step that goes nowhere (`walkFrom_stuck`).

**Fields of 32 bits.** `prev_free_` and `alloc_size_` are `uint32_t`, and `SetPrevFreeBytes`
and `SetByteSize` store the page count without a check that it fits (the `DCHECK` of
`SetByteSize` masks the bytes, not the pages). A request of `2 ^ 44` bytes is `2 ^ 32` pages,
so the key that `Alloc` searches with has 0 pages free before it, and `lower_bound` returns the
first free block whatever its size. `Alloc` hands out the front of a free page as a block of
`2 ^ 44` bytes whose `alloc_size_` is 0 pages, and the walk of the table never leaves it
(`alloc_truncates_page_count`). Below `2 ^ 44 - kAlignment` bytes, in a space under `2 ^ 30`
bytes, every run of `Alloc` and `Free` keeps the table a layout of the space
(`LargeObjectSpace.Runs`).

A slot is the index of a page and of its entry. `size_t` arithmetic is taken modulo `2 ^ 64`
where it wraps in these functions and an entry's fields modulo `2 ^ 32`; the counters of
objects are numbers. The address of the local `temp_info` of `Alloc`, which `SortByPrevFree`
compares with entries of equal keys, is a parameter. `total_objects_allocated_` and
`total_bytes_allocated_`, which nothing here reads, and the `madvise` and `mprotect` calls are
left out. A failed `DCHECK` or `CHECK` is `none`.
-/

set_option autoImplicit false

namespace Art.Runtime.Gc.Space

open Art.Machine

/-- `FreeListSpace::kAlignment`: `kPageSize`. -/
def kAlignment : Nat := 4096

/-- `RoundUp(x, n)` on `size_t`: `RoundDown(x + n - 1, n)`. -/
def roundUp (x n : Nat) : Nat := (x + n - 1) % 2 ^ 64 / n * n

/-- `AllocationInfo`: `prev_free_` and `alloc_size_`, both `uint32_t`. -/
structure AllocationInfo where
  prevFree : Nat := 0
  allocSize : Nat := 0
  deriving DecidableEq, Repr

namespace AllocationInfo

/-- `kFlagFree`. -/
def kFlagFree : Nat := 0x80000000

/-- `kFlagZygote`. -/
def kFlagZygote : Nat := 0x40000000

/-- `kFlagsMask`: `~(kFlagFree | kFlagZygote)` as a `uint32_t`. -/
def kFlagsMask : Nat := (2 ^ 32 - 1) ^^^ (kFlagFree ||| kFlagZygote)

/-- `AlignSize()`: the pages of the block. -/
def alignSize (info : AllocationInfo) : Nat := info.allocSize &&& kFlagsMask

/-- `ByteSize()`. -/
def byteSize (info : AllocationInfo) : Nat := info.alignSize * kAlignment

/-- `SetByteSize(size, free)`: its `DCHECK_EQ(size & ~kFlagsMask, 0u)` tests the bytes. -/
def setByteSize (info : AllocationInfo) (size : Nat) (free : Bool) : Option AllocationInfo :=
  if size &&& ((2 ^ 32 - 1) ^^^ kFlagsMask) ≠ 0 then none
  else if size % kAlignment ≠ 0 then none
  else some { info with allocSize := (size / kAlignment ||| if free then kFlagFree else 0) % 2 ^ 32 }

/-- `IsFree()`. -/
def isFree (info : AllocationInfo) : Bool := info.allocSize &&& kFlagFree != 0

/-- `GetPrevFreeBytes()`. -/
def getPrevFreeBytes (info : AllocationInfo) : Nat := info.prevFree * kAlignment

/-- `SetPrevFreeBytes(bytes)`. -/
def setPrevFreeBytes (info : AllocationInfo) (bytes : Nat) : Option AllocationInfo :=
  if bytes % kAlignment ≠ 0 then none else some { info with prevFree := bytes / kAlignment % 2 ^ 32 }

end AllocationInfo

/-- What `SortByPrevFree` reads of an `AllocationInfo*`: `GetPrevFree()`, `AlignSize()` and the
pointer. -/
structure SortKey where
  prevFree : Nat
  alignSize : Nat
  address : Nat
  deriving DecidableEq, Repr

/-- `SortByPrevFree::operator()`. -/
def sortByPrevFree (a b : SortKey) : Bool :=
  if a.prevFree < b.prevFree then true
  else if a.prevFree > b.prevFree then false
  else if a.alignSize < b.alignSize then true
  else if a.alignSize > b.alignSize then false
  else a.address < b.address

/-- A `FreeListSpace`: `begin_`, `end_`, the address `allocation_info_` of the side table and its
entries, `free_blocks_` as the slots of its entries in the set's order, `free_end_`,
`num_objects_allocated_` and `num_bytes_allocated_`. -/
structure FreeListSpace where
  begin : Nat
  end_ : Nat
  allocationInfo : Nat
  infos : List AllocationInfo
  freeBlocks : List Nat
  freeEnd : Nat
  numObjectsAllocated : Nat
  numBytesAllocated : Nat
  deriving DecidableEq, Repr

namespace FreeListSpace

/-- `Create(name, requested_begin, size)`: `CHECK_EQ(size % kAlignment, 0U)`, a zero-filled side
table, and the whole space the free region at the end. -/
def create (begin capacity allocationInfo : Nat) : Option FreeListSpace :=
  if capacity % kAlignment ≠ 0 then none
  else some ⟨begin, begin + capacity, allocationInfo, List.replicate (capacity / kAlignment) {}, [], capacity, 0, 0⟩

/-- `GetSlotIndexForAddress(address)`, with its `DCHECK(Contains(address))`. -/
def getSlotIndexForAddress (s : FreeListSpace) (address : Nat) : Option Nat :=
  if s.begin ≤ address ∧ address < s.end_ then some ((address - s.begin) / kAlignment) else none

/-- `GetAllocationAddressForSlot(slot)`. -/
def getAllocationAddressForSlot (s : FreeListSpace) (slot : Nat) : Nat := s.begin + slot * kAlignment

/-- `allocation_info_[slot]`. -/
def infoAt (s : FreeListSpace) (slot : Nat) : AllocationInfo := s.infos.getD slot {}

/-- The key `SortByPrevFree` reads of the entry of `slot`; an entry takes 8 bytes. -/
def sortKey (s : FreeListSpace) (slot : Nat) : SortKey :=
  ⟨(s.infoAt slot).prevFree, (s.infoAt slot).alignSize, s.allocationInfo + 8 * slot⟩

/-- `SortByPrevFree` on the entries of two slots. -/
def slotLt (s : FreeListSpace) (a b : Nat) : Bool := sortByPrevFree (s.sortKey a) (s.sortKey b)

/-- `GetPrevFreeInfo()` of the entry of `slot`, with its `DCHECK_NE(prev_free_, 0U)`. -/
def getPrevFreeInfo (s : FreeListSpace) (slot : Nat) : Option Nat :=
  if (s.infoAt slot).prevFree = 0 then none else some (slot - (s.infoAt slot).prevFree)

/-- `SetPrevFreeBytes(bytes)` on the entry of `slot`. -/
def setPrevFreeBytes (s : FreeListSpace) (slot bytes : Nat) : Option FreeListSpace :=
  ((s.infoAt slot).setPrevFreeBytes bytes).map fun info => { s with infos := s.infos.set slot info }

/-- `SetByteSize(size, free)` on the entry of `slot`. -/
def setByteSize (s : FreeListSpace) (slot size : Nat) (free : Bool) : Option FreeListSpace :=
  ((s.infoAt slot).setByteSize size free).map fun info => { s with infos := s.infos.set slot info }

/-- `free_blocks_.insert(info)` of the entry of `slot`. -/
def insertFreeBlock (s : FreeListSpace) (slot : Nat) : FreeListSpace :=
  { s with freeBlocks := OrderedSet.insertBy s.slotLt slot s.freeBlocks }

/-- `RemoveFreePrev(info)`: `lower_bound(info)` must find the entry itself, which is erased. -/
def removeFreePrev (s : FreeListSpace) (slot : Nat) : Option FreeListSpace :=
  if (s.infoAt slot).prevFree = 0 then none
  else match OrderedSet.lowerBound s.slotLt slot s.freeBlocks with
    | some found => if found = slot then some { s with freeBlocks := s.freeBlocks.erase slot } else none
    | none => none

/-! ## `Walk` -/

/-- The loop of `Walk` from `cur_info` while `cur_info < end_info`, then its
`CHECK_EQ(cur_info, end_info)`: the address and size of each block that is not free. Each
step is paid for by `fuel`; without it the loop has not ended. -/
def walkFrom (s : FreeListSpace) (endInfo : Nat) : Nat → Nat → Option (List (Nat × Nat))
  | fuel, curInfo =>
      if curInfo < endInfo then
        match fuel with
        | 0 => none
        | fuel + 1 => do
            let info := s.infoAt curInfo
            let rest ← s.walkFrom endInfo fuel (curInfo + info.alignSize)
            if info.isFree then some rest
            else some ((s.getAllocationAddressForSlot curInfo, info.byteSize) :: rest)
      else if curInfo = endInfo then some []
      else none

/-- `Walk(callback, arg)`: the blocks it reports, walking at most one step for each page. -/
def walk (s : FreeListSpace) : Option (List (Nat × Nat)) := do
  let endInfo ← s.getSlotIndexForAddress (s.end_ - s.freeEnd)
  s.walkFrom endInfo endInfo 0

/-! ## `Alloc` -/

/-- `free_blocks_.lower_bound(&temp_info)` for the key `temp` of `temp_info`. -/
def lowerBound (s : FreeListSpace) (temp : SortKey) : Option Nat :=
  s.freeBlocks.find? fun slot => !sortByPrevFree (s.sortKey slot) temp

/-- The first branch of `Alloc`: the front of the free block before the entry `info` that
`lower_bound` found. What is left of the free block stays free and `info` goes back into the
set. It returns the slot of the new block. -/
def allocFromFreeBlock (s : FreeListSpace) (allocationSize info : Nat) : Option (FreeListSpace × Nat) := do
  let s := { s with freeBlocks := s.freeBlocks.erase info }
  let newInfo ← s.getPrevFreeInfo info
  let s ← s.setPrevFreeBytes info (((s.infoAt info).getPrevFreeBytes + 2 ^ 64 - allocationSize) % 2 ^ 64)
  if (s.infoAt info).getPrevFreeBytes > 0 then
    let newFree := info - (s.infoAt info).prevFree
    let s ← s.setPrevFreeBytes newFree 0
    let s ← s.setByteSize newFree (s.infoAt info).getPrevFreeBytes true
    some (s.insertFreeBlock info, newInfo)
  else some (s, newInfo)

/-- The end of `Alloc` once it has the slot of the new block: the counters, the entry of the
block, and the object with the bytes it takes. -/
def finishAlloc (s : FreeListSpace) (allocationSize newInfo : Nat) :
    Option (FreeListSpace × Option (Nat × Nat)) := do
  let s := { s with
    numObjectsAllocated := s.numObjectsAllocated + 1
    numBytesAllocated := (s.numBytesAllocated + allocationSize) % 2 ^ 64 }
  let s ← s.setPrevFreeBytes newInfo 0
  let s ← s.setByteSize newInfo allocationSize false
  some (s, some (s.getAllocationAddressForSlot newInfo, allocationSize))

/-- `Alloc(num_bytes, ...)`: the object and `*bytes_allocated`, or `nullptr` (`none`) with the
space unchanged. `tempInfo` is the address of the local `temp_info`. -/
def alloc (s : FreeListSpace) (tempInfo numBytes : Nat) : Option (FreeListSpace × Option (Nat × Nat)) := do
  let allocationSize := roundUp numBytes kAlignment
  let temp ← ({} : AllocationInfo).setPrevFreeBytes allocationSize
  let temp ← temp.setByteSize 0 false
  match s.lowerBound ⟨temp.prevFree, temp.alignSize, tempInfo⟩ with
  | some info =>
      let (s, newInfo) ← s.allocFromFreeBlock allocationSize info
      s.finishAlloc allocationSize newInfo
  | none =>
      if s.freeEnd ≥ allocationSize then
        let newInfo ← s.getSlotIndexForAddress (s.end_ - s.freeEnd)
        { s with freeEnd := s.freeEnd - allocationSize }.finishAlloc allocationSize newInfo
      else some (s, none)

/-! ## `Free` -/

/-- The first merge of `Free`: with the free block before the block at `slot`, if there is one.
It returns the first slot of the free block so far and its size. -/
def mergePrevious (s : FreeListSpace) (slot allocationSize : Nat) : Option (FreeListSpace × Nat × Nat) := do
  let prevFreeBytes := (s.infoAt slot).getPrevFreeBytes
  if prevFreeBytes ≠ 0 then
    let s ← s.removeFreePrev slot
    let info ← s.getPrevFreeInfo slot
    -- `DCHECK_EQ(info->GetPrevFreeBytes(), 0U)`: the block before a free block is not free
    if (s.infoAt info).getPrevFreeBytes ≠ 0 then none
    some (s, info, allocationSize + prevFreeBytes)
  else some (s, slot, allocationSize)

/-- The second merge of `Free`, of the free block at `info` whose end is the entry `nextInfo`:
with the end region, or else with a free block after it, whose following entry then records
the size of the whole. -/
def mergeNext (s : FreeListSpace) (info nextInfo freeEndStart newFreeSize : Nat) : Option FreeListSpace := do
  let nextAddr := s.getAllocationAddressForSlot nextInfo
  if nextAddr ≥ freeEndStart then
    if nextAddr ≠ freeEndStart then none
    some { s with freeEnd := s.freeEnd + newFreeSize }
  else
    let (s, newFreeInfo, newFreeSize) ← if (s.infoAt nextInfo).isFree then do
        let nextNextInfo := nextInfo + (s.infoAt nextInfo).alignSize
        -- `DCHECK(!next_next_info->IsFree())`
        if (s.infoAt nextNextInfo).isFree then none
        let newFreeSize := newFreeSize + (s.infoAt nextNextInfo).getPrevFreeBytes
        let s ← s.removeFreePrev nextNextInfo
        some (s, nextNextInfo, newFreeSize)
      else some (s, nextInfo, newFreeSize)
    let s ← s.setPrevFreeBytes newFreeInfo newFreeSize
    let s := s.insertFreeBlock newFreeInfo
    let s ← s.setByteSize info newFreeSize true
    -- `DCHECK_EQ(info->GetNextInfo(), new_free_info)`
    if info + (s.infoAt info).alignSize ≠ newFreeInfo then none
    some s

/-- `Free(obj)`: the bytes freed. -/
def free (s : FreeListSpace) (obj : Nat) : Option (FreeListSpace × Nat) := do
  let slot ← s.getSlotIndexForAddress obj
  if obj % kAlignment ≠ 0 then none
  let info := s.infoAt slot
  if info.isFree then none
  let allocationSize := info.byteSize
  if allocationSize = 0 then none
  let s ← s.setByteSize slot allocationSize true
  let nextInfo := slot + (s.infoAt slot).alignSize
  let freeEndStart := s.end_ - s.freeEnd
  let (s, info, newFreeSize) ← s.mergePrevious slot allocationSize
  let s ← s.mergeNext info nextInfo freeEndStart newFreeSize
  -- `DCHECK_LE(allocation_size, num_bytes_allocated_)`
  if allocationSize > s.numBytesAllocated then none
  some ({ s with
    numObjectsAllocated := s.numObjectsAllocated - 1
    numBytesAllocated := s.numBytesAllocated - allocationSize }, allocationSize)

@[simp] theorem sortKey_prevFree (s : FreeListSpace) (slot : Nat) : (s.sortKey slot).prevFree = (s.infoAt slot).prevFree := rfl

@[simp] theorem sortKey_alignSize (s : FreeListSpace) (slot : Nat) :
    (s.sortKey slot).alignSize = (s.infoAt slot).alignSize := rfl

/-- A block of no pages is a step of the walk that goes nowhere: from it the walk never ends. -/
theorem walkFrom_stuck {s : FreeListSpace} {endInfo curInfo : Nat} (empty : (s.infoAt curInfo).alignSize = 0)
    (before : curInfo < endInfo) (fuel : Nat) : s.walkFrom endInfo fuel curInfo = none := by
  induction fuel with
  | zero => simp [walkFrom, before]
  | succ fuel ih => simp [walkFrom, before, empty, ih]

end FreeListSpace

/-! ## The key of the search -/

section SortByPrevFree

variable {a b : SortKey}

/-- An entry below another has no more pages free before it. -/
theorem prevFree_le_of_sortByPrevFree (below : sortByPrevFree a b = true) : a.prevFree ≤ b.prevFree := by
  unfold sortByPrevFree at below
  split_ifs at below <;> omega

/-- An entry not below a key has at least the key's pages free before it. -/
theorem le_prevFree_of_not_sortByPrevFree (notBelow : sortByPrevFree a b = false) : b.prevFree ≤ a.prevFree := by
  unfold sortByPrevFree at notBelow
  split_ifs at notBelow <;> omega

/-- Below a key of no pages of its own: fewer pages free before it, or as many and no pages of
its own either. -/
theorem lt_prevFree_of_sortByPrevFree (zero : b.alignSize = 0) (below : sortByPrevFree a b = true) :
    a.prevFree < b.prevFree ∨ a.prevFree = b.prevFree ∧ a.alignSize = 0 := by
  unfold sortByPrevFree at below
  split_ifs at below <;> omega

/-- `SortByPrevFree` orders by the pages free before, then the pages, then the address. -/
theorem sortByPrevFree_iff : sortByPrevFree a b = true ↔ a.prevFree < b.prevFree ∨ a.prevFree = b.prevFree ∧
    (a.alignSize < b.alignSize ∨ a.alignSize = b.alignSize ∧ a.address < b.address) := by
  unfold sortByPrevFree
  split_ifs <;> simp <;> omega

theorem sortByPrevFree_irrefl (a : SortKey) : sortByPrevFree a a = false := by
  rw [← Bool.not_eq_true, sortByPrevFree_iff]
  omega

theorem sortByPrevFree_trans {c : SortKey} (first : sortByPrevFree a b = true) (second : sortByPrevFree b c = true) :
    sortByPrevFree a c = true := by
  rw [sortByPrevFree_iff] at first second ⊢
  omega

/-- Two keys at different addresses are ordered one way or the other. -/
theorem sortByPrevFree_total (apart : a.address ≠ b.address) :
    sortByPrevFree a b = true ∨ sortByPrevFree b a = true := by
  rw [sortByPrevFree_iff, sortByPrevFree_iff]
  omega

end SortByPrevFree

namespace FreeListSpace

variable (s : FreeListSpace)

/-! The entries of two slots are at two addresses, so `SortByPrevFree` orders the slots strictly. -/

theorem slotLt_irrefl (a : Nat) : s.slotLt a a = false := sortByPrevFree_irrefl _

theorem slotLt_trans (a b c : Nat) (first : s.slotLt a b = true) (second : s.slotLt b c = true) : s.slotLt a c = true :=
  sortByPrevFree_trans first second

theorem slotLt_total {a b : Nat} (apart : a ≠ b) : s.slotLt a b = true ∨ s.slotLt b a = true :=
  sortByPrevFree_total (by simp only [sortKey]; omega)

/-- A sorted set holds each slot once. -/
theorem nodup_of_sorted {slots : List Nat} (sorted : slots.Pairwise fun a b => s.slotLt a b = true) : slots.Nodup :=
  sorted.imp fun {a b} below same => by
    subst same
    simp [slotLt_irrefl] at below

end FreeListSpace

namespace FreeListSpace

/-- **`lower_bound` finds a smallest free block that fits**, on a sorted set and for a key of no
pages of its own: the entry it finds has at least the key's pages free before it, and every
entry with as many and with pages of its own has at least as many as it. -/
theorem lowerBound_smallest {s : FreeListSpace} {temp : SortKey} {info : Nat}
    (sorted : s.freeBlocks.Pairwise fun a b => s.slotLt a b = true) (zero : temp.alignSize = 0)
    (found : s.lowerBound temp = some info) :
    temp.prevFree ≤ (s.infoAt info).prevFree ∧
      ∀ slot ∈ s.freeBlocks, temp.prevFree ≤ (s.infoAt slot).prevFree → 0 < (s.infoAt slot).alignSize →
        (s.infoAt info).prevFree ≤ (s.infoAt slot).prevFree := by
  obtain ⟨passes, front, back, split, skipped⟩ := List.find?_eq_some_iff_append.1 found
  have fits := le_prevFree_of_not_sortByPrevFree (by simpa using passes)
  refine ⟨by simpa using fits, fun slot member enough sized => ?_⟩
  rw [split] at member sorted
  rcases List.mem_append.1 member with early | late
  · -- an entry that `lower_bound` passed over is below the key
    have below : sortByPrevFree (s.sortKey slot) temp = true := by simpa using skipped slot early
    rcases lt_prevFree_of_sortByPrevFree zero below with fewer | ⟨-, none⟩
    · simp only [sortKey_prevFree] at fewer
      omega
    · simp only [sortKey_alignSize] at none
      omega
  · rcases List.mem_cons.1 late with rfl | later
    · exact Nat.le_refl _
    · simpa using prevFree_le_of_sortByPrevFree (List.rel_of_pairwise_cons (List.pairwise_append.1 sorted).2.1 later)

/-- Below `2 ^ 44` bytes, `SetPrevFreeBytes` stores the pages of the request. -/
theorem setPrevFreeBytes_temp {allocationSize : Nat} (aligned : allocationSize % kAlignment = 0)
    (small : allocationSize < 2 ^ 44) :
    ({} : AllocationInfo).setPrevFreeBytes allocationSize = some ⟨allocationSize / kAlignment, 0⟩ := by
  have pages : allocationSize / kAlignment % 2 ^ 32 = allocationSize / kAlignment := by
    apply Nat.mod_eq_of_lt
    unfold kAlignment
    omega
  simp only [AllocationInfo.setPrevFreeBytes, aligned, ne_eq, not_true_eq_false, if_false, pages]

/-- `SetByteSize(0, false)` keeps an entry of no pages as it is. -/
theorem setByteSize_temp (pages : Nat) : (⟨pages, 0⟩ : AllocationInfo).setByteSize 0 false = some ⟨pages, 0⟩ := by
  simp [AllocationInfo.setByteSize]

/-- A write of one entry of the side table changes nothing else. -/
theorem map_setInfo_eq_some {s s' : FreeListSpace} {slot : Nat} {result : Option AllocationInfo}
    (set : result.map (fun info => { s with infos := s.infos.set slot info }) = some s') :
    ∃ info, s' = { s with infos := s.infos.set slot info } := by
  obtain ⟨info, -, rfl⟩ := Option.map_eq_some_iff.1 set
  exact ⟨info, rfl⟩

theorem setPrevFreeBytes_frame {s s' : FreeListSpace} {slot bytes : Nat} (set : s.setPrevFreeBytes slot bytes = some s') :
    ∃ info, s' = { s with infos := s.infos.set slot info } :=
  map_setInfo_eq_some set

theorem setByteSize_frame {s s' : FreeListSpace} {slot size : Nat} {free : Bool}
    (set : s.setByteSize slot size free = some s') : ∃ info, s' = { s with infos := s.infos.set slot info } :=
  map_setInfo_eq_some set

/-- The first branch of `Alloc` hands out the first slot of the free block before `info`. -/
theorem allocFromFreeBlock_newInfo {s s' : FreeListSpace} {allocationSize info newInfo : Nat}
    (taken : s.allocFromFreeBlock allocationSize info = some (s', newInfo)) :
    s'.begin = s.begin ∧ newInfo = info - (s.infoAt info).prevFree := by
  simp only [allocFromFreeBlock, getPrevFreeInfo, Option.bind_eq_bind] at taken
  split at taken
  · simp at taken
  · rw [Option.bind_some] at taken
    obtain ⟨s₁, set₁, rest⟩ := Option.bind_eq_some_iff.1 taken
    obtain ⟨_, rfl⟩ := setPrevFreeBytes_frame set₁
    split at rest
    · obtain ⟨s₂, set₂, rest⟩ := Option.bind_eq_some_iff.1 rest
      obtain ⟨s₃, set₃, rest⟩ := Option.bind_eq_some_iff.1 rest
      obtain ⟨_, rfl⟩ := setPrevFreeBytes_frame set₂
      obtain ⟨_, rfl⟩ := setByteSize_frame set₃
      cases rest
      exact ⟨rfl, rfl⟩
    · cases rest
      exact ⟨rfl, rfl⟩

/-- The end of `Alloc` returns the address of the new block's slot and the rounded size. -/
theorem finishAlloc_result {s s' : FreeListSpace} {allocationSize newInfo obj bytes : Nat}
    (finished : s.finishAlloc allocationSize newInfo = some (s', some (obj, bytes))) :
    obj = s.getAllocationAddressForSlot newInfo ∧ bytes = allocationSize := by
  simp only [finishAlloc, Option.bind_eq_bind] at finished
  obtain ⟨s₁, set₁, rest⟩ := Option.bind_eq_some_iff.1 finished
  obtain ⟨s₂, set₂, rest⟩ := Option.bind_eq_some_iff.1 rest
  obtain ⟨_, rfl⟩ := setPrevFreeBytes_frame set₁
  obtain ⟨_, rfl⟩ := setByteSize_frame set₂
  cases rest
  exact ⟨rfl, rfl⟩

/-- **`Alloc` is best fit below `2 ^ 44` bytes**, on a sorted set: it hands out the rounded size,
either at the front of a free block with fewest pages among those that fit, or, when no entry
with pages of its own has enough free before it, at the front of the end region. -/
theorem alloc_spec {s s' : FreeListSpace} {tempInfo numBytes obj bytes : Nat}
    (sorted : s.freeBlocks.Pairwise fun a b => s.slotLt a b = true) (small : roundUp numBytes kAlignment < 2 ^ 44)
    (allocated : s.alloc tempInfo numBytes = some (s', some (obj, bytes))) :
    bytes = roundUp numBytes kAlignment ∧
      ((∃ info ∈ s.freeBlocks, obj = s.getAllocationAddressForSlot (info - (s.infoAt info).prevFree) ∧
          roundUp numBytes kAlignment / kAlignment ≤ (s.infoAt info).prevFree ∧
          ∀ slot ∈ s.freeBlocks, roundUp numBytes kAlignment / kAlignment ≤ (s.infoAt slot).prevFree →
            0 < (s.infoAt slot).alignSize → (s.infoAt info).prevFree ≤ (s.infoAt slot).prevFree) ∨
        (roundUp numBytes kAlignment ≤ s.freeEnd ∧
          obj = s.getAllocationAddressForSlot ((s.end_ - s.freeEnd - s.begin) / kAlignment) ∧
          ∀ slot ∈ s.freeBlocks, 0 < (s.infoAt slot).alignSize →
            (s.infoAt slot).prevFree < roundUp numBytes kAlignment / kAlignment)) := by
  have aligned : roundUp numBytes kAlignment % kAlignment = 0 := Nat.mul_mod_left _ _
  simp only [alloc, setPrevFreeBytes_temp aligned small, setByteSize_temp, AllocationInfo.alignSize, Nat.zero_and,
    Option.bind_eq_bind, Option.bind_some] at allocated
  cases found : s.lowerBound ⟨roundUp numBytes kAlignment / kAlignment, 0, tempInfo⟩ with
  | some info =>
      simp only [found] at allocated
      obtain ⟨⟨s₁, newInfo⟩, taken, finished⟩ := Option.bind_eq_some_iff.1 allocated
      obtain ⟨sameBegin, rfl⟩ := allocFromFreeBlock_newInfo taken
      obtain ⟨rfl, rfl⟩ := finishAlloc_result finished
      obtain ⟨fits, smallest⟩ := lowerBound_smallest sorted rfl found
      refine ⟨rfl, .inl ⟨info, List.mem_of_find?_eq_some found, ?_, fits, smallest⟩⟩
      simp only [getAllocationAddressForSlot, sameBegin]
  | none =>
      simp only [found] at allocated
      split at allocated
      next enough =>
        obtain ⟨newInfo, slot, finished⟩ := Option.bind_eq_some_iff.1 allocated
        obtain ⟨rfl, rfl⟩ := finishAlloc_result finished
        simp only [getSlotIndexForAddress] at slot
        split at slot
        · cases slot
          refine ⟨rfl, .inr ⟨enough, rfl, fun slot member sized => ?_⟩⟩
          -- every entry is below the key, and one with pages of its own has fewer pages free before it
          have below : sortByPrevFree (s.sortKey slot) ⟨roundUp numBytes kAlignment / kAlignment, 0, tempInfo⟩ = true := by
            simpa using List.find?_eq_none.1 found slot member
          rcases lt_prevFree_of_sortByPrevFree rfl below with fewer | ⟨-, none⟩
          · simpa using fewer
          · simp only [sortKey_alignSize] at none
            omega
        · simp at slot
      next => simp at allocated

/-- **A request of `2 ^ 44` bytes takes a free page.** In a space of three pages, two blocks of a
page are allocated and the first is freed: the only free block has one page, and the end
region one page. `Alloc(2 ^ 44)` searches with a key of `2 ^ 32` pages, truncated to 0, finds
the free page and hands it out; the new block's `alloc_size_` is `2 ^ 32` pages, truncated to
0, and the walk from the first entry to the end entry never leaves it. -/
theorem alloc_truncates_page_count :
    ∃ s₀ s₁ s₂ s₃ s₄, create 0x10000 0x3000 0x20000 = some s₀ ∧
      s₀.alloc 0x7ff00000 4096 = some (s₁, some (0x10000, 4096)) ∧
      s₁.alloc 0x7ff00000 4096 = some (s₂, some (0x11000, 4096)) ∧
      s₂.free 0x10000 = some (s₃, 4096) ∧
      s₃.freeBlocks.map (fun slot => (s₃.infoAt slot).getPrevFreeBytes) = [4096] ∧ s₃.freeEnd = 4096 ∧
      s₃.alloc 0x7ff00000 (2 ^ 44) = some (s₄, some (0x10000, 2 ^ 44)) ∧
      s₄.getSlotIndexForAddress (s₄.end_ - s₄.freeEnd) = some 2 ∧ ∀ fuel, s₄.walkFrom 2 fuel 0 = none := by
  -- the side table holds three entries; the free page's entry is `0x80000001`
  refine ⟨⟨0x10000, 0x13000, 0x20000, [{}, {}, {}], [], 0x3000, 0, 0⟩,
    ⟨0x10000, 0x13000, 0x20000, [⟨0, 1⟩, {}, {}], [], 0x2000, 1, 4096⟩,
    ⟨0x10000, 0x13000, 0x20000, [⟨0, 1⟩, ⟨0, 1⟩, {}], [], 0x1000, 2, 8192⟩,
    ⟨0x10000, 0x13000, 0x20000, [⟨0, 0x80000001⟩, ⟨1, 1⟩, {}], [1], 0x1000, 1, 4096⟩,
    ⟨0x10000, 0x13000, 0x20000, [⟨0, 0⟩, ⟨1, 1⟩, {}], [1], 0x1000, 2, 2 ^ 44 + 4096⟩,
    rfl, rfl, rfl, by decide, rfl, rfl, by decide, by decide, walkFrom_stuck rfl (by decide)⟩

end FreeListSpace

end Art.Runtime.Gc.Space
