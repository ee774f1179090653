import Mathlib.Data.List.Basic
import Art.Machine.OrderedSet

/-!
# The swap space

`SwapSpace` (`swap_space.cc`) hands out blocks of a file mapped into memory. It keeps the free
chunks twice: `free_by_start_` in address order, and `free_by_size_` by size and then address,
each entry of which refers to its chunk in `free_by_start_`. `Alloc` rounds the request up to
8 bytes and looks up the first entry of `free_by_size_` not below the size and the start of the
first free chunk: the smallest chunk that fits, the lowest of those of its size
(`alloc_bestFit`). It gives out the start of that chunk and keeps the rest of it free,
changing the two sets in place where their orders allow; with no chunk that fits it maps a
new part of the file (`NewFileChunk`). `Free` joins the block with the free chunks just before
and just after it.

**Zero bytes.** `Alloc(0)` rounds to 0 and shrinks the chunk it finds by nothing: it gives out
the start of a chunk that stays free, and the next `Alloc` gives it out again. `Free` of the
zero-byte block then reaches `InsertChunk` with an empty chunk, which its
`DCHECK_NE(chunk.size, 0u)` rejects (`free_zero_byte_block`).

The iterator of `free_by_start_` that an entry of `free_by_size_` holds is modelled by the
start of its chunk; where `Alloc` moves the start of a chunk in place, the entry follows it.
`mmap` is given the address it returns. Sizes and addresses are `Nat`: a request so large
that `RoundUp` wraps in `size_t` is not modelled. A failed `CHECK` or `DCHECK` is `none`;
`kCheckFreeMaps` is `false`, so `CollectFree` does not run.
-/

set_option autoImplicit false

namespace Art.Compiler.Utils

open Art.Machine OrderedSet

/-- `kPageSize`. -/
def kPageSize : Nat := 4096

/-- `MB`. -/
def MB : Nat := 1024 * 1024

/-- `kMininumMapSize`. -/
def kMininumMapSize : Nat := 16 * MB

/-- `RoundUp(x, n)`. -/
def roundUp (x n : Nat) : Nat := (x + n - 1) / n * n

theorem le_roundUp_kPageSize (x : Nat) : x ≤ roundUp x kPageSize := by
  unfold roundUp kPageSize
  omega

/-- `SwapSpace::SpaceChunk`. -/
structure SpaceChunk where
  ptr : Nat
  size : Nat
  deriving DecidableEq, Repr

/-- `Start()`. -/
def SpaceChunk.start (chunk : SpaceChunk) : Nat := chunk.ptr

/-- `End()`. -/
def SpaceChunk.stop (chunk : SpaceChunk) : Nat := chunk.ptr + chunk.size

/-- `SortChunkByPtr`. -/
def sortChunkByPtr (a b : SpaceChunk) : Bool := a.ptr < b.ptr

/-- `FreeBySizeEntry`: a size, and the chunk of `free_by_start_` it refers to, by its start. -/
structure FreeBySizeEntry where
  size : Nat
  start : Nat
  deriving DecidableEq, Repr

/-- `FreeBySizeComparator`. -/
def freeBySizeComparator (lhs rhs : FreeBySizeEntry) : Bool :=
  if lhs.size ≠ rhs.size then lhs.size < rhs.size else lhs.start < rhs.start

/-- The state of a `SwapSpace` that `lock_` guards. -/
structure SwapSpace where
  /-- `size_`, the bytes of the file. -/
  size : Nat
  /-- `free_by_start_`, in its order. -/
  freeByStart : List SpaceChunk
  /-- `free_by_size_`, in its order. -/
  freeBySize : List FreeBySizeEntry
  deriving DecidableEq, Repr

namespace SwapSpace

/-- `RemoveChunk`: the entry of `free_by_size_` and the chunk it refers to. -/
def removeChunk (s : SwapSpace) (entry : FreeBySizeEntry) : SwapSpace :=
  { s with freeBySize := s.freeBySize.erase entry, freeByStart := s.freeByStart.filter (·.ptr ≠ entry.start) }

/-- `InsertChunk`. -/
def insertChunk (s : SwapSpace) (chunk : SpaceChunk) : Option SwapSpace :=
  if chunk.size = 0 then none
  -- `DCHECK(insert_result.second)`
  else if s.freeByStart.any (·.ptr = chunk.ptr) then none
  else
    some { s with
      freeByStart := insertBy sortChunkByPtr chunk s.freeByStart
      freeBySize := insertBy freeBySizeComparator ⟨chunk.size, chunk.ptr⟩ s.freeBySize }

/-- `NewFileChunk(min_size)`, where `mmap` returns `mapped`: the file grows by `next_part`. -/
def newFileChunk (s : SwapSpace) (mapped minSize : Nat) : SwapSpace × SpaceChunk :=
  let nextPart := max (roundUp minSize kPageSize) (roundUp kMininumMapSize kPageSize)
  ({ s with size := s.size + nextPart }, ⟨mapped, nextPart⟩)

/-- `SwapSpace(fd, initial_size)`, where `mmap` returns `mapped`. -/
def create (mapped initialSize : Nat) : Option SwapSpace :=
  let (s, chunk) := newFileChunk ⟨0, [], []⟩ mapped initialSize
  s.insertChunk chunk

/-- `Alloc(size)`, where `mmap` returns `mapped` if the file grows: the state after and the
address of the block. -/
def alloc (s : SwapSpace) (mapped size : Nat) : Option (SwapSpace × Nat) :=
  let size := roundUp size 8
  let it := match s.freeByStart with
    | [] => none
    | first :: _ => lowerBound freeBySizeComparator ⟨size, first.start⟩ s.freeBySize
  match it with
  | some entry =>
      -- `*entry`: the chunk the entry refers to
      match s.freeByStart.find? (·.ptr = entry.start) with
      | none => none
      | some oldChunk =>
          if oldChunk.size = size then some (s.removeChunk entry, oldChunk.ptr)
          else
            -- shrink the chunk in place: it keeps its place in `free_by_start_`
            let chunk : SpaceChunk := ⟨oldChunk.ptr + size, oldChunk.size - size⟩
            let freeByStart := s.freeByStart.map fun c => if c.ptr = oldChunk.ptr then chunk else c
            let newValue : FreeBySizeEntry := ⟨oldChunk.size - size, chunk.ptr⟩
            let inPlace := s.freeBySize.map fun e => if e = entry then newValue else e
            let freeBySize := match before freeBySizeComparator entry s.freeBySize with
              | none => inPlace
              | some prev =>
                  if freeBySizeComparator prev newValue then inPlace
                  else insertBy freeBySizeComparator newValue (s.freeBySize.erase entry)
            some ({ s with freeByStart, freeBySize }, oldChunk.ptr)
  | none =>
      let (s, newChunk) := s.newFileChunk mapped size
      if newChunk.size ≠ size then
        (s.insertChunk ⟨newChunk.ptr + size, newChunk.size - size⟩).map (·, newChunk.ptr)
      else some (s, newChunk.ptr)

/-- `Free(ptr, size)`. -/
def free (s : SwapSpace) (ptr size : Nat) : Option SwapSpace := do
  let size := roundUp size 8
  let chunk : SpaceChunk := ⟨ptr, size⟩
  -- `it` is `free_by_start_.lower_bound(chunk)`, and `prev` the chunk before it
  let it := lowerBound sortChunkByPtr chunk s.freeByStart
  let (s, chunk) ← match before sortChunkByPtr chunk s.freeByStart with
    | none => some (s, chunk)
    | some prev =>
        if ¬prev.stop ≤ chunk.start then none
        else if prev.stop = chunk.start then
          let erasePos : FreeBySizeEntry := ⟨prev.size, prev.ptr⟩
          if erasePos ∉ s.freeBySize then none
          else some (s.removeChunk erasePos, ⟨chunk.ptr - prev.size, chunk.size + prev.size⟩)
        else some (s, chunk)
  let (s, chunk) ← match it with
    | none => some (s, chunk)
    | some next =>
        if ¬chunk.stop ≤ next.start then none
        else if chunk.stop = next.start then
          let erasePos : FreeBySizeEntry := ⟨next.size, next.ptr⟩
          if erasePos ∉ s.freeBySize then none
          else some (s.removeChunk erasePos, ⟨chunk.ptr, chunk.size + next.size⟩)
        else some (s, chunk)
  s.insertChunk chunk

/-- The free maps as `Alloc` reads them: `free_by_start_` sorted by address, `free_by_size_`
sorted by its comparator, and the entries of `free_by_size_` those of the chunks of
`free_by_start_`. -/
structure WellFormed (s : SwapSpace) : Prop where
  byStart : s.freeByStart.Pairwise fun a b => a.ptr < b.ptr
  bySize : s.freeBySize.Pairwise fun a b => freeBySizeComparator a b = true
  sameChunks : ∀ e, e ∈ s.freeBySize ↔ ∃ c ∈ s.freeByStart, e = ⟨c.size, c.ptr⟩

/-- The first free chunk has the lowest address. -/
theorem WellFormed.first_ptr_le {s : SwapSpace} (wf : s.WellFormed) {first : SpaceChunk} {rest : List SpaceChunk}
    (byStart : s.freeByStart = first :: rest) {c : SpaceChunk} (mem : c ∈ s.freeByStart) : first.ptr ≤ c.ptr := by
  have sorted := wf.byStart
  rw [byStart, List.pairwise_cons] at sorted
  rw [byStart] at mem
  rcases List.mem_cons.1 mem with rfl | later
  · exact Nat.le_refl _
  · exact Nat.le_of_lt (sorted.1 c later)

/-- In `free_by_start_`, the chunk found at the address of a chunk is that chunk. -/
theorem find?_ptr {chunks : List SpaceChunk} (sorted : chunks.Pairwise fun a b => a.ptr < b.ptr)
    {c : SpaceChunk} (member : c ∈ chunks) : chunks.find? (fun x => decide (x.ptr = c.ptr)) = some c := by
  induction chunks with
  | nil => exact absurd member List.not_mem_nil
  | cons a rest ih =>
      obtain ⟨above, sortedRest⟩ := List.pairwise_cons.1 sorted
      rcases List.mem_cons.1 member with rfl | later
      · simp
      · have different : a.ptr ≠ c.ptr := Nat.ne_of_lt (above c later)
        simp [different, ih sortedRest later]

@[simp] theorem freeBySizeComparator_eq_true {a b : FreeBySizeEntry} :
    freeBySizeComparator a b = true ↔ a.size < b.size ∨ a.size = b.size ∧ a.start < b.start := by
  unfold freeBySizeComparator
  split <;> simp_all

/-- **`Alloc` takes the best fit**: when a free chunk fits the request, `Alloc` gives out the
start of the smallest free chunk that fits, the lowest of those of its size. -/
theorem alloc_bestFit (s : SwapSpace) (wf : s.WellFormed) (mapped n : Nat) {chunk : SpaceChunk}
    (free : chunk ∈ s.freeByStart) (fits : roundUp n 8 ≤ chunk.size) :
    ∃ best ∈ s.freeByStart, roundUp n 8 ≤ best.size ∧
      (∀ c ∈ s.freeByStart, roundUp n 8 ≤ c.size → best.size < c.size ∨ best.size = c.size ∧ best.ptr ≤ c.ptr) ∧
      ∃ s', s.alloc mapped n = some (s', best.ptr) := by
  obtain ⟨first, rest, byStart⟩ := List.exists_cons_of_ne_nil (List.ne_nil_of_mem free)
  -- the entry of every chunk that fits is not below the key, so `lower_bound` finds one
  have notBelow : ∀ c ∈ s.freeByStart, roundUp n 8 ≤ c.size →
      freeBySizeComparator ⟨c.size, c.ptr⟩ ⟨roundUp n 8, first.start⟩ = false := by
    intro c mem large
    have after := wf.first_ptr_le byStart mem
    simp only [← Bool.not_eq_true, freeBySizeComparator_eq_true, SpaceChunk.start]
    omega
  obtain ⟨e, found⟩ := lowerBound_exists ((wf.sameChunks _).2 ⟨chunk, free, rfl⟩) (notBelow chunk free fits)
  obtain ⟨listed, eNotBelow, least⟩ := lowerBound_least wf.bySize found
  obtain ⟨best, bestFree, rfl⟩ := (wf.sameChunks e).1 listed
  have bestFits : roundUp n 8 ≤ best.size := by
    simp only [← Bool.not_eq_true, freeBySizeComparator_eq_true] at eNotBelow
    omega
  -- `*entry` is `best`: no other chunk starts where it does
  have deref := find?_ptr wf.byStart bestFree
  refine ⟨best, bestFree, bestFits, fun c mem large => ?_, ?_⟩
  · rcases least _ ((wf.sameChunks _).2 ⟨c, mem, rfl⟩) (notBelow c mem large) with same | below
    · simp only [FreeBySizeEntry.mk.injEq] at same
      exact Or.inr ⟨same.1.symm, Nat.le_of_eq same.2.symm⟩
    · simp only [freeBySizeComparator_eq_true] at below
      omega
  · rw [byStart] at deref
    simp only [alloc, byStart, found, deref]
    split
    · exact ⟨_, rfl⟩
    · exact ⟨_, rfl⟩

/-- **With no chunk that fits, `Alloc` grows the file** by `next_part` and gives out the start
of the new mapping; the rest of the mapping becomes a free chunk. -/
theorem alloc_of_none_fits (s : SwapSpace) (wf : s.WellFormed) (mapped n : Nat)
    (noFit : ∀ c ∈ s.freeByStart, c.size < roundUp n 8) (fresh : ∀ c ∈ s.freeByStart, c.ptr ≠ mapped + roundUp n 8) :
    ∃ s', s.alloc mapped n = some (s', mapped) ∧
      s'.size = s.size + max (roundUp (roundUp n 8) kPageSize) (roundUp kMininumMapSize kPageSize) := by
  have notFound : ∀ first : SpaceChunk,
      lowerBound freeBySizeComparator ⟨roundUp n 8, first.start⟩ s.freeBySize = none := by
    intro first
    refine List.find?_eq_none.2 fun e listed => ?_
    obtain ⟨c, free, rfl⟩ := (wf.sameChunks e).1 listed
    have small := noFit c free
    simp [small]
  have lookup : (match s.freeByStart with
      | [] => none
      | first :: _ => lowerBound freeBySizeComparator ⟨roundUp n 8, first.start⟩ s.freeBySize) = none := by
    split
    · rfl
    · exact notFound _
  simp only [alloc, lookup]
  generalize grown : s.newFileChunk mapped (roundUp n 8) = result
  obtain ⟨larger, newChunk⟩ := result
  simp only [newFileChunk, Prod.mk.injEq] at grown
  obtain ⟨rfl, rfl⟩ := grown
  by_cases grows : max (roundUp (roundUp n 8) kPageSize) (roundUp kMininumMapSize kPageSize) ≠ roundUp n 8
  · -- the rest of the new mapping is a chunk that no free chunk starts at
    have restFree : (s.freeByStart.any fun c => decide (c.ptr = mapped + roundUp n 8)) = false := by
      simpa using fresh
    have atLeast := le_roundUp_kPageSize (roundUp n 8)
    have remains : ¬max (roundUp (roundUp n 8) kPageSize) (roundUp kMininumMapSize kPageSize) - roundUp n 8 = 0 := by
      omega
    simp only [grows, if_true, ne_eq, not_false_eq_true, insertChunk, restFree, remains, if_false,
      Bool.false_eq_true, Option.map_some]
    exact ⟨_, rfl, rfl⟩
  · simp only [grows, if_false]
    exact ⟨_, rfl, rfl⟩

/-- **Freeing a zero-byte block fails**: `Alloc(0)` and then `Alloc(8)` both give out the start
of the first chunk, and `Free` of the zero-byte block reaches `InsertChunk` with an empty
chunk. -/
theorem free_zero_byte_block :
    ∃ s₀ s₁ s₂, create 0x10000 0 = some s₀ ∧ s₀.alloc 0 0 = some (s₁, 0x10000) ∧
      s₁.alloc 0 8 = some (s₂, 0x10000) ∧ s₂.free 0x10000 0 = none :=
  ⟨_, _, _, rfl, rfl, rfl, rfl⟩

end SwapSpace

end Art.Compiler.Utils
