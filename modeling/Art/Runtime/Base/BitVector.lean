import Mathlib

/-!
# Bit vectors

A `BitVector` (`bit_vector.h`) stores its bits in `storage_size_` words of 32 bits, bit
`i` in word `i / 32`; it grows, when it may, to hold a bit that is set beyond its words
(`EnsureSize`). The operations on two vectors of different sizes read the words the
smaller one has, and treat the others as zero.

Word counts and bit indices are `uint32_t`, and `storage_size_ * kWordBits` and the
other products wrap as such; `GetHighestBitSet` returns an `int`. Its result
`31 - CLZ(value) + idx * kWordBits` is an `uint32_t` read back as an `int`, so a highest
bit at or above 2^31 comes back negative. `IsSubsetOf` then takes the vector for empty
and answers that it is a subset of every vector, also of an empty one
(`isSubsetOf_of_high_bit`).

A `DCHECK` that fails is `none`: growing a vector that may not grow, or counting the set
bits below an end beyond its words.
-/

set_option autoImplicit false

namespace Art.Runtime

/-- A `BitVector`: its words (`storage_`, with `storage_size_` their number, an `uint32_t`)
and whether it may grow. -/
structure BitVector where
  storage : List (BitVec 32)
  expandable : Bool
  storageSize_lt : storage.length < 2 ^ 32

namespace BitVector

/-- `kWordBits`. -/
def kWordBits : Nat := 32

/-- `storage_size_`. -/
def storageSize (v : BitVector) : Nat := v.storage.length

/-- `BitsToWords`, in `uint32_t`: `RoundUp(bits, kWordBits) / kWordBits`. -/
def bitsToWords (bits : Nat) : Nat := (bits + kWordBits - 1) % 2 ^ 32 / kWordBits

/-- `WordIndex`. -/
def wordIndex (idx : Nat) : Nat := idx >>> 5

/-- `BitMask`. -/
def bitMask (idx : Nat) : BitVec 32 := (1 : BitVec 32) <<< (idx &&& 0x1f)

/-- `storage_[idx]`, for a word of the vector. -/
def word (v : BitVector) (idx : Nat) : BitVec 32 := v.storage.getD idx 0

/-- The words changed by `change`, which sees each word with its index. -/
def mapWords (v : BitVector) (change : Nat → BitVec 32 → BitVec 32) : BitVector :=
  ⟨v.storage.mapIdx change, v.expandable, by rw [List.length_mapIdx]; exact v.storageSize_lt⟩

/-- `storage_[idx] = value`. -/
def setWord (v : BitVector) (idx : Nat) (value : BitVec 32) : BitVector :=
  ⟨v.storage.set idx value, v.expandable, by rw [List.length_set]; exact v.storageSize_lt⟩

/-- `IsBitSet`: the bit is one of the vector's, and it is set. -/
def isBitSet (v : BitVector) (idx : Nat) : Bool :=
  decide (idx < v.storageSize * kWordBits % 2 ^ 32) && (v.word (wordIndex idx) &&& bitMask idx) != 0

theorem bitsToWords_lt (bits : Nat) : bitsToWords bits < 2 ^ 32 := by
  unfold bitsToWords kWordBits
  have := Nat.mod_lt (bits + 32 - 1) (show 0 < 2 ^ 32 by decide)
  omega

/-- `EnsureSize`: grow to hold bit `idx`, with fresh zero words. Growing a vector that may
not grow, or to no more words than it has (when `idx + 1` wraps), fails a `DCHECK`. -/
def ensureSize (v : BitVector) (idx : Nat) : Option BitVector :=
  if idx ≥ v.storageSize * kWordBits % 2 ^ 32 then
    -- round up to word boundaries for `idx + 1` bits
    let newSize := bitsToWords ((idx + 1) % 2 ^ 32)
    if !v.expandable ∨ newSize ≤ v.storageSize then none
    else some ⟨v.storage ++ List.replicate (newSize - v.storageSize) 0, v.expandable, by
      have := bitsToWords_lt ((idx + 1) % 2 ^ 32)
      have := v.storageSize_lt
      rw [List.length_append, List.length_replicate]
      unfold storageSize
      omega⟩
  else some v

/-- `SetBit`. -/
def setBit (v : BitVector) (idx : Nat) : Option BitVector := do
  let v ← if idx ≥ v.storageSize * kWordBits % 2 ^ 32 then v.ensureSize idx else some v
  some (v.setWord (wordIndex idx) (v.word (wordIndex idx) ||| bitMask idx))

/-- `ClearAllBits`: `memset` of `storage_size_ * kWordBytes` bytes, in `uint32_t`. -/
def clearAllBits (v : BitVector) : BitVector :=
  let cleared := v.storageSize * 4 % 2 ^ 32 / 4
  v.mapWords fun idx value => if idx < cleared then 0 else value

/-- The loop of `GetHighestBitSet` over the words below `idx`, from the top: the first
word that is not zero, with its index. -/
def highestWord (storage : List (BitVec 32)) : Nat → Option (Nat × BitVec 32)
  | 0 => none
  | idx + 1 => if storage.getD idx 0 ≠ 0 then some (idx, storage.getD idx 0) else highestWord storage idx

/-- `GetHighestBitSet`, an `int`, `-1` when no bit is set. The loop index
`int idx = max - 1` is negative for more than 2^31 words, and the loop does not run; the
result `31 - CLZ(value) + idx * kWordBits` is computed in `uint32_t` and read back as an
`int`. -/
def getHighestBitSet (v : BitVector) : Int :=
  match highestWord v.storage (if v.storageSize ≤ 2 ^ 31 then v.storageSize else 0) with
  | some (idx, value) => (BitVec.ofNat 32 (31 - value.clz.toNat) + BitVec.ofNat 32 idx * 32).toInt
  | none => -1

/-- An `int` passed as an `uint32_t`. -/
def toUint32 (value : Int) : Nat := (value % 2 ^ 32).toNat

/-- `SameBitsSet`: the same highest bit, and the same words up to it. -/
def sameBitsSet (v src : BitVector) : Bool :=
  let ourHighest := v.getHighestBitSet
  let srcHighest := src.getHighestBitSet
  if ourHighest ≠ srcHighest then false
  -- no bit set, or bit 0 alone, on both
  else if ourHighest ≤ 0 then true
  else
    let ourHighestIndex := bitsToWords (toUint32 ourHighest)
    (List.range ourHighestIndex).all fun idx => v.word idx == src.word idx

/-- `IsSubsetOf`. -/
def isSubsetOf (v other : BitVector) : Bool :=
  let thisHighest := v.getHighestBitSet
  let otherHighest := other.getHighestBitSet
  if thisHighest < 0 then true
  else if thisHighest > otherHighest then false
  else
    let thisHighestIndex := bitsToWords (toUint32 (thisHighest + 1))
    (List.range thisHighestIndex).all fun idx => (v.word idx ||| other.word idx) == other.word idx

/-- `Intersect`: the words both have are and-ed, and the others of this vector cleared. -/
def intersect (v src : BitVector) : BitVector :=
  let minSize := min v.storageSize src.storageSize
  v.mapWords fun idx value => if idx < minSize then value &&& src.word idx else 0

/-- `Subtract`: the words both have lose the bits of `src`; the others are kept. -/
def subtract (v src : BitVector) : BitVector :=
  let minSize := min v.storageSize src.storageSize
  v.mapWords fun idx value => if idx < minSize then value &&& ~~~src.word idx else value

/-- One word of the loops of `Union` and `UnionIfNotIn`: or the bits of `incoming` into
word `idx`, and note a change. -/
def orWord (incoming : Nat → BitVec 32) (state : Bool × BitVector) (idx : Nat) : Bool × BitVector :=
  let existing := state.2.word idx
  let update := existing ||| incoming idx
  if existing ≠ update then (true, state.2.setWord idx update) else state

/-- `Union`: whether this vector changed, and the vector. It grows to hold the highest bit
of `src`, which counts as a change. -/
def union (v src : BitVector) : Option (Bool × BitVector) :=
  let highestBit := src.getHighestBitSet
  if highestBit = -1 then some (false, v)
  else
    -- the words we care about: up to the highest bit
    let srcSize := bitsToWords (toUint32 (highestBit + 1))
    let grown : Option (Bool × BitVector) :=
      if v.storageSize < srcSize then (v.ensureSize (toUint32 highestBit)).map fun v => (true, v)
      else some (false, v)
    grown.map fun state => (List.range srcSize).foldl (orWord src.word) state

/-- `UnionIfNotIn`: the bits of `unionWith` that `notIn` lacks, or-ed in; whether this
vector changed, and the vector. Growing alone is no change here. -/
def unionIfNotIn (v unionWith notIn : BitVector) : Option (Bool × BitVector) :=
  let highestBit := unionWith.getHighestBitSet
  if highestBit = -1 then some (false, v)
  else
    let unionWithSize := bitsToWords (toUint32 (highestBit + 1))
    let grown : Option BitVector :=
      if v.storageSize < unionWithSize then v.ensureSize (toUint32 highestBit) else some v
    let notInSize := notIn.storageSize
    let both := min notInSize unionWithSize
    grown.map fun v =>
      let state := (List.range both).foldl (orWord fun idx => unionWith.word idx &&& ~~~notIn.word idx) (false, v)
      (List.range' both (unionWithSize - both)).foldl (orWord unionWith.word) state

/-- `NumSetBits(end)`: the set bits below `endIndex`; an end beyond the words fails its
`DCHECK`. -/
def numSetBits (v : BitVector) (endIndex : Nat) : Option Nat :=
  if endIndex > v.storageSize * kWordBits % 2 ^ 32 then none
  else
    let wordEnd := wordIndex endIndex
    let partialWordBits := endIndex &&& 0x1f
    let count := ((List.range wordEnd).map fun idx => (v.word idx).cpop.toNat).sum
    if partialWordBits ≠ 0 then
      some (count + (v.word wordEnd &&& ~~~((0xffffffff : BitVec 32) <<< partialWordBits)).cpop.toNat)
    else some count

/-- `SetInitialBits`: bits `0` to `numBits - 1` set, and no other. -/
def setInitialBits (v : BitVector) (numBits : Nat) : Option BitVector :=
  if numBits = 0 then some v.clearAllBits
  else
    -- set the highest bit first, to grow the vector when it must
    (v.setBit (numBits - 1)).map fun v =>
      let remNumBits := numBits &&& 0x1f
      v.mapWords fun idx _ =>
        if idx < wordIndex numBits then BitVec.allOnes 32
        else if idx = wordIndex numBits ∧ remNumBits ≠ 0 then ((1 : BitVec 32) <<< remNumBits) - 1
        else 0

/-- `Copy`: the words of `src` up to its highest bit, and zero above. -/
def copy (v src : BitVector) : Option BitVector :=
  let highestBit := src.getHighestBitSet
  if highestBit = -1 then some v.clearAllBits
  else
    (v.setBit (toUint32 highestBit)).map fun v =>
      let size := (1 + toUint32 highestBit / kWordBits) % 2 ^ 32
      v.mapWords fun idx _ => if idx < size then src.word idx else 0

/-! ## The highest bit -/

/-- The loop of `GetHighestBitSet` stops at a word that is not zero. -/
theorem highestWord_succ_of_ne {storage : List (BitVec 32)} {idx : Nat} (set : storage.getD idx 0 ≠ 0) :
    highestWord storage (idx + 1) = some (idx, storage.getD idx 0) := by
  rw [highestWord, if_pos set]

/-- A word that is not zero has a set bit. -/
theorem exists_getLsbD_of_ne_zero {value : BitVec 32} (set : value ≠ 0) : ∃ j, j < 32 ∧ value.getLsbD j = true := by
  by_contra none
  push Not at none
  exact set (BitVec.eq_of_getLsbD_eq fun j below => by simpa using none j below)

/-- Bit `j` of word `idx`, of a vector with more than `idx` words and fewer than 2^27. -/
theorem isBitSet_of_getLsbD {v : BitVector} {idx j : Nat} (inside : idx < v.storageSize)
    (addressable : v.storageSize < 2 ^ 27) (below : j < 32) (set : (v.word idx).getLsbD j = true) :
    v.isBitSet (idx * 32 + j) = true := by
  have inRange : idx * 32 + j < v.storageSize * kWordBits % 2 ^ 32 := by
    unfold kWordBits
    rw [Nat.mod_eq_of_lt (by omega)]
    omega
  have wordAt : wordIndex (idx * 32 + j) = idx := by
    unfold wordIndex
    rw [Nat.shiftRight_eq_div_pow]
    omega
  have bitAt : (idx * 32 + j) &&& 0x1f = j := by
    rw [show (0x1f : Nat) = 2 ^ 5 - 1 by rfl, Nat.and_two_pow_sub_one_eq_mod]
    omega
  have masked : (v.word idx &&& bitMask (idx * 32 + j)).getLsbD j = true := by
    rw [bitMask, bitAt, BitVec.getLsbD_and, BitVec.getLsbD_shiftLeft]
    simp [below, set]
  have nonzero : (v.word idx &&& bitMask (idx * 32 + j)) ≠ 0 := fun zero => by
    rw [zero] at masked
    simp at masked
  unfold isBitSet
  rw [wordAt, decide_eq_true inRange, Bool.true_and]
  simpa using nonzero

/-- `GetHighestBitSet` of a vector whose top word is not zero, with no more than 2^31
words: the `uint32_t` sum of the highest bit of that word and its first index, as an `int`. -/
theorem getHighestBitSet_of_top {v : BitVector} {idx : Nat} (top : v.storageSize = idx + 1)
    (set : v.word idx ≠ 0) (small : idx + 1 ≤ 2 ^ 31) :
    v.getHighestBitSet = (BitVec.ofNat 32 (31 - (v.word idx).clz.toNat) + BitVec.ofNat 32 idx * 32).toInt := by
  rw [getHighestBitSet, if_pos (top ▸ small), top, highestWord_succ_of_ne set]
  rfl

/-- A vector whose highest set bit is at or above 2^31, with fewer than 2^27 words so
that `storage_size_ * kWordBits` does not wrap: `GetHighestBitSet` is negative, so
`IsSubsetOf` answers `true` for every other vector, although the vector holds a bit at
or above 2^31. -/
theorem isSubsetOf_of_high_bit (v other : BitVector) (idx : Nat) (top : v.storageSize = idx + 1)
    (set : v.word idx ≠ 0) (high : 2 ^ 26 ≤ idx) (addressable : idx + 1 < 2 ^ 27) :
    v.getHighestBitSet < 0 ∧ v.isSubsetOf other = true ∧ ∃ i, 2 ^ 31 ≤ i ∧ v.isBitSet i = true := by
  have negative : v.getHighestBitSet < 0 := by
    -- the sum does not wrap, and lands in the upper half of the `uint32_t`s
    have low : 31 - (v.word idx).clz.toNat ≤ 31 := Nat.sub_le _ _
    have thirtyTwo : (32 : BitVec 32).toNat = 32 := rfl
    rw [getHighestBitSet_of_top top set (by omega), BitVec.toInt_neg_iff, BitVec.toNat_add, BitVec.toNat_mul,
      BitVec.toNat_ofNat, BitVec.toNat_ofNat, thirtyTwo]
    omega
  obtain ⟨j, below, bit⟩ := exists_getLsbD_of_ne_zero set
  refine ⟨negative, by simp [isSubsetOf, negative], idx * 32 + j, by omega, ?_⟩
  exact isBitSet_of_getLsbD (by omega) (by omega) below bit


/-- The vector of 2^26 + 1 words whose only set bit is bit 2^31, as `SetBit(1u << 31)` on
an empty expandable vector leaves it. -/
def highBitVector : BitVector :=
  ⟨List.replicate (2 ^ 26) 0 ++ [1], true, by rw [List.length_append, List.length_replicate]; decide⟩

/-- An expandable vector with no words. -/
def emptyBitVector : BitVector := ⟨[], true, by decide⟩

theorem highBitVector_isSubsetOf_empty :
    highBitVector.getHighestBitSet < 0 ∧ highBitVector.isSubsetOf emptyBitVector = true ∧
      ∃ i, 2 ^ 31 ≤ i ∧ highBitVector.isBitSet i = true :=
  isSubsetOf_of_high_bit highBitVector emptyBitVector (2 ^ 26)
    (by rw [highBitVector, storageSize, List.length_append, List.length_replicate]; rfl)
    (by
      rw [highBitVector, word, List.getD_eq_getElem?_getD,
        List.getElem?_append_right (by rw [List.length_replicate]), List.length_replicate, Nat.sub_self]
      decide)
    (Nat.le_refl _) (by decide)

example (i : Nat) : emptyBitVector.isBitSet i = false := by
  simp [isBitSet, emptyBitVector, storageSize]

end BitVector

end Art.Runtime
