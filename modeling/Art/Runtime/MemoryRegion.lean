import Art.Machine.LittleEndian
import Art.Machine.BitMemory

/-!
# `MemoryRegion`

A `MemoryRegion` is a window of `size_` bytes at `pointer_` on the bytes of the
address space (`memory_region.{h,cc}`). `ComputeInternalPointer` checks with
`CHECK`, in every build, that a byte lies in the window; a failed check aborts,
which the model makes `none`.

`StoreUnaligned` and `LoadUnaligned` move a value of `n` bytes byte by byte,
little-endian (`Art.Machine.LittleEndian`). Inside the window a store writes
exactly the `n` bytes of its value (`storeUnaligned_apply`), and a load from where
memory holds them gives the value (`loadUnaligned_of_holdsAt`).
-/

set_option autoImplicit false

namespace Art.Runtime

open Art.Machine

/-- `kBitsPerByte`. -/
def kBitsPerByte : Nat := 8

/-- `kBitsPerByteLog2`. -/
def kBitsPerByteLog2 : Nat := 3

/-- A `MemoryRegion`: `pointer_` and `size_`. -/
structure MemoryRegion where
  pointer : Nat
  size : Nat

namespace MemoryRegion

variable (r : MemoryRegion)

/-- `ComputeInternalPointer<uint8_t>`: the address of the byte at `offset`, after the
`CHECK`s that the region holds a byte and that `offset` is inside it. -/
def computeInternalPointer (offset : Nat) : Option Nat :=
  if 1 ≤ r.size ∧ offset ≤ r.size - 1 then some (r.pointer + offset) else none

/-- `LoadUnaligned` of a value of `n` bytes: each byte, read through
`ComputeInternalPointer<uint8_t>`, added at its place, little-endian. -/
def loadUnaligned (memory : Nat → BitVec 8) (offset n : Nat) : Option (BitVec (8 * n)) :=
  (List.range n).foldlM (fun value i => do
      let address ← r.computeInternalPointer (offset + i)
      return value + (memory address).setWidth (8 * n) <<< (i * 8)) 0

/-- `StoreUnaligned` of a value of `n` bytes: each byte, little-endian, written
through `ComputeInternalPointer<uint8_t>`. -/
def storeUnaligned (memory : Nat → BitVec 8) (offset n : Nat) (value : BitVec (8 * n)) :
    Option (Nat → BitVec 8) :=
  (List.range n).foldlM (fun memory i => do
      let address ← r.computeInternalPointer (offset + i)
      return Function.update memory address (littleEndianByte value i)) memory

/-- `size_in_bits`. -/
def sizeInBits : Nat := r.size * kBitsPerByte

/-- `Subregion`: the window of `size_in` bytes at `offset`, after its `CHECK`s. -/
def subregion (offset sizeIn : Nat) : Option MemoryRegion :=
  if sizeIn ≤ r.size ∧ offset ≤ r.size - sizeIn then some ⟨r.pointer + offset, sizeIn⟩ else none

/-- `ComputeBitPointer`: the address of the byte that holds a bit, through
`ComputeInternalPointer<uint8_t>`, and the mask of the bit in that byte. -/
def computeBitPointer (bitOffset : Nat) : Option (Nat × BitVec 8) := do
  let bitRemainder := bitOffset &&& (kBitsPerByte - 1)
  let bitMask : BitVec 8 := ((1 : BitVec 32) <<< bitRemainder).setWidth 8
  let byteOffset := bitOffset >>> kBitsPerByteLog2
  let address ← r.computeInternalPointer byteOffset
  return (address, bitMask)

/-- `LoadBit`. -/
def loadBit (memory : Nat → BitVec 8) (bitOffset : Nat) : Option Bool := do
  let pointer ← r.computeBitPointer bitOffset
  return memory pointer.1 &&& pointer.2 != 0

/-- `StoreBit`. -/
def storeBit (memory : Nat → BitVec 8) (bitOffset : Nat) (value : Bool) : Option (Nat → BitVec 8) := do
  let pointer ← r.computeBitPointer bitOffset
  let byte := memory pointer.1
  return Function.update memory pointer.1 (if value then byte ||| pointer.2 else byte &&& ~~~pointer.2)

/-- The load of `LoadBits`: the byte at `address` shifted right by `shift`, and each
byte after it that the `load_bit_count` bits reach, shifted to its place. -/
def loadedBits (memory : Nat → BitVec 8) (address shift loadBitCount : Nat) : BitVec 32 :=
  let value : BitVec 32 := (memory address).setWidth 32 >>> shift
  if loadBitCount > 8 then
    let value := value ||| (memory (address + 1)).setWidth 32 <<< (8 - shift)
    if loadBitCount > 16 then
      let value := value ||| (memory (address + 2)).setWidth 32 <<< (16 - shift)
      if loadBitCount > 24 then
        let value := value ||| (memory (address + 3)).setWidth 32 <<< (24 - shift)
        if loadBitCount > 32 then value ||| (memory (address + 4)).setWidth 32 <<< (32 - shift)
        else value
      else value
    else value
  else value

/-- The `DCHECK_EQ` loop of `LoadBits`: bit `i` of the value is `LoadBit` of the bit it
was read from. -/
def checkLoadedBits (memory : Nat → BitVec 8) (bitOffset : Nat) (value : BitVec 32) (length : Nat) : Option Unit :=
  (List.range length).foldlM (fun _ i => do
      let bit ← r.loadBit memory (bitOffset + i)
      if (value >>> i) &&& 1 = (BitVec.ofBool bit).setWidth 32 then some () else none) ()

/-- `LoadBits`: `length` bits from `bitOffset` on, the first the least significant,
after the `DCHECK`s that `length` is at most 32 and the bits are in the region. The
bytes are read from `begin()`, with no `CHECK`. -/
def loadBits (memory : Nat → BitVec 8) (bitOffset length : Nat) : Option (BitVec 32) :=
  if length ≤ 32 ∧ bitOffset + length ≤ r.sizeInBits then
    if length = 0 then some 0
    else do
      let address := r.pointer + bitOffset / kBitsPerByte
      let shift := bitOffset &&& (kBitsPerByte - 1)
      let loadBitCount := shift + length
      let value := loadedBits memory address shift loadBitCount
      -- clear the unwanted most significant bits
      let clearBitCount := 32 - length
      let value := (value <<< clearBitCount) >>> clearBitCount
      checkLoadedBits r memory bitOffset value length
      return value
  else none

/-- The loop of `StoreBits`, for at most `fuel` turns: `out` the address of the byte,
`length` the bits left, `value` their value, and `bitRemainder` where they start in
the byte. The masks are `size_t`s; a byte takes the low 8 bits of what is stored. -/
def storeBitsLoop : Nat → (Nat → BitVec 8) → Nat → Nat → BitVec 32 → Nat → Option (Nat → BitVec 8)
  | 0, _, _, _, _, _ => none
  | fuel + 1, memory, out, length, value, bitRemainder =>
    let remainingBits := kBitsPerByte - bitRemainder
    if length ≤ remainingBits then
      let mask : BitVec 64 := ((1 : BitVec 64) <<< length - 1) <<< bitRemainder
      some (Function.update memory out
        (((memory out).setWidth 64 &&& ~~~mask ||| (value <<< bitRemainder).setWidth 64).setWidth 8))
    else
      let valueMask : BitVec 64 := (1 : BitVec 64) <<< remainingBits - 1
      let memory := Function.update memory out
        (((memory out).setWidth 64 &&& ~~~(valueMask <<< bitRemainder) |||
          (value.setWidth 64 &&& valueMask) <<< bitRemainder).setWidth 8)
      storeBitsLoop fuel memory (out + 1) (length - remainingBits) (value >>> remainingBits) 0

/-- `StoreBits`: `value` on `length` bits from `bitOffset` on, after the `DCHECK`s that
`value` fits in `length` bits, that `length` is at most 32 and that the bits are in the
region. Only the first byte goes through `ComputeInternalPointer<uint8_t>`; the loop
takes a turn for each byte, at most `length`. The last `DCHECK_EQ` loads the bits
back. -/
def storeBits (memory : Nat → BitVec 8) (bitOffset : Nat) (value : BitVec 32) (length : Nat) :
    Option (Nat → BitVec 8) :=
  if value.toNat < 2 ^ length ∧ length ≤ 32 ∧ bitOffset + length ≤ r.sizeInBits then
    if length = 0 then some memory
    else do
      let out ← r.computeInternalPointer (bitOffset >>> kBitsPerByteLog2)
      let written ← storeBitsLoop length memory out length value (bitOffset % kBitsPerByte)
      let loaded ← r.loadBits written bitOffset length
      if loaded = value then some written else none
  else none

variable {r}

theorem computeInternalPointer_of_lt {offset : Nat} (inside : offset < r.size) :
    r.computeInternalPointer offset = some (r.pointer + offset) := by
  rw [computeInternalPointer, if_pos (by omega)]

/-- A load inside the region reads the bytes of memory there. -/
theorem loadUnaligned_eq {memory : Nat → BitVec 8} {offset n : Nat} (inside : offset + n ≤ r.size) :
    r.loadUnaligned memory offset n =
      some (sumLittleEndian (8 * n) (fun i => memory (r.pointer + offset + i)) n) := by
  obtain ⟨value, loop, holds⟩ := foldlM_range_invariant
    (fun value i => do
      let address ← r.computeInternalPointer (offset + i)
      return value + (memory address).setWidth (8 * n) <<< (i * 8))
    (fun k value => value = sumLittleEndian (8 * n) (fun i => memory (r.pointer + offset + i)) k) n 0 rfl
    (fun i value below holds => by
      refine ⟨value + (memory (r.pointer + (offset + i))).setWidth (8 * n) <<< (i * 8), ?_, ?_⟩
      · rw [computeInternalPointer_of_lt (by omega)]
        rfl
      · rw [holds, sumLittleEndian, sumLittleEndian, List.range_succ, List.foldl_append, List.foldl_cons,
          List.foldl_nil, Nat.add_assoc])
  rw [loadUnaligned, loop, holds]

/-- A store inside the region writes the bytes of the value there and nothing else. -/
theorem storeUnaligned_apply {memory : Nat → BitVec 8} {offset n : Nat} (inside : offset + n ≤ r.size)
    (value : BitVec (8 * n)) :
    ∃ stored, r.storeUnaligned memory offset n value = some stored ∧
      WrittenAt stored memory (r.pointer + offset) ((List.range n).map (littleEndianByte value)) := by
  -- after `k` bytes, the first `k` are written
  obtain ⟨stored, loop, holds⟩ := foldlM_range_invariant
    (fun memory i => do
      let address ← r.computeInternalPointer (offset + i)
      return Function.update memory address (littleEndianByte value i))
    (fun k stored => WrittenAt stored memory (r.pointer + offset) ((List.range k).map (littleEndianByte value)))
    n memory WrittenAt.nil
    (fun i current below holds => by
      refine ⟨Function.update current (r.pointer + (offset + i)) (littleEndianByte value i), ?_, ?_⟩
      · rw [computeInternalPointer_of_lt (by omega)]
        rfl
      · rw [List.range_succ, List.map_append, List.map_singleton]
        apply holds.append
        rw [List.length_map, List.length_range, Nat.add_assoc]
        exact writtenAt_update current _ _)
  exact ⟨stored, loop, holds⟩

/-- A load of a value from where memory holds its bytes gives the value. -/
theorem loadUnaligned_of_holdsAt {memory : Nat → BitVec 8} {offset n : Nat} (inside : offset + n ≤ r.size)
    {value : BitVec (8 * n)} (holds : HoldsAt memory (r.pointer + offset) ((List.range n).map (littleEndianByte value))) :
    r.loadUnaligned memory offset n = some value := by
  rw [loadUnaligned_eq inside, ← sumLittleEndian_littleEndianByte value]
  congr 1
  apply sumLittleEndian_congr
  intro i below
  have byte := holds i (by rw [List.length_map, List.length_range]; exact below)
  rw [List.getElem?_map, List.getElem?_range below, Option.map_some, Option.some.injEq] at byte
  exact byte.symm

/-- A load of what a store inside the region wrote gives the stored value. -/
theorem loadUnaligned_storeUnaligned {memory stored : Nat → BitVec 8} {offset n : Nat}
    (inside : offset + n ≤ r.size) {value : BitVec (8 * n)} (store : r.storeUnaligned memory offset n value = some stored) :
    r.loadUnaligned stored offset n = some value := by
  obtain ⟨written, run, bytes⟩ := @storeUnaligned_apply r memory offset n inside value
  rw [store, Option.some.injEq] at run
  subst run
  exact loadUnaligned_of_holdsAt inside bytes.holds

/-! ## Bits -/

theorem sizeInBits_eq (r : MemoryRegion) : r.sizeInBits = r.size * 8 := rfl

theorem and_kBitsPerByte_sub_one (bitOffset : Nat) : bitOffset &&& (kBitsPerByte - 1) = bitOffset % 8 :=
  Nat.and_two_pow_sub_one_eq_mod bitOffset 3

theorem shiftRight_kBitsPerByteLog2 (bitOffset : Nat) : bitOffset >>> kBitsPerByteLog2 = bitOffset / 8 :=
  Nat.shiftRight_eq_div_pow bitOffset 3

theorem subregion_of_le {offset sizeIn : Nat} (inside : offset + sizeIn ≤ r.size) :
    r.subregion offset sizeIn = some ⟨r.pointer + offset, sizeIn⟩ := by
  rw [subregion, if_pos (by omega)]

section Bits

variable {memory : Nat → BitVec 8} {bitOffset : Nat}

theorem computeBitPointer_of_lt (inside : bitOffset < r.sizeInBits) :
    r.computeBitPointer bitOffset = some (r.pointer + bitOffset / 8, BitVec.twoPow 8 (bitOffset % 8)) := by
  rw [sizeInBits_eq] at inside
  rw [computeBitPointer, and_kBitsPerByte_sub_one, shiftRight_kBitsPerByteLog2,
    setWidth_shiftLeft_one (by omega : bitOffset % 8 < 32), computeInternalPointer_of_lt (by omega)]
  rfl

/-- `LoadBit` inside the region reads the bit of memory there. -/
theorem loadBit_eq (inside : bitOffset < r.sizeInBits) :
    r.loadBit memory bitOffset = some (memoryBit memory (8 * r.pointer + bitOffset)) := by
  rw [loadBit, computeBitPointer_of_lt inside, memoryBit_eq]
  exact congrArg some (and_twoPow_ne_zero _ (Nat.mod_lt _ (by decide)))

/-- `StoreBit` inside the region writes the bit there and no other. -/
theorem storeBit_apply (inside : bitOffset < r.sizeInBits) (value : Bool) :
    ∃ written, r.storeBit memory bitOffset value = some written ∧
      BitsWritten written memory (8 * r.pointer + bitOffset) 1 fun _ => value := by
  have remainder : bitOffset % 8 < 8 := Nat.mod_lt _ (by decide)
  let byte := memory (r.pointer + bitOffset / 8)
  let mask := BitVec.twoPow 8 (bitOffset % 8)
  refine ⟨Function.update memory (r.pointer + bitOffset / 8) (if value then byte ||| mask else byte &&& ~~~mask), ?_, ?_⟩
  · rw [storeBit, computeBitPointer_of_lt inside]
    rfl
  · have maskBit : ∀ j, mask.getLsbD j = decide (j = bitOffset % 8) := by
      intro j
      rw [BitVec.getLsbD_twoPow]
      simp [remainder, eq_comm]
    -- the byte keeps its bits but the one of the mask
    have written := @bitsWritten_update memory (fun _ => value) (r.pointer + bitOffset / 8) (bitOffset % 8) 1
      (by omega) (if value then byte ||| mask else byte &&& ~~~mask) (fun j small => by
        by_cases same : j = bitOffset % 8
        · cases value <;> simp [maskBit, same]
        · have outside : ¬(bitOffset % 8 ≤ j ∧ j < bitOffset % 8 + 1) := by omega
          rw [if_neg outside]
          cases value
          · simp only [Bool.false_eq_true, if_false, BitVec.getLsbD_and, BitVec.getLsbD_not, maskBit, same,
              decide_false, small, decide_true, Bool.not_false, Bool.and_true, byte]
          · simp only [if_true, BitVec.getLsbD_or, maskBit, same, decide_false, Bool.or_false, byte])
    rwa [Nat.mul_add, Nat.add_assoc, show 8 * (bitOffset / 8) + bitOffset % 8 = bitOffset by omega] at written

/-- The bits `LoadBits` holds once it has read the bytes below bit `c` from the start
of byte `address`: bit `k` is the bit `shift + k` from there where that is below
`c`, and zero elsewhere. -/
def LoadedUpTo (memory : Nat → BitVec 8) (address shift c : Nat) (value : BitVec 32) : Prop :=
  ∀ k, value.getLsbD k = (decide (k < 32) && decide (shift + k < c) && memoryBit memory (8 * address + (shift + k)))

/-- The first byte, shifted right by `shift`, holds the bits below bit 8. -/
theorem loadedUpTo_first (memory : Nat → BitVec 8) (address : Nat) {shift : Nat} (small : shift < 8) :
    LoadedUpTo memory address shift 8 ((memory address).setWidth 32 >>> shift) := by
  intro k
  rw [BitVec.getLsbD_ushiftRight, BitVec.getLsbD_setWidth, memoryBit_eq]
  by_cases inByte : shift + k < 8
  · rw [Nat.div_eq_of_lt inByte, Nat.mod_eq_of_lt inByte, Nat.add_zero]
    simp [inByte, show shift + k < 32 by omega, show k < 32 by omega]
  · simp [inByte, BitVec.getLsbD_of_ge (memory address) (shift + k) (by omega)]

/-- Byte `j`, shifted to its place, adds the bits from bit `8 * j` to bit `8 * j + 8`. -/
theorem LoadedUpTo.orByte {memory : Nat → BitVec 8} {address shift c j : Nat} {value : BitVec 32}
    (loaded : LoadedUpTo memory address shift c value) (byteStart : c = 8 * j) (late : shift ≤ c) :
    LoadedUpTo memory address shift (c + 8) (value ||| (memory (address + j)).setWidth 32 <<< (c - shift)) := by
  intro k
  rw [BitVec.getLsbD_or, loaded k, BitVec.getLsbD_shiftLeft, BitVec.getLsbD_setWidth, memoryBit_eq]
  by_cases before : shift + k < c
  · -- a bit of the bytes before
    have early : k < c - shift := by omega
    simp [before, early, show shift + k < c + 8 by omega]
  · by_cases inByte : shift + k < c + 8
    · -- a bit of byte `j`
      have index : (shift + k) / 8 = j := by omega
      have offset : (shift + k) % 8 = k - (c - shift) := by omega
      rw [index, offset]
      simp [before, inByte, show ¬k < c - shift by omega, show k - (c - shift) < 32 by omega]
    · -- a bit past byte `j`, which it does not have
      have past : 8 ≤ k - (c - shift) := by omega
      simp [before, inByte, BitVec.getLsbD_of_ge (memory (address + j)) _ past]

/-- The bits `LoadBits` reads are those of memory from bit `shift` of byte `address`
on, as far as `loadBitCount` reaches. -/
theorem getLsbD_loadedBits (memory : Nat → BitVec 8) (address : Nat) {shift loadBitCount : Nat} (small : shift < 8)
    {k : Nat} (below : k < 32) (reach : shift + k < loadBitCount) :
    (loadedBits memory address shift loadBitCount).getLsbD k = memoryBit memory (8 * address + (shift + k)) := by
  have second := (loadedUpTo_first memory address small).orByte (c := 8) (j := 1) rfl (by omega)
  have third := second.orByte (c := 16) (j := 2) rfl (by omega)
  have fourth := third.orByte (c := 24) (j := 3) rfl (by omega)
  have fifth := fourth.orByte (c := 32) (j := 4) rfl (by omega)
  -- each branch has read the bytes that the bits below `loadBitCount` reach
  dsimp only [loadedBits]
  split_ifs with more8 more16 more24 more32
  · rw [fifth k]
    simp [below, show shift + k < 32 + 8 by omega]
  · rw [fourth k]
    simp [below, show shift + k < 24 + 8 by omega]
  · rw [third k]
    simp [below, show shift + k < 16 + 8 by omega]
  · rw [second k]
    simp [below, show shift + k < 8 + 8 by omega]
  · rw [loadedUpTo_first memory address small k]
    simp [below, show shift + k < 8 by omega]

/-- The `DCHECK_EQ` loop of `LoadBits` passes when the bits of the value are those of
memory. -/
theorem checkLoadedBits_of_getLsbD {value : BitVec 32} {length : Nat} (inside : bitOffset + length ≤ r.sizeInBits)
    (agrees : ∀ i < length, value.getLsbD i = memoryBit memory (8 * r.pointer + (bitOffset + i))) :
    r.checkLoadedBits memory bitOffset value length = some () := by
  obtain ⟨final, run, -⟩ := foldlM_range_invariant (fun _ i => do
      let bit ← r.loadBit memory (bitOffset + i)
      if (value >>> i) &&& 1 = (BitVec.ofBool bit).setWidth 32 then some () else none)
    (fun _ _ => True) length () trivial
    (fun i _ below _ => by
      -- bit `i` of the value, alone, is the bit `LoadBit` reads
      have bit : (value >>> i) &&& 1 = (BitVec.ofBool (memoryBit memory (8 * r.pointer + (bitOffset + i)))).setWidth 32 := by
        rw [← agrees i below]
        apply BitVec.eq_of_getLsbD_eq
        intro j _
        simp only [BitVec.getLsbD_and, BitVec.getLsbD_ushiftRight, BitVec.getLsbD_setWidth, BitVec.getLsbD_ofBool]
        by_cases zero : j = 0 <;> simp [zero]
      refine ⟨(), ?_, trivial⟩
      simp only [loadBit_eq (by omega : bitOffset + i < r.sizeInBits), Option.bind_eq_bind, Option.bind_some]
      rw [if_pos bit])
  rw [checkLoadedBits, run]

/-- `LoadBits` inside the region reads the bits of memory there, the first the least
significant. -/
theorem loadBits_eq {length : Nat} (short : length ≤ 32) (inside : bitOffset + length ≤ r.sizeInBits) :
    r.loadBits memory bitOffset length =
      some (sumBits 32 (fun k => memoryBit memory (8 * r.pointer + bitOffset + k)) length) := by
  by_cases empty : length = 0
  · subst empty
    rw [loadBits, if_pos ⟨short, inside⟩, if_pos rfl]
    rfl
  have shift : bitOffset &&& (kBitsPerByte - 1) = bitOffset % 8 := and_kBitsPerByte_sub_one bitOffset
  -- the value after the clearing of the bits above `length`
  have cleared : (loadedBits memory (r.pointer + bitOffset / kBitsPerByte) (bitOffset % 8) (bitOffset % 8 + length) <<<
      (32 - length)) >>> (32 - length) = sumBits 32 (fun k => memoryBit memory (8 * r.pointer + bitOffset + k)) length := by
    apply eq_sumBits_of_getLsbD short
    · intro k below
      have address : 8 * (r.pointer + bitOffset / kBitsPerByte) + (bitOffset % 8 + k) = 8 * r.pointer + bitOffset + k := by
        rw [show kBitsPerByte = 8 from rfl]
        omega
      rw [BitVec.getLsbD_ushiftRight, BitVec.getLsbD_shiftLeft, show 32 - length + k - (32 - length) = k by omega,
        getLsbD_loadedBits memory _ (Nat.mod_lt _ (by decide)) (by omega) (by omega), address]
      simp [show 32 - length + k < 32 by omega]
    · intro k above
      rw [BitVec.getLsbD_ushiftRight, BitVec.getLsbD_shiftLeft]
      simp [show ¬32 - length + k < 32 by omega]
  rw [loadBits, if_pos ⟨short, inside⟩, if_neg empty]
  dsimp only
  rw [shift, cleared, checkLoadedBits_of_getLsbD inside fun i below => by
    rw [getLsbD_sumBits _ short, ← Nat.add_assoc]
    simp [below]]
  rfl

/-- `LoadBits` of the bits a write put there gives the value written. -/
theorem loadBits_of_bitsWritten {written : Nat → BitVec 8} {length : Nat} {value : BitVec 32}
    (fits : value.toNat < 2 ^ length) (short : length ≤ 32) (inside : bitOffset + length ≤ r.sizeInBits)
    (write : BitsWritten written memory (8 * r.pointer + bitOffset) length fun k => value.getLsbD k) :
    r.loadBits written bitOffset length = some value := by
  rw [loadBits_eq short inside]
  exact congrArg some (eq_sumBits_of_getLsbD short (fun k below => (write.bit below).symm)
    (fun k above => getLsbD_eq_false_of_toNat_lt fits above)).symm

/-- The loop of `StoreBits` writes the `length` bits of `value` from bit `bitRemainder`
of byte `out` on, a byte a turn, as long as the fuel covers the bytes. The
induction is on the fuel, with the memory, the byte, the bits left and their value
generalized. -/
theorem storeBitsLoop_apply : ∀ (fuel : Nat) (memory : Nat → BitVec 8) (out length : Nat) (value : BitVec 32)
    (bitRemainder : Nat), bitRemainder < 8 → 0 < length → value.toNat < 2 ^ length → bitRemainder + length ≤ 8 * fuel →
    ∃ written, storeBitsLoop fuel memory out length value bitRemainder = some written ∧
      BitsWritten written memory (8 * out + bitRemainder) length fun k => value.getLsbD k
  | 0, _, _, _, _, _, _, positive, _, enough => absurd enough (by omega)
  | fuel + 1, memory, out, length, value, bitRemainder, small, positive, fits, enough => by
    have remaining : kBitsPerByte - bitRemainder = 8 - bitRemainder := rfl
    by_cases last : length ≤ 8 - bitRemainder
    · -- the last byte: the bits go in under the mask, the rest of the byte stays
      refine ⟨_, by rw [storeBitsLoop, remaining, if_pos last], bitsWritten_update (by omega) fun j small => ?_⟩
      simp only [BitVec.getLsbD_setWidth, BitVec.getLsbD_or, BitVec.getLsbD_and, BitVec.getLsbD_not,
        BitVec.getLsbD_shiftLeft, getLsbD_shiftLeft_one_sub_one (show length < 64 by omega)]
      by_cases low : bitRemainder ≤ j
      · by_cases field : j < bitRemainder + length
        · simp [small, low, field, show j < 64 by omega, show j < 32 by omega, show j - bitRemainder < length by omega,
            show ¬j < bitRemainder by omega]
        · have above := getLsbD_eq_false_of_toNat_lt fits (show length ≤ j - bitRemainder by omega)
          simp [small, low, field, above, show j < 64 by omega, show ¬j < bitRemainder by omega,
            show ¬j - bitRemainder < length by omega]
      · simp [small, low, show j < 64 by omega, show j < bitRemainder by omega]
    · -- a byte filled from `bitRemainder` on, then the bits left from the next byte on
      have first := @bitsWritten_update memory (fun k => value.getLsbD k) out bitRemainder (8 - bitRemainder)
        (by omega) (((memory out).setWidth 64 &&& ~~~(((1 : BitVec 64) <<< (8 - bitRemainder) - 1) <<< bitRemainder) |||
          (value.setWidth 64 &&& (1 : BitVec 64) <<< (8 - bitRemainder) - 1) <<< bitRemainder).setWidth 8)
        (fun j small => by
          simp only [BitVec.getLsbD_setWidth, BitVec.getLsbD_or, BitVec.getLsbD_and, BitVec.getLsbD_not,
            BitVec.getLsbD_shiftLeft, getLsbD_shiftLeft_one_sub_one (show 8 - bitRemainder < 64 by omega)]
          by_cases low : bitRemainder ≤ j
          · simp [small, low, show j < 64 by omega, show j - bitRemainder < 64 by omega, show ¬j < bitRemainder by omega,
              show j - bitRemainder < 8 - bitRemainder by omega, show j < bitRemainder + (8 - bitRemainder) by omega]
          · simp [small, low, show j < 64 by omega, show j < bitRemainder by omega])
      have rest : (value >>> (8 - bitRemainder)).toNat < 2 ^ (length - (8 - bitRemainder)) := by
        rw [BitVec.toNat_ushiftRight, Nat.shiftRight_eq_div_pow, Nat.div_lt_iff_lt_mul (Nat.two_pow_pos _),
          ← Nat.pow_add, Nat.sub_add_cancel (by omega)]
        exact fits
      obtain ⟨written, loop, second⟩ := storeBitsLoop_apply fuel _ (out + 1) (length - (8 - bitRemainder))
        (value >>> (8 - bitRemainder)) 0 (by decide) (by omega) rest (by omega)
      refine ⟨written, by rw [storeBitsLoop, remaining, if_neg last]; exact loop, ?_⟩
      rw [show length = (8 - bitRemainder) + (length - (8 - bitRemainder)) by omega]
      apply first.append
      rw [show 8 * out + bitRemainder + (8 - bitRemainder) = 8 * (out + 1) + 0 by omega]
      simpa only [BitVec.getLsbD_ushiftRight] using second

/-- `StoreBits` inside the region writes the bits of the value there and no others,
and its last `DCHECK_EQ` holds. -/
theorem storeBits_apply {length : Nat} {value : BitVec 32} (fits : value.toNat < 2 ^ length) (short : length ≤ 32)
    (inside : bitOffset + length ≤ r.sizeInBits) :
    ∃ written, r.storeBits memory bitOffset value length = some written ∧
      BitsWritten written memory (8 * r.pointer + bitOffset) length fun k => value.getLsbD k := by
  by_cases empty : length = 0
  · subst empty
    exact ⟨memory, by rw [storeBits, if_pos ⟨fits, short, inside⟩, if_pos rfl], BitsWritten.nil⟩
  have size := inside
  rw [sizeInBits_eq] at size
  obtain ⟨written, loop, write⟩ :=
    storeBitsLoop_apply length memory (r.pointer + bitOffset / 8) length value (bitOffset % 8)
      (Nat.mod_lt _ (by decide)) (by omega) fits (by omega)
  rw [Nat.mul_add, Nat.add_assoc, Nat.div_add_mod] at write
  -- the `DCHECK_EQ` loads back the value
  have loaded := loadBits_of_bitsWritten fits short inside write
  refine ⟨written, ?_, write⟩
  rw [storeBits, if_pos ⟨fits, short, inside⟩, if_neg empty, shiftRight_kBitsPerByteLog2,
    computeInternalPointer_of_lt (by omega)]
  simp only [Option.bind_eq_bind, Option.bind_some, show kBitsPerByte = 8 from rfl, loop, loaded, if_true]

end Bits

end MemoryRegion

end Art.Runtime
