import Art.Runtime.MemoryRegion

/-!
# `BitMemoryRegion`

A `BitMemoryRegion` is a run of bits of a `MemoryRegion` that need not start at a
byte (`bit_memory_region.h`). It keeps the subregion of the bytes the bits touch
and `bit_start_`, the bit in the first of those bytes where it begins, and adds
`bit_start_` to every bit offset before passing it on to the subregion.

A `MemoryRegion` holds the bits of its bytes: `LoadBit` and `LoadBits` read them,
the latter as the sum of the former shifted to their places (`loadBits_eq`), and
`StoreBits` writes the bits of a value and no others, which `LoadBits` then reads
back (`storeBits_apply`). A `BitMemoryRegion` made from bit `o` of a region on, for
`n` bits, holds the bits of memory from bit address `8 * pointer_ + o` on
(`make_views`); a subregion of it holds its bits from the subregion's offset on
(`Views.subregion`); and it has the same laws as a `MemoryRegion` at its own offsets
(`storeBits_loadBits_laws`).

`size_in_bits()` of a `BitMemoryRegion` is that of its byte subregion, which counts
the `bit_start_` bits before its first bit: the laws hold for the `n` bits it was
made for, as `Views` states them, and not for every offset below
`size_in_bits()`.
-/

set_option autoImplicit false

namespace Art.Runtime

open Art.Machine

/-- A `BitMemoryRegion`: `region_`, the bytes its bits touch, and `bit_start_`. -/
structure BitMemoryRegion where
  region : MemoryRegion
  bitStart : Nat

namespace BitMemoryRegion

/-- The constructor `BitMemoryRegion(region, bit_offset, bit_size)`: the subregion of
the bytes from the one of bit `bit_offset` to the one of its last bit, with the
`CHECK`s of `Subregion`. -/
def make (region : MemoryRegion) (bitOffset bitSize : Nat) : Option BitMemoryRegion := do
  let bitStart := bitOffset % kBitsPerByte
  let start := bitOffset / kBitsPerByte
  let endByte := (bitOffset + bitSize + kBitsPerByte - 1) / kBitsPerByte
  let region ← region.subregion start (endByte - start)
  return ⟨region, bitStart⟩

variable (b : BitMemoryRegion)

/-- `size_in_bits`. -/
def sizeInBits : Nat := b.region.sizeInBits

/-- `Subregion`. -/
def subregion (bitOffset bitSize : Nat) : Option BitMemoryRegion := make b.region (b.bitStart + bitOffset) bitSize

/-- `LoadBit`. -/
def loadBit (memory : Nat → BitVec 8) (bitOffset : Nat) : Option Bool := b.region.loadBit memory (bitOffset + b.bitStart)

/-- `StoreBit`. -/
def storeBit (memory : Nat → BitVec 8) (bitOffset : Nat) (value : Bool) : Option (Nat → BitVec 8) :=
  b.region.storeBit memory (bitOffset + b.bitStart) value

/-- `LoadBits`. -/
def loadBits (memory : Nat → BitVec 8) (bitOffset length : Nat) : Option (BitVec 32) :=
  b.region.loadBits memory (bitOffset + b.bitStart) length

/-- `StoreBits`. -/
def storeBits (memory : Nat → BitVec 8) (bitOffset : Nat) (value : BitVec 32) (length : Nat) :
    Option (Nat → BitVec 8) :=
  b.region.storeBits memory (bitOffset + b.bitStart) value length

/-- `b` stands for the `bits` bits of memory from bit address `base` on: its first bit
is bit `bit_start_` of its first byte, and its bits end inside its bytes. -/
structure Views (base bits : Nat) : Prop where
  base_eq : 8 * b.region.pointer + b.bitStart = base
  fits : b.bitStart + bits ≤ b.region.sizeInBits

variable {b}

/-- A `BitMemoryRegion` made for `bitSize` bits from `bitOffset` on, inside its region,
stands for those bits. -/
theorem make_views {region : MemoryRegion} {bitOffset bitSize : Nat} (inside : bitOffset + bitSize ≤ region.sizeInBits) :
    ∃ b, make region bitOffset bitSize = some b ∧ b.Views (8 * region.pointer + bitOffset) bitSize := by
  rw [MemoryRegion.sizeInBits_eq] at inside
  have bytes : bitOffset / 8 + ((bitOffset + bitSize + 8 - 1) / 8 - bitOffset / 8) ≤ region.size := by omega
  refine ⟨⟨⟨region.pointer + bitOffset / 8, (bitOffset + bitSize + 8 - 1) / 8 - bitOffset / 8⟩, bitOffset % 8⟩, ?_,
    ⟨by dsimp only; omega, by rw [MemoryRegion.sizeInBits_eq]; dsimp only; omega⟩⟩
  rw [make, show kBitsPerByte = 8 from rfl, MemoryRegion.subregion_of_le bytes]
  rfl

/-- A subregion of `b` stands for the bits of `b` from its offset on. -/
theorem Views.subregion {base bits : Nat} (views : b.Views base bits) {bitOffset bitSize : Nat}
    (inside : bitOffset + bitSize ≤ bits) :
    ∃ sub, b.subregion bitOffset bitSize = some sub ∧ sub.Views (base + bitOffset) bitSize := by
  obtain ⟨sub, made, subViews⟩ :=
    @make_views b.region (b.bitStart + bitOffset) bitSize (by have := views.fits; omega)
  refine ⟨sub, made, ?_⟩
  rwa [← Nat.add_assoc, views.base_eq] at subViews

section Laws

variable {base bits : Nat} (views : b.Views base bits) {memory : Nat → BitVec 8}
include views

theorem Views.loadBit_eq {bitOffset : Nat} (below : bitOffset < bits) :
    b.loadBit memory bitOffset = some (memoryBit memory (base + bitOffset)) := by
  rw [loadBit, MemoryRegion.loadBit_eq (by have := views.fits; omega), ← views.base_eq]
  congr 2
  omega

theorem Views.loadBits_eq {bitOffset length : Nat} (short : length ≤ 32) (inside : bitOffset + length ≤ bits) :
    b.loadBits memory bitOffset length = some (sumBits 32 (fun k => memoryBit memory (base + bitOffset + k)) length) := by
  rw [loadBits, MemoryRegion.loadBits_eq short (by have := views.fits; omega), ← views.base_eq]
  congr 3
  funext k
  congr 1
  omega

theorem Views.storeBits_apply {bitOffset length : Nat} {value : BitVec 32} (fits : value.toNat < 2 ^ length)
    (short : length ≤ 32) (inside : bitOffset + length ≤ bits) :
    ∃ written, b.storeBits memory bitOffset value length = some written ∧
      BitsWritten written memory (base + bitOffset) length fun k => value.getLsbD k := by
  obtain ⟨written, store, write⟩ :=
    @MemoryRegion.storeBits_apply b.region memory (bitOffset + b.bitStart) length value fits short
      (by have := views.fits; omega)
  refine ⟨written, store, ?_⟩
  rwa [← Nat.add_assoc, Nat.add_right_comm, views.base_eq] at write

theorem Views.loadBits_of_bitsWritten {written : Nat → BitVec 8} {bitOffset length : Nat} {value : BitVec 32}
    (fits : value.toNat < 2 ^ length) (short : length ≤ 32) (inside : bitOffset + length ≤ bits)
    (write : BitsWritten written memory (base + bitOffset) length fun k => value.getLsbD k) :
    b.loadBits written bitOffset length = some value := by
  apply MemoryRegion.loadBits_of_bitsWritten fits short (by have := views.fits; omega)
  rwa [← Nat.add_assoc, Nat.add_right_comm, views.base_eq]

end Laws

/-- `StoreBits`, `LoadBits` and `LoadBit` of a `MemoryRegion`, inside it, and of a
`BitMemoryRegion`, at its own offsets inside the bits it stands for: the bits
stored load back and no other bit changes, and the bits loaded are the sum of the
single bits shifted to their places. A `BitMemoryRegion` made inside a region, and
a subregion of one, stand for the bits they were made for. -/
theorem storeBits_loadBits_laws :
    (∀ (r : MemoryRegion) (memory : Nat → BitVec 8) (o l : Nat) (v : BitVec 32),
      l ≤ 32 → v.toNat < 2 ^ l → o + l ≤ r.sizeInBits →
      ∃ written, r.storeBits memory o v l = some written ∧ r.loadBits written o l = some v ∧
        ∀ a, a < 8 * r.pointer + o ∨ 8 * r.pointer + o + l ≤ a → memoryBit written a = memoryBit memory a) ∧
    (∀ (r : MemoryRegion) (memory : Nat → BitVec 8) (o l : Nat), l ≤ 32 → o + l ≤ r.sizeInBits →
      (∀ k < l, r.loadBit memory (o + k) = some (memoryBit memory (8 * r.pointer + o + k))) ∧
        r.loadBits memory o l = some (sumBits 32 (fun k => memoryBit memory (8 * r.pointer + o + k)) l)) ∧
    (∀ (region : MemoryRegion) (o n : Nat), o + n ≤ region.sizeInBits →
      ∃ b, make region o n = some b ∧ b.Views (8 * region.pointer + o) n) ∧
    (∀ (b : BitMemoryRegion) (base bits : Nat), b.Views base bits → ∀ o n, o + n ≤ bits →
      ∃ sub, b.subregion o n = some sub ∧ sub.Views (base + o) n) ∧
    (∀ (b : BitMemoryRegion) (base bits : Nat) (memory : Nat → BitVec 8) (o l : Nat) (v : BitVec 32),
      b.Views base bits → l ≤ 32 → v.toNat < 2 ^ l → o + l ≤ bits →
      ∃ written, b.storeBits memory o v l = some written ∧ b.loadBits written o l = some v ∧
        ∀ a, a < base + o ∨ base + o + l ≤ a → memoryBit written a = memoryBit memory a) ∧
    (∀ (b : BitMemoryRegion) (base bits : Nat) (memory : Nat → BitVec 8) (o l : Nat),
      b.Views base bits → l ≤ 32 → o + l ≤ bits →
      (∀ k < l, b.loadBit memory (o + k) = some (memoryBit memory (base + o + k))) ∧
        b.loadBits memory o l = some (sumBits 32 (fun k => memoryBit memory (base + o + k)) l)) := by
  refine ⟨?_, ?_, fun region o n inside => make_views inside, fun b base bits views o n inside => views.subregion inside,
    ?_, ?_⟩
  · intro r memory o l v short fits inside
    obtain ⟨written, store, write⟩ := @MemoryRegion.storeBits_apply r memory o l v fits short inside
    exact ⟨written, store, MemoryRegion.loadBits_of_bitsWritten fits short inside write, fun a outside => write.frame outside⟩
  · intro r memory o l short inside
    refine ⟨fun k below => ?_, MemoryRegion.loadBits_eq short inside⟩
    rw [MemoryRegion.loadBit_eq (by omega), Nat.add_assoc]
  · intro b base bits memory o l v views short fits inside
    obtain ⟨written, store, write⟩ := @Views.storeBits_apply b base bits views memory o l v fits short inside
    exact ⟨written, store, views.loadBits_of_bitsWritten fits short inside write, fun a outside => write.frame outside⟩
  · intro b base bits memory o l views short inside
    refine ⟨fun k below => ?_, views.loadBits_eq short inside⟩
    rw [views.loadBit_eq (by omega), Nat.add_assoc]

/-- A region of four bytes at address 16 that all hold `0xa5`: five bits stored at
bit 3 and read back, a `BitMemoryRegion` made over its bits 3 to 22, and one over
all of it with the subregion of its bits 8 to 15. -/
theorem storeBits_loadBits_fourBytes :
    (∃ written, MemoryRegion.storeBits ⟨16, 4⟩ (fun _ => 0xa5) 3 21 5 = some written ∧
      MemoryRegion.loadBits ⟨16, 4⟩ written 3 5 = some 21 ∧
      ∀ a, a < 8 * 16 + 3 ∨ 8 * 16 + 3 + 5 ≤ a → memoryBit written a = memoryBit (fun _ => 0xa5) a) ∧
    MemoryRegion.loadBits ⟨16, 4⟩ (fun _ => 0xa5) 3 5 =
      some (sumBits 32 (fun k => memoryBit (fun _ => 0xa5) (8 * 16 + 3 + k)) 5) ∧
    (∃ made, make ⟨16, 4⟩ 3 20 = some made ∧ made.Views (8 * 16 + 3) 20) ∧
    (∃ sub, BitMemoryRegion.subregion ⟨⟨16, 4⟩, 0⟩ 8 8 = some sub ∧ sub.Views (128 + 8) 8) ∧
    (∃ written, BitMemoryRegion.storeBits ⟨⟨16, 4⟩, 0⟩ (fun _ => 0xa5) 3 21 5 = some written ∧
      BitMemoryRegion.loadBits ⟨⟨16, 4⟩, 0⟩ written 3 5 = some 21 ∧
      ∀ a, a < 128 + 3 ∨ 128 + 3 + 5 ≤ a → memoryBit written a = memoryBit (fun _ => 0xa5) a) ∧
    BitMemoryRegion.loadBits ⟨⟨16, 4⟩, 0⟩ (fun _ => 0xa5) 3 5 =
      some (sumBits 32 (fun k => memoryBit (fun _ => 0xa5) (128 + 3 + k)) 5) := by
  have views : BitMemoryRegion.Views ⟨⟨16, 4⟩, 0⟩ 128 32 := ⟨rfl, by decide⟩
  exact ⟨storeBits_loadBits_laws.1 ⟨16, 4⟩ _ 3 5 21 (by decide) (by decide) (by decide),
    (storeBits_loadBits_laws.2.1 ⟨16, 4⟩ _ 3 5 (by decide) (by decide)).2,
    storeBits_loadBits_laws.2.2.1 ⟨16, 4⟩ 3 20 (by decide),
    storeBits_loadBits_laws.2.2.2.1 _ 128 32 views 8 8 (by decide),
    storeBits_loadBits_laws.2.2.2.2.1 _ 128 32 _ 3 5 21 views (by decide) (by decide) (by decide),
    (storeBits_loadBits_laws.2.2.2.2.2 _ 128 32 _ 3 5 views (by decide) (by decide)).2⟩

end BitMemoryRegion

end Art.Runtime
