import Mathlib.Data.BitVec

/-!
# Fetching and decoding Arm instructions

The instructions a linker patches, decoded as the Arm architecture defines them.
Memory is a list of bytes, read little-endian (`halfwordAt`, `wordAt`). An A64
instruction is the word at its address. A 32-bit T32 instruction is two
halfwords, and the first one holds the opcode (`fetchT32`).

The decoders give the immediate of each instruction in the form the architecture
uses it:
* `blOffsetT1`: the branch offset of a T32 `BL`,
  `SignExtend(S:I1:I2:imm10:imm11:'0', 32)` with `I1 = NOT(J1 XOR S)` and
  `I2 = NOT(J2 XOR S)`, taken from the PC, which is the address of the
  instruction plus 4;
* `movImm16T3`: the `imm4:i:imm3:imm8` of a T32 `MOVW` or `MOVT`;
* `branchOffset`: the offset `SignExtend(imm26:'00', 64)` of an A64 `B` or `BL`
  from its own address;
* `adrpOffset`: the offset `SignExtend(immhi:immlo:Zeros(12), 64)` that `ADRP`
  adds to the 4 KiB page of its address (`page`);
* `addImmediate`: the `imm12` of an A64 `ADD` (immediate) with no shift;
* `loadStoreOffset`: the `imm12` of an A64 `LDR` or `STR` (immediate, unsigned
  offset), scaled by the size of the access.

Offsets are integers; a value read as an integer is `toInt`.
-/

set_option autoImplicit false

namespace Art.Machine

/-! ## Little-endian memory -/

/-- The byte at an address; an address past the end reads as `0`. -/
def byteAt (memory : List (BitVec 8)) (address : Nat) : BitVec 8 := memory.getD address 0

/-- The little-endian halfword at an address. -/
def halfwordAt (memory : List (BitVec 8)) (address : Nat) : BitVec 16 :=
  byteAt memory (address + 1) ++ byteAt memory address

/-- The little-endian word at an address. -/
def wordAt (memory : List (BitVec 8)) (address : Nat) : BitVec 32 :=
  halfwordAt memory (address + 2) ++ halfwordAt memory address

/-- A byte written at another address leaves the byte at an address as it is. -/
theorem byteAt_set_of_ne {memory : List (BitVec 8)} {address other : Nat} (byte : BitVec 8)
    (different : other ≠ address) :
    byteAt (memory.set other byte) address = byteAt memory address := by
  simp only [byteAt, List.getD_eq_getElem?_getD, List.getElem?_set_ne different]

/-- The byte written at an address inside the memory is read back. -/
theorem byteAt_set_self {memory : List (BitVec 8)} {address : Nat} (byte : BitVec 8)
    (inside : address < memory.length) :
    byteAt (memory.set address byte) address = byte := by
  simp only [byteAt, List.getD_eq_getElem?_getD, List.getElem?_set_self inside, Option.getD_some]

/-- An append of two vectors is the high one shifted above the low one. -/
theorem toNat_append_eq_add {m n : Nat} (high : BitVec m) (low : BitVec n) :
    (high ++ low).toNat = high.toNat * 2 ^ n + low.toNat := by
  rw [BitVec.toNat_append, ← Nat.shiftLeft_add_eq_or_of_lt low.isLt, Nat.shiftLeft_eq]

/-- The 4 KiB page of an address. -/
def page (address : Int) : Int := address / 4096 * 4096

/-! ## Fields of a word -/

/-- A field that a mask covers reads the same in the masked value. -/
theorem extractLsb'_of_and_eq {w : Nat} {x mask value : BitVec w} (masked : x &&& mask = value)
    {start len : Nat} (covered : mask.extractLsb' start len = BitVec.allOnes len) :
    x.extractLsb' start len = value.extractLsb' start len := by
  rw [← masked, BitVec.extractLsb'_and, covered, BitVec.and_allOnes]

/-- A bit that a mask covers reads the same in the masked value. -/
theorem getLsbD_of_and_eq {w : Nat} {x mask value : BitVec w} (masked : x &&& mask = value) {i : Nat}
    (covered : mask.getLsbD i = true) : x.getLsbD i = value.getLsbD i := by
  rw [← masked, BitVec.getLsbD_and, covered, Bool.and_true]

/-- Masking a masked value again with a narrower mask masks the value it equals. -/
theorem and_of_and_eq {w : Nat} {x mask value narrower : BitVec w} (masked : x &&& mask = value)
    (covered : mask &&& narrower = narrower) : x &&& narrower = value &&& narrower := by
  rw [← masked, BitVec.and_assoc, covered]

/-- Two values that agree on the bits of a field agree on the field. -/
theorem extractLsb'_congr {w : Nat} {x y : BitVec w} {start len : Nat}
    (same : ∀ j, start ≤ j → j < start + len → x.getLsbD j = y.getLsbD j) :
    x.extractLsb' start len = y.extractLsb' start len := by
  apply BitVec.eq_of_getLsbD_eq
  intro i hi
  simp only [BitVec.getLsbD_extractLsb', hi, decide_true, Bool.true_and]
  exact same (start + i) (by omega) (by omega)

/-- Clearing the low `k` bits rounds down to a multiple of `2 ^ k`. -/
theorem toNat_ushiftRight_shiftLeft {w : Nat} (x : BitVec w) (k : Nat) :
    (x >>> k <<< k).toNat = x.toNat / 2 ^ k * 2 ^ k := by
  rw [BitVec.toNat_shiftLeft, BitVec.toNat_ushiftRight, Nat.shiftLeft_eq, Nat.shiftRight_eq_div_pow]
  exact Nat.mod_eq_of_lt (Nat.lt_of_le_of_lt (Nat.div_mul_le_self _ _) x.isLt)

/-- The difference of two 32-bit offsets, read as a signed value, is their
distance when the distance fits. -/
theorem toInt_sub_of_reach {address target : BitVec 32}
    (reach : -2 ^ 31 ≤ (target.toNat : Int) - address.toNat ∧ (target.toNat : Int) - address.toNat < 2 ^ 31) :
    (target - address).toInt = (target.toNat : Int) - address.toNat := by
  have bound := target.isLt
  have bound' := address.isLt
  rw [BitVec.toInt_eq_toNat_cond, BitVec.toNat_sub]
  split <;> omega

namespace Arm

/-! ## T32 -/

/-- The two halfwords of a 32-bit T32 instruction at an address. -/
def fetchT32 (memory : List (BitVec 8)) (address : Nat) : BitVec 16 × BitVec 16 :=
  (halfwordAt memory address, halfwordAt memory (address + 2))

/-- `BL` (encoding T1): `11110 S imm10` then `11 J1 1 J2 imm11`. -/
def isBlT1 (first second : BitVec 16) : Bool :=
  first.extractLsb' 11 5 == 0b11110#5 && second.extractLsb' 14 2 == 0b11#2 && second.getLsbD 12

/-- The offset of a T32 `BL` from the PC: `SignExtend(S:I1:I2:imm10:imm11:'0', 32)`. -/
def blOffsetT1 (first second : BitVec 16) : BitVec 32 :=
  let s := first.extractLsb' 10 1
  let imm10 := first.extractLsb' 0 10
  let j1 := second.extractLsb' 13 1
  let j2 := second.extractLsb' 11 1
  let imm11 := second.extractLsb' 0 11
  let i1 := ~~~(j1 ^^^ s)
  let i2 := ~~~(j2 ^^^ s)
  (s ++ i1 ++ i2 ++ imm10 ++ imm11 ++ 0#1).signExtend 32

/-- `MOVW` (encoding T3): `11110 i 100100 imm4` then `0 imm3 Rd imm8`. -/
def isMovwT3 (first second : BitVec 16) : Bool :=
  first &&& 0xfbf0 == 0xf240 && !second.getLsbD 15

/-- `MOVT` (encoding T1): `11110 i 101100 imm4` then `0 imm3 Rd imm8`. -/
def isMovtT1 (first second : BitVec 16) : Bool :=
  first &&& 0xfbf0 == 0xf2c0 && !second.getLsbD 15

/-- The 16-bit immediate of `MOVW` and `MOVT`: `imm4:i:imm3:imm8`. -/
def movImm16T3 (first second : BitVec 16) : BitVec 16 :=
  first.extractLsb' 0 4 ++ first.extractLsb' 10 1 ++ second.extractLsb' 12 3 ++ second.extractLsb' 0 8

/-! ## A64 -/

/-- `BL`: `100101 imm26`. -/
def isBl (insn : BitVec 32) : Bool := insn.extractLsb' 26 6 == 0b100101#6

/-- `B`: `000101 imm26`. -/
def isB (insn : BitVec 32) : Bool := insn.extractLsb' 26 6 == 0b000101#6

/-- The offset of `B` or `BL` from its own address: `SignExtend(imm26:'00', 64)`. -/
def branchOffset (insn : BitVec 32) : Int := (insn.extractLsb' 0 26 ++ 0#2).toInt

/-- `ADRP`: `1 immlo 10000 immhi Rd`. -/
def isAdrp (insn : BitVec 32) : Bool := insn.getLsbD 31 && insn.extractLsb' 24 5 == 0b10000#5

/-- The `imm26` of a branch that holds bits 27-2 of a displacement encodes the
displacement, when it is a multiple of 4 within 128 MiB. -/
theorem branchOffset_of_imm26 {insn displacement : BitVec 32}
    (imm26 : insn.extractLsb' 0 26 = displacement.extractLsb' 2 26) (aligned : displacement.toNat % 4 = 0)
    (reach : -2 ^ 27 ≤ displacement.toInt ∧ displacement.toInt < 2 ^ 27) :
    branchOffset insn = displacement.toInt := by
  have bound := displacement.isLt
  rw [branchOffset, imm26, BitVec.toInt_append_zero, BitVec.toInt_eq_toNat_cond, BitVec.extractLsb'_toNat]
  rw [BitVec.toInt_eq_toNat_cond] at reach ⊢
  simp only [Nat.shiftRight_eq_div_pow]
  split <;> split at reach <;> omega

/-- The offset `ADRP` adds to the page of its address:
`SignExtend(immhi:immlo:Zeros(12), 64)`. -/
def adrpOffset (insn : BitVec 32) : Int := (insn.extractLsb' 5 19 ++ insn.extractLsb' 29 2 ++ 0#12).toInt

/-- `ADD` (immediate) of 64-bit registers with no shift: `1001000100 imm12 Rn Rd`. -/
def isAddImmediate (insn : BitVec 32) : Bool := insn.extractLsb' 22 10 == 0b1001000100#10

/-- The immediate an `ADD` (immediate) with no shift adds. -/
def addImmediate (insn : BitVec 32) : Nat := (insn.extractLsb' 10 12).toNat

/-- `LDR` or `STR` (immediate, unsigned offset) of a 32-bit or 64-bit register:
`1 size 111001 opc imm12 Rn Rt`. -/
def isLoadStoreUnsignedOffset (insn : BitVec 32) : Bool :=
  insn.getLsbD 31 && insn.extractLsb' 24 6 == 0b111001#6

/-- The offset of `LDR` or `STR` (immediate, unsigned offset): `imm12` scaled by
the size of the access, `2 ^ size` bytes. -/
def loadStoreOffset (insn : BitVec 32) : Nat :=
  (insn.extractLsb' 10 12).toNat * 2 ^ (insn.extractLsb' 30 2).toNat

/-- The offset within its page that an `ADD` (immediate) or an `LDR` or `STR`
(immediate, unsigned offset) adds to the page address in its base register. -/
def pageOffset (insn : BitVec 32) : Nat :=
  if isAddImmediate insn then addImmediate insn else loadStoreOffset insn

end Arm

end Art.Machine
