import Art.Machine.ArmEncoding
import Mathlib.Tactic.IntervalCases

/-!
# The relative patchers for Thumb2 and ARM64

When the oat writer lays out the compiled methods, it writes into each method's
code the PC-relative offsets that its calls and references need: a call gets a
`BL` to its target (`PatchCall`), and a reference gets the offsets of an address
computed from the PC (`PatchPcRelativeReference`). On Thumb2 the address is the
`MOVW`/`MOVT` pair of the distance from the PC of an `ADD ..., PC`. On ARM64 it
is an `ADRP` of the target's page and an `ADD` or `LDR` of the offset within the
page. On cores with erratum 843419 some `ADRP`s are moved to a thunk: the `ADRP`
becomes a `B` to a thunk that holds the `ADRP` and a `B` back.

Each patch is decoded here with the architecture's encodings
(`Art.Machine.Arm`), and gives the target it was asked for:
`thumb2_patchCall_decodes`, `thumb2_movwMovt_decodes`, `arm64_patchCall_decodes`,
`arm64_adrp_decodes` and `arm64_adrpThunk_decodes`.

Offsets are the code's `uint32_t`, `BitVec 32`. The code of a method is a list
of bytes. A call whose target is out of range goes to a method call thunk
(`CalculateMethodCallDisplacement`); the results here are about the calls in
range.
-/

set_option autoImplicit false

namespace Art.Compiler.Linker

open Art.Machine Art.Machine.Arm

/-- The offsets of a `LinkerPatch` in the code of its method: the instruction
to patch, and the instruction whose PC the offset is taken from. -/
structure LinkerPatch where
  literalOffset : BitVec 32
  pcInsnOffset : BitVec 32
  deriving DecidableEq, Repr

/-- The offsets of the method call thunk the code has still to write, if any,
and of the last one it wrote. -/
structure MethodCallThunk where
  pendingOffset : Option (BitVec 32)
  lastWrittenOffset : Option (BitVec 32)
  deriving DecidableEq, Repr

/-- `ArmBaseRelativePatcher::CalculateMethodCallDisplacement`: the displacement
to the target, or to a method call thunk when the target is out of range. The
comparisons are unsigned, so a displacement is out of range when it lies above
the largest positive one and below the most negative one. A failed `DCHECK` on
the offsets of the thunk is `none`. -/
def calculateMethodCallDisplacement (maxPositiveDisplacement maxNegativeDisplacement : BitVec 32)
    (thunk : MethodCallThunk) (patchOffset targetOffset : BitVec 32) : Option (BitVec 32) :=
  let displacement := targetOffset - patchOffset
  if maxPositiveDisplacement < displacement ∧ displacement < -maxNegativeDisplacement then
    -- We must have a previous thunk then: it lies before the patch, within reach.
    let written : Option (BitVec 32) :=
      match thunk.lastWrittenOffset with
      | some lastWritten =>
          if lastWritten < patchOffset ∧ -maxNegativeDisplacement ≤ lastWritten - patchOffset then
            some (lastWritten - patchOffset)
          else none
      | none => none
    match thunk.pendingOffset with
    | some pending =>
        -- Unwritten thunks have higher offsets.
        if pending ≤ patchOffset then none
        else if pending - patchOffset ≤ maxPositiveDisplacement then some (pending - patchOffset)
        else written
    | none => written
  else some displacement

/-- A displacement in range is the distance to the target. -/
theorem calculateMethodCallDisplacement_of_fits {maxPositiveDisplacement maxNegativeDisplacement : BitVec 32}
    {thunk : MethodCallThunk} {patchOffset targetOffset : BitVec 32}
    (fits : targetOffset - patchOffset ≤ maxPositiveDisplacement ∨
      -maxNegativeDisplacement ≤ targetOffset - patchOffset) :
    calculateMethodCallDisplacement maxPositiveDisplacement maxNegativeDisplacement thunk patchOffset
      targetOffset = some (targetOffset - patchOffset) := by
  have inRange : ¬ (maxPositiveDisplacement < targetOffset - patchOffset ∧
      targetOffset - patchOffset < -maxNegativeDisplacement) := by
    rintro ⟨above, below⟩
    rcases fits with fits | fits
    · exact absurd fits (BitVec.not_le.mpr above)
    · exact absurd fits (BitVec.not_le.mpr below)
  simp only [calculateMethodCallDisplacement, if_neg inRange]

/-- A call whose distance to its target is within the range goes to the target. -/
theorem calculateMethodCallDisplacement_of_reach {maxPositiveDisplacement maxNegativeDisplacement : BitVec 32}
    {thunk : MethodCallThunk} {patchOffset targetOffset : BitVec 32}
    (reach : -(maxNegativeDisplacement.toNat : Int) ≤ (targetOffset.toNat : Int) - patchOffset.toNat ∧
      (targetOffset.toNat : Int) - patchOffset.toNat ≤ maxPositiveDisplacement.toNat)
    (ranges : maxPositiveDisplacement.toNat < 2 ^ 31 ∧ 0 < maxNegativeDisplacement.toNat ∧
      maxNegativeDisplacement.toNat ≤ 2 ^ 31) :
    calculateMethodCallDisplacement maxPositiveDisplacement maxNegativeDisplacement thunk patchOffset
      targetOffset = some (targetOffset - patchOffset) := by
  apply calculateMethodCallDisplacement_of_fits
  have bound := targetOffset.isLt
  have bound' := patchOffset.isLt
  simp only [BitVec.le_def, BitVec.toNat_sub, BitVec.toNat_neg]
  omega

/-- Clearing bit 0 of an offset rounds it down to an even one. -/
theorem toNat_and_not_one (offset : BitVec 32) : (offset &&& ~~~1).toNat = offset.toNat / 2 * 2 := by
  rw [show (~~~1 : BitVec 32) = BitVec.allOnes 32 <<< 1 by decide, ← BitVec.shiftLeft_ushiftRight,
    toNat_ushiftRight_shiftLeft, Nat.pow_one]

/-- The page of an offset is the offset with its low 12 bits cleared. -/
theorem page_toNat (offset : BitVec 32) : page offset.toNat = ((offset &&& ~~~0xfff).toNat : Int) := by
  rw [show (~~~0xfff : BitVec 32) = BitVec.allOnes 32 <<< 12 by decide, ← BitVec.shiftLeft_ushiftRight,
    toNat_ushiftRight_shiftLeft, page]
  omega

/-! ## Reading and writing instructions -/

/-- The two bytes of a halfword of a word. -/
theorem bytes_append_of_halfword (value : BitVec 32) (start : Nat) (low : start = 0 ∨ start = 16) :
    ((value >>> (start + 8)) &&& 0xff).setWidth 8 ++ ((value >>> start) &&& 0xff).setWidth 8 =
      value.extractLsb' start 16 := by
  apply BitVec.eq_of_toNat_eq
  simp only [toNat_append_eq_add, BitVec.toNat_setWidth, BitVec.toNat_and, BitVec.toNat_ushiftRight,
    BitVec.ofNat_eq_ofNat, BitVec.toNat_ofNat, BitVec.extractLsb'_toNat]
  simp only [show (255 : Nat) % 2 ^ 32 = 2 ^ 8 - 1 from rfl, Nat.and_two_pow_sub_one_eq_mod]
  rcases low with rfl | rfl <;> simp only [Nat.shiftRight_eq_div_pow] <;> omega

/-- The two halves of a word, put back together, are the word. -/
theorem halves_append (value : BitVec 32) : value.extractLsb' 16 16 ++ value.extractLsb' 0 16 = value := by
  apply BitVec.eq_of_toNat_eq
  have bound := value.isLt
  simp only [toNat_append_eq_add, BitVec.extractLsb'_toNat, Nat.shiftRight_eq_div_pow]
  omega

namespace Thumb2RelativePatcher

/-- `kPcDisplacement`: the PC of a Thumb2 instruction is 4 bytes after it. -/
def kPcDisplacement : BitVec 32 := 4

/-- `kMaxMethodCallPositiveDisplacement`. -/
def kMaxMethodCallPositiveDisplacement : BitVec 32 := (1 <<< 24) - 2 + kPcDisplacement

/-- `kMaxMethodCallNegativeDisplacement`. -/
def kMaxMethodCallNegativeDisplacement : BitVec 32 := (1 <<< 24) - kPcDisplacement

/-- `SetInsn32`: the high halfword first, each halfword little-endian. -/
def setInsn32 (code : List (BitVec 8)) (offset value : BitVec 32) : List (BitVec 8) :=
  let address := offset.toNat
  (((code.set address (((value >>> 16) &&& 0xff).setWidth 8)).set (address + 1)
    (((value >>> 24) &&& 0xff).setWidth 8)).set (address + 2) (((value >>> 0) &&& 0xff).setWidth 8)).set
    (address + 3) (((value >>> 8) &&& 0xff).setWidth 8)

/-- `GetInsn32`. -/
def getInsn32 (code : List (BitVec 8)) (offset : BitVec 32) : BitVec 32 :=
  let address := offset.toNat
  ((byteAt code address).setWidth 32 <<< 16) + ((byteAt code (address + 1)).setWidth 32 <<< 24) +
    ((byteAt code (address + 2)).setWidth 32 <<< 0) + ((byteAt code (address + 3)).setWidth 32 <<< 8)

/-- `PatchCall`: write a `BL` to the target, whose mode bit is set. -/
def patchCall (thunk : MethodCallThunk) (code : List (BitVec 8)) (literalOffset patchOffset targetOffset : BitVec 32) :
    Option (List (BitVec 8)) := do
  let displacement ← calculateMethodCallDisplacement kMaxMethodCallPositiveDisplacement
    kMaxMethodCallNegativeDisplacement thunk patchOffset (targetOffset &&& ~~~1)
  -- The base PC is at the end of the 4-byte patch.
  let displacement := displacement - kPcDisplacement
  let signbit := (displacement >>> 31) &&& 0x1
  let i1 := (displacement >>> 23) &&& 0x1
  let i2 := (displacement >>> 22) &&& 0x1
  let imm10 := (displacement >>> 12) &&& 0x03ff
  let imm11 := (displacement >>> 1) &&& 0x07ff
  let j1 := i1 ^^^ (signbit ^^^ 1)
  let j2 := i2 ^^^ (signbit ^^^ 1)
  let value := (signbit <<< 26) ||| (j1 <<< 13) ||| (j2 <<< 11) ||| (imm10 <<< 16) ||| imm11
  let value := value ||| 0xf000d000
  some (setInsn32 code literalOffset value)

/-- `PatchPcRelativeReference`: write the distance from the PC of the
`ADD ..., PC` to the target into a `MOVW` (its low half) or a `MOVT` (its high
half). -/
def patchPcRelativeReference (code : List (BitVec 8)) (patch : LinkerPatch) (patchOffset targetOffset : BitVec 32) :
    List (BitVec 8) :=
  let literalOffset := patch.literalOffset
  let pcLiteralOffset := patch.pcInsnOffset
  let pcBase := patchOffset + (pcLiteralOffset - literalOffset) + 4
  let diff := targetOffset - pcBase
  let insn := getInsn32 code literalOffset
  let diff16 := if insn &&& 0x00800000 ≠ 0 then diff >>> 16 else diff &&& 0xffff
  let imm4 := (diff16 >>> 12) &&& 0xf
  let imm := (diff16 >>> 11) &&& 0x1
  let imm3 := (diff16 >>> 8) &&& 0x7
  let imm8 := diff16 &&& 0xff
  let insn := (insn &&& 0xfbf08f00) ||| (imm <<< 26) ||| (imm4 <<< 16) ||| (imm3 <<< 12) ||| imm8
  setInsn32 code literalOffset insn

/-! ## Reading and writing instructions -/

/-- `SetInsn32` writes the high halfword of the value first. -/
theorem fetchT32_setInsn32 {code : List (BitVec 8)} {offset : BitVec 32} (value : BitVec 32)
    (inside : offset.toNat + 4 ≤ code.length) :
    fetchT32 (setInsn32 code offset value) offset.toNat = (value.extractLsb' 16 16, value.extractLsb' 0 16) := by
  simp (disch := (try simp only [List.length_set]); omega) only [fetchT32, halfwordAt, setInsn32,
    byteAt_set_of_ne, byteAt_set_self]
  rw [← bytes_append_of_halfword value 16 (by omega), ← bytes_append_of_halfword value 0 (by omega)]

theorem fetchT32_setInsn32_of_disjoint {code : List (BitVec 8)} {offset : BitVec 32} {address : Nat}
    (value : BitVec 32) (disjoint : address + 4 ≤ offset.toNat ∨ offset.toNat + 4 ≤ address) :
    fetchT32 (setInsn32 code offset value) address = fetchT32 code address := by
  simp (disch := omega) only [fetchT32, halfwordAt, setInsn32, byteAt_set_of_ne]

/-- `GetInsn32` reads the two halfwords, the first one high. -/
theorem getInsn32_eq_fetchT32 (code : List (BitVec 8)) (offset : BitVec 32) :
    getInsn32 code offset = (fetchT32 code offset.toNat).1 ++ (fetchT32 code offset.toNat).2 := by
  apply BitVec.eq_of_toNat_eq
  simp only [getInsn32, fetchT32, halfwordAt, toNat_append_eq_add, BitVec.toNat_add, BitVec.toNat_shiftLeft,
    BitVec.toNat_setWidth, Nat.shiftLeft_eq]
  have b0 := (byteAt code offset.toNat).isLt
  have b1 := (byteAt code (offset.toNat + 1)).isLt
  have b2 := (byteAt code (offset.toNat + 2)).isLt
  have b3 := (byteAt code (offset.toNat + 2 + 1)).isLt
  simp only [Nat.add_assoc, Nat.reduceAdd] at *
  omega

theorem length_patchPcRelativeReference (code : List (BitVec 8)) (patch : LinkerPatch)
    (patchOffset targetOffset : BitVec 32) :
    (patchPcRelativeReference code patch patchOffset targetOffset).length = code.length := by
  simp [patchPcRelativeReference, setInsn32]

theorem fetchT32_patchPcRelativeReference_of_disjoint {code : List (BitVec 8)} {patch : LinkerPatch}
    {patchOffset targetOffset : BitVec 32} {address : Nat}
    (disjoint : address + 4 ≤ patch.literalOffset.toNat ∨ patch.literalOffset.toNat + 4 ≤ address) :
    fetchT32 (patchPcRelativeReference code patch patchOffset targetOffset) address = fetchT32 code address :=
  fetchT32_setInsn32_of_disjoint _ disjoint

/-! ## `BL` -/

/-- The offset fields of the `BL` that `PatchCall` builds from a displacement:
the sign and bits 23-1. -/
theorem blT1_offsetField (displacement : BitVec 32) :
    let signbit := (displacement >>> 31) &&& 0x1
    let i1 := (displacement >>> 23) &&& 0x1
    let i2 := (displacement >>> 22) &&& 0x1
    let imm10 := (displacement >>> 12) &&& 0x03ff
    let imm11 := (displacement >>> 1) &&& 0x07ff
    let j1 := i1 ^^^ (signbit ^^^ 1)
    let j2 := i2 ^^^ (signbit ^^^ 1)
    let value := (signbit <<< 26) ||| (j1 <<< 13) ||| (j2 <<< 11) ||| (imm10 <<< 16) ||| imm11
    let value := value ||| 0xf000d000
    let first := value.extractLsb' 16 16
    let second := value.extractLsb' 0 16
    first.extractLsb' 10 1 ++ ~~~(second.extractLsb' 13 1 ^^^ first.extractLsb' 10 1) ++
        ~~~(second.extractLsb' 11 1 ^^^ first.extractLsb' 10 1) ++ first.extractLsb' 0 10 ++
        second.extractLsb' 0 11 =
      displacement.extractLsb' 31 1 ++ displacement.extractLsb' 1 23 := by
  intro signbit i1 i2 imm10 imm11 j1 j2 value value' first second
  apply BitVec.eq_of_getLsbD_eq
  intro i hi
  simp only [first, second, value', value, signbit, i1, i2, imm10, imm11, j1, j2, BitVec.getLsbD_append]
  interval_cases i <;> simp

theorem blT1_opcode (displacement : BitVec 32) :
    let signbit := (displacement >>> 31) &&& 0x1
    let i1 := (displacement >>> 23) &&& 0x1
    let i2 := (displacement >>> 22) &&& 0x1
    let imm10 := (displacement >>> 12) &&& 0x03ff
    let imm11 := (displacement >>> 1) &&& 0x07ff
    let j1 := i1 ^^^ (signbit ^^^ 1)
    let j2 := i2 ^^^ (signbit ^^^ 1)
    let value := (signbit <<< 26) ||| (j1 <<< 13) ||| (j2 <<< 11) ||| (imm10 <<< 16) ||| imm11
    let value := value ||| 0xf000d000
    isBlT1 (value.extractLsb' 16 16) (value.extractLsb' 0 16) := by
  intro signbit i1 i2 imm10 imm11 j1 j2 value value'
  have opcode : (value'.extractLsb' 16 16).extractLsb' 11 5 = 0b11110#5 := by
    apply BitVec.eq_of_getLsbD_eq
    intro i hi
    simp only [value', value, signbit, i1, i2, imm10, imm11, j1, j2]
    interval_cases i <;> simp
  have link : (value'.extractLsb' 0 16).extractLsb' 14 2 = 0b11#2 := by
    apply BitVec.eq_of_getLsbD_eq
    intro i hi
    simp only [value', value, signbit, i1, i2, imm10, imm11, j1, j2]
    interval_cases i <;> simp
  have exchange : (value'.extractLsb' 0 16).getLsbD 12 = true := by
    simp [value', value]
  simp only [isBlT1, opcode, link, exchange]
  decide

/-- A 25-bit branch offset, sign extended, is the displacement it was taken
from, when that is even and within 16 MiB. -/
theorem signExtend_blField {displacement : BitVec 32} (even : displacement.toNat % 2 = 0)
    (reach : -2 ^ 24 ≤ displacement.toInt ∧ displacement.toInt < 2 ^ 24) :
    ((displacement.extractLsb' 31 1 ++ displacement.extractLsb' 1 23) ++ 0#1).signExtend 32 = displacement := by
  apply BitVec.eq_of_toInt_eq
  have bound := displacement.isLt
  rw [BitVec.toInt_signExtend_of_le (by omega), BitVec.toInt_append_zero, BitVec.toInt_eq_toNat_cond,
    toNat_append_eq_add, BitVec.extractLsb'_toNat, BitVec.extractLsb'_toNat]
  rw [BitVec.toInt_eq_toNat_cond] at reach ⊢
  simp only [Nat.shiftRight_eq_div_pow]
  split <;> split at reach <;> omega

theorem thumb2_patchCall_decodes {thunk : MethodCallThunk} {code : List (BitVec 8)}
    {literalOffset patchOffset targetOffset : BitVec 32} (inside : literalOffset.toNat + 4 ≤ code.length)
    (even : patchOffset.toNat % 2 = 0) (odd : targetOffset.toNat % 2 = 1)
    (reach : -2 ^ 24 ≤ (targetOffset.toNat : Int) - 1 - (patchOffset.toNat + 4) ∧
      (targetOffset.toNat : Int) - 1 - (patchOffset.toNat + 4) < 2 ^ 24) :
    ∃ patched, patchCall thunk code literalOffset patchOffset targetOffset = some patched ∧
      let halves := fetchT32 patched literalOffset.toNat
      isBlT1 halves.1 halves.2 ∧
        patchOffset.toNat + 4 + (blOffsetT1 halves.1 halves.2).toInt = targetOffset.toNat - 1 := by
  have target : (targetOffset &&& ~~~1).toNat = targetOffset.toNat - 1 := by
    rw [toNat_and_not_one]
    omega
  have displacement : calculateMethodCallDisplacement kMaxMethodCallPositiveDisplacement
      kMaxMethodCallNegativeDisplacement thunk patchOffset (targetOffset &&& ~~~1) =
      (targetOffset &&& ~~~1) - patchOffset := by
    refine calculateMethodCallDisplacement_of_reach ?_ (by decide)
    have maxima : kMaxMethodCallPositiveDisplacement.toNat = 2 ^ 24 + 2 ∧
        kMaxMethodCallNegativeDisplacement.toNat = 2 ^ 24 - 4 := by decide
    omega
  -- The offset from the PC, 4 bytes after the patch.
  have fromPc : (((targetOffset &&& ~~~1) - patchOffset - kPcDisplacement).toInt =
      (targetOffset.toNat : Int) - 1 - (patchOffset.toNat + 4)) ∧
      ((targetOffset &&& ~~~1) - patchOffset - kPcDisplacement).toNat % 2 = 0 := by
    have bound := patchOffset.isLt
    have bound' := targetOffset.isLt
    rw [BitVec.toInt_eq_toNat_cond, BitVec.toNat_sub, BitVec.toNat_sub, target]
    simp only [kPcDisplacement, BitVec.ofNat_eq_ofNat, BitVec.toNat_ofNat]
    split <;> omega
  refine ⟨_, by simp only [patchCall, displacement, Option.bind_eq_bind, Option.bind_some]; rfl, ?_⟩
  simp only []
  rw [fetchT32_setInsn32 _ inside]
  refine ⟨blT1_opcode _, ?_⟩
  have field := blT1_offsetField ((targetOffset &&& ~~~1) - patchOffset - kPcDisplacement)
  simp only [] at field
  rw [blOffsetT1]
  simp only []
  rw [field, signExtend_blField fromPc.2 (by omega), fromPc.1]
  omega

/-! ## `MOVW` and `MOVT` -/

/-- The fields of a `MOVW` or `MOVT` that `PatchPcRelativeReference` writes. -/
theorem movT3_fields (insn diff16 : BitVec 32) :
    let imm4 := (diff16 >>> 12) &&& 0xf
    let imm := (diff16 >>> 11) &&& 0x1
    let imm3 := (diff16 >>> 8) &&& 0x7
    let imm8 := diff16 &&& 0xff
    let patched := (insn &&& 0xfbf08f00) ||| (imm <<< 26) ||| (imm4 <<< 16) ||| (imm3 <<< 12) ||| imm8
    patched.extractLsb' 16 16 &&& 0xfbf0 = insn.extractLsb' 16 16 &&& 0xfbf0 ∧
      (patched.extractLsb' 0 16).getLsbD 15 = insn.getLsbD 15 ∧
      movImm16T3 (patched.extractLsb' 16 16) (patched.extractLsb' 0 16) = diff16.extractLsb' 0 16 := by
  intro imm4 imm imm3 imm8 patched
  refine ⟨?_, by simp [patched, imm4, imm, imm3, imm8], ?_⟩
  · apply BitVec.eq_of_getLsbD_eq
    intro i hi
    simp only [patched, imm4, imm, imm3, imm8, BitVec.getLsbD_and]
    interval_cases i <;> simp
  · apply BitVec.eq_of_getLsbD_eq
    intro i hi
    simp only [movImm16T3, patched, imm4, imm, imm3, imm8, BitVec.getLsbD_append]
    interval_cases i <;> simp

/-- A `MOVT` of the high half and a `MOVW` of the low half load the whole value. -/
theorem halves_of_mov (diff : BitVec 32) :
    ((diff >>> 16).extractLsb' 0 16).setWidth 32 <<< 16 ||| ((diff &&& 0xffff).extractLsb' 0 16).setWidth 32 =
      diff := by
  apply BitVec.eq_of_getLsbD_eq
  intro i hi
  interval_cases i <;> simp

/-- A patched `MOVW` or `MOVT` keeps its opcode and gets the half of the
distance of the target from the PC that bit 23 of the instruction selects. -/
theorem movT3_patchPcRelativeReference {code : List (BitVec 8)}
    {literalOffset pcInsnOffset patchOffset targetOffset : BitVec 32} (inside : literalOffset.toNat + 4 ≤ code.length) :
    let halves := fetchT32 (patchPcRelativeReference code ⟨literalOffset, pcInsnOffset⟩ patchOffset targetOffset)
      literalOffset.toNat
    let insn := getInsn32 code literalOffset
    let diff := targetOffset - (patchOffset + (pcInsnOffset - literalOffset) + 4)
    halves.1 &&& 0xfbf0 = insn.extractLsb' 16 16 &&& 0xfbf0 ∧ halves.2.getLsbD 15 = insn.getLsbD 15 ∧
      movImm16T3 halves.1 halves.2 =
        (if insn &&& 0x00800000 ≠ 0 then diff >>> 16 else diff &&& 0xffff).extractLsb' 0 16 := by
  intro halves insn diff
  simp only [halves, patchPcRelativeReference]
  rw [fetchT32_setInsn32 _ inside]
  exact movT3_fields _ _

theorem thumb2_movwMovt_decodes {code : List (BitVec 8)}
    {codeOffset movwLiteral movtLiteral pcLiteral targetOffset : BitVec 32}
    (movwInside : movwLiteral.toNat + 4 ≤ code.length) (movtInside : movtLiteral.toNat + 4 ≤ code.length)
    (apart : movwLiteral.toNat + 4 ≤ movtLiteral.toNat ∨ movtLiteral.toNat + 4 ≤ movwLiteral.toNat)
    (movw : getInsn32 code movwLiteral &&& 0xfffff0ff = 0xf2400000)
    (movt : getInsn32 code movtLiteral &&& 0xfffff0ff = 0xf2c00000) :
    let movwPatched := patchPcRelativeReference code ⟨movwLiteral, pcLiteral⟩ (codeOffset + movwLiteral) targetOffset
    let patched := patchPcRelativeReference movwPatched ⟨movtLiteral, pcLiteral⟩ (codeOffset + movtLiteral)
      targetOffset
    let movwHalves := fetchT32 patched movwLiteral.toNat
    let movtHalves := fetchT32 patched movtLiteral.toNat
    isMovwT3 movwHalves.1 movwHalves.2 ∧ isMovtT1 movtHalves.1 movtHalves.2 ∧
      (movImm16T3 movtHalves.1 movtHalves.2).setWidth 32 <<< 16 |||
          (movImm16T3 movwHalves.1 movwHalves.2).setWidth 32 =
        targetOffset - (codeOffset + pcLiteral + 4) := by
  intro movwPatched patched movwHalves movtHalves
  have pcBase : ∀ literal : BitVec 32, codeOffset + literal + (pcLiteral - literal) + 4 = codeOffset + pcLiteral + 4 :=
    fun literal => by rw [add_add_sub_cancel]
  have movwKept : movwHalves = fetchT32 movwPatched movwLiteral.toNat :=
    fetchT32_patchPcRelativeReference_of_disjoint apart
  have movtRead : getInsn32 movwPatched movtLiteral = getInsn32 code movtLiteral := by
    rw [getInsn32_eq_fetchT32, getInsn32_eq_fetchT32, fetchT32_patchPcRelativeReference_of_disjoint (by dsimp only; omega)]
  obtain ⟨movwOpcode, movwRegister, movwImm16⟩ :=
    @movT3_patchPcRelativeReference code movwLiteral pcLiteral (codeOffset + movwLiteral) targetOffset movwInside
  obtain ⟨movtOpcode, movtRegister, movtImm16⟩ :=
    @movT3_patchPcRelativeReference movwPatched movtLiteral pcLiteral (codeOffset + movtLiteral) targetOffset
      (by rw [length_patchPcRelativeReference]; exact movtInside)
  rw [movtRead] at movtOpcode movtRegister movtImm16
  rw [← movwKept] at movwOpcode movwRegister movwImm16
  -- What the unpatched instructions are: opcode, no immediate, bit 23 telling them apart.
  have movwFirst : (getInsn32 code movwLiteral).extractLsb' 16 16 &&& 0xfbf0 = 0xf240 := by
    rw [extractLsb'_of_and_eq movw (by decide)]
    decide
  have movtFirst : (getInsn32 code movtLiteral).extractLsb' 16 16 &&& 0xfbf0 = 0xf2c0 := by
    rw [extractLsb'_of_and_eq movt (by decide)]
    decide
  have movwBit15 : (getInsn32 code movwLiteral).getLsbD 15 = false := by
    rw [getLsbD_of_and_eq movw (by decide)]
    decide
  have movtBit15 : (getInsn32 code movtLiteral).getLsbD 15 = false := by
    rw [getLsbD_of_and_eq movt (by decide)]
    decide
  have movwLow : getInsn32 code movwLiteral &&& 0x00800000 = 0 := by
    rw [and_of_and_eq movw (by decide)]
    decide
  have movtHigh : getInsn32 code movtLiteral &&& 0x00800000 ≠ 0 := by
    rw [and_of_and_eq movt (by decide)]
    decide
  refine ⟨?_, ?_, ?_⟩
  · rw [isMovwT3, movwOpcode, movwFirst, movwRegister, movwBit15]
    decide
  · rw [isMovtT1, movtOpcode, movtFirst, movtRegister, movtBit15]
    decide
  · rw [movtImm16, movwImm16, if_pos movtHigh, if_neg (not_not.mpr movwLow), pcBase, pcBase]
    exact halves_of_mov _

end Thumb2RelativePatcher

namespace Arm64RelativePatcher

/-- `kMaxMethodCallPositiveDisplacement`. -/
def kMaxMethodCallPositiveDisplacement : BitVec 32 := (1 <<< 27) - 4

/-- `kMaxMethodCallNegativeDisplacement`. -/
def kMaxMethodCallNegativeDisplacement : BitVec 32 := 1 <<< 27

/-- `kAdrpThunkSize`: an `ADRP` and a `B`. -/
def kAdrpThunkSize : Nat := 8

/-- What the patches of `Arm64RelativePatcher` read and change: whether the core
needs the fix for erratum 843419, the `ADRP`s `ReserveSpace` moved to thunks
with the offsets of their thunks, how many of them have been patched, the code
of the thunks of the current method, and the method call thunk. -/
structure State where
  fixCortexA53843419 : Bool
  adrpThunkLocations : List (BitVec 32 × BitVec 32)
  processedAdrpThunks : Nat
  currentMethodThunks : List (BitVec 8)
  methodCallThunk : MethodCallThunk
  deriving DecidableEq, Repr

/-- `SetInsn`: little-endian. -/
def setInsn (code : List (BitVec 8)) (offset value : BitVec 32) : List (BitVec 8) :=
  let address := offset.toNat
  (((code.set address (((value >>> 0) &&& 0xff).setWidth 8)).set (address + 1)
    (((value >>> 8) &&& 0xff).setWidth 8)).set (address + 2) (((value >>> 16) &&& 0xff).setWidth 8)).set
    (address + 3) (((value >>> 24) &&& 0xff).setWidth 8)

/-- `GetInsn`. -/
def getInsn (code : List (BitVec 8)) (offset : BitVec 32) : BitVec 32 :=
  let address := offset.toNat
  ((byteAt code address).setWidth 32 <<< 0) + ((byteAt code (address + 1)).setWidth 32 <<< 8) +
    ((byteAt code (address + 2)).setWidth 32 <<< 16) + ((byteAt code (address + 3)).setWidth 32 <<< 24)

/-- `PatchAdrp`: the page displacement into `immlo` (bits 29-30) and `immhi`
(bits 5-23), the top bit of `immhi` copied from the sign of the displacement. -/
def patchAdrp (adrp disp : BitVec 32) : BitVec 32 :=
  (adrp &&& 0x9f00001f) ||| ((disp &&& 0x00003000) <<< (29 - 12)) |||
    ((disp &&& 0xffffc000) >>> (12 + 2 - 5)) ||| ((disp &&& 0x80000000) >>> (31 - 23))

/-- `PatchCall`: write a `BL` to the target. -/
def patchCall (patcher : State) (code : List (BitVec 8)) (literalOffset patchOffset targetOffset : BitVec 32) :
    Option (List (BitVec 8)) := do
  let displacement ← calculateMethodCallDisplacement kMaxMethodCallPositiveDisplacement
    kMaxMethodCallNegativeDisplacement patcher.methodCallThunk patchOffset (targetOffset &&& ~~~1)
  let insn := (displacement &&& 0x0fffffff) >>> 2
  let insn := insn ||| 0x94000000
  some (setInsn code literalOffset insn)

/-- The `ADRP` of a patch moved to a thunk, with the offset of its thunk: the
next one `ReserveSpace` recorded, when the core needs the fix and that one is at
the patch. -/
def adrpThunkAt (patcher : State) (patchOffset : BitVec 32) : Option (BitVec 32) :=
  if patcher.fixCortexA53843419 then
    match patcher.adrpThunkLocations[patcher.processedAdrpThunks]? with
    | some (location, thunkOffset) => if location = patchOffset then some thunkOffset else none
    | none => none
  else none

/-- `PatchPcRelativeReference`: the `ADRP` gets the displacement of the target
from the page of the `ADRP`, or becomes a `B` to its thunk; the `ADD` or `LDR`
gets the offset of the target within its page, scaled for an `LDR`. -/
def patchPcRelativeReference (patcher : State) (code : List (BitVec 8)) (patch : LinkerPatch)
    (patchOffset targetOffset : BitVec 32) : State × List (BitVec 8) :=
  let literalOffset := patch.literalOffset
  let insn := getInsn code literalOffset
  let pcInsnOffset := patch.pcInsnOffset
  let disp := targetOffset - ((patchOffset - literalOffset + pcInsnOffset) &&& ~~~0xfff)
  let wide := insn &&& 0x40000000 ≠ 0
  let shift : Nat := if wide then 3 else 2
  if literalOffset = pcInsnOffset then
    match adrpThunkAt patcher patchOffset with
    | some thunkOffset =>
        -- The thunk holds the `ADRP`, patched for its own page, and a `B` back.
        let adrpDisp := targetOffset - (thunkOffset &&& ~~~0xfff)
        let adrp := patchAdrp insn adrpDisp
        let outDisp := thunkOffset - patchOffset
        let insn := (outDisp &&& 0x0fffffff) >>> shift
        let insn := insn ||| 0x14000000
        let backDisp := -outDisp
        let bBack := (backDisp &&& 0x0fffffff) >>> 2
        let bBack := bBack ||| 0x14000000
        let thunksCodeOffset := patcher.currentMethodThunks.length
        let thunks := patcher.currentMethodThunks ++ List.replicate kAdrpThunkSize 0
        let thunks := setInsn thunks (BitVec.ofNat 32 thunksCodeOffset) adrp
        let thunks := setInsn thunks (BitVec.ofNat 32 (thunksCodeOffset + 4)) bBack
        ({ patcher with currentMethodThunks := thunks, processedAdrpThunks := patcher.processedAdrpThunks + 1 },
          setInsn code literalOffset insn)
    | none => (patcher, setInsn code literalOffset (patchAdrp insn disp))
  else
    -- An `ADD` has no shift; an `LDR` is scaled by its size.
    let shift := if insn &&& 0xfffffc00 = 0x91000000 then 0 else shift
    let imm12 := (disp &&& 0xfff) >>> shift
    let insn := (insn &&& ~~~((0xfff : BitVec 32) <<< 10)) ||| (imm12 <<< 10)
    (patcher, setInsn code literalOffset insn)

/-! ## Reading and writing instructions -/

theorem length_setInsn (code : List (BitVec 8)) (offset value : BitVec 32) :
    (setInsn code offset value).length = code.length := by
  simp [setInsn]

/-- `SetInsn` writes the value little-endian. -/
theorem wordAt_setInsn {code : List (BitVec 8)} {offset : BitVec 32} (value : BitVec 32)
    (inside : offset.toNat + 4 ≤ code.length) :
    wordAt (setInsn code offset value) offset.toNat = value := by
  simp (disch := (try simp only [List.length_set]); omega) only [wordAt, halfwordAt, setInsn,
    byteAt_set_of_ne, byteAt_set_self]
  have whole := halves_append value
  rw [← bytes_append_of_halfword value 16 (by omega), ← bytes_append_of_halfword value 0 (by omega)] at whole
  exact whole

theorem wordAt_setInsn_of_disjoint {code : List (BitVec 8)} {offset : BitVec 32} {address : Nat}
    (value : BitVec 32) (disjoint : address + 4 ≤ offset.toNat ∨ offset.toNat + 4 ≤ address) :
    wordAt (setInsn code offset value) address = wordAt code address := by
  simp (disch := omega) only [wordAt, halfwordAt, setInsn, byteAt_set_of_ne]

/-- `GetInsn` reads the word little-endian. -/
theorem getInsn_eq_wordAt (code : List (BitVec 8)) (offset : BitVec 32) :
    getInsn code offset = wordAt code offset.toNat := by
  apply BitVec.eq_of_toNat_eq
  simp only [getInsn, wordAt, halfwordAt, toNat_append_eq_add, BitVec.toNat_add, BitVec.toNat_shiftLeft,
    BitVec.toNat_setWidth, Nat.shiftLeft_eq]
  have b0 := (byteAt code offset.toNat).isLt
  have b1 := (byteAt code (offset.toNat + 1)).isLt
  have b2 := (byteAt code (offset.toNat + 2)).isLt
  have b3 := (byteAt code (offset.toNat + 2 + 1)).isLt
  simp only [Nat.add_assoc, Nat.reduceAdd] at *
  omega

theorem length_patchPcRelativeReference (patcher : State) (code : List (BitVec 8)) (patch : LinkerPatch)
    (patchOffset targetOffset : BitVec 32) :
    (patchPcRelativeReference patcher code patch patchOffset targetOffset).2.length = code.length := by
  simp only [patchPcRelativeReference]
  split
  · split <;> exact length_setInsn _ _ _
  · exact length_setInsn _ _ _

theorem wordAt_patchPcRelativeReference_of_disjoint {patcher : State} {code : List (BitVec 8)}
    {patch : LinkerPatch} {patchOffset targetOffset : BitVec 32} {address : Nat}
    (disjoint : address + 4 ≤ patch.literalOffset.toNat ∨ patch.literalOffset.toNat + 4 ≤ address) :
    wordAt (patchPcRelativeReference patcher code patch patchOffset targetOffset).2 address = wordAt code address := by
  simp only [patchPcRelativeReference]
  split
  · split <;> exact wordAt_setInsn_of_disjoint _ disjoint
  · exact wordAt_setInsn_of_disjoint _ disjoint

/-! ## `B` and `BL` -/

theorem imm26_of_displacement (displacement opcode : BitVec 32) (opcodeClear : opcode.extractLsb' 0 26 = 0#26) :
    (((displacement &&& 0x0fffffff) >>> 2) ||| opcode).extractLsb' 0 26 = displacement.extractLsb' 2 26 := by
  rw [BitVec.extractLsb'_or, opcodeClear, BitVec.or_zero]
  apply BitVec.eq_of_toNat_eq
  simp only [BitVec.extractLsb'_toNat, BitVec.toNat_ushiftRight, BitVec.toNat_and, BitVec.ofNat_eq_ofNat,
    BitVec.toNat_ofNat, Nat.shiftRight_eq_div_pow]
  simp only [show (268435455 : Nat) % 2 ^ 32 = 2 ^ 28 - 1 from rfl, Nat.and_two_pow_sub_one_eq_mod]
  omega

theorem opcode_of_displacement (displacement opcode : BitVec 32) :
    (((displacement &&& 0x0fffffff) >>> 2) ||| opcode).extractLsb' 26 6 = opcode.extractLsb' 26 6 := by
  rw [BitVec.extractLsb'_or]
  have high : ((displacement &&& 0x0fffffff) >>> 2).extractLsb' 26 6 = 0#6 := by
    apply BitVec.eq_of_toNat_eq
    simp only [BitVec.extractLsb'_toNat, BitVec.toNat_ushiftRight, BitVec.toNat_and, BitVec.ofNat_eq_ofNat,
      BitVec.toNat_ofNat, Nat.shiftRight_eq_div_pow]
    simp only [show (268435455 : Nat) % 2 ^ 32 = 2 ^ 28 - 1 from rfl, Nat.and_two_pow_sub_one_eq_mod]
    omega
  rw [high, BitVec.zero_or]

/-- A branch built from a displacement the way the patches build it decodes to
the displacement, with the opcode it was given. -/
theorem branch_of_displacement (opcode : BitVec 32) {displacement : BitVec 32} (opcodeClear : opcode.extractLsb' 0 26 = 0#26)
    (aligned : displacement.toNat % 4 = 0) (reach : -2 ^ 27 ≤ displacement.toInt ∧ displacement.toInt < 2 ^ 27) :
    (((displacement &&& 0x0fffffff) >>> 2) ||| opcode).extractLsb' 26 6 = opcode.extractLsb' 26 6 ∧
      branchOffset (((displacement &&& 0x0fffffff) >>> 2) ||| opcode) = displacement.toInt :=
  ⟨opcode_of_displacement displacement opcode,
    branchOffset_of_imm26 (imm26_of_displacement displacement opcode opcodeClear) aligned reach⟩

theorem arm64_patchCall_decodes {patcher : State} {code : List (BitVec 8)}
    {literalOffset patchOffset targetOffset : BitVec 32} (inside : literalOffset.toNat + 4 ≤ code.length)
    (aligned : patchOffset.toNat % 4 = 0 ∧ targetOffset.toNat % 4 = 0)
    (reach : -2 ^ 27 ≤ (targetOffset.toNat : Int) - patchOffset.toNat ∧
      (targetOffset.toNat : Int) - patchOffset.toNat < 2 ^ 27) :
    ∃ patched, patchCall patcher code literalOffset patchOffset targetOffset = some patched ∧
      isBl (wordAt patched literalOffset.toNat) ∧
        patchOffset.toNat + branchOffset (wordAt patched literalOffset.toNat) = targetOffset.toNat := by
  have target : targetOffset &&& ~~~1 = targetOffset :=
    BitVec.eq_of_toNat_eq (by rw [toNat_and_not_one]; omega)
  have distance : (targetOffset - patchOffset).toInt = (targetOffset.toNat : Int) - patchOffset.toNat :=
    toInt_sub_of_reach (by omega)
  have displacement : calculateMethodCallDisplacement kMaxMethodCallPositiveDisplacement
      kMaxMethodCallNegativeDisplacement patcher.methodCallThunk patchOffset targetOffset =
      targetOffset - patchOffset := by
    refine calculateMethodCallDisplacement_of_reach ?_ (by decide)
    have maxima : kMaxMethodCallPositiveDisplacement.toNat = 2 ^ 27 - 4 ∧
        kMaxMethodCallNegativeDisplacement.toNat = 2 ^ 27 := by decide
    omega
  have multiple : (targetOffset - patchOffset).toNat % 4 = 0 := by
    have bound := patchOffset.isLt
    rw [BitVec.toNat_sub]
    omega
  obtain ⟨opcode, offset⟩ := branch_of_displacement 0x94000000 (by decide) multiple (by omega)
  refine ⟨_, by simp only [patchCall, target, displacement, Option.bind_eq_bind, Option.bind_some]; rfl, ?_⟩
  rw [wordAt_setInsn _ inside, isBl, opcode, offset, distance]
  exact ⟨by decide, by omega⟩

/-! ## `ADRP` -/

/-- `PatchAdrp` puts bits 31-12 of the displacement into `immhi:immlo`, sign
extended by the copy of bit 31. -/
theorem immhi_immlo_patchAdrp (adrp disp : BitVec 32) :
    (patchAdrp adrp disp).extractLsb' 5 19 ++ (patchAdrp adrp disp).extractLsb' 29 2 =
      (disp.extractLsb' 12 20).signExtend 21 := by
  apply BitVec.eq_of_getLsbD_eq
  intro i hi
  simp only [patchAdrp, BitVec.getLsbD_append, BitVec.getLsbD_signExtend, BitVec.getLsbD_extractLsb']
  interval_cases i <;> simp [BitVec.getMsbD_eq_getLsbD]

theorem adrpOffset_patchAdrp (adrp disp : BitVec 32) :
    adrpOffset (patchAdrp adrp disp) = disp.toInt - (disp.toNat % 4096 : Nat) := by
  have bound := disp.isLt
  rw [adrpOffset, immhi_immlo_patchAdrp, BitVec.toInt_append_zero, BitVec.toInt_signExtend_of_le (by omega),
    BitVec.toInt_eq_toNat_cond, BitVec.toInt_eq_toNat_cond, BitVec.extractLsb'_toNat, Nat.shiftRight_eq_div_pow]
  split <;> split <;> omega

theorem isAdrp_patchAdrp (adrp disp : BitVec 32) : isAdrp (patchAdrp adrp disp) = isAdrp adrp := by
  have kept : ∀ j, 24 ≤ j → j < 29 ∨ j = 31 → (patchAdrp adrp disp).getLsbD j = adrp.getLsbD j := by
    intro j low high
    rcases high with high | rfl
    · interval_cases j <;> simp [patchAdrp]
    · simp [patchAdrp]
  rw [isAdrp, isAdrp, kept 31 (by omega) (by omega),
    extractLsb'_congr (fun j above below => kept j above (by omega))]

theorem isAdrp_of_unset {adrp : BitVec 32} (unset : adrp &&& 0xffffffe0 = 0x90000000) : isAdrp adrp := by
  rw [isAdrp, getLsbD_of_and_eq unset (by decide), extractLsb'_of_and_eq unset (by decide)]
  decide

/-- An `ADRP` patched with the displacement of a target from the page of a base
gives, executed at the base, the page of the target. -/
theorem page_add_adrpOffset_patchAdrp (adrp : BitVec 32) {base targetOffset : BitVec 32}
    (reach : -2 ^ 31 ≤ (targetOffset.toNat : Int) - page base.toNat ∧
      (targetOffset.toNat : Int) - page base.toNat < 2 ^ 31) :
    page base.toNat + adrpOffset (patchAdrp adrp (targetOffset - (base &&& ~~~0xfff))) = page targetOffset.toNat := by
  have pageAligned : (base &&& ~~~0xfff).toNat % 4096 = 0 := by
    have baseValue := page_toNat base
    rw [page] at baseValue
    omega
  have bound := (base &&& ~~~0xfff).isLt
  rw [page_toNat base] at reach ⊢
  rw [adrpOffset_patchAdrp, toInt_sub_of_reach reach, BitVec.toNat_sub, page]
  omega

/-! ## `ADD` and `LDR` -/

/-- Writing an `imm12` below `2 ^ 12` into bits 21-10 leaves the bits above as they are. -/
theorem getLsbD_insertImm12_of_le (insn imm12 : BitVec 32) (small : imm12.toNat < 2 ^ 12) {j : Nat}
    (high : 22 ≤ j) (inside : j < 32) :
    ((insn &&& ~~~((0xfff : BitVec 32) <<< 10)) ||| (imm12 <<< 10)).getLsbD j = insn.getLsbD j := by
  have above : imm12.getLsbD (j - 10) = false := by
    rw [BitVec.getLsbD, Nat.testBit_lt_two_pow]
    calc imm12.toNat < 2 ^ 12 := small
      _ ≤ 2 ^ (j - 10) := Nat.pow_le_pow_right (by decide) (by omega)
  have mask : (4095#32).getLsbD (j - 10) = false := by
    rw [BitVec.getLsbD_ofNat, Nat.testBit_lt_two_pow]
    · simp
    · calc 4095 < 2 ^ 12 := by decide
        _ ≤ 2 ^ (j - 10) := Nat.pow_le_pow_right (by decide) (by omega)
  simp only [BitVec.getLsbD_or, BitVec.getLsbD_and, BitVec.getLsbD_not, BitVec.getLsbD_shiftLeft, above]
  simp [inside, mask]

theorem imm12_insertImm12 (insn imm12 : BitVec 32) (small : imm12.toNat < 2 ^ 12) :
    (((insn &&& ~~~((0xfff : BitVec 32) <<< 10)) ||| (imm12 <<< 10)).extractLsb' 10 12).toNat = imm12.toNat := by
  have field : ((insn &&& ~~~((0xfff : BitVec 32) <<< 10)) ||| (imm12 <<< 10)).extractLsb' 10 12 =
      imm12.extractLsb' 0 12 := by
    apply BitVec.eq_of_getLsbD_eq
    intro i hi
    simp [BitVec.getLsbD_shiftLeft]
    interval_cases i <;> simp
  rw [field, BitVec.extractLsb'_toNat, Nat.shiftRight_zero, Nat.mod_eq_of_lt small]

/-- The shift of an `LDR` or `STR` is the size field of its access. -/
theorem shift_of_loadStore {insn : BitVec 32} (load : insn &&& 0xbfbffc00 = 0xb9000000) :
    (if insn &&& 0x40000000 ≠ 0 then 3 else 2 : Nat) = (insn.extractLsb' 30 2).toNat := by
  have top : insn.getLsbD 31 = true := by
    rw [getLsbD_of_and_eq load (by decide)]
    decide
  rw [show (0x40000000 : BitVec 32) = BitVec.twoPow 32 30 by decide, BitVec.and_twoPow, BitVec.extractLsb'_toNat,
    Nat.shiftRight_eq_div_pow]
  rw [BitVec.getLsbD, Nat.testBit_eq_decide_div_mod_eq, decide_eq_true_eq] at top
  cases bit : insn.getLsbD 30
  · rw [BitVec.getLsbD, Nat.testBit_eq_decide_div_mod_eq, decide_eq_false_iff_not] at bit
    rw [if_neg Bool.false_ne_true, if_neg (by decide)]
    omega
  · rw [BitVec.getLsbD, Nat.testBit_eq_decide_div_mod_eq, decide_eq_true_eq] at bit
    rw [if_pos rfl, if_pos (by decide)]
    omega

/-- The patched `ADD` or `LDR` adds the offset of the target in its page: the
`ADD` its `imm12`, the `LDR` its `imm12` scaled back by the size the patch
divided it by, which loses nothing for a displacement aligned to the size. -/
theorem pageOffset_insertImm12 {insn disp : BitVec 32}
    (second : insn &&& 0xfffffc00 = 0x91000000 ∨
      (insn &&& 0xbfbffc00 = 0xb9000000 ∧ disp.toNat % 2 ^ (insn.extractLsb' 30 2).toNat = 0)) :
    let shift : Nat := if insn &&& 0x40000000 ≠ 0 then 3 else 2
    let shift := if insn &&& 0xfffffc00 = 0x91000000 then 0 else shift
    let imm12 := (disp &&& 0xfff) >>> shift
    let patched := (insn &&& ~~~((0xfff : BitVec 32) <<< 10)) ||| (imm12 <<< 10)
    (isAddImmediate patched || isLoadStoreUnsignedOffset patched) ∧ pageOffset patched = disp.toNat % 4096 := by
  intro shift0 shift imm12 patched
  have small : imm12.toNat < 2 ^ 12 := by
    rw [BitVec.toNat_ushiftRight, BitVec.toNat_and, Nat.shiftRight_eq_div_pow]
    exact Nat.lt_of_le_of_lt (Nat.div_le_self _ _) (Nat.lt_of_le_of_lt Nat.and_le_right (by decide))
  have imm12Value : imm12.toNat = disp.toNat % 4096 / 2 ^ shift := by
    rw [BitVec.toNat_ushiftRight, BitVec.toNat_and, Nat.shiftRight_eq_div_pow]
    simp only [BitVec.ofNat_eq_ofNat, BitVec.toNat_ofNat]
    rw [show (4095 : Nat) % 2 ^ 32 = 2 ^ 12 - 1 from rfl, Nat.and_two_pow_sub_one_eq_mod]
  have high : ∀ j, 22 ≤ j → j < 32 → patched.getLsbD j = insn.getLsbD j :=
    fun j above inside => getLsbD_insertImm12_of_le insn imm12 small above inside
  have opcode : isAddImmediate patched = isAddImmediate insn := by
    rw [isAddImmediate, isAddImmediate, extractLsb'_congr (fun j above below => high j above (by omega))]
  have loadStore : isLoadStoreUnsignedOffset patched = isLoadStoreUnsignedOffset insn := by
    rw [isLoadStoreUnsignedOffset, isLoadStoreUnsignedOffset, high 31 (by omega) (by omega),
      extractLsb'_congr (fun j above below => high j (by omega) (by omega))]
  rcases second with add | ⟨load, aligned⟩
  · -- An `ADD` is not shifted.
    have isAdd : isAddImmediate insn = true := by
      rw [isAddImmediate, extractLsb'_of_and_eq add (by decide)]
      decide
    rw [opcode, isAdd, pageOffset, opcode, isAdd, if_pos rfl, addImmediate,
      imm12_insertImm12 insn imm12 small, imm12Value, show shift = 0 from if_pos add]
    simp
  · have bit29 : insn.getLsbD 29 = true := by
      rw [getLsbD_of_and_eq load (by decide)]
      decide
    have notAdd : isAddImmediate insn = false := by
      rw [isAddImmediate, beq_eq_false_iff_ne]
      intro opcode
      have bit := congrArg (fun field : BitVec 10 => field.getLsbD 7) opcode
      simp only [BitVec.getLsbD_extractLsb', bit29] at bit
      exact absurd bit (by decide)
    have notAddMask : ¬ insn &&& 0xfffffc00 = 0x91000000 := by
      intro add
      have bit := getLsbD_of_and_eq add (i := 29) (by decide)
      rw [bit29] at bit
      exact absurd bit (by decide)
    have isLoadStore : isLoadStoreUnsignedOffset insn = true := by
      rw [isLoadStoreUnsignedOffset, getLsbD_of_and_eq load (by decide), extractLsb'_of_and_eq load (by decide)]
      decide
    have size : shift = (insn.extractLsb' 30 2).toNat := by
      rw [show shift = shift0 from if_neg notAddMask]
      exact shift_of_loadStore load
    have sizeBound : (insn.extractLsb' 30 2).toNat < 4 := (insn.extractLsb' 30 2).isLt
    refine ⟨by rw [loadStore, isLoadStore, Bool.or_true], ?_⟩
    rw [pageOffset, opcode, notAdd, if_neg Bool.false_ne_true, loadStoreOffset,
      imm12_insertImm12 insn imm12 small, imm12Value, size,
      extractLsb'_congr (fun j above below => high j (by omega) (by omega))]
    -- The access size divides the page size, so it divides the offset in the page.
    have divides : 2 ^ (insn.extractLsb' 30 2).toNat ∣ disp.toNat % 2 ^ 12 :=
      (Nat.dvd_mod_iff (Nat.pow_dvd_pow 2 (by omega))).mpr (Nat.dvd_of_mod_eq_zero aligned)
    exact Nat.div_mul_cancel divides

/-! ## The patches -/

/-- The `ADD` or `LDR` after an `ADRP` gets the offset of the target in its
page, whichever page its displacement is taken from. -/
theorem pageOffset_patchPcRelativeReference {patcher : State} {code : List (BitVec 8)}
    {literalOffset pcInsnOffset patchOffset targetOffset : BitVec 32} (different : literalOffset ≠ pcInsnOffset)
    (inside : literalOffset.toNat + 4 ≤ code.length)
    (second : getInsn code literalOffset &&& 0xfffffc00 = 0x91000000 ∨
      (getInsn code literalOffset &&& 0xbfbffc00 = 0xb9000000 ∧
        targetOffset.toNat % 2 ^ ((getInsn code literalOffset).extractLsb' 30 2).toNat = 0)) :
    (patchPcRelativeReference patcher code ⟨literalOffset, pcInsnOffset⟩ patchOffset targetOffset).1 = patcher ∧
      (isAddImmediate (wordAt (patchPcRelativeReference patcher code ⟨literalOffset, pcInsnOffset⟩ patchOffset
          targetOffset).2 literalOffset.toNat) ||
        isLoadStoreUnsignedOffset (wordAt (patchPcRelativeReference patcher code ⟨literalOffset, pcInsnOffset⟩
          patchOffset targetOffset).2 literalOffset.toNat)) ∧
      pageOffset (wordAt (patchPcRelativeReference patcher code ⟨literalOffset, pcInsnOffset⟩ patchOffset
        targetOffset).2 literalOffset.toNat) = targetOffset.toNat % 4096 := by
  let pageBase := (patchOffset - literalOffset + pcInsnOffset) &&& ~~~0xfff
  have pageAligned : pageBase.toNat % 4096 = 0 := by
    have baseValue : page (patchOffset - literalOffset + pcInsnOffset).toNat = (pageBase.toNat : Int) :=
      page_toNat _
    rw [page] at baseValue
    omega
  -- The page base is a multiple of 4096, so it leaves the low 12 bits alone.
  have low : (targetOffset - pageBase).toNat % 4096 = targetOffset.toNat % 4096 := by
    have bound := pageBase.isLt
    rw [BitVec.toNat_sub]
    omega
  have second' : getInsn code literalOffset &&& 0xfffffc00 = 0x91000000 ∨
      (getInsn code literalOffset &&& 0xbfbffc00 = 0xb9000000 ∧
        (targetOffset - pageBase).toNat % 2 ^ ((getInsn code literalOffset).extractLsb' 30 2).toNat = 0) := by
    refine second.imp_right (fun ⟨load, aligned⟩ => ⟨load, ?_⟩)
    have sizeBound := ((getInsn code literalOffset).extractLsb' 30 2).isLt
    have divides : 2 ^ ((getInsn code literalOffset).extractLsb' 30 2).toNat ∣ 4096 :=
      Nat.pow_dvd_pow 2 (show ((getInsn code literalOffset).extractLsb' 30 2).toNat ≤ 12 by omega)
    rw [← Nat.mod_mod_of_dvd _ divides, low, Nat.mod_mod_of_dvd _ divides, aligned]
  obtain ⟨opcode, offset⟩ := pageOffset_insertImm12 second'
  simp only [patchPcRelativeReference, if_neg different]
  rw [wordAt_setInsn _ inside]
  exact ⟨trivial, opcode, offset.trans low⟩

/-- An `ADRP` patched in place gives, executed where it is, the page of the
target. -/
theorem adrp_patchPcRelativeReference {patcher : State} {code : List (BitVec 8)}
    {literalOffset patchOffset targetOffset : BitVec 32} (noThunk : adrpThunkAt patcher patchOffset = none)
    (inside : literalOffset.toNat + 4 ≤ code.length) (unset : getInsn code literalOffset &&& 0xffffffe0 = 0x90000000)
    (reach : -2 ^ 31 ≤ (targetOffset.toNat : Int) - page patchOffset.toNat ∧
      (targetOffset.toNat : Int) - page patchOffset.toNat < 2 ^ 31) :
    (patchPcRelativeReference patcher code ⟨literalOffset, literalOffset⟩ patchOffset targetOffset).1 = patcher ∧
      isAdrp (wordAt (patchPcRelativeReference patcher code ⟨literalOffset, literalOffset⟩ patchOffset
        targetOffset).2 literalOffset.toNat) ∧
      page patchOffset.toNat + adrpOffset (wordAt (patchPcRelativeReference patcher code
        ⟨literalOffset, literalOffset⟩ patchOffset targetOffset).2 literalOffset.toNat) = page targetOffset.toNat := by
  simp only [patchPcRelativeReference, if_true, noThunk, BitVec.sub_add_cancel]
  rw [wordAt_setInsn _ inside, isAdrp_patchAdrp]
  exact ⟨trivial, isAdrp_of_unset unset, page_add_adrpOffset_patchAdrp _ reach⟩

/-- The code of an `ADRP` thunk holds its `ADRP` and its `B` back. -/
theorem wordAt_thunks (thunks : List (BitVec 8)) (adrp bBack : BitVec 32) (room : thunks.length + 8 ≤ 2 ^ 32) :
    wordAt (setInsn (setInsn (thunks ++ List.replicate kAdrpThunkSize 0) (BitVec.ofNat 32 thunks.length) adrp)
        (BitVec.ofNat 32 (thunks.length + 4)) bBack) thunks.length = adrp ∧
      wordAt (setInsn (setInsn (thunks ++ List.replicate kAdrpThunkSize 0) (BitVec.ofNat 32 thunks.length) adrp)
        (BitVec.ofNat 32 (thunks.length + 4)) bBack) (thunks.length + 4) = bBack := by
  have start : (BitVec.ofNat 32 thunks.length).toNat = thunks.length := by
    rw [BitVec.toNat_ofNat, Nat.mod_eq_of_lt (by omega)]
  have next : (BitVec.ofNat 32 (thunks.length + 4)).toNat = thunks.length + 4 := by
    rw [BitVec.toNat_ofNat, Nat.mod_eq_of_lt (by omega)]
  have reserved : (thunks ++ List.replicate kAdrpThunkSize 0).length = thunks.length + 8 := by
    simp [kAdrpThunkSize]
  constructor
  · rw [wordAt_setInsn_of_disjoint _ (by omega)]
    have written := wordAt_setInsn adrp (show (BitVec.ofNat 32 thunks.length).toNat + 4 ≤
      (thunks ++ List.replicate kAdrpThunkSize 0).length by omega)
    rwa [start] at written
  · have written := wordAt_setInsn bBack (show (BitVec.ofNat 32 (thunks.length + 4)).toNat + 4 ≤
      (setInsn (thunks ++ List.replicate kAdrpThunkSize 0) (BitVec.ofNat 32 thunks.length) adrp).length by
        rw [length_setInsn]; omega)
    rwa [next] at written

/-- An `ADRP` moved to a thunk: the patch becomes a `B` to the thunk, and the
thunk gets the `ADRP`, which gives from the thunk the page of the target, and a
`B` back to the instruction after the patch. -/
theorem adrpThunk_patchPcRelativeReference {patcher : State} {code : List (BitVec 8)}
    {literalOffset patchOffset targetOffset thunkOffset : BitVec 32}
    (thunk : adrpThunkAt patcher patchOffset = some thunkOffset)
    (inside : literalOffset.toNat + 4 ≤ code.length) (unset : getInsn code literalOffset &&& 0xffffffe0 = 0x90000000)
    (aligned : patchOffset.toNat % 4 = 0 ∧ thunkOffset.toNat % 4 = 0)
    (branchReach : -2 ^ 27 < (thunkOffset.toNat : Int) - patchOffset.toNat ∧
      (thunkOffset.toNat : Int) - patchOffset.toNat < 2 ^ 27)
    (reach : -2 ^ 31 ≤ (targetOffset.toNat : Int) - page thunkOffset.toNat ∧
      (targetOffset.toNat : Int) - page thunkOffset.toNat < 2 ^ 31)
    (room : patcher.currentMethodThunks.length + kAdrpThunkSize ≤ 2 ^ 32) :
    let patched := patchPcRelativeReference patcher code ⟨literalOffset, literalOffset⟩ patchOffset targetOffset
    let thunkStart := patcher.currentMethodThunks.length
    (isB (wordAt patched.2 literalOffset.toNat) ∧
      patchOffset.toNat + branchOffset (wordAt patched.2 literalOffset.toNat) = thunkOffset.toNat) ∧
    (isAdrp (wordAt patched.1.currentMethodThunks thunkStart) ∧
      page thunkOffset.toNat + adrpOffset (wordAt patched.1.currentMethodThunks thunkStart) =
        page targetOffset.toNat) ∧
    (isB (wordAt patched.1.currentMethodThunks (thunkStart + 4)) ∧
      thunkOffset.toNat + 4 + branchOffset (wordAt patched.1.currentMethodThunks (thunkStart + 4)) =
        patchOffset.toNat + 4) := by
  intro patched thunkStart
  have notWide : getInsn code literalOffset &&& 0x40000000 = 0 := by
    rw [show (0x40000000 : BitVec 32) = 0xffffffe0 &&& 0x40000000 by decide, ← BitVec.and_assoc, unset]
    decide
  have out : (thunkOffset - patchOffset).toInt = (thunkOffset.toNat : Int) - patchOffset.toNat :=
    toInt_sub_of_reach (by omega)
  have back : (-(thunkOffset - patchOffset)).toInt = (patchOffset.toNat : Int) - thunkOffset.toNat := by
    rw [neg_sub]
    exact toInt_sub_of_reach (by omega)
  have outAligned : (thunkOffset - patchOffset).toNat % 4 = 0 := by
    have bound := patchOffset.isLt
    rw [BitVec.toNat_sub]
    omega
  have backAligned : (-(thunkOffset - patchOffset)).toNat % 4 = 0 := by
    have bound := thunkOffset.isLt
    rw [neg_sub, BitVec.toNat_sub]
    omega
  obtain ⟨outOpcode, outOffset⟩ := branch_of_displacement 0x14000000 (by decide) outAligned (by omega)
  obtain ⟨backOpcode, backOffset⟩ := branch_of_displacement 0x14000000 (by decide) backAligned (by omega)
  obtain ⟨adrpWord, backWord⟩ := wordAt_thunks patcher.currentMethodThunks
    (patchAdrp (getInsn code literalOffset) (targetOffset - (thunkOffset &&& ~~~0xfff)))
    (((-(thunkOffset - patchOffset)) &&& 0x0fffffff) >>> 2 ||| 0x14000000) (by simpa [kAdrpThunkSize] using room)
  simp only [patched, thunkStart, patchPcRelativeReference, if_true, thunk, BitVec.sub_add_cancel, notWide,
    ne_eq, not_true_eq_false, if_false]
  rw [wordAt_setInsn _ inside, adrpWord, backWord, isAdrp_patchAdrp, isB, isB, outOpcode, backOpcode, outOffset,
    backOffset, out, back]
  refine ⟨⟨by decide, by omega⟩, ⟨isAdrp_of_unset unset, page_add_adrpOffset_patchAdrp _ reach⟩, by decide, by omega⟩

/-- The `ADD` or `LDR` patched after its `ADRP` gets the offset of the target in
its page, and leaves the `ADRP` (or the `B` that replaced it) and the thunks as
they are. -/
theorem patchPcRelativeReference_after_adrp {patcher : State} {code : List (BitVec 8)}
    {adrpLiteral literalOffset adrpPatchOffset patchOffset targetOffset : BitVec 32}
    (inside : literalOffset.toNat + 4 ≤ code.length)
    (apart : adrpLiteral.toNat + 4 ≤ literalOffset.toNat ∨ literalOffset.toNat + 4 ≤ adrpLiteral.toNat)
    (second : getInsn code literalOffset &&& 0xfffffc00 = 0x91000000 ∨
      (getInsn code literalOffset &&& 0xbfbffc00 = 0xb9000000 ∧
        targetOffset.toNat % 2 ^ ((getInsn code literalOffset).extractLsb' 30 2).toNat = 0)) :
    let adrpPatched := patchPcRelativeReference patcher code ⟨adrpLiteral, adrpLiteral⟩ adrpPatchOffset
      targetOffset
    let patched := patchPcRelativeReference adrpPatched.1 adrpPatched.2 ⟨literalOffset, adrpLiteral⟩ patchOffset
      targetOffset
    patched.1 = adrpPatched.1 ∧ wordAt patched.2 adrpLiteral.toNat = wordAt adrpPatched.2 adrpLiteral.toNat ∧
      (isAddImmediate (wordAt patched.2 literalOffset.toNat) ||
        isLoadStoreUnsignedOffset (wordAt patched.2 literalOffset.toNat)) ∧
      pageOffset (wordAt patched.2 literalOffset.toNat) = targetOffset.toNat % 4096 := by
  intro adrpPatched patched
  have different : literalOffset ≠ adrpLiteral := by
    rintro rfl
    omega
  -- The `ADRP` patch wrote elsewhere, so the second patch reads the unpatched instruction.
  have unchanged : getInsn adrpPatched.2 literalOffset = getInsn code literalOffset := by
    rw [getInsn_eq_wordAt, getInsn_eq_wordAt, wordAt_patchPcRelativeReference_of_disjoint (by dsimp only; omega)]
  rw [← unchanged] at second
  obtain ⟨state, opcode, offset⟩ := pageOffset_patchPcRelativeReference different
    (by rw [length_patchPcRelativeReference]; exact inside) second
  exact ⟨state, wordAt_patchPcRelativeReference_of_disjoint apart, opcode, offset⟩

theorem arm64_adrp_decodes {patcher : State} {code : List (BitVec 8)}
    {codeOffset adrpLiteral literalOffset targetOffset : BitVec 32}
    (adrpInside : adrpLiteral.toNat + 4 ≤ code.length) (inside : literalOffset.toNat + 4 ≤ code.length)
    (apart : adrpLiteral.toNat + 4 ≤ literalOffset.toNat ∨ literalOffset.toNat + 4 ≤ adrpLiteral.toNat)
    (unset : getInsn code adrpLiteral &&& 0xffffffe0 = 0x90000000)
    (second : getInsn code literalOffset &&& 0xfffffc00 = 0x91000000 ∨
      (getInsn code literalOffset &&& 0xbfbffc00 = 0xb9000000 ∧
        targetOffset.toNat % 2 ^ ((getInsn code literalOffset).extractLsb' 30 2).toNat = 0))
    (noThunk : adrpThunkAt patcher (codeOffset + adrpLiteral) = none)
    (reach : -2 ^ 31 ≤ (targetOffset.toNat : Int) - page (codeOffset + adrpLiteral).toNat ∧
      (targetOffset.toNat : Int) - page (codeOffset + adrpLiteral).toNat < 2 ^ 31) :
    let adrpPatched := patchPcRelativeReference patcher code ⟨adrpLiteral, adrpLiteral⟩ (codeOffset + adrpLiteral)
      targetOffset
    let patched := (patchPcRelativeReference adrpPatched.1 adrpPatched.2 ⟨literalOffset, adrpLiteral⟩
      (codeOffset + literalOffset) targetOffset).2
    isAdrp (wordAt patched adrpLiteral.toNat) ∧
      (isAddImmediate (wordAt patched literalOffset.toNat) ||
        isLoadStoreUnsignedOffset (wordAt patched literalOffset.toNat)) ∧
      page (codeOffset + adrpLiteral).toNat + adrpOffset (wordAt patched adrpLiteral.toNat) +
        pageOffset (wordAt patched literalOffset.toNat) = targetOffset.toNat := by
  intro adrpPatched patched
  obtain ⟨-, adrp, adrpPage⟩ := adrp_patchPcRelativeReference noThunk adrpInside unset reach
  obtain ⟨-, adrpKept, opcode, offset⟩ := @patchPcRelativeReference_after_adrp patcher code
    adrpLiteral literalOffset (codeOffset + adrpLiteral) (codeOffset + literalOffset) targetOffset inside apart second
  rw [adrpKept]
  refine ⟨adrp, opcode, ?_⟩
  rw [adrpPage, offset, page]
  omega

theorem arm64_adrpThunk_decodes {patcher : State} {code : List (BitVec 8)}
    {codeOffset adrpLiteral literalOffset targetOffset thunkOffset : BitVec 32}
    (adrpInside : adrpLiteral.toNat + 4 ≤ code.length) (inside : literalOffset.toNat + 4 ≤ code.length)
    (apart : adrpLiteral.toNat + 4 ≤ literalOffset.toNat ∨ literalOffset.toNat + 4 ≤ adrpLiteral.toNat)
    (unset : getInsn code adrpLiteral &&& 0xffffffe0 = 0x90000000)
    (second : getInsn code literalOffset &&& 0xfffffc00 = 0x91000000 ∨
      (getInsn code literalOffset &&& 0xbfbffc00 = 0xb9000000 ∧
        targetOffset.toNat % 2 ^ ((getInsn code literalOffset).extractLsb' 30 2).toNat = 0))
    (thunk : adrpThunkAt patcher (codeOffset + adrpLiteral) = some thunkOffset)
    (aligned : (codeOffset + adrpLiteral).toNat % 4 = 0 ∧ thunkOffset.toNat % 4 = 0)
    (branchReach : -2 ^ 27 < (thunkOffset.toNat : Int) - (codeOffset + adrpLiteral).toNat ∧
      (thunkOffset.toNat : Int) - (codeOffset + adrpLiteral).toNat < 2 ^ 27)
    (reach : -2 ^ 31 ≤ (targetOffset.toNat : Int) - page thunkOffset.toNat ∧
      (targetOffset.toNat : Int) - page thunkOffset.toNat < 2 ^ 31)
    (room : patcher.currentMethodThunks.length + kAdrpThunkSize ≤ 2 ^ 32) :
    let adrpPatched := patchPcRelativeReference patcher code ⟨adrpLiteral, adrpLiteral⟩ (codeOffset + adrpLiteral)
      targetOffset
    let patched := patchPcRelativeReference adrpPatched.1 adrpPatched.2 ⟨literalOffset, adrpLiteral⟩
      (codeOffset + literalOffset) targetOffset
    let thunkStart := patcher.currentMethodThunks.length
    (isB (wordAt patched.2 adrpLiteral.toNat) ∧
      (codeOffset + adrpLiteral).toNat + branchOffset (wordAt patched.2 adrpLiteral.toNat) = thunkOffset.toNat) ∧
    (isAdrp (wordAt patched.1.currentMethodThunks thunkStart) ∧
      isB (wordAt patched.1.currentMethodThunks (thunkStart + 4)) ∧
      thunkOffset.toNat + 4 + branchOffset (wordAt patched.1.currentMethodThunks (thunkStart + 4)) =
        (codeOffset + adrpLiteral).toNat + 4) ∧
    (isAddImmediate (wordAt patched.2 literalOffset.toNat) ||
      isLoadStoreUnsignedOffset (wordAt patched.2 literalOffset.toNat)) ∧
    page thunkOffset.toNat + adrpOffset (wordAt patched.1.currentMethodThunks thunkStart) +
      pageOffset (wordAt patched.2 literalOffset.toNat) = targetOffset.toNat := by
  intro adrpPatched patched thunkStart
  obtain ⟨⟨out, outTarget⟩, ⟨adrp, adrpPage⟩, back, backTarget⟩ :=
    adrpThunk_patchPcRelativeReference thunk adrpInside unset aligned branchReach reach room
  obtain ⟨state, branchKept, opcode, offset⟩ := @patchPcRelativeReference_after_adrp patcher code
    adrpLiteral literalOffset (codeOffset + adrpLiteral) (codeOffset + literalOffset) targetOffset inside apart second
  rw [branchKept, state]
  refine ⟨⟨out, outTarget⟩, ⟨adrp, back, backTarget⟩, opcode, ?_⟩
  rw [adrpPage, offset, page]
  omega

-- A method at 0xff8 whose `ADRP` moves to a thunk at 0x2000: the thunk's
-- `ADRP` and the `ADD` still reach 0x3456.
example :
    let patcher : State := ⟨true, [(0xff8, 0x2000)], 0, [], ⟨none, none⟩⟩
    let code : List (BitVec 8) := [0, 0, 0, 0x90, 0, 0, 0, 0x91]
    let adrpPatched := patchPcRelativeReference patcher code ⟨0, 0⟩ 0xff8 0x3456
    let patched := patchPcRelativeReference adrpPatched.1 adrpPatched.2 ⟨4, 0⟩ 0xffc 0x3456
    page 0x2000 + adrpOffset (wordAt patched.1.currentMethodThunks 0) + pageOffset (wordAt patched.2 4) = 0x3456 := by
  decide

end Arm64RelativePatcher

/-- What the patches write decodes, with the architecture's encodings, to the
targets they were given: the Thumb2 `BL` and `MOVW`/`MOVT` pair, the ARM64 `BL`,
the ARM64 `ADRP` with its `ADD` or `LDR`, and the same when the `ADRP` is moved to
an erratum 843419 thunk. -/
theorem relativePatches_decode :
    (∀ (thunk : MethodCallThunk) (code : List (BitVec 8)) (literalOffset patchOffset targetOffset : BitVec 32),
      literalOffset.toNat + 4 ≤ code.length → patchOffset.toNat % 2 = 0 → targetOffset.toNat % 2 = 1 →
      -2 ^ 24 ≤ (targetOffset.toNat : Int) - 1 - (patchOffset.toNat + 4) ∧
        (targetOffset.toNat : Int) - 1 - (patchOffset.toNat + 4) < 2 ^ 24 →
      ∃ patched, Thumb2RelativePatcher.patchCall thunk code literalOffset patchOffset targetOffset = some patched ∧
        let halves := fetchT32 patched literalOffset.toNat
        isBlT1 halves.1 halves.2 ∧
          patchOffset.toNat + 4 + (blOffsetT1 halves.1 halves.2).toInt = targetOffset.toNat - 1) ∧
    (∀ (code : List (BitVec 8)) (codeOffset movwLiteral movtLiteral pcLiteral targetOffset : BitVec 32),
      movwLiteral.toNat + 4 ≤ code.length → movtLiteral.toNat + 4 ≤ code.length →
      movwLiteral.toNat + 4 ≤ movtLiteral.toNat ∨ movtLiteral.toNat + 4 ≤ movwLiteral.toNat →
      Thumb2RelativePatcher.getInsn32 code movwLiteral &&& 0xfffff0ff = 0xf2400000 →
      Thumb2RelativePatcher.getInsn32 code movtLiteral &&& 0xfffff0ff = 0xf2c00000 →
      let movwPatched := Thumb2RelativePatcher.patchPcRelativeReference code ⟨movwLiteral, pcLiteral⟩
        (codeOffset + movwLiteral) targetOffset
      let patched := Thumb2RelativePatcher.patchPcRelativeReference movwPatched ⟨movtLiteral, pcLiteral⟩
        (codeOffset + movtLiteral) targetOffset
      let movwHalves := fetchT32 patched movwLiteral.toNat
      let movtHalves := fetchT32 patched movtLiteral.toNat
      isMovwT3 movwHalves.1 movwHalves.2 ∧ isMovtT1 movtHalves.1 movtHalves.2 ∧
        (movImm16T3 movtHalves.1 movtHalves.2).setWidth 32 <<< 16 |||
            (movImm16T3 movwHalves.1 movwHalves.2).setWidth 32 =
          targetOffset - (codeOffset + pcLiteral + 4)) ∧
    (∀ (patcher : Arm64RelativePatcher.State) (code : List (BitVec 8))
      (literalOffset patchOffset targetOffset : BitVec 32),
      literalOffset.toNat + 4 ≤ code.length → patchOffset.toNat % 4 = 0 ∧ targetOffset.toNat % 4 = 0 →
      -2 ^ 27 ≤ (targetOffset.toNat : Int) - patchOffset.toNat ∧
        (targetOffset.toNat : Int) - patchOffset.toNat < 2 ^ 27 →
      ∃ patched, Arm64RelativePatcher.patchCall patcher code literalOffset patchOffset targetOffset = some patched ∧
        let insn := wordAt patched literalOffset.toNat
        isBl insn ∧ patchOffset.toNat + branchOffset insn = targetOffset.toNat) ∧
    (∀ (patcher : Arm64RelativePatcher.State) (code : List (BitVec 8))
      (codeOffset adrpLiteral literalOffset targetOffset : BitVec 32),
      adrpLiteral.toNat + 4 ≤ code.length → literalOffset.toNat + 4 ≤ code.length →
      adrpLiteral.toNat + 4 ≤ literalOffset.toNat ∨ literalOffset.toNat + 4 ≤ adrpLiteral.toNat →
      Arm64RelativePatcher.getInsn code adrpLiteral &&& 0xffffffe0 = 0x90000000 →
      Arm64RelativePatcher.getInsn code literalOffset &&& 0xfffffc00 = 0x91000000 ∨
        (Arm64RelativePatcher.getInsn code literalOffset &&& 0xbfbffc00 = 0xb9000000 ∧
          targetOffset.toNat % 2 ^ ((Arm64RelativePatcher.getInsn code literalOffset).extractLsb' 30 2).toNat = 0) →
      Arm64RelativePatcher.adrpThunkAt patcher (codeOffset + adrpLiteral) = none →
      -2 ^ 31 ≤ (targetOffset.toNat : Int) - page (codeOffset + adrpLiteral).toNat ∧
        (targetOffset.toNat : Int) - page (codeOffset + adrpLiteral).toNat < 2 ^ 31 →
      let adrpPatched := Arm64RelativePatcher.patchPcRelativeReference patcher code ⟨adrpLiteral, adrpLiteral⟩
        (codeOffset + adrpLiteral) targetOffset
      let patched := (Arm64RelativePatcher.patchPcRelativeReference adrpPatched.1 adrpPatched.2
        ⟨literalOffset, adrpLiteral⟩ (codeOffset + literalOffset) targetOffset).2
      isAdrp (wordAt patched adrpLiteral.toNat) ∧
        (isAddImmediate (wordAt patched literalOffset.toNat) ||
          isLoadStoreUnsignedOffset (wordAt patched literalOffset.toNat)) ∧
        page (codeOffset + adrpLiteral).toNat + adrpOffset (wordAt patched adrpLiteral.toNat) +
          pageOffset (wordAt patched literalOffset.toNat) = targetOffset.toNat) ∧
    (∀ (patcher : Arm64RelativePatcher.State) (code : List (BitVec 8))
      (codeOffset adrpLiteral literalOffset targetOffset thunkOffset : BitVec 32),
      adrpLiteral.toNat + 4 ≤ code.length → literalOffset.toNat + 4 ≤ code.length →
      adrpLiteral.toNat + 4 ≤ literalOffset.toNat ∨ literalOffset.toNat + 4 ≤ adrpLiteral.toNat →
      Arm64RelativePatcher.getInsn code adrpLiteral &&& 0xffffffe0 = 0x90000000 →
      Arm64RelativePatcher.getInsn code literalOffset &&& 0xfffffc00 = 0x91000000 ∨
        (Arm64RelativePatcher.getInsn code literalOffset &&& 0xbfbffc00 = 0xb9000000 ∧
          targetOffset.toNat % 2 ^ ((Arm64RelativePatcher.getInsn code literalOffset).extractLsb' 30 2).toNat = 0) →
      Arm64RelativePatcher.adrpThunkAt patcher (codeOffset + adrpLiteral) = some thunkOffset →
      (codeOffset + adrpLiteral).toNat % 4 = 0 ∧ thunkOffset.toNat % 4 = 0 →
      -2 ^ 27 < (thunkOffset.toNat : Int) - (codeOffset + adrpLiteral).toNat ∧
        (thunkOffset.toNat : Int) - (codeOffset + adrpLiteral).toNat < 2 ^ 27 →
      -2 ^ 31 ≤ (targetOffset.toNat : Int) - page thunkOffset.toNat ∧
        (targetOffset.toNat : Int) - page thunkOffset.toNat < 2 ^ 31 →
      patcher.currentMethodThunks.length + Arm64RelativePatcher.kAdrpThunkSize ≤ 2 ^ 32 →
      let adrpPatched := Arm64RelativePatcher.patchPcRelativeReference patcher code ⟨adrpLiteral, adrpLiteral⟩
        (codeOffset + adrpLiteral) targetOffset
      let patched := Arm64RelativePatcher.patchPcRelativeReference adrpPatched.1 adrpPatched.2
        ⟨literalOffset, adrpLiteral⟩ (codeOffset + literalOffset) targetOffset
      let thunkStart := patcher.currentMethodThunks.length
      (isB (wordAt patched.2 adrpLiteral.toNat) ∧
        (codeOffset + adrpLiteral).toNat + branchOffset (wordAt patched.2 adrpLiteral.toNat) = thunkOffset.toNat) ∧
      (isAdrp (wordAt patched.1.currentMethodThunks thunkStart) ∧
        isB (wordAt patched.1.currentMethodThunks (thunkStart + 4)) ∧
        thunkOffset.toNat + 4 + branchOffset (wordAt patched.1.currentMethodThunks (thunkStart + 4)) =
          (codeOffset + adrpLiteral).toNat + 4) ∧
      (isAddImmediate (wordAt patched.2 literalOffset.toNat) ||
        isLoadStoreUnsignedOffset (wordAt patched.2 literalOffset.toNat)) ∧
      page thunkOffset.toNat + adrpOffset (wordAt patched.1.currentMethodThunks thunkStart) +
        pageOffset (wordAt patched.2 literalOffset.toNat) = targetOffset.toNat) :=
  ⟨fun _ _ _ _ _ inside even odd reach => Thumb2RelativePatcher.thumb2_patchCall_decodes inside even odd reach,
    fun _ _ _ _ _ _ movwInside movtInside apart movw movt =>
      Thumb2RelativePatcher.thumb2_movwMovt_decodes movwInside movtInside apart movw movt,
    fun _ _ _ _ _ inside aligned reach => Arm64RelativePatcher.arm64_patchCall_decodes inside aligned reach,
    fun _ _ _ _ _ _ adrpInside inside apart unset second noThunk reach =>
      Arm64RelativePatcher.arm64_adrp_decodes adrpInside inside apart unset second noThunk reach,
    fun _ _ _ _ _ _ _ adrpInside inside apart unset second thunk aligned branchReach reach room =>
      Arm64RelativePatcher.arm64_adrpThunk_decodes adrpInside inside apart unset second thunk aligned branchReach
        reach room⟩

/-- The five patches in one method each: a Thumb2 call at 0 to the Thumb2 method at
`0x101`, a `MOVW`/`MOVT` pair at 0 and 4 with the PC of an `ADD` at 8, an ARM64 call
at 0 to `0x100`, an `ADRP` and an `ADD` at 0 and 4 of a method at 0, and the same
pair at `0xff8` with the `ADRP` moved to a thunk at `0x2000`; the targets of the
last three are `0x1234` and `0x3456`. -/
theorem relativePatches_decode_oneMethod :
    (∃ patched, Thumb2RelativePatcher.patchCall ⟨none, none⟩ [0, 0, 0, 0] 0 0 0x101 = some patched ∧
      let halves := fetchT32 patched (0 : BitVec 32).toNat
      isBlT1 halves.1 halves.2 ∧
        (0 : BitVec 32).toNat + 4 + (blOffsetT1 halves.1 halves.2).toInt = (0x101 : BitVec 32).toNat - 1) ∧
    (let movwPatched := Thumb2RelativePatcher.patchPcRelativeReference [0x40, 0xf2, 0, 0, 0xc0, 0xf2, 0, 0]
        ⟨0, 8⟩ (0 + 0) 0x1234
      let patched := Thumb2RelativePatcher.patchPcRelativeReference movwPatched ⟨4, 8⟩ (0 + 4) 0x1234
      let movwHalves := fetchT32 patched (0 : BitVec 32).toNat
      let movtHalves := fetchT32 patched (4 : BitVec 32).toNat
      isMovwT3 movwHalves.1 movwHalves.2 ∧ isMovtT1 movtHalves.1 movtHalves.2 ∧
        (movImm16T3 movtHalves.1 movtHalves.2).setWidth 32 <<< 16 |||
            (movImm16T3 movwHalves.1 movwHalves.2).setWidth 32 = 0x1234 - (0 + 8 + 4)) ∧
    (∃ patched, Arm64RelativePatcher.patchCall ⟨false, [], 0, [], ⟨none, none⟩⟩ [0, 0, 0, 0] 0 0 0x100 =
        some patched ∧
      let insn := wordAt patched (0 : BitVec 32).toNat
      isBl insn ∧ (0 : BitVec 32).toNat + branchOffset insn = (0x100 : BitVec 32).toNat) ∧
    (let adrpPatched := Arm64RelativePatcher.patchPcRelativeReference ⟨false, [], 0, [], ⟨none, none⟩⟩
        [0, 0, 0, 0x90, 0, 0, 0, 0x91] ⟨0, 0⟩ (0 + 0) 0x3456
      let patched := (Arm64RelativePatcher.patchPcRelativeReference adrpPatched.1 adrpPatched.2 ⟨4, 0⟩ (0 + 4)
        0x3456).2
      isAdrp (wordAt patched (0 : BitVec 32).toNat) ∧
        (isAddImmediate (wordAt patched (4 : BitVec 32).toNat) ||
          isLoadStoreUnsignedOffset (wordAt patched (4 : BitVec 32).toNat)) ∧
        page (0 + 0 : BitVec 32).toNat + adrpOffset (wordAt patched (0 : BitVec 32).toNat) +
          pageOffset (wordAt patched (4 : BitVec 32).toNat) = (0x3456 : BitVec 32).toNat) ∧
    (let patcher : Arm64RelativePatcher.State := ⟨true, [(0xff8, 0x2000)], 0, [], ⟨none, none⟩⟩
      let adrpPatched := Arm64RelativePatcher.patchPcRelativeReference patcher [0, 0, 0, 0x90, 0, 0, 0, 0x91]
        ⟨0, 0⟩ (0xff8 + 0) 0x3456
      let patched := Arm64RelativePatcher.patchPcRelativeReference adrpPatched.1 adrpPatched.2 ⟨4, 0⟩ (0xff8 + 4)
        0x3456
      page (0x2000 : BitVec 32).toNat + adrpOffset (wordAt patched.1.currentMethodThunks patcher.currentMethodThunks.length) +
        pageOffset (wordAt patched.2 (4 : BitVec 32).toNat) = (0x3456 : BitVec 32).toNat) :=
  ⟨relativePatches_decode.1 _ _ 0 0 0x101 (by decide) (by decide) (by decide) (by decide),
    relativePatches_decode.2.1 _ 0 0 4 8 0x1234 (by decide) (by decide) (by decide) (by decide) (by decide),
    relativePatches_decode.2.2.1 _ _ 0 0 0x100 (by decide) (by decide) (by decide),
    relativePatches_decode.2.2.2.1 _ _ 0 0 4 0x3456 (by decide) (by decide) (by decide) (by decide) (by decide)
      (by decide) (by decide),
    (relativePatches_decode.2.2.2.2 ⟨true, [(0xff8, 0x2000)], 0, [], ⟨none, none⟩⟩ [0, 0, 0, 0x90, 0, 0, 0, 0x91]
      0xff8 0 4 0x3456 0x2000 (by decide) (by decide) (by decide) (by decide) (by decide) (by decide) (by decide)
      (by decide) (by decide) (by decide)).2.2.2⟩

end Art.Compiler.Linker
