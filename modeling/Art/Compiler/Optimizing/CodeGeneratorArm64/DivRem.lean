import Art.Compiler.Optimizing.CodeGeneratorUtils
import Art.Compiler.Optimizing.Nodes
import Art.Machine.A64
import Art.Machine.A64.Flags

/-!
# Division and remainder by a constant on ARM64

`GenerateDivRemWithAnyConstant` of the ARM64 code generator divides by a constant
`imm` with `|imm| ≥ 2` through the magic number and shift of
`CalculateMagicAndShiftForDivRem`. It takes the high word of the signed product of
the dividend and the magic number (`SMULH` for a `long`, `SMULL` and a shift right
by 32 for an `int`), adds or subtracts the dividend when the magic number does not
fit in a signed word, shifts right arithmetically by the shift, and adds one when
the result is negative by subtracting its sign; for a remainder it then subtracts
the quotient times `imm` from the dividend with `MSUB`.

`generateDivRemWithAnyConstant` is the list of A64 instructions it emits, in the
four parts of the source. Each part has its lemma: what it leaves in the scratch
register `temp`, and that it writes no other register (`run_highWord`,
`run_correction`, `run_shift`). Over every dividend and every constant with
`|imm| ≥ 2` of an `int` or a `long`, the output register then holds
`HDiv::ComputeIntegral` or `HRem::ComputeIntegral` of the dividend and the constant
(`generateDivRemWithAnyConstant_correct`).

A constant one or minus one is a move, a negation or a zero (`divRemOneOrMinusOne`);
a constant `±2 ^ k` biases a negative dividend by `2 ^ k - 1`, chosen by a
comparison with zero and a conditional select, and shifts it right by `k`, or keeps
the low `k` bits of the biased dividend for a remainder (`divRemByPowerOfTwo`).
These run on the registers with the flags (`Art.Machine.A64.Flags`), and both leave
in `out` what `HDiv::ComputeIntegral` or `HRem::ComputeIntegral` computes
(`divRemOneOrMinusOne_correct`, `divRemByPowerOfTwo_correct`).
-/

set_option autoImplicit false

namespace Art.Compiler.Optimizing

namespace CodeGeneratorArm64

open Art.Arithmetic Art.Machine A64

/-- `temp = get_high(dividend * magic)`: `SMULH` for a `long`, and for an `int`
`SMULL` into the `X` register and a shift right of it by 32. -/
def highWord (isLong : Bool) (dividend temp : Nat) : List Instruction :=
  if isLong then [.smulh temp dividend temp] else [.smull temp dividend temp, .lsr true temp temp 32]

/-- The correction of the high word: add the dividend when `imm > 0` and the magic
number reads as negative, subtract it when `imm < 0` and the magic number reads as
positive. -/
def correction (isLong : Bool) (dividend temp : Nat) (imm magic : BitVec 64) : List Instruction :=
  if 0 < imm.toInt ∧ magic.toInt < 0 then [.add isLong temp temp dividend .lsl 0]
  else if imm.toInt < 0 ∧ 0 < magic.toInt then [.sub isLong temp temp dividend .lsl 0]
  else []

/-- `GenerateDivRemWithAnyConstant`: `out = dividend / imm` (`isDiv`) or
`out = dividend % imm` for an `int` or a `long`, with the scratch registers `temp`
and `tempImm`. -/
def generateDivRemWithAnyConstant (isDiv : Bool) (type : Primitive.Type)
    (out dividend temp tempImm : Nat) (imm : BitVec 64) : List Instruction :=
  let isLong := decide (type = .primLong)
  let result := calculateMagicAndShiftForDivRem imm isLong
  let magic := result.1
  let shift := result.2
  let signShift := if isLong then 63 else 31
  [.mov isLong temp magic] ++ highWord isLong dividend temp ++ correction isLong dividend temp imm magic ++
    (if shift ≠ 0 then [.asr isLong temp temp shift.toNat] else []) ++
    if isDiv then [.sub isLong out temp temp .asr signShift]
    else [.sub isLong temp temp temp .asr signShift, .mov isLong tempImm imm,
      .msub isLong out temp tempImm dividend]

/-- Dividing an `int` by 7: the magic number `0x92492493` reads as negative, so the
dividend is added back, and the shift is 2. -/
example : generateDivRemWithAnyConstant true .primInt 0 1 16 17 7 =
    [.mov false 16 0xffffffff92492493, .smull 16 1 16, .lsr true 16 16 32, .add false 16 16 1 .lsl 0,
      .asr false 16 16 2, .sub false 0 16 16 .asr 31] := by
  decide

/-! ## The parts of the sequence -/

section Parts

variable (regs : Nat → BitVec 64) {dividend temp : Nat}

/-- The high word of the product of the dividend and the word in `temp`. -/
theorem run_highWord (isLong : Bool) :
    read isLong (run regs (highWord isLong dividend temp)) temp =
        smulHigh (read isLong regs dividend) (read isLong regs temp) ∧
      ∀ r, r ≠ temp → run regs (highWord isLong dividend temp) r = regs r := by
  cases isLong
  · refine ⟨read_exec_lsr_smull regs temp dividend temp, fun r other => ?_⟩
    simp only [highWord, Bool.false_eq_true, if_false, run_cons, run_nil]
    rw [exec_of_ne _ _ other, exec_of_ne _ _ other]
  · refine ⟨read_exec_smulh regs temp dividend temp, fun r other => ?_⟩
    simp only [highWord, if_true, run_cons, run_nil]
    rw [exec_of_ne _ _ other]

/-- The correction adds or subtracts the dividend as its conditions say. -/
theorem run_correction (isLong : Bool) (imm magic : BitVec 64) :
    read isLong (run regs (correction isLong dividend temp imm magic)) temp =
        (if 0 < imm.toInt ∧ magic.toInt < 0 then read isLong regs temp + read isLong regs dividend
          else if imm.toInt < 0 ∧ 0 < magic.toInt then read isLong regs temp - read isLong regs dividend
          else read isLong regs temp) ∧
      ∀ r, r ≠ temp → run regs (correction isLong dividend temp imm magic) r = regs r := by
  unfold correction
  split
  · exact ⟨by simp [Shift.apply],
      fun r other => exec_of_ne regs (.add isLong temp temp dividend .lsl 0) other⟩
  · split
    · exact ⟨by simp [Shift.apply],
        fun r other => exec_of_ne regs (.sub isLong temp temp dividend .lsl 0) other⟩
    · exact ⟨rfl, fun r _ => rfl⟩

/-- The shift, left out for a shift of zero, shifts `temp` right arithmetically. -/
theorem run_shift (isLong : Bool) (shift : Int) :
    read isLong (run regs (if shift ≠ 0 then [.asr isLong temp temp shift.toNat] else [])) temp =
        (read isLong regs temp).sshiftRight shift.toNat ∧
      ∀ r, r ≠ temp → run regs (if shift ≠ 0 then [.asr isLong temp temp shift.toNat] else []) r = regs r := by
  split
  · exact ⟨read_exec_asr regs isLong temp temp _,
      fun r other => exec_of_ne regs (.asr isLong temp temp shift.toNat) other⟩
  · rename_i zero
    rw [not_not] at zero
    subst zero
    exact ⟨BitVec.sshiftRight_zero.symm, fun r _ => rfl⟩

end Parts

/-! ## The whole sequence -/

/-- **Division and remainder by a constant on ARM64.** For an `int` or a `long`,
every dividend in the register `dividend` and every constant `d` with `|d| ≥ 2`,
the instructions `GenerateDivRemWithAnyConstant` emits leave in `out` what
`HDiv::ComputeIntegral` or `HRem::ComputeIntegral` computes, every intermediate
taken at the width of the type. The scratch registers differ from the dividend and
from each other; `out` may be any register. -/
theorem generateDivRemWithAnyConstant_correct (isDiv isLong : Bool) (regs : Nat → BitVec 64)
    {out dividend temp tempImm : Nat} (tempDividend : temp ≠ dividend) (immDividend : tempImm ≠ dividend)
    (immTemp : tempImm ≠ temp) (d : BitVec (width isLong)) (two_le : 2 ≤ d.toInt.natAbs) :
    read isLong (run regs (generateDivRemWithAnyConstant isDiv (if isLong then .primLong else .primInt)
        out dividend temp tempImm (d.signExtend 64))) out =
      if isDiv then HDiv.computeIntegral (read isLong regs dividend) d
      else HRem.computeIntegral (read isLong regs dividend) d := by
  have sameWidth : width isLong = bitWidth isLong := by cases isLong <;> rfl
  have isLongType : decide ((if isLong then Primitive.Type.primLong else .primInt) = .primLong) = isLong := by
    cases isLong <;> rfl
  have signShift : (if isLong then 63 else 31) = width isLong - 1 := by cases isLong <;> rfl
  have lower : -2 ^ (bitWidth isLong - 1) ≤ d.toInt := by
    rw [← sameWidth]
    exact BitVec.le_toInt d
  have upper : d.toInt < 2 ^ (bitWidth isLong - 1) := by
    rw [← sameWidth]
    exact BitVec.toInt_lt
  obtain ⟨m, k, result, multiplier⟩ := calculateMagicAndShiftForDivRem_spec lower upper two_le
  rw [← sameWidth] at result multiplier
  have notMinusOne : d ≠ -1 := by
    rintro rfl
    revert two_le
    cases isLong <;> decide
  rw [show BitVec.ofInt 64 d.toInt = d.signExtend 64 from rfl] at result
  simp only [generateDivRemWithAnyConstant, isLongType, result, signShift, run_append]
  set n := read isLong regs dividend
  set mw := BitVec.ofInt (width isLong) m
  -- `MOV temp, magic`: the magic word in `temp`
  set s1 := run regs [Instruction.mov isLong temp (mw.signExtend 64)] with s1Def
  have t1 : read isLong s1 temp = mw := by
    rw [s1Def, run_cons, run_nil, read_exec_mov]
    exact setWidth_signExtend_of_le (width_le isLong) mw
  have n1 : read isLong s1 dividend = n :=
    read_exec_of_ne regs isLong (.mov isLong temp (mw.signExtend 64)) (Ne.symm tempDividend)
  -- the high word of the product
  obtain ⟨t2, f2⟩ := @run_highWord s1 dividend temp isLong
  set s2 := run s1 (highWord isLong dividend temp)
  have n2 : read isLong s2 dividend = n := (read_congr s1 (f2 dividend (Ne.symm tempDividend))).trans n1
  rw [t1, n1] at t2
  -- the correction, with the conditions of the code read as signs of `m`
  obtain ⟨t3, f3⟩ := @run_correction s2 dividend temp isLong (d.signExtend 64) (mw.signExtend 64)
  set s3 := run s2 (correction isLong dividend temp (d.signExtend 64) (mw.signExtend 64))
  have n3 : read isLong s3 dividend = n := (read_congr s2 (f3 dividend (Ne.symm tempDividend))).trans n2
  rw [BitVec.toInt_signExtend_of_le (width_le isLong), BitVec.toInt_signExtend_of_le (width_le isLong),
    t2, n2] at t3
  simp only [← multiplier.pos_iff, ← multiplier.neg_iff] at t3
  -- the shift
  obtain ⟨t4, f4⟩ := @run_shift s3 temp isLong (k : Int)
  set s4 := run s3 (if (k : Int) ≠ 0 then [Instruction.asr isLong temp temp (k : Int).toNat] else [])
  have n4 : read isLong s4 dividend = n := (read_congr s3 (f4 dividend (Ne.symm tempDividend))).trans n3
  rw [Int.toNat_natCast] at t4
  have high := toInt_smulHigh_corrected (width_pos isLong) n mw rfl multiplier.lower multiplier.upper
  rw [← t3] at high
  have quotient := sdiv_of_magicMultiplier multiplier n high
  rw [← sub_sshiftRight_sign, ← t4] at quotient
  cases isDiv
  · -- the remainder: `temp` rounded, then `out = dividend - temp * imm`
    simp only [Bool.false_eq_true, if_false, run_cons, run_nil, HRem.computeIntegral, if_neg notMinusOne]
    set s5 := exec s4 (.sub isLong temp temp temp .asr (width isLong - 1))
    have t5 : read isLong s5 temp = n.sdiv d := by
      rw [read_exec_sub]
      exact quotient
    have n5 : read isLong s5 dividend = n :=
      (read_exec_of_ne s4 isLong (.sub isLong temp temp temp .asr (width isLong - 1))
        (Ne.symm tempDividend)).trans n4
    set s6 := exec s5 (.mov isLong tempImm (d.signExtend 64))
    have i6 : read isLong s6 tempImm = d := by
      rw [read_exec_mov]
      exact setWidth_signExtend_of_le (width_le isLong) d
    have t6 : read isLong s6 temp = n.sdiv d :=
      (read_exec_of_ne s5 isLong (.mov isLong tempImm (d.signExtend 64)) (Ne.symm immTemp)).trans t5
    have n6 : read isLong s6 dividend = n :=
      (read_exec_of_ne s5 isLong (.mov isLong tempImm (d.signExtend 64)) (Ne.symm immDividend)).trans n5
    rw [read_exec_msub, t6, i6, n6, sub_sdiv_mul]
  · -- the quotient: `out = temp - (temp >>ₛ (W - 1))`
    simp only [if_true, run_cons, run_nil, read_exec_sub, HDiv.computeIntegral, if_neg notMinusOne]
    exact quotient

/-! ## Division by one, minus one and powers of two -/

/-- `DivRemOneOrMinusOne`: `out = dividend / imm` (`isDiv`) or `out = dividend % imm`
for `imm` one or minus one. -/
def divRemOneOrMinusOne (isDiv : Bool) (type : Primitive.Type) (out dividend : Nat) (imm : BitVec 64) :
    List Op :=
  let sf := decide (type = .primLong)
  if !isDiv then [.plain (.mov sf out 0)]
  else if imm = 1 then [.movReg sf out dividend]
  else [.neg sf out dividend .lsl 0]

/-- `DivRemByPowerOfTwo`: `out = dividend / imm` (`isDiv`) or `out = dividend % imm`
for `|imm|` a power of two, with the scratch register `temp`. -/
def divRemByPowerOfTwo (isDiv : Bool) (type : Primitive.Type) (out dividend temp : Nat) (imm : BitVec 64) :
    List Op :=
  let sf := decide (type = .primLong)
  let absImm := absOrMin imm
  let ctzImm := ctz absImm
  if isDiv then
    [.addImm sf temp dividend (absImm - 1), .cmpImm sf dividend 0, .csel sf out temp dividend .lt] ++
      if 0 < imm.toInt then [.plain (.asr sf out out ctzImm)] else [.neg sf out out .asr ctzImm]
  else
    let bits := if type = .primInt then 32 else 64
    [.plain (.asr sf temp dividend (bits - 1)), .plain (.lsr sf temp temp (bits - ctzImm)),
      .plain (.add sf out dividend temp .lsl 0), .andImm sf out out (absImm - 1),
      .plain (.sub sf out out temp .lsl 0)]

/-- Dividing an `int` by `-8`: the bias is `7` and the shift `3`. -/
example : divRemByPowerOfTwo true .primInt 0 1 16 (-8) =
    [.addImm false 16 1 7, .cmpImm false 1 0, .csel false 0 16 1 .lt, .neg false 0 0 .asr 3] := by
  decide

section PowerOfTwo

variable (m : State) {out dividend temp : Nat}

/-- The first three instructions of a quotient: `out` receives the dividend, biased
by the immediate when it is negative. -/
theorem read_run_bias (sf : Bool) (tempDividend : temp ≠ dividend) (bias : BitVec 64) :
    read sf (m.run [.addImm sf temp dividend bias, .cmpImm sf dividend 0, .csel sf out temp dividend .lt]).regs out =
      if (read sf m.regs dividend).toInt < 0 then read sf m.regs dividend + bias.setWidth (width sf)
      else read sf m.regs dividend := by
  have kept : read sf (m.exec (.addImm sf temp dividend bias)).regs dividend = read sf m.regs dividend :=
    State.read_exec_of_ne m sf _ (by simp [Op.destination, tempDividend])
  simp only [State.run_cons, State.run_nil, State.read_exec_csel, State.nzcv_exec_cmpImm,
    State.regs_exec_cmpImm, kept, State.read_exec_addImm]
  rw [show (0 : BitVec 64).setWidth (width sf) = 0 from BitVec.setWidth_zero (width sf) 64, holds_lt_ofSub_zero]
  simp only [decide_eq_true_eq]

/-- The five instructions of a remainder: `temp` receives the sign of the dividend
shifted right logically, the bias; `out` keeps the bits of the biased dividend
under the immediate, less the bias. -/
theorem read_run_remainder (sf : Bool) (tempDividend : temp ≠ dividend) (tempOut : temp ≠ out)
    (shift amount : Nat) (mask : BitVec 64) :
    read sf (m.run [.plain (.asr sf temp dividend shift), .plain (.lsr sf temp temp amount),
        .plain (.add sf out dividend temp .lsl 0), .andImm sf out out mask,
        .plain (.sub sf out out temp .lsl 0)]).regs out =
      ((read sf m.regs dividend + (read sf m.regs dividend).sshiftRight shift >>> amount) &&&
        mask.setWidth (width sf)) - (read sf m.regs dividend).sshiftRight shift >>> amount := by
  simp only [State.run_cons, State.run_nil, State.regs_exec_plain, A64.read_exec_sub, State.read_exec_andImm,
    A64.read_exec_add, Shift.apply, BitVec.shiftLeft_zero]
  -- the bias stays in `temp`, and the dividend where it was
  rw [State.read_exec_of_ne _ _ _ (by simpa [Op.destination] using tempOut.symm),
    State.read_exec_of_ne _ _ _ (by simpa [Op.destination, Instruction.destination] using tempOut.symm),
    State.regs_exec_plain, State.regs_exec_plain, A64.read_exec_lsr, A64.read_exec_asr, A64.read_exec_of_ne _ _ _ tempDividend.symm,
    A64.read_exec_of_ne _ _ _ tempDividend.symm]

end PowerOfTwo

/-- **Division and remainder by a power of two on ARM64.** For an `int` or a `long`
and every constant `d` with `|d| = 2 ^ k`, the most negative value included, the
instructions `DivRemByPowerOfTwo` emits leave in `out` what `HDiv::ComputeIntegral`
or `HRem::ComputeIntegral` computes. The scratch register differs from the
dividend and from `out`. -/
theorem divRemByPowerOfTwo_correct (isDiv isLong : Bool) (m : State) {out dividend temp : Nat}
    (tempDividend : temp ≠ dividend) (tempOut : temp ≠ out) (d : BitVec (width isLong)) {k : Nat}
    (power : d.toInt.natAbs = 2 ^ k) :
    read isLong (m.run (divRemByPowerOfTwo isDiv (if isLong then .primLong else .primInt) out dividend temp
        (d.signExtend 64))).regs out =
      if isDiv then HDiv.computeIntegral (read isLong m.regs dividend) d
      else HRem.computeIntegral (read isLong m.regs dividend) d := by
  have isLongType : decide ((if isLong then Primitive.Type.primLong else .primInt) = .primLong) = isLong := by
    cases isLong <;> rfl
  have bits : (if (if isLong then Primitive.Type.primLong else .primInt) = .primInt then 32 else 64) =
      width isLong := by
    cases isLong <;> rfl
  have wide : (d.signExtend 64).toInt = d.toInt := BitVec.toInt_signExtend_of_le (width_le isLong)
  have wideAbs : (d.signExtend 64).toInt.natAbs = 2 ^ k := by rw [wide, power]
  have mask : (absOrMin (d.signExtend 64) - 1).setWidth (width isLong) = BitVec.ofNat (width isLong) (2 ^ k - 1) := by
    rw [absOrMin_sub_one wideAbs, BitVec.setWidth_ofNat_of_le (width_le isLong)]
  simp only [divRemByPowerOfTwo, isLongType, bits, ctz_absOrMin wideAbs, wide]
  cases isDiv
  · -- the remainder keeps the low `k` bits of the biased dividend
    simp only [Bool.false_eq_true, if_false]
    rw [read_run_remainder m isLong tempDividend tempOut, mask, HRem.computeIntegral_of_natAbs_eq_two_pow power]
  · -- the quotient shifts the biased dividend, and negates it for a negative divisor
    simp only [if_true, State.run_append]
    split
    · rename_i positive
      rw [State.run_cons, State.run_nil, State.regs_exec_plain, A64.read_exec_asr, read_run_bias m isLong tempDividend,
        mask, HDiv.computeIntegral_two_pow (toInt_eq_two_pow_of_pos power positive)]
    · rename_i notPositive
      rw [State.run_cons, State.run_nil, State.read_exec_neg, Shift.apply, read_run_bias m isLong tempDividend,
        mask, HDiv.computeIntegral_neg_two_pow (toInt_eq_neg_two_pow_of_not_pos power notPositive)]

/-- **Division and remainder by one and minus one on ARM64.** The instructions
`DivRemOneOrMinusOne` emits leave in `out` what `HDiv::ComputeIntegral` or
`HRem::ComputeIntegral` computes: the dividend, its negation, wrapping for the most
negative value, or zero. -/
theorem divRemOneOrMinusOne_correct (isDiv isLong : Bool) (m : State) (out dividend : Nat)
    (d : BitVec (width isLong)) (unit : d = 1 ∨ d = -1) :
    read isLong (m.run (divRemOneOrMinusOne isDiv (if isLong then .primLong else .primInt) out dividend
        (d.signExtend 64))).regs out =
      if isDiv then HDiv.computeIntegral (read isLong m.regs dividend) d
      else HRem.computeIntegral (read isLong m.regs dividend) d := by
  have isLongType : decide ((if isLong then Primitive.Type.primLong else .primInt) = .primLong) = isLong := by
    cases isLong <;> rfl
  have one : (1 : BitVec (width isLong)).signExtend 64 = 1 := by cases isLong <;> decide
  have minusOne : (-1 : BitVec (width isLong)).signExtend 64 ≠ 1 := by cases isLong <;> decide
  have oneNe : (1 : BitVec (width isLong)) ≠ -1 := by cases isLong <;> decide
  simp only [divRemOneOrMinusOne, isLongType]
  cases isDiv
  · -- `MOV out, #0`
    rw [Bool.not_false, if_pos rfl, State.run_cons, State.run_nil, State.regs_exec_plain, A64.read_exec_mov,
      show (0 : BitVec 64).setWidth (width isLong) = 0 from BitVec.setWidth_zero (width isLong) 64, if_neg nofun]
    rcases unit with rfl | rfl
    · rw [HRem.computeIntegral_eq_srem]
      exact BitVec.srem_one.symm
    · rw [HRem.computeIntegral, if_pos rfl]
  · rw [Bool.not_true, if_neg nofun, if_pos rfl, HDiv.computeIntegral]
    rcases unit with rfl | rfl
    · -- `MOV out, dividend`
      rw [if_pos one, State.run_cons, State.run_nil, State.read_exec_movReg, if_neg oneNe]
      exact BitVec.sdiv_one.symm
    · -- `NEG out, dividend`
      rw [if_neg minusOne, State.run_cons, State.run_nil, State.read_exec_neg, Shift.apply, BitVec.shiftLeft_zero,
        if_pos rfl]

end CodeGeneratorArm64

end Art.Compiler.Optimizing
