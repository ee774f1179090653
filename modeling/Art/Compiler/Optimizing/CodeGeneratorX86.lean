import Art.Compiler.Optimizing.CodeGeneratorUtils
import Art.Compiler.Optimizing.Nodes
import Art.Machine.X86
import Art.Machine.X86.Flags

/-!
# Division and remainder of an `int` by a constant on x86

`GenerateDivRemWithAnyConstant` of the x86 code generator divides the `int` in
`EAX` by a constant `imm` with `|imm| ≥ 2` through the magic number and shift of
`CalculateMagicAndShiftForDivRem`. It saves the dividend in `num`, multiplies it by
the magic number with the one-operand `IMUL`, corrects the high word in `EDX` by
the dividend when the magic number does not fit in a signed word, shifts `EDX`
right arithmetically, and adds its sign bit to it; the quotient goes to `EAX`, and
for a remainder `EAX` and `EDX` receive the dividend less the quotient times `imm`.
It is also the code of a remainder by a power of two.

`generateDivRemWithAnyConstant` is the list of instructions it emits. Each part has
its lemma on `EDX` and the saved dividend (`run_product`, `run_correction`,
`run_shift`, `run_rounding`), and over every dividend and every constant with
`|imm| ≥ 2` the output register holds `HDiv::ComputeIntegral` or
`HRem::ComputeIntegral` of the two (`generateDivRemWithAnyConstant_correct`).

A constant one or minus one is a move, with a negation for minus one, or a zero
(`divRemOneOrMinusOne`). A quotient by `±2 ^ k` adds `2 ^ k - 1` to the dividend
with `LEA`, keeps the dividend instead when `TEST` finds it not negative, shifts
right arithmetically by `k` and negates for a negative divisor
(`divByPowerOfTwo`). Both run on the registers with the flags
(`Art.Machine.X86.Flags`) and compute what `HDiv::ComputeIntegral` and
`HRem::ComputeIntegral` compute (`divRemOneOrMinusOne_correct`,
`divByPowerOfTwo_correct`).
-/

set_option autoImplicit false

namespace Art.Compiler.Optimizing

namespace CodeGeneratorX86

open Art.Arithmetic Art.Machine X86

/-- `GenerateDivRemWithAnyConstant`: `EAX = EAX / imm` (`isDiv`), or
`EDX = EAX % imm`, with `EDX` and `num` as temporaries. -/
def generateDivRemWithAnyConstant (isDiv : Bool) (num : Register) (imm : BitVec 32) : List Instruction :=
  let result := calculateMagicAndShiftForDivRem (imm.signExtend 64) false
  let magic := result.1
  let shift := result.2
  [.movl num .eax, .movlImm .eax (magic.setWidth 32), .imull num] ++
    (if 0 < imm.toInt ∧ magic.toInt < 0 then [.addl .edx num]
      else if imm.toInt < 0 ∧ 0 < magic.toInt then [.subl .edx num]
      else []) ++
    (if shift ≠ 0 then [.sarl .edx shift.toNat] else []) ++
    [.movl .eax .edx, .shrl .edx 31, .addl .edx .eax] ++
    if isDiv then [.movl .eax .edx]
    else [.movl .eax num, .imullImm .edx imm, .subl .eax .edx, .movl .edx .eax]

/-! ## The parts of the sequence -/

section Parts

variable (regs : Register → BitVec 32) {num : Register} (numEax : num ≠ .eax) (numEdx : num ≠ .edx)
include numEdx

include numEax in
/-- Saving the dividend and multiplying it by the magic number. -/
theorem run_product (magic : BitVec 32) :
    run regs [.movl num .eax, .movlImm .eax magic, .imull num] .edx = smulHigh (regs .eax) magic ∧
      run regs [.movl num .eax, .movlImm .eax magic, .imull num] num = regs .eax := by
  simp [exec, numEax, numEdx, smulHigh_comm magic]

/-- The correction adds or subtracts the saved dividend as its conditions say. -/
theorem run_correction (c1 c2 : Prop) [Decidable c1] [Decidable c2] :
    run regs (if c1 then [.addl .edx num] else if c2 then [.subl .edx num] else []) .edx =
        (if c1 then regs .edx + regs num else if c2 then regs .edx - regs num else regs .edx) ∧
      run regs (if c1 then [.addl .edx num] else if c2 then [.subl .edx num] else []) num = regs num := by
  split
  · simp [exec, numEdx]
  · split <;> simp [exec, numEdx]

/-- The shift, left out for a shift of zero, shifts `EDX` right arithmetically. -/
theorem run_shift {shift : Int} (small : shift.toNat < 32) :
    run regs (if shift ≠ 0 then [.sarl .edx shift.toNat] else []) .edx = (regs .edx).sshiftRight shift.toNat ∧
      run regs (if shift ≠ 0 then [.sarl .edx shift.toNat] else []) num = regs num := by
  split
  · simp [exec, numEdx, Nat.mod_eq_of_lt small]
  · rename_i zero
    rw [not_not] at zero
    subst zero
    simp

include numEax in
/-- Adding the sign bit of `EDX` to it, through `EAX`. -/
theorem run_rounding :
    run regs [.movl .eax .edx, .shrl .edx 31, .addl .edx .eax] .edx = regs .edx + regs .edx >>> 31 ∧
      run regs [.movl .eax .edx, .shrl .edx 31, .addl .edx .eax] num = regs num := by
  simp [exec, numEax, numEdx, BitVec.add_comm]

end Parts

/-! ## The whole sequence -/

/-- **Division and remainder of an `int` by a constant on x86.** For every dividend
in `EAX` and every constant `imm` with `|imm| ≥ 2`, the instructions
`GenerateDivRemWithAnyConstant` emits leave in `EAX` what `HDiv::ComputeIntegral`
computes, or in `EDX` what `HRem::ComputeIntegral` computes. The register `num` that
saves the dividend is neither `EAX` nor `EDX`. -/
theorem generateDivRemWithAnyConstant_correct (isDiv : Bool) (regs : Register → BitVec 32) {num : Register}
    (numEax : num ≠ .eax) (numEdx : num ≠ .edx) (imm : BitVec 32) (two_le : 2 ≤ imm.toInt.natAbs) :
    run regs (generateDivRemWithAnyConstant isDiv num imm) (if isDiv then .eax else .edx) =
      if isDiv then HDiv.computeIntegral (regs .eax) imm else HRem.computeIntegral (regs .eax) imm := by
  have lower : -2 ^ (bitWidth false - 1) ≤ imm.toInt := BitVec.le_toInt imm
  have upper : imm.toInt < 2 ^ (bitWidth false - 1) := BitVec.toInt_lt
  obtain ⟨m, k, result, multiplier⟩ := calculateMagicAndShiftForDivRem_spec lower upper two_le
  change MagicMultiplier 32 imm.toInt m k at multiplier
  have notMinusOne : imm ≠ -1 := by
    rintro rfl
    revert two_le
    decide
  set n := regs .eax
  set mw : BitVec 32 := BitVec.ofInt 32 m
  replace result : calculateMagicAndShiftForDivRem (imm.signExtend 64) false = (mw.signExtend 64, (k : Int)) :=
    result
  have magicWord : (mw.signExtend 64).setWidth 32 = mw := setWidth_signExtend_of_le (by decide) mw
  simp only [generateDivRemWithAnyConstant, result, magicWord, run_append]
  -- the high word of the product in `EDX`, the dividend saved in `num`
  obtain ⟨t1, n1⟩ := run_product regs numEax numEdx mw
  set s1 := run regs [.movl num .eax, .movlImm .eax mw, .imull num]
  -- the correction, with the conditions of the code read as signs of `m`
  obtain ⟨t2, n2⟩ := run_correction s1 numEdx (0 < imm.toInt ∧ (mw.signExtend 64).toInt < 0)
    (imm.toInt < 0 ∧ 0 < (mw.signExtend 64).toInt)
  set s2 := run s1 (if 0 < imm.toInt ∧ (mw.signExtend 64).toInt < 0 then [.addl .edx num]
    else if imm.toInt < 0 ∧ 0 < (mw.signExtend 64).toInt then [.subl .edx num] else [])
  rw [BitVec.toInt_signExtend_of_le (by decide), t1, n1] at t2
  simp only [← multiplier.pos_iff, ← multiplier.neg_iff] at t2
  -- the shift
  have small : (k : Int).toNat < 32 := by
    rw [Int.toNat_natCast]
    exact multiplier.shift_lt
  obtain ⟨t3, n3⟩ := run_shift s2 numEdx small
  set s3 := run s2 (if (k : Int) ≠ 0 then [.sarl .edx (k : Int).toNat] else [])
  rw [Int.toNat_natCast] at t3
  -- the sign bit added
  obtain ⟨t4, n4⟩ := run_rounding s3 numEax numEdx
  set s4 := run s3 [.movl .eax .edx, .shrl .edx 31, .addl .edx .eax]
  have high := toInt_smulHigh_corrected (by decide) n mw rfl multiplier.lower multiplier.upper
  rw [← t2] at high
  have quotient : s4 .edx = n.sdiv imm := by
    rw [t4, t3, ← sdiv_of_magicMultiplier multiplier n high]
    exact add_ushiftRight_sign (by decide) _
  have saved : s4 num = n := by rw [n4, n3, n2, n1]
  cases isDiv
  · -- the remainder: `EDX = num - EDX * imm`, through `EAX`
    simp only [Bool.false_eq_true, if_false, HRem.computeIntegral, if_neg notMinusOne]
    rw [← sub_sdiv_mul, ← quotient, ← saved]
    simp [exec]
  · simp only [if_true, HDiv.computeIntegral, if_neg notMinusOne]
    rw [← quotient]
    simp [exec]

/-! ## Division by one, minus one and powers of two -/

/-- `DivRemOneOrMinusOne`: `out = input / imm` (`isDiv`) or `out = input % imm` for
`imm` one or minus one. -/
def divRemOneOrMinusOne (isDiv : Bool) (out input : Register) (imm : BitVec 32) : List Op :=
  if !isDiv then [.xorl out out]
  else [.plain (.movl out input)] ++ if imm = -1 then [.negl out] else []

/-- `DivByPowerOfTwo`: `out = input / imm` for `|imm|` a power of two, with the
temporary `num`. -/
def divByPowerOfTwo (out input num : Register) (imm : BitVec 32) : List Op :=
  let absImm := absOrMin imm
  [.leal num input (absImm - 1), .testl input input, .cmovl .greaterEqual num input,
    .plain (.sarl num (ctz imm))] ++ (if imm.toInt < 0 then [.negl num] else []) ++ [.plain (.movl out num)]

/-- Dividing by `-8`: the bias is `7`, the shift `3`, and the quotient is negated. -/
example : divByPowerOfTwo .eax .ecx .edx (-8) =
    [.leal .edx .ecx 7, .testl .ecx .ecx, .cmovl .greaterEqual .edx .ecx, .plain (.sarl .edx 3), .negl .edx,
      .plain (.movl .eax .edx)] := by
  decide

section PowerOfTwo

variable (m : State) {input num : Register}

/-- The first four instructions: `num` receives the input, biased by the
displacement when it is negative, shifted right arithmetically. -/
theorem regs_run_bias (numInput : num ≠ input) (bias : BitVec 32) (amount : Nat) :
    (m.run [.leal num input bias, .testl input input, .cmovl .greaterEqual num input,
        .plain (.sarl num amount)]).regs num =
      (if (m.regs input).toInt < 0 then m.regs input + bias else m.regs input).sshiftRight (amount % 32) := by
  simp only [State.run_cons, State.run_nil, State.regs_exec_plain, State.regs_exec_cmovl, State.flags_exec_testl,
    State.regs_exec_testl, State.regs_exec_leal, holds_greaterEqual_ofAnd, X86.exec, Function.update_self,
    Function.update_of_ne numInput.symm, decide_eq_true_eq, ← Int.not_lt, ite_not]

end PowerOfTwo

/-- **Division of an `int` by a power of two on x86.** For every constant `imm` with
`|imm| = 2 ^ k`, the most negative value included, the instructions
`DivByPowerOfTwo` emits leave in `out` what `HDiv::ComputeIntegral` computes. The
temporary `num` is not the input register. -/
theorem divByPowerOfTwo_correct (m : State) {out input num : Register} (numInput : num ≠ input)
    (imm : BitVec 32) {k : Nat} (power : imm.toInt.natAbs = 2 ^ k) :
    (m.run (divByPowerOfTwo out input num imm)).regs out = HDiv.computeIntegral (m.regs input) imm := by
  have below := lt_of_natAbs_eq_two_pow power
  have one : 1 ≤ 2 ^ k := Nat.one_le_two_pow
  have quotient := regs_run_bias m numInput (BitVec.ofNat 32 (2 ^ k - 1)) k
  rw [Nat.mod_eq_of_lt below] at quotient
  simp only [divByPowerOfTwo, State.run_append, absOrMin_sub_one power, ctz_of_natAbs power]
  split
  · rename_i negative
    -- `NEG num` negates the quotient of `2 ^ k`
    rw [HDiv.computeIntegral_neg_two_pow (toInt_eq_neg_two_pow_of_not_pos power (by omega)), ← quotient]
    simp [X86.exec]
  · rename_i notNegative
    rw [HDiv.computeIntegral_two_pow (toInt_eq_two_pow_of_pos power (by omega)), ← quotient]
    simp [X86.exec]

/-- **Division and remainder of an `int` by one and minus one on x86.** The
instructions `DivRemOneOrMinusOne` emits leave in `out` what `HDiv::ComputeIntegral`
or `HRem::ComputeIntegral` computes. -/
theorem divRemOneOrMinusOne_correct (isDiv : Bool) (m : State) (out input : Register) (imm : BitVec 32)
    (unit : imm = 1 ∨ imm = -1) :
    (m.run (divRemOneOrMinusOne isDiv out input imm)).regs out =
      if isDiv then HDiv.computeIntegral (m.regs input) imm else HRem.computeIntegral (m.regs input) imm := by
  cases isDiv
  · -- `XOR out, out`
    rcases unit with rfl | rfl
    · simp [divRemOneOrMinusOne, HRem.computeIntegral_eq_srem]
    · simp [divRemOneOrMinusOne, HRem.computeIntegral]
  · rcases unit with rfl | rfl
    · -- `MOV out, input`
      simp [divRemOneOrMinusOne, HDiv.computeIntegral, X86.exec]
    · -- `MOV out, input` and `NEG out`
      simp [divRemOneOrMinusOne, HDiv.computeIntegral, X86.exec]

end CodeGeneratorX86

end Art.Compiler.Optimizing
