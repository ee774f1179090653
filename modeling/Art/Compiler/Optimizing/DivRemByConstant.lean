import Art.Compiler.Optimizing.CodeGeneratorArm64.DivRem
import Art.Compiler.Optimizing.CodeGeneratorX86

/-!
# Division by a constant in the code generators

The ARM64 and x86 code generators divide by a constant `d` with `|d| ≥ 2` through
the magic number and shift of `CalculateMagicAndShiftForDivRem`, powers of two and
the most negative value included. Its do-while loop exits after at most `W - 1`
runs of its body, with a shift in `[0, W)`, and the sequences both back ends emit
compute Java's `n / d` and `n % d`: off a divisor `-1` these are the integer
quotient rounded to zero and its remainder, which no word overflows
(`divRemByConstant_java`). Every intermediate of the sequences is a word of the
width of the type, computed modulo `2 ^ W`.

A constant one or minus one, and a constant `±2 ^ k`, the most negative value
included, the back ends divide by without a magic number; those sequences compute
Java's `n / d`, and on ARM64 `n % d`, as well (`divRemByPowerOfTwo_java`).
-/

set_option autoImplicit false

namespace Art.Compiler.Optimizing

open Art.Machine

/-- What `HDiv::ComputeIntegral` and `HRem::ComputeIntegral` compute for `|y| ≥ 2`,
as integers. -/
theorem toInt_divRem_computeIntegral {w : Nat} (isDiv : Bool) (x y : BitVec w) (two_le : 2 ≤ y.toInt.natAbs) :
    (if isDiv then HDiv.computeIntegral x y else HRem.computeIntegral x y).toInt =
      if isDiv then x.toInt.tdiv y.toInt else x.toInt.tmod y.toInt := by
  cases isDiv
  · exact HRem.toInt_computeIntegral x y
  · exact HDiv.toInt_computeIntegral x y two_le

/-- **Division and remainder by a constant.** For an `int` or a `long` divisor `d`
with `|d| ≥ 2`, the search for the magic number exits after at most `W - 1` runs
of its body with a shift `0 ≤ shift < W`; and for every dividend, the sequence
ARM64 emits for an `int` or a `long`, and the one x86 emits for an `int`, leave in
the output register the dividend divided by `d` rounded to zero, or the remainder
of that division. -/
theorem divRemByConstant_java :
    (∀ (isLong : Bool) (d : Int), -2 ^ (bitWidth isLong - 1) ≤ d → d < 2 ^ (bitWidth isLong - 1) →
      2 ≤ d.natAbs →
      (let body := MagicSearch.step (magicAbsNc (BitVec.ofInt 64 d) isLong) (magicAbsD (BitVec.ofInt 64 d))
        let start := MagicSearch.start (BitVec.ofInt 64 d) isLong
        ∃ runs, 0 < runs ∧ runs ≤ bitWidth isLong - 1 ∧
          MagicSearch.condition (magicAbsD (BitVec.ofInt 64 d)) (body^[runs] start) = false ∧
          (∀ j, 0 < j → j < runs →
            MagicSearch.condition (magicAbsD (BitVec.ofInt 64 d)) (body^[j] start) = true) ∧
          MagicSearch.run (BitVec.ofInt 64 d) isLong = body^[runs] start) ∧
      0 ≤ (calculateMagicAndShiftForDivRem (BitVec.ofInt 64 d) isLong).2 ∧
      (calculateMagicAndShiftForDivRem (BitVec.ofInt 64 d) isLong).2 < bitWidth isLong) ∧
    (∀ (isDiv isLong : Bool) (regs : Nat → BitVec 64) (out dividend temp tempImm : Nat),
      temp ≠ dividend → tempImm ≠ dividend → tempImm ≠ temp →
      ∀ d : BitVec (A64.width isLong), 2 ≤ d.toInt.natAbs →
      (A64.read isLong (A64.run regs (CodeGeneratorArm64.generateDivRemWithAnyConstant isDiv
          (if isLong then .primLong else .primInt) out dividend temp tempImm (d.signExtend 64))) out).toInt =
        if isDiv then (A64.read isLong regs dividend).toInt.tdiv d.toInt
        else (A64.read isLong regs dividend).toInt.tmod d.toInt) ∧
    (∀ (isDiv : Bool) (regs : X86.Register → BitVec 32) (num : X86.Register), num ≠ .eax → num ≠ .edx →
      ∀ imm : BitVec 32, 2 ≤ imm.toInt.natAbs →
      (X86.run regs (CodeGeneratorX86.generateDivRemWithAnyConstant isDiv num imm)
          (if isDiv then .eax else .edx)).toInt =
        if isDiv then (regs .eax).toInt.tdiv imm.toInt else (regs .eax).toInt.tmod imm.toInt) := by
  refine ⟨?search, ?arm64, ?x86⟩
  case search =>
    intro isLong d lower upper two_le
    refine ⟨magicSearch_exits lower upper two_le, ?_⟩
    obtain ⟨m, k, result, multiplier⟩ := calculateMagicAndShiftForDivRem_spec lower upper two_le
    rw [result]
    exact ⟨Int.natCast_nonneg k, Int.ofNat_lt.2 multiplier.shift_lt⟩
  case arm64 =>
    intro isDiv isLong regs out dividend temp tempImm tempDividend immDividend immTemp d two_le
    rw [CodeGeneratorArm64.generateDivRemWithAnyConstant_correct isDiv isLong regs tempDividend immDividend
      immTemp d two_le]
    exact toInt_divRem_computeIntegral isDiv _ d two_le
  case x86 =>
    intro isDiv regs num numEax numEdx imm two_le
    rw [CodeGeneratorX86.generateDivRemWithAnyConstant_correct isDiv regs numEax numEdx imm two_le]
    exact toInt_divRem_computeIntegral isDiv _ imm two_le

/-- `-100` divided by `7` as an `int` on ARM64 and on x86, and its remainder by
`-10` as a `long` on ARM64; the shift the search gives for `7` is an `int` shift. -/
theorem divRemByConstant_minusHundred :
    (calculateMagicAndShiftForDivRem (BitVec.ofInt 64 7) false).2 < bitWidth false ∧
    (A64.read false (A64.run (fun _ => -100) (CodeGeneratorArm64.generateDivRemWithAnyConstant true .primInt
        0 1 2 3 ((7 : BitVec 32).signExtend 64))) 0).toInt =
      (A64.read false (fun _ => -100) 1).toInt.tdiv (7 : BitVec 32).toInt ∧
    (A64.read true (A64.run (fun _ => -100) (CodeGeneratorArm64.generateDivRemWithAnyConstant false .primLong
        0 1 2 3 ((-10 : BitVec 64).signExtend 64))) 0).toInt =
      (A64.read true (fun _ => -100) 1).toInt.tmod (-10 : BitVec 64).toInt ∧
    (X86.run (fun _ => -100) (CodeGeneratorX86.generateDivRemWithAnyConstant true .ecx 7) .eax).toInt =
      (-100 : BitVec 32).toInt.tdiv (7 : BitVec 32).toInt :=
  ⟨(divRemByConstant_java.1 false 7 (by decide) (by decide) (by decide)).2.2,
    divRemByConstant_java.2.1 true false _ 0 1 2 3 (by decide) (by decide) (by decide) 7 (by decide),
    divRemByConstant_java.2.1 false true _ 0 1 2 3 (by decide) (by decide) (by decide) (-10) (by decide),
    divRemByConstant_java.2.2 true _ .ecx (by decide) (by decide) 7 (by decide)⟩

/-- **Division and remainder by one, minus one and powers of two.** For every
dividend and every constant `d` with `|d| = 2 ^ k`, the most negative value
included, the sequence ARM64 emits for an `int` or a `long` leaves in `out` Java's
`n / d` or `n % d`, and the one x86 emits for an `int` leaves `n / d`; for `d = ±1`
the sequences both back ends emit for one or minus one do, the quotient of the most
negative value by `-1` wrapping to itself. -/
theorem divRemByPowerOfTwo_java :
    (∀ (isDiv isLong : Bool) (m : A64.State) (out dividend temp : Nat), temp ≠ dividend → temp ≠ out →
      ∀ (d : BitVec (A64.width isLong)) (k : Nat), d.toInt.natAbs = 2 ^ k →
      A64.read isLong (m.run (CodeGeneratorArm64.divRemByPowerOfTwo isDiv (if isLong then .primLong else .primInt)
          out dividend temp (d.signExtend 64))).regs out =
        if isDiv then HDiv.computeIntegral (A64.read isLong m.regs dividend) d
        else HRem.computeIntegral (A64.read isLong m.regs dividend) d) ∧
    (∀ (isDiv isLong : Bool) (m : A64.State) (out dividend : Nat) (d : BitVec (A64.width isLong)),
      d = 1 ∨ d = -1 →
      A64.read isLong (m.run (CodeGeneratorArm64.divRemOneOrMinusOne isDiv (if isLong then .primLong else .primInt)
          out dividend (d.signExtend 64))).regs out =
        if isDiv then HDiv.computeIntegral (A64.read isLong m.regs dividend) d
        else HRem.computeIntegral (A64.read isLong m.regs dividend) d) ∧
    (∀ (m : X86.State) (out input num : X86.Register), num ≠ input →
      ∀ (imm : BitVec 32) (k : Nat), imm.toInt.natAbs = 2 ^ k →
      (m.run (CodeGeneratorX86.divByPowerOfTwo out input num imm)).regs out =
        HDiv.computeIntegral (m.regs input) imm) ∧
    (∀ (isDiv : Bool) (m : X86.State) (out input : X86.Register) (imm : BitVec 32), imm = 1 ∨ imm = -1 →
      (m.run (CodeGeneratorX86.divRemOneOrMinusOne isDiv out input imm)).regs out =
        if isDiv then HDiv.computeIntegral (m.regs input) imm else HRem.computeIntegral (m.regs input) imm) :=
  ⟨fun isDiv isLong m _ _ _ tempDividend tempOut d _ power =>
      CodeGeneratorArm64.divRemByPowerOfTwo_correct isDiv isLong m tempDividend tempOut d power,
    fun isDiv isLong m out dividend d unit =>
      CodeGeneratorArm64.divRemOneOrMinusOne_correct isDiv isLong m out dividend d unit,
    fun m _ _ _ numInput imm _ power => CodeGeneratorX86.divByPowerOfTwo_correct m numInput imm power,
    fun isDiv m out input imm unit => CodeGeneratorX86.divRemOneOrMinusOne_correct isDiv m out input imm unit⟩

/-- `-7` divided by `-4` on ARM64 and by `-2 ^ 31` on x86, its remainder by `8` on
ARM64, and `-7` divided by `-1` on both. -/
theorem divRemByPowerOfTwo_minusSeven :
    A64.read false ((⟨fun _ => -7, ⟨false, false, false, false⟩⟩ : A64.State).run
        (CodeGeneratorArm64.divRemByPowerOfTwo true .primInt 0 1 16 ((-4 : BitVec 32).signExtend 64))).regs 0 =
      HDiv.computeIntegral (-7) (-4) ∧
    A64.read true ((⟨fun _ => -7, ⟨false, false, false, false⟩⟩ : A64.State).run
        (CodeGeneratorArm64.divRemByPowerOfTwo false .primLong 0 1 16 ((8 : BitVec 64).signExtend 64))).regs 0 =
      HRem.computeIntegral (-7) 8 ∧
    A64.read false ((⟨fun _ => -7, ⟨false, false, false, false⟩⟩ : A64.State).run
        (CodeGeneratorArm64.divRemOneOrMinusOne true .primInt 0 1 ((-1 : BitVec 32).signExtend 64))).regs 0 =
      HDiv.computeIntegral (-7) (-1) ∧
    ((⟨fun _ => -7, ⟨false, false, false, false⟩⟩ : X86.State).run
        (CodeGeneratorX86.divByPowerOfTwo .eax .ecx .edx (BitVec.intMin 32))).regs .eax =
      HDiv.computeIntegral (-7) (BitVec.intMin 32) ∧
    ((⟨fun _ => -7, ⟨false, false, false, false⟩⟩ : X86.State).run
        (CodeGeneratorX86.divRemOneOrMinusOne true .eax .ecx (-1))).regs .eax =
      HDiv.computeIntegral (-7) (-1) :=
  ⟨divRemByPowerOfTwo_java.1 true false _ 0 1 16 (by decide) (by decide) (-4) 2 (by decide),
    divRemByPowerOfTwo_java.1 false true _ 0 1 16 (by decide) (by decide) 8 3 (by decide),
    divRemByPowerOfTwo_java.2.1 true false _ 0 1 (-1) (Or.inr rfl),
    divRemByPowerOfTwo_java.2.2.1 _ .eax .ecx .edx (by decide) (BitVec.intMin 32) 31 (by decide),
    divRemByPowerOfTwo_java.2.2.2 true _ .eax .ecx (-1) (Or.inr rfl)⟩

end Art.Compiler.Optimizing
