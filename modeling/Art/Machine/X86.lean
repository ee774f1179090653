import Art.Machine.Word

/-!
# IA-32 integer instructions

The 32-bit integer instructions a code generator emits for a division by a
constant, as a transformer of the eight general registers. The one-operand `IMUL`
multiplies `EAX` by its operand as signed numbers and leaves the product in
`EDX:EAX`: the high word `smulHigh` in `EDX`, the low word in `EAX`. The
two-operand `IMUL` with an immediate keeps the low word of the product. The shift
counts of `SAR` and `SHR` are taken modulo 32, as the processor masks them. The
flags are left out: no instruction here reads them.

An instruction writes its destination only, `EAX` and `EDX` for the one-operand
`IMUL` (`exec_of_ne`).
-/

set_option autoImplicit false

namespace Art.Machine.X86

/-- The general registers. -/
inductive Register where
  | eax
  | ecx
  | edx
  | ebx
  | esp
  | ebp
  | esi
  | edi
  deriving DecidableEq, Repr

/-- An instruction. -/
inductive Instruction where
  /-- `movl dst, src` -/
  | movl (dst src : Register)
  /-- `movl dst, imm` -/
  | movlImm (dst : Register) (imm : BitVec 32)
  /-- `imull src`: `EDX:EAX = EAX * src` -/
  | imull (src : Register)
  /-- `imull dst, dst, imm` -/
  | imullImm (dst : Register) (imm : BitVec 32)
  /-- `addl dst, src` -/
  | addl (dst src : Register)
  /-- `subl dst, src` -/
  | subl (dst src : Register)
  /-- `sarl dst, amount` -/
  | sarl (dst : Register) (amount : Nat)
  /-- `shrl dst, amount` -/
  | shrl (dst : Register) (amount : Nat)
  deriving DecidableEq, Repr

/-- Whether an instruction writes a register. -/
def Instruction.writes : Instruction → Register → Prop
  | .imull _, r => r = .eax ∨ r = .edx
  | .movl dst _, r | .movlImm dst _, r | .imullImm dst _, r | .addl dst _, r | .subl dst _, r
  | .sarl dst _, r | .shrl dst _, r => r = dst

/-- Executing one instruction. -/
def exec (regs : Register → BitVec 32) : Instruction → Register → BitVec 32
  | .movl dst src => Function.update regs dst (regs src)
  | .movlImm dst imm => Function.update regs dst imm
  | .imull src =>
      Function.update (Function.update regs .eax (regs .eax * regs src)) .edx (smulHigh (regs .eax) (regs src))
  | .imullImm dst imm => Function.update regs dst (regs dst * imm)
  | .addl dst src => Function.update regs dst (regs dst + regs src)
  | .subl dst src => Function.update regs dst (regs dst - regs src)
  | .sarl dst amount => Function.update regs dst ((regs dst).sshiftRight (amount % 32))
  | .shrl dst amount => Function.update regs dst (regs dst >>> (amount % 32))

/-- Executing a sequence of instructions. -/
def run (regs : Register → BitVec 32) (program : List Instruction) : Register → BitVec 32 :=
  program.foldl exec regs

@[simp] theorem run_nil (regs : Register → BitVec 32) : run regs [] = regs := rfl

@[simp] theorem run_cons (regs : Register → BitVec 32) (instruction : Instruction)
    (rest : List Instruction) : run regs (instruction :: rest) = run (exec regs instruction) rest := rfl

theorem run_append (regs : Register → BitVec 32) (first second : List Instruction) :
    run regs (first ++ second) = run (run regs first) second :=
  List.foldl_append

/-- An instruction writes the registers it names as destinations only. -/
theorem exec_of_ne (regs : Register → BitVec 32) {r : Register} (instruction : Instruction)
    (other : ¬instruction.writes r) : exec regs instruction r = regs r := by
  cases instruction <;> simp only [Instruction.writes, not_or] at other <;>
    simp [exec, Function.update_of_ne, other]

end Art.Machine.X86
