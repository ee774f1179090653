import Art.Machine.Word

/-!
# A64 integer instructions

The integer data-processing instructions of A64 that compute on general registers,
as a transformer of the register file. Every instruction has a 64-bit form on the
`X` registers and, with `sf` clear, a 32-bit form on their low halves, the `W`
registers; writing a `W` register clears the upper half of its `X` register
(`write`). `MOV` of an immediate stands for the `MOVZ`/`MOVN`/`MOVK` sequence a
macro assembler materializes it with. `SMULH` keeps bits 127..64 of the signed
product of two `X` registers, `SMULL` the whole signed product of two `W`
registers in an `X` register, and `MSUB` subtracts a product from a third
register.

An instruction writes its destination only (`exec_of_ne`), and what it writes there
is read back by the `read_exec_*` lemmas; the high word of a 32-bit product, taken
with `SMULL` and a shift right by 32 of the `X` register, is `smulHigh` of the two
`W` registers (`read_exec_lsr_smull`).
-/

set_option autoImplicit false

namespace Art.Machine.A64

/-- The width of the registers of an instruction: `X` registers with `sf` set, `W`
registers otherwise. -/
def width : Bool → Nat
  | true => 64
  | false => 32

theorem width_pos (sf : Bool) : 0 < width sf := by cases sf <;> decide

theorem width_le (sf : Bool) : width sf ≤ 64 := by cases sf <;> decide

/-- The shifts of the second operand of `ADD` and `SUB` (shifted register). -/
inductive Shift where
  | lsl
  | lsr
  | asr
  deriving DecidableEq, Repr

/-- Shifting an operand. -/
def Shift.apply {w : Nat} : Shift → BitVec w → Nat → BitVec w
  | .lsl, value, amount => value <<< amount
  | .lsr, value, amount => value >>> amount
  | .asr, value, amount => value.sshiftRight amount

/-- An instruction, on register numbers. -/
inductive Instruction where
  /-- `MOV rd, #imm` -/
  | mov (sf : Bool) (rd : Nat) (imm : BitVec 64)
  /-- `ADD rd, rn, rm, shift #amount` -/
  | add (sf : Bool) (rd rn rm : Nat) (shift : Shift) (amount : Nat)
  /-- `SUB rd, rn, rm, shift #amount` -/
  | sub (sf : Bool) (rd rn rm : Nat) (shift : Shift) (amount : Nat)
  /-- `LSR rd, rn, #amount` -/
  | lsr (sf : Bool) (rd rn : Nat) (amount : Nat)
  /-- `ASR rd, rn, #amount` -/
  | asr (sf : Bool) (rd rn : Nat) (amount : Nat)
  /-- `SMULH Xd, Xn, Xm` -/
  | smulh (rd rn rm : Nat)
  /-- `SMULL Xd, Wn, Wm` -/
  | smull (rd rn rm : Nat)
  /-- `MSUB rd, rn, rm, ra` -/
  | msub (sf : Bool) (rd rn rm ra : Nat)
  deriving DecidableEq, Repr

/-- The register an instruction writes. -/
def Instruction.destination : Instruction → Nat
  | .mov _ rd _ | .add _ rd _ _ _ _ | .sub _ rd _ _ _ _ | .lsr _ rd _ _ | .asr _ rd _ _
  | .smulh rd _ _ | .smull rd _ _ | .msub _ rd _ _ _ => rd

/-- Reading a register at the width of an instruction. -/
def read (sf : Bool) (regs : Nat → BitVec 64) (r : Nat) : BitVec (width sf) :=
  (regs r).setWidth (width sf)

/-- Writing a register at the width of an instruction: a `W` register clears the
upper half of its `X` register. -/
def write (sf : Bool) (regs : Nat → BitVec 64) (rd : Nat) (value : BitVec (width sf)) :
    Nat → BitVec 64 :=
  Function.update regs rd (value.setWidth 64)

/-- Executing one instruction. -/
def exec (regs : Nat → BitVec 64) : Instruction → Nat → BitVec 64
  | .mov sf rd imm => write sf regs rd (imm.setWidth (width sf))
  | .add sf rd rn rm shift amount =>
      write sf regs rd (read sf regs rn + shift.apply (read sf regs rm) amount)
  | .sub sf rd rn rm shift amount =>
      write sf regs rd (read sf regs rn - shift.apply (read sf regs rm) amount)
  | .lsr sf rd rn amount => write sf regs rd (read sf regs rn >>> amount)
  | .asr sf rd rn amount => write sf regs rd ((read sf regs rn).sshiftRight amount)
  | .smulh rd rn rm => write true regs rd (smulHigh (read true regs rn) (read true regs rm))
  | .smull rd rn rm =>
      write true regs rd (BitVec.ofInt 64 ((read false regs rn).toInt * (read false regs rm).toInt))
  | .msub sf rd rn rm ra => write sf regs rd (read sf regs ra - read sf regs rn * read sf regs rm)

/-- Executing a sequence of instructions. -/
def run (regs : Nat → BitVec 64) (program : List Instruction) : Nat → BitVec 64 :=
  program.foldl exec regs

@[simp] theorem run_nil (regs : Nat → BitVec 64) : run regs [] = regs := rfl

@[simp] theorem run_cons (regs : Nat → BitVec 64) (instruction : Instruction) (rest : List Instruction) :
    run regs (instruction :: rest) = run (exec regs instruction) rest := rfl

theorem run_append (regs : Nat → BitVec 64) (first second : List Instruction) :
    run regs (first ++ second) = run (run regs first) second :=
  List.foldl_append

/-! ## Reading back -/

section ReadBack

variable (regs : Nat → BitVec 64)

@[simp] theorem read_write_self (sf : Bool) (rd : Nat) (value : BitVec (width sf)) :
    read sf (write sf regs rd value) rd = value := by
  rw [read, write, Function.update_self]
  cases sf
  · exact (BitVec.setWidth_setWidth_of_le value (by decide : 32 ≤ 64)).trans (BitVec.setWidth_eq value)
  · exact BitVec.setWidth_eq value

theorem write_of_ne {sf : Bool} {rd r : Nat} (value : BitVec (width sf)) (other : r ≠ rd) :
    write sf regs rd value r = regs r :=
  Function.update_of_ne other _ _

/-- An instruction writes its destination only. -/
theorem exec_of_ne {r : Nat} (instruction : Instruction) (other : r ≠ instruction.destination) :
    exec regs instruction r = regs r := by
  cases instruction <;> exact write_of_ne regs _ other

theorem read_congr {sf : Bool} {other : Nat → BitVec 64} {r : Nat} (same : other r = regs r) :
    read sf other r = read sf regs r := by
  rw [read, same, read]

theorem read_exec_of_ne (sf : Bool) {r : Nat} (instruction : Instruction)
    (other : r ≠ instruction.destination) :
    read sf (exec regs instruction) r = read sf regs r := by
  rw [read, exec_of_ne regs instruction other, read]

@[simp] theorem read_exec_mov (sf : Bool) (rd : Nat) (imm : BitVec 64) :
    read sf (exec regs (.mov sf rd imm)) rd = imm.setWidth (width sf) :=
  read_write_self regs sf rd _

@[simp] theorem read_exec_add (sf : Bool) (rd rn rm : Nat) (shift : Shift) (amount : Nat) :
    read sf (exec regs (.add sf rd rn rm shift amount)) rd =
      read sf regs rn + shift.apply (read sf regs rm) amount :=
  read_write_self regs sf rd _

@[simp] theorem read_exec_sub (sf : Bool) (rd rn rm : Nat) (shift : Shift) (amount : Nat) :
    read sf (exec regs (.sub sf rd rn rm shift amount)) rd =
      read sf regs rn - shift.apply (read sf regs rm) amount :=
  read_write_self regs sf rd _

@[simp] theorem read_exec_lsr (sf : Bool) (rd rn amount : Nat) :
    read sf (exec regs (.lsr sf rd rn amount)) rd = read sf regs rn >>> amount :=
  read_write_self regs sf rd _

@[simp] theorem read_exec_asr (sf : Bool) (rd rn amount : Nat) :
    read sf (exec regs (.asr sf rd rn amount)) rd = (read sf regs rn).sshiftRight amount :=
  read_write_self regs sf rd _

@[simp] theorem read_exec_smulh (rd rn rm : Nat) :
    read true (exec regs (.smulh rd rn rm)) rd = smulHigh (read true regs rn) (read true regs rm) :=
  read_write_self regs true rd _

@[simp] theorem read_exec_msub (sf : Bool) (rd rn rm ra : Nat) :
    read sf (exec regs (.msub sf rd rn rm ra)) rd = read sf regs ra - read sf regs rn * read sf regs rm :=
  read_write_self regs sf rd _

/-- Bits 63..32 of a number taken modulo `2 ^ 64` are its floor over `2 ^ 32`,
modulo `2 ^ 32`. -/
theorem setWidth_ushiftRight_ofInt (z : Int) :
    (BitVec.ofInt 64 z >>> 32).setWidth 32 = BitVec.ofInt 32 (z / 2 ^ 32) := by
  apply BitVec.eq_of_toNat_eq
  simp only [BitVec.toNat_setWidth, BitVec.toNat_ushiftRight, BitVec.toNat_ofInt,
    Nat.shiftRight_eq_div_pow]
  omega

/-- The high word of a 32-bit product: `SMULL` into the `X` register, then a shift
right of it by 32, leaves `smulHigh` of the two `W` registers in the `W` register. -/
theorem read_exec_lsr_smull (rd rn rm : Nat) :
    read false (exec (exec regs (.smull rd rn rm)) (.lsr true rd rd 32)) rd =
      smulHigh (read false regs rn) (read false regs rm) := by
  simp only [exec, write, read, Function.update_self]
  exact setWidth_ushiftRight_ofInt _

end ReadBack

end Art.Machine.A64
