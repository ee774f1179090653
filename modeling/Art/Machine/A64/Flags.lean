import Art.Machine.A64

/-!
# A64 instructions with the condition flags

The instructions of `Art.Machine.A64` compute on the register file alone. A
comparison writes the condition flags `NZCV` instead, and a conditional select
reads them; the macro assembler also takes immediates for `ADD` and `AND`, moves a
register, and negates a shifted register (`NEG`, a `SUB` from the zero register).
Here the state of the processor is the register file with the flags (`State`),
and an `Op` is an instruction of the register file, which leaves the flags alone,
or one of these.

`CMP` against `#0` leaves the flags from which `lt` reads the sign of the register
(`holds_lt_ofSub_zero`); every other `Op` writes its destination register only
(`exec_of_ne`), and the `read_exec_*` lemmas read back what it writes there.
-/

set_option autoImplicit false

namespace Art.Machine.A64

/-- The condition flags `NZCV`. -/
structure Flags where
  n : Bool
  z : Bool
  c : Bool
  v : Bool
  deriving DecidableEq, Repr

/-- The flags of `SUBS` (and `CMP`) of `b` from `a`: the sign and the zero test of
the difference, no borrow, and signed overflow. -/
def Flags.ofSub {w : Nat} (a b : BitVec w) : Flags where
  n := (a - b).msb
  z := a - b == 0
  c := decide (b.toNat ≤ a.toNat)
  v := a.ssubOverflow b

/-- The conditions of the signed comparisons. -/
inductive Condition where
  | eq
  | ne
  | lt
  | ge
  | gt
  | le
  deriving DecidableEq, Repr

/-- Whether a condition holds of the flags. -/
def Condition.holds (flags : Flags) : Condition → Bool
  | .eq => flags.z
  | .ne => !flags.z
  | .lt => flags.n != flags.v
  | .ge => flags.n == flags.v
  | .gt => !flags.z && flags.n == flags.v
  | .le => flags.z || flags.n != flags.v

/-- After `CMP rn, #0`, `lt` holds when `rn` is negative. -/
theorem holds_lt_ofSub_zero {w : Nat} (a : BitVec w) : Condition.lt.holds (Flags.ofSub a 0) = decide (a.toInt < 0) := by
  have noOverflow : a.ssubOverflow 0#w = false := by
    have lower := BitVec.le_toInt a
    have upper := BitVec.toInt_lt (x := a)
    simp only [BitVec.ssubOverflow, BitVec.toInt_zero, Int.sub_zero, Bool.or_eq_false_iff,
      decide_eq_false_iff_not]
    omega
  simp only [Condition.holds, Flags.ofSub, BitVec.ofNat_eq_ofNat, BitVec.sub_zero, noOverflow, Bool.bne_false,
    BitVec.msb_eq_toInt]

/-- The state of the processor: the register file and the flags. -/
structure State where
  regs : Nat → BitVec 64
  nzcv : Flags

/-- An instruction that may read or write the flags. -/
inductive Op where
  /-- an instruction of the register file -/
  | plain (instruction : Instruction)
  /-- `ADD rd, rn, #imm` -/
  | addImm (sf : Bool) (rd rn : Nat) (imm : BitVec 64)
  /-- `AND rd, rn, #imm` -/
  | andImm (sf : Bool) (rd rn : Nat) (imm : BitVec 64)
  /-- `MOV rd, rn` -/
  | movReg (sf : Bool) (rd rn : Nat)
  /-- `NEG rd, rm, shift #amount` -/
  | neg (sf : Bool) (rd rm : Nat) (shift : Shift) (amount : Nat)
  /-- `CMP rn, #imm` -/
  | cmpImm (sf : Bool) (rn : Nat) (imm : BitVec 64)
  /-- `CSEL rd, rn, rm, cond` -/
  | csel (sf : Bool) (rd rn rm : Nat) (cond : Condition)
  deriving DecidableEq, Repr

/-- The register an `Op` writes, if any. -/
def Op.destination : Op → Option Nat
  | .plain instruction => some instruction.destination
  | .addImm _ rd _ _ | .andImm _ rd _ _ | .movReg _ rd _ | .neg _ rd _ _ _ | .csel _ rd _ _ _ => some rd
  | .cmpImm .. => none

namespace State

/-- Executing one `Op`. -/
def exec (m : State) : Op → State
  | .plain instruction => { m with regs := A64.exec m.regs instruction }
  | .addImm sf rd rn imm => { m with regs := write sf m.regs rd (read sf m.regs rn + imm.setWidth (width sf)) }
  | .andImm sf rd rn imm => { m with regs := write sf m.regs rd (read sf m.regs rn &&& imm.setWidth (width sf)) }
  | .movReg sf rd rn => { m with regs := write sf m.regs rd (read sf m.regs rn) }
  | .neg sf rd rm shift amount => { m with regs := write sf m.regs rd (-shift.apply (read sf m.regs rm) amount) }
  | .cmpImm sf rn imm => { m with nzcv := Flags.ofSub (read sf m.regs rn) (imm.setWidth (width sf)) }
  | .csel sf rd rn rm cond =>
      { m with regs := write sf m.regs rd (if cond.holds m.nzcv then read sf m.regs rn else read sf m.regs rm) }

/-- Executing a sequence of `Op`s. -/
def run (m : State) (program : List Op) : State :=
  program.foldl exec m

@[simp] theorem run_nil (m : State) : m.run [] = m := rfl

@[simp] theorem run_cons (m : State) (op : Op) (rest : List Op) : m.run (op :: rest) = (m.exec op).run rest :=
  rfl

theorem run_append (m : State) (first second : List Op) : m.run (first ++ second) = (m.run first).run second :=
  List.foldl_append

variable (m : State)

/-- An `Op` writes its destination only. -/
theorem exec_of_ne {r : Nat} (op : Op) (other : op.destination ≠ some r) : (m.exec op).regs r = m.regs r := by
  cases op with
  | plain instruction =>
      exact A64.exec_of_ne m.regs instruction (fun same => other (by rw [same]; rfl))
  | cmpImm => rfl
  | addImm _ rd | andImm _ rd | movReg _ rd | neg _ rd | csel _ rd =>
      exact write_of_ne m.regs _ (fun same => other (by rw [same]; rfl))

theorem read_exec_of_ne (sf : Bool) {r : Nat} (op : Op) (other : op.destination ≠ some r) :
    read sf (m.exec op).regs r = read sf m.regs r := by
  rw [read, exec_of_ne m op other, read]

@[simp] theorem nzcv_exec_plain (instruction : Instruction) : (m.exec (.plain instruction)).nzcv = m.nzcv := rfl

@[simp] theorem nzcv_exec_cmpImm (sf : Bool) (rn : Nat) (imm : BitVec 64) :
    (m.exec (.cmpImm sf rn imm)).nzcv = Flags.ofSub (read sf m.regs rn) (imm.setWidth (width sf)) := rfl

@[simp] theorem regs_exec_cmpImm (sf : Bool) (rn : Nat) (imm : BitVec 64) :
    (m.exec (.cmpImm sf rn imm)).regs = m.regs := rfl

@[simp] theorem regs_exec_plain (instruction : Instruction) :
    (m.exec (.plain instruction)).regs = A64.exec m.regs instruction := rfl

@[simp] theorem read_exec_addImm (sf : Bool) (rd rn : Nat) (imm : BitVec 64) :
    read sf (m.exec (.addImm sf rd rn imm)).regs rd = read sf m.regs rn + imm.setWidth (width sf) :=
  read_write_self m.regs sf rd _

@[simp] theorem read_exec_andImm (sf : Bool) (rd rn : Nat) (imm : BitVec 64) :
    read sf (m.exec (.andImm sf rd rn imm)).regs rd = read sf m.regs rn &&& imm.setWidth (width sf) :=
  read_write_self m.regs sf rd _

@[simp] theorem read_exec_movReg (sf : Bool) (rd rn : Nat) :
    read sf (m.exec (.movReg sf rd rn)).regs rd = read sf m.regs rn :=
  read_write_self m.regs sf rd _

@[simp] theorem read_exec_neg (sf : Bool) (rd rm : Nat) (shift : Shift) (amount : Nat) :
    read sf (m.exec (.neg sf rd rm shift amount)).regs rd = -shift.apply (read sf m.regs rm) amount :=
  read_write_self m.regs sf rd _

@[simp] theorem read_exec_csel (sf : Bool) (rd rn rm : Nat) (cond : Condition) :
    read sf (m.exec (.csel sf rd rn rm cond)).regs rd =
      if cond.holds m.nzcv then read sf m.regs rn else read sf m.regs rm :=
  read_write_self m.regs sf rd _

end State

end Art.Machine.A64
