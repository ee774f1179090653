import Art.Machine.X86

/-!
# IA-32 instructions with the flags

The instructions of `Art.Machine.X86` compute on the registers alone. `TEST`
writes the flags, and a conditional move reads them; besides these, a code
generator uses `LEA` to add a displacement to a register, `NEG`, and `XOR` of a
register with itself to clear it. The state of the processor is the register file
with the flags (`State`), and an `Op` is an instruction of `Art.Machine.X86`, or one of these.

The flags are set here by `TEST` alone. The other instructions that write flags on
the processor (the shifts, `NEG`, `XOR`, the arithmetic) leave them as they are:
in the sequences modelled here, every flag that is read was written by a `TEST`
right before.

After `TEST r, r`, `GE` holds when `r` is not negative (`holds_greaterEqual_ofAnd`);
every `Op` but `TEST` writes its destination register only (`exec_of_ne`).
-/

set_option autoImplicit false

namespace Art.Machine.X86

/-- The flags the conditions read: sign, zero, carry and overflow. -/
structure Flags where
  sf : Bool
  zf : Bool
  cf : Bool
  of : Bool
  deriving DecidableEq, Repr

/-- The flags of `TEST a, b`: sign and zero of `a & b`, carry and overflow cleared. -/
def Flags.ofAnd (a b : BitVec 32) : Flags where
  sf := (a &&& b).msb
  zf := a &&& b == 0
  cf := false
  of := false

/-- The conditions of `art::x86::Condition` that compare signed values. -/
inductive Condition where
  | equal
  | notEqual
  | less
  | greaterEqual
  | lessEqual
  | greater
  deriving DecidableEq, Repr

/-- Whether a condition holds of the flags. -/
def Condition.holds (flags : Flags) : Condition → Bool
  | .equal => flags.zf
  | .notEqual => !flags.zf
  | .less => flags.sf != flags.of
  | .greaterEqual => flags.sf == flags.of
  | .lessEqual => flags.zf || flags.sf != flags.of
  | .greater => !flags.zf && flags.sf == flags.of

/-- After `TEST r, r`, `GE` holds when `r` is not negative. -/
theorem holds_greaterEqual_ofAnd (a : BitVec 32) :
    Condition.greaterEqual.holds (Flags.ofAnd a a) = decide (0 ≤ a.toInt) := by
  simp only [Condition.holds, Flags.ofAnd, BitVec.and_self, BitVec.msb_eq_toInt]
  by_cases negative : a.toInt < 0
  · simp [negative]
  · simp [negative, Int.not_lt.1 negative]

/-- The state of the processor: the registers and the flags. -/
structure State where
  regs : Register → BitVec 32
  flags : Flags

/-- An instruction that may read or write the flags. -/
inductive Op where
  /-- an instruction of the registers -/
  | plain (instruction : Instruction)
  /-- `leal dst, [base + displacement]` -/
  | leal (dst base : Register) (displacement : BitVec 32)
  /-- `testl a, b` -/
  | testl (a b : Register)
  /-- `cmovl cond, dst, src` -/
  | cmovl (cond : Condition) (dst src : Register)
  /-- `negl dst` -/
  | negl (dst : Register)
  /-- `xorl dst, src` -/
  | xorl (dst src : Register)
  deriving DecidableEq, Repr

/-- Whether an `Op` writes a register. -/
def Op.writes : Op → Register → Prop
  | .plain instruction, r => instruction.writes r
  | .leal dst _ _, r | .cmovl _ dst _, r | .negl dst, r | .xorl dst _, r => r = dst
  | .testl .., _ => False

namespace State

/-- Executing one `Op`. -/
def exec (m : State) : Op → State
  | .plain instruction => { m with regs := X86.exec m.regs instruction }
  | .leal dst base displacement => { m with regs := Function.update m.regs dst (m.regs base + displacement) }
  | .testl a b => { m with flags := Flags.ofAnd (m.regs a) (m.regs b) }
  | .cmovl cond dst src =>
      { m with regs := Function.update m.regs dst (if cond.holds m.flags then m.regs src else m.regs dst) }
  | .negl dst => { m with regs := Function.update m.regs dst (-m.regs dst) }
  | .xorl dst src => { m with regs := Function.update m.regs dst (m.regs dst ^^^ m.regs src) }

/-- Executing a sequence of `Op`s. -/
def run (m : State) (program : List Op) : State :=
  program.foldl exec m

@[simp] theorem run_nil (m : State) : m.run [] = m := rfl

@[simp] theorem run_cons (m : State) (op : Op) (rest : List Op) : m.run (op :: rest) = (m.exec op).run rest :=
  rfl

theorem run_append (m : State) (first second : List Op) : m.run (first ++ second) = (m.run first).run second :=
  List.foldl_append

variable (m : State)

/-- An `Op` writes the registers it names as destinations only. -/
theorem exec_of_ne {r : Register} (op : Op) (other : ¬op.writes r) : (m.exec op).regs r = m.regs r := by
  cases op with
  | plain instruction => exact X86.exec_of_ne m.regs instruction other
  | testl => rfl
  | leal dst | cmovl _ dst | negl dst | xorl dst => exact Function.update_of_ne other _ _

@[simp] theorem flags_exec_testl (a b : Register) : (m.exec (.testl a b)).flags = Flags.ofAnd (m.regs a) (m.regs b) :=
  rfl

@[simp] theorem regs_exec_testl (a b : Register) : (m.exec (.testl a b)).regs = m.regs := rfl

@[simp] theorem regs_exec_plain (instruction : Instruction) :
    (m.exec (.plain instruction)).regs = X86.exec m.regs instruction := rfl

@[simp] theorem flags_exec_plain (instruction : Instruction) : (m.exec (.plain instruction)).flags = m.flags := rfl

@[simp] theorem regs_exec_leal (dst base : Register) (displacement : BitVec 32) :
    (m.exec (.leal dst base displacement)).regs = Function.update m.regs dst (m.regs base + displacement) := rfl

@[simp] theorem regs_exec_cmovl (cond : Condition) (dst src : Register) :
    (m.exec (.cmovl cond dst src)).regs =
      Function.update m.regs dst (if cond.holds m.flags then m.regs src else m.regs dst) := rfl

@[simp] theorem regs_exec_negl (dst : Register) :
    (m.exec (.negl dst)).regs = Function.update m.regs dst (-m.regs dst) := rfl

@[simp] theorem regs_exec_xorl (dst src : Register) :
    (m.exec (.xorl dst src)).regs = Function.update m.regs dst (m.regs dst ^^^ m.regs src) := rfl

@[simp] theorem flags_exec_leal (dst base : Register) (displacement : BitVec 32) :
    (m.exec (.leal dst base displacement)).flags = m.flags := rfl

end State

end Art.Machine.X86
