import Mathlib
import Art.Compiler.Optimizing.Nodes

/-!
# The range of an induction variable

`HInductionVarAnalysis` describes the values an instruction takes in a loop by an
induction tree: an invariant (a fetched instruction, or an operation on
invariants), a linear induction `a * i + b`, a polynomial, a geometric, a
wrap-around or a periodic one, together with a trip count for the loop.
`InductionVarRange::GetInductionRange` turns such a tree into a lower and an
upper bound, each a `Value`: unknown, or `a * instruction + b` with 32-bit
constants. The bounds are computed by the mutually recursive `GetVal` family, whose
arithmetic on `Value`s refuses to overflow (`AddValue`, `SubValue`, `MulValue`,
`DivValue`, `MergeVal`); a bound is then simplified for its clients by
`SimplifyMin` and `SimplifyMax`.

`SimplifyMin` drops the instruction of a lower bound `instruction + b` with
`b ≤ 0` when `IsGEZero` says the instruction is never negative, and `IsGEZero`
says so of every call of `Math.abs`. The absolute value of the most negative
integer is itself, so a loop `for (int i = Math.abs(x); ...)` gets the lower
bound `0` while `i` starts at `Integer.MIN_VALUE` for that `x`
(`getInductionRange_of_abs_offset`).

The recursion of `GetVal` follows the tree, the trip count and, through
`GetFetch`, the induction trees of enclosing loops, and it builds new trees on
the way (`GetLinear` cancels a trip count against the offset); it carries a fuel
argument, and a run out of fuel gives an unknown bound. The induction analysis
and the loops enter only through the lookups `HasInductionInfo` makes
(`HInductionVarAnalysis`). What an induction tree means, the value of the
instruction in each iteration, is stated in `InductionInfo.valueAt`.
-/

set_option autoImplicit false

namespace Art.Compiler.Optimizing

namespace HInductionVarAnalysis

/-- `HInductionVarAnalysis::InductionClass`. -/
inductive InductionClass
  | invariant
  | linear
  | polynomial
  | geometric
  | wrapAround
  | periodic
  deriving DecidableEq, Repr

/-- `HInductionVarAnalysis::InductionOp`. -/
inductive InductionOp
  | nop
  | add
  | sub
  | neg
  | mul
  | div
  | rem
  | xor
  | fetch
  | tripCountInLoop
  | tripCountInBody
  | tripCountInLoopUnsafe
  | tripCountInBodyUnsafe
  | lt
  | le
  | gt
  | ge
  deriving DecidableEq, Repr

/-- A pointer to an `InductionInfo`, `null` standing for `nullptr`. A node holds
its class, its operation, its two operands, the fetched instruction of a fetch
(and the factor of a geometric induction) and the type of its operation. -/
inductive InductionInfo
  | null
  | node (inductionClass : InductionClass) (operation : InductionOp) (opA opB : InductionInfo)
      (fetch : Option Nat) (type : Primitive.Type)
  deriving DecidableEq, Repr

namespace InductionInfo

/-! The fields of a node. The code reads them only through pointers it knows are
not null; the null pointer reads as an invariant `nop` of type `void`. -/

/-- `induction_class`. -/
def inductionClass : InductionInfo → InductionClass
  | null => .invariant
  | node inductionClass .. => inductionClass

/-- `operation`. -/
def operation : InductionInfo → InductionOp
  | null => .nop
  | node _ operation .. => operation

/-- `op_a`. -/
def opA : InductionInfo → InductionInfo
  | null => null
  | node _ _ opA .. => opA

/-- `op_b`. -/
def opB : InductionInfo → InductionInfo
  | null => null
  | node _ _ _ opB .. => opB

/-- `fetch`. -/
def fetch : InductionInfo → Option Nat
  | null => none
  | node _ _ _ _ fetch _ => fetch

/-- `type`. -/
def type : InductionInfo → Primitive.Type
  | null => .primVoid
  | node _ _ _ _ _ type => type

/-- `CreateInvariantFetch(f)`: the invariant that fetches an instruction of a type. -/
def invariantFetch (f : Nat) (type : Primitive.Type) : InductionInfo :=
  node .invariant .fetch null null (some f) type

end InductionInfo

/-- `InductionEqual`: structural equality, two null pointers being equal. -/
def inductionEqual (info1 info2 : InductionInfo) : Bool := info1 == info2

/-! ## What an induction tree means -/

/-- The value Java gives an integer in an integral type: wrapped to the width of
the type, signed, and unsigned for a `char`. -/
def javaWrap : Primitive.Type → Int → Int
  | .primLong, v => (BitVec.ofInt 64 v).toInt
  | .primInt, v => (BitVec.ofInt 32 v).toInt
  | .primShort, v => (BitVec.ofInt 16 v).toInt
  | .primChar, v => ((BitVec.ofInt 16 v).toNat : Int)
  | .primByte, v => (BitVec.ofInt 8 v).toInt
  | _, v => v

namespace InductionInfo

variable (valueOf : Nat → Option Int)

/-- The value of an invariant tree, each operation computed as Java computes it
in the type of the operation, given the values of the fetched instructions; a
trip count is the value of its expression. A division by zero has no value. -/
def invariantValue : InductionInfo → Option Int
  | node .invariant operation opA opB fetch type =>
      match operation with
      | .add => do some (javaWrap type ((← invariantValue opA) + (← invariantValue opB)))
      | .sub => do some (javaWrap type ((← invariantValue opA) - (← invariantValue opB)))
      | .neg => do some (javaWrap type (-(← invariantValue opB)))
      | .mul => do some (javaWrap type ((← invariantValue opA) * (← invariantValue opB)))
      | .div => do
          let divisor ← invariantValue opB
          if divisor = 0 then none else some (javaWrap type ((← invariantValue opA).tdiv divisor))
      | .rem => do
          let divisor ← invariantValue opB
          if divisor = 0 then none else some (javaWrap type ((← invariantValue opA).tmod divisor))
      | .xor => do
          let first ← invariantValue opA
          let second ← invariantValue opB
          some (javaWrap type (BitVec.ofInt 64 first ^^^ BitVec.ofInt 64 second).toInt)
      | .fetch => fetch.bind valueOf
      | .tripCountInLoop | .tripCountInBody | .tripCountInLoopUnsafe | .tripCountInBodyUnsafe =>
          invariantValue opA
      | _ => none
  | _ => none

/-- The elements a periodic induction cycles through: its first operand, then
those of its second, a last operand that is not periodic closing the cycle. -/
def periodicElements : InductionInfo → List InductionInfo
  | node .periodic _ opA opB _ _ => opA :: periodicElements opB
  | info => [info]

/-- The value of the instruction an induction tree describes in iteration `k`
of its loop, counted from 0, as the classes are defined: `a * k + b` for a
linear one, the sum of the first `k` values of a linear one plus `b` for a
polynomial, `a * f^k + b` or `a * f^-k + b` for a geometric one, `a` and then
the values of `b` one iteration late for a wrap-around, and the elements in turn
for a periodic one. -/
def valueAt : InductionInfo → Nat → Option Int
  | null, _ => none
  | info@(node .invariant ..), _ => invariantValue valueOf info
  | node .linear _ opA opB _ type, k => do
      some (javaWrap type ((← invariantValue valueOf opA) * k + (← invariantValue valueOf opB)))
  | node .polynomial _ opA opB _ type, k => do
      let terms ← (List.range k).mapM (valueAt opA)
      some (javaWrap type (terms.sum + (← invariantValue valueOf opB)))
  | node .geometric operation opA opB fetch type, k => do
      let a ← invariantValue valueOf opA
      let b ← invariantValue valueOf opB
      let f ← fetch.bind valueOf
      match operation with
      | .mul => some (javaWrap type (a * f ^ k + b))
      | .div => if f = 0 then none else some (javaWrap type (a.tdiv (f ^ k) + b))
      | _ => none
  | node .wrapAround _ opA opB _ _, k =>
      match k with
      | 0 => invariantValue valueOf opA
      | k + 1 => valueAt opB k
  | info@(node .periodic ..), k =>
      let elements := periodicElements info
      (elements[k % elements.length]?).bind (invariantValue valueOf)

end InductionInfo

end HInductionVarAnalysis

open HInductionVarAnalysis

/-- What the range analysis reads of the loops and of the induction analysis:
the closest loop around an instruction (`GetBlock()->GetLoopInformation()`), the
block of an instruction and the header of a loop, the instruction that controls
a loop (`GetLoopControl`, the last one of its header), and the induction tree the
analysis found for an instruction in a loop (`LookupInfo`, `null` when none). -/
structure InductionAnalysis where
  loopOf : Nat → Option Nat
  blockOf : Nat → Nat
  header : Nat → Nat
  loopControl : Nat → Nat
  lookupInfo : Nat → Nat → InductionInfo

/-- An `InductionVarRange`: the graph its instructions are read from, the
induction analysis, and `chase_hint_`. -/
structure InductionVarRange where
  graph : HGraph
  inductionAnalysis : InductionAnalysis
  chaseHint : Option Nat

namespace InductionVarRange

/-! ## Checked 32-bit arithmetic -/

/-- `CanLongValueFitIntoInt`. -/
def canLongValueFitIntoInt (c : Int) : Bool := -2 ^ 31 ≤ c && c ≤ 2 ^ 31 - 1

/-- `IsSafeAdd`. -/
def isSafeAdd (c1 c2 : Int) : Bool := canLongValueFitIntoInt (c1 + c2)

/-- `IsSafeSub`. -/
def isSafeSub (c1 c2 : Int) : Bool := canLongValueFitIntoInt (c1 - c2)

/-- `IsSafeMul`. -/
def isSafeMul (c1 c2 : Int) : Bool := canLongValueFitIntoInt (c1 * c2)

/-- `IsSafeDiv`: C++ divides rounding towards zero. -/
def isSafeDiv (c1 c2 : Int) : Bool := c2 != 0 && canLongValueFitIntoInt (c1.tdiv c2)

/-- `std::numeric_limits<int32_t>::max()`. -/
def int32Max : Int := 2 ^ 31 - 1

/-! ## Bounds -/

/-- `InductionVarRange::Value`: `a_constant * instruction + b_constant` when
`is_known`, and an unknown bound otherwise. -/
structure Value where
  instruction : Option Nat
  aConstant : Int
  bConstant : Int
  isKnown : Bool
  deriving DecidableEq, Repr

namespace Value

/-- `Value()`: an unknown bound. -/
def unknown : Value := ⟨none, 0, 0, false⟩

/-- `Value(i, a, b)`: the instruction is dropped when `a` is zero. -/
def affine (i : Option Nat) (a b : Int) : Value := ⟨if a ≠ 0 then i else none, a, b, true⟩

/-- `Value(b)`. -/
def constant (b : Int) : Value := affine none 0 b

@[simp] theorem isKnown_affine (i : Option Nat) (a b : Int) : (affine i a b).isKnown = true := rfl

@[simp] theorem aConstant_affine (i : Option Nat) (a b : Int) : (affine i a b).aConstant = a := rfl

@[simp] theorem bConstant_affine (i : Option Nat) (a b : Int) : (affine i a b).bConstant = b := rfl

@[simp] theorem isKnown_constant (b : Int) : (constant b).isKnown = true := rfl

/-- What a bound denotes, `a * value(instruction) + b`, when `valueOf` gives the
values of the instructions. -/
def denote (valueOf : Nat → Option Int) (v : Value) : Option Int :=
  if !v.isKnown then none
  else if v.aConstant = 0 then some v.bConstant
  else do
    let x ← valueOf (← v.instruction)
    some (v.aConstant * x + v.bConstant)

end Value

open Value

/-- `IsConstantValue`. -/
def isConstantValue (v : Value) : Bool := v.isKnown && v.aConstant == 0

/-- `AddValue`. -/
def addValue (v1 v2 : Value) : Value :=
  if v1.isKnown && v2.isKnown && isSafeAdd v1.bConstant v2.bConstant then
    let b := v1.bConstant + v2.bConstant
    if v1.aConstant = 0 then affine v2.instruction v2.aConstant b
    else if v2.aConstant = 0 then affine v1.instruction v1.aConstant b
    else if v1.instruction = v2.instruction && isSafeAdd v1.aConstant v2.aConstant then
      affine v1.instruction (v1.aConstant + v2.aConstant) b
    else unknown
  else unknown

/-- `SubValue`. -/
def subValue (v1 v2 : Value) : Value :=
  if v1.isKnown && v2.isKnown && isSafeSub v1.bConstant v2.bConstant then
    let b := v1.bConstant - v2.bConstant
    if v1.aConstant = 0 && isSafeSub 0 v2.aConstant then affine v2.instruction (-v2.aConstant) b
    else if v2.aConstant = 0 then affine v1.instruction v1.aConstant b
    else if v1.instruction = v2.instruction && isSafeSub v1.aConstant v2.aConstant then
      affine v1.instruction (v1.aConstant - v2.aConstant) b
    else unknown
  else unknown

/-- `MulValue`: one of the two must be a constant. -/
def mulValue (v1 v2 : Value) : Value :=
  if v1.isKnown && v2.isKnown then
    if v1.aConstant = 0 then
      if isSafeMul v1.bConstant v2.aConstant && isSafeMul v1.bConstant v2.bConstant then
        affine v2.instruction (v1.bConstant * v2.aConstant) (v1.bConstant * v2.bConstant)
      else unknown
    else if v2.aConstant = 0 then
      if isSafeMul v1.aConstant v2.bConstant && isSafeMul v1.bConstant v2.bConstant then
        affine v1.instruction (v1.aConstant * v2.bConstant) (v1.bConstant * v2.bConstant)
      else unknown
    else unknown
  else unknown

/-- `DivValue`: both must be constants. -/
def divValue (v1 v2 : Value) : Value :=
  if v1.isKnown && v2.isKnown && v1.aConstant = 0 && v2.aConstant = 0 &&
      isSafeDiv v1.bConstant v2.bConstant then
    constant (v1.bConstant.tdiv v2.bConstant)
  else unknown

/-- `MergeVal`: two bounds on the same instruction merge into the smaller or
the larger one. -/
def mergeVal (v1 v2 : Value) (isMin : Bool) : Value :=
  if v1.isKnown && v2.isKnown && v1.instruction = v2.instruction && v1.aConstant = v2.aConstant then
    affine v1.instruction v1.aConstant
      (if isMin then min v1.bConstant v2.bConstant else max v1.bConstant v2.bConstant)
  else unknown

/-- `CorrectForType`: only constants within range bound a byte, short or char. -/
def correctForType (v : Value) (type : Primitive.Type) : Value :=
  let withinRange (min max : Int) : Value :=
    if isConstantValue v && min ≤ v.bConstant && v.bConstant ≤ max then v else unknown
  match type with
  | .primShort => withinRange (-32768) 32767
  | .primChar => withinRange 0 65535
  | .primByte => withinRange (-128) 127
  | _ => v

/-! ## The arithmetic of bounds is exact -/

namespace Value

variable (valueOf : Nat → Option Int)

/-- The coefficients of a bound fit in the `int32_t` fields of `Value`. -/
def FitsInt (v : Value) : Prop := canLongValueFitIntoInt v.aConstant ∧ canLongValueFitIntoInt v.bConstant

/-- What a bound denotes is `a * y + b`, with `y` the value of its instruction
when `a` is not zero. -/
theorem exists_of_denote {v : Value} {x : Int} (denotes : v.denote valueOf = some x) :
    ∃ y, (v.aConstant ≠ 0 → v.instruction.bind valueOf = some y) ∧ x = v.aConstant * y + v.bConstant := by
  unfold denote at denotes
  split_ifs at denotes with unknown zero
  · exact ⟨0, fun nonzero => absurd zero nonzero, by rw [zero, Int.zero_mul, Int.zero_add, Option.some.inj denotes]⟩
  · cases listed : v.instruction with
    | none => simp [listed] at denotes
    | some instruction =>
        cases value : valueOf instruction with
        | none => simp [listed, value] at denotes
        | some y =>
            simp only [listed, value, Option.bind_eq_bind, Option.bind_some, Option.some.injEq] at denotes
            exact ⟨y, fun _ => by rw [Option.bind_some, value], denotes.symm⟩

/-- A bound built with `Value(i, a, b)` denotes `a * y + b` when `i` has the
value `y`, or `a` is zero. -/
theorem denote_affine {i : Option Nat} {a b y : Int} (instruction : a ≠ 0 → i.bind valueOf = some y) :
    (affine i a b).denote valueOf = some (a * y + b) := by
  by_cases zero : a = 0
  · simp [affine, denote, zero]
  · obtain ⟨I, listed, value⟩ := Option.bind_eq_some_iff.1 (instruction zero)
    simp [affine, denote, zero, listed, value]

end Value

section Exact

variable (valueOf : Nat → Option Int) {v1 v2 : Value} {x1 x2 : Int}

/-- A bound and another one on the same instruction denote their coefficients
applied to one value. -/
theorem exists_of_denote_same (same : v1.instruction = v2.instruction)
    (denotes1 : v1.denote valueOf = some x1) (denotes2 : v2.denote valueOf = some x2) :
    ∃ y, (v1.aConstant ≠ 0 ∨ v2.aConstant ≠ 0 → v1.instruction.bind valueOf = some y) ∧
      x1 = v1.aConstant * y + v1.bConstant ∧ x2 = v2.aConstant * y + v2.bConstant := by
  obtain ⟨y1, instruction1, rfl⟩ := exists_of_denote valueOf denotes1
  obtain ⟨y2, instruction2, rfl⟩ := exists_of_denote valueOf denotes2
  by_cases zero1 : v1.aConstant = 0
  · by_cases zero2 : v2.aConstant = 0
    · exact ⟨0, fun nonzero => by omega, by rw [zero1, Int.zero_mul, Int.zero_mul],
        by rw [zero2, Int.zero_mul, Int.zero_mul]⟩
    · exact ⟨y2, fun _ => same ▸ instruction2 zero2, by rw [zero1, Int.zero_mul, Int.zero_mul], rfl⟩
  · refine ⟨y1, fun _ => instruction1 zero1, rfl, ?_⟩
    by_cases zero2 : v2.aConstant = 0
    · rw [zero2, Int.zero_mul, Int.zero_mul]
    · have : some y2 = some y1 := (instruction2 zero2).symm.trans (same ▸ instruction1 zero1)
      rw [Option.some.inj this]

/-- **`AddValue`** is exact. -/
theorem addValue_exact (fits2 : v2.FitsInt) (fits1 : v1.FitsInt) (denotes1 : v1.denote valueOf = some x1)
    (denotes2 : v2.denote valueOf = some x2) (known : (addValue v1 v2).isKnown) :
    (addValue v1 v2).FitsInt ∧ (addValue v1 v2).denote valueOf = some (x1 + x2) := by
  unfold addValue at known ⊢
  split_ifs at known ⊢ with safe zero1 zero2 same
  · obtain ⟨y2, instruction2, rfl⟩ := exists_of_denote valueOf denotes2
    obtain ⟨y1, -, rfl⟩ := exists_of_denote valueOf denotes1
    simp only [Bool.and_eq_true] at safe
    refine ⟨⟨fits2.1, safe.2⟩, ?_⟩
    rw [denote_affine valueOf instruction2, zero1]
    congr 1
    omega
  · obtain ⟨y1, instruction1, rfl⟩ := exists_of_denote valueOf denotes1
    obtain ⟨y2, -, rfl⟩ := exists_of_denote valueOf denotes2
    simp only [Bool.and_eq_true] at safe
    refine ⟨⟨fits1.1, safe.2⟩, ?_⟩
    rw [denote_affine valueOf instruction1, zero2]
    congr 1
    omega
  · -- two bounds on one instruction add their coefficients
    simp only [Bool.and_eq_true, decide_eq_true_eq] at safe same
    obtain ⟨y, instruction, rfl, rfl⟩ := exists_of_denote_same valueOf same.1 denotes1 denotes2
    refine ⟨⟨same.2, safe.2⟩, ?_⟩
    rw [denote_affine valueOf (fun _ => instruction (.inl zero1))]
    congr 1
    rw [Int.add_mul]
    omega
  · cases known
  · cases known

/-- **`SubValue`** is exact; the negation of the second coefficient is checked. -/
theorem subValue_exact (fits1 : v1.FitsInt) (denotes1 : v1.denote valueOf = some x1)
    (denotes2 : v2.denote valueOf = some x2) (known : (subValue v1 v2).isKnown) :
    (subValue v1 v2).FitsInt ∧ (subValue v1 v2).denote valueOf = some (x1 - x2) := by
  unfold subValue at known ⊢
  split_ifs at known ⊢ with safe negated zero2 same
  · obtain ⟨y2, instruction2, rfl⟩ := exists_of_denote valueOf denotes2
    obtain ⟨y1, -, rfl⟩ := exists_of_denote valueOf denotes1
    simp only [Bool.and_eq_true, decide_eq_true_eq] at safe negated
    refine ⟨⟨by rw [← Int.zero_sub]; exact negated.2, safe.2⟩, ?_⟩
    rw [denote_affine valueOf (fun nonzero => instruction2 (Int.neg_ne_zero.1 nonzero)), negated.1]
    congr 1
    rw [Int.neg_mul]
    omega
  · obtain ⟨y1, instruction1, rfl⟩ := exists_of_denote valueOf denotes1
    obtain ⟨y2, -, rfl⟩ := exists_of_denote valueOf denotes2
    simp only [Bool.and_eq_true] at safe
    refine ⟨⟨fits1.1, safe.2⟩, ?_⟩
    rw [denote_affine valueOf instruction1, zero2]
    congr 1
    omega
  · -- two bounds on one instruction subtract their coefficients
    simp only [Bool.and_eq_true, decide_eq_true_eq] at safe same
    obtain ⟨y, instruction, rfl, rfl⟩ := exists_of_denote_same valueOf same.1 denotes1 denotes2
    refine ⟨⟨same.2, safe.2⟩, ?_⟩
    rw [denote_affine valueOf (fun _ => instruction (.inr zero2))]
    congr 1
    rw [Int.sub_mul]
    omega
  · cases known
  · cases known

/-- **`MulValue`** is exact when one of the two is a constant. -/
theorem mulValue_exact (denotes1 : v1.denote valueOf = some x1) (denotes2 : v2.denote valueOf = some x2)
    (known : (mulValue v1 v2).isKnown) :
    (mulValue v1 v2).FitsInt ∧ (mulValue v1 v2).denote valueOf = some (x1 * x2) := by
  obtain ⟨y1, instruction1, rfl⟩ := exists_of_denote valueOf denotes1
  obtain ⟨y2, instruction2, rfl⟩ := exists_of_denote valueOf denotes2
  unfold mulValue at known ⊢
  split_ifs at known ⊢ with bothKnown zero1 safe zero2 safe
  · simp only [Bool.and_eq_true] at safe
    refine ⟨safe, ?_⟩
    rw [denote_affine valueOf (fun nonzero => instruction2 (Int.mul_ne_zero_iff.1 nonzero).2), zero1]
    congr 1
    rw [Int.zero_mul, Int.zero_add, Int.mul_add, Int.mul_assoc]
  · cases known
  · simp only [Bool.and_eq_true] at safe
    refine ⟨safe, ?_⟩
    rw [denote_affine valueOf (fun nonzero => instruction1 (Int.mul_ne_zero_iff.1 nonzero).1), zero2]
    congr 1
    rw [Int.zero_mul, Int.zero_add, Int.add_mul, Int.mul_right_comm]
  · cases known
  · cases known
  · cases known

/-- **`DivValue`** of two constants is their quotient rounded towards zero. -/
theorem divValue_exact (denotes1 : v1.denote valueOf = some x1) (denotes2 : v2.denote valueOf = some x2)
    (known : (divValue v1 v2).isKnown) :
    (divValue v1 v2).FitsInt ∧ (divValue v1 v2).denote valueOf = some (x1.tdiv x2) := by
  obtain ⟨y1, -, rfl⟩ := exists_of_denote valueOf denotes1
  obtain ⟨y2, -, rfl⟩ := exists_of_denote valueOf denotes2
  unfold divValue at known ⊢
  split_ifs at known ⊢ with safe
  · simp only [Bool.and_eq_true, decide_eq_true_eq, isSafeDiv] at safe
    obtain ⟨⟨⟨-, zero1⟩, zero2⟩, -, fits⟩ := safe
    refine ⟨⟨by rw [constant, aConstant_affine]; rfl, fits⟩, ?_⟩
    rw [constant, denote_affine valueOf (y := 0) (fun nonzero => absurd rfl nonzero), zero1, zero2]
    simp
  · cases known

theorem canLongValueFitIntoInt_iff {c : Int} : canLongValueFitIntoInt c ↔ -2 ^ 31 ≤ c ∧ c ≤ 2 ^ 31 - 1 := by
  simp [canLongValueFitIntoInt]

/-- **`MergeVal`** of two bounds on one instruction is below both, or above both. -/
theorem mergeVal_bound (isMin : Bool) (fits1 : v1.FitsInt) (fits2 : v2.FitsInt)
    (denotes1 : v1.denote valueOf = some x1) (denotes2 : v2.denote valueOf = some x2)
    (known : (mergeVal v1 v2 isMin).isKnown) :
    (mergeVal v1 v2 isMin).FitsInt ∧ ∃ r, (mergeVal v1 v2 isMin).denote valueOf = some r ∧
      if isMin then r ≤ min x1 x2 else max x1 x2 ≤ r := by
  by_cases same : (v1.isKnown && v2.isKnown && decide (v1.instruction = v2.instruction) &&
      decide (v1.aConstant = v2.aConstant)) = true
  · rw [mergeVal, if_pos same]
    simp only [Bool.and_eq_true, decide_eq_true_eq] at same
    obtain ⟨⟨⟨-, -⟩, instructions⟩, coefficients⟩ := same
    obtain ⟨y, instruction, rfl, rfl⟩ := exists_of_denote_same valueOf instructions denotes1 denotes2
    have fitsB := And.intro (canLongValueFitIntoInt_iff.1 fits1.2) (canLongValueFitIntoInt_iff.1 fits2.2)
    refine ⟨⟨fits1.1, ?_⟩, _, denote_affine valueOf (fun nonzero => instruction (.inl nonzero)), ?_⟩
    · rw [bConstant_affine, canLongValueFitIntoInt_iff]
      cases isMin <;> simp only [Bool.false_eq_true, if_false, if_true] <;> omega
    · rw [coefficients]
      cases isMin <;> simp only [Bool.false_eq_true, if_false, if_true] <;> omega
  · rw [mergeVal, if_neg same] at known
    cases known


/-- **The arithmetic of bounds.** For two bounds with `int32_t` coefficients that
denote `x1` and `x2` under any values of the instructions, each of `AddValue`,
`SubValue`, `MulValue`, `DivValue` and `MergeVal` that returns a known bound
returns one with `int32_t` coefficients, so computed without wrapping, that
denotes `x1 + x2`, `x1 - x2`, `x1 * x2`, the quotient rounded towards zero, or a
value below both (above both for an upper bound). -/
theorem valueArithmetic_exact (valueOf : Nat → Option Int) {v1 v2 : Value} (fits1 : v1.FitsInt)
    (fits2 : v2.FitsInt) {x1 x2 : Int} (denotes1 : v1.denote valueOf = some x1)
    (denotes2 : v2.denote valueOf = some x2) :
    ((addValue v1 v2).isKnown → (addValue v1 v2).FitsInt ∧ (addValue v1 v2).denote valueOf = some (x1 + x2)) ∧
      ((subValue v1 v2).isKnown → (subValue v1 v2).FitsInt ∧ (subValue v1 v2).denote valueOf = some (x1 - x2)) ∧
      ((mulValue v1 v2).isKnown → (mulValue v1 v2).FitsInt ∧ (mulValue v1 v2).denote valueOf = some (x1 * x2)) ∧
      ((divValue v1 v2).isKnown →
        (divValue v1 v2).FitsInt ∧ (divValue v1 v2).denote valueOf = some (x1.tdiv x2)) ∧
      ∀ isMin : Bool, (mergeVal v1 v2 isMin).isKnown → (mergeVal v1 v2 isMin).FitsInt ∧
        ∃ r, (mergeVal v1 v2 isMin).denote valueOf = some r ∧ if isMin then r ≤ min x1 x2 else max x1 x2 ≤ r :=
  ⟨addValue_exact valueOf fits2 fits1 denotes1 denotes2, subValue_exact valueOf fits1 denotes1 denotes2,
    mulValue_exact valueOf denotes1 denotes2, divValue_exact valueOf denotes1 denotes2,
    fun isMin => mergeVal_bound valueOf isMin fits1 fits2 denotes1 denotes2⟩

/-- `2 * i + 3` and `5` with `i = 7` add up to `22`. -/
theorem valueArithmetic_twiceSevenPlusThree :
    (affine (some 0) 2 3).FitsInt ∧ (constant 5).FitsInt ∧ (affine (some 0) 2 3).denote (fun _ => some 7) = some 17 ∧
      (constant 5).denote (fun _ => some 7) = some 5 ∧
      (addValue (affine (some 0) 2 3) (constant 5)).denote (fun _ => some 7) = some (17 + 5) :=
  ⟨⟨rfl, rfl⟩, ⟨rfl, rfl⟩, rfl, rfl,
    ((valueArithmetic_exact (fun _ => some 7) ⟨rfl, rfl⟩ ⟨rfl, rfl⟩ rfl rfl).1 rfl).2⟩

end Exact

/-! ## Instructions the simplifications look through -/

variable (graph : HGraph)

/-- `IsGEZero` with a fuel that bounds the depth of the instructions it visits:
array lengths, the minimum of two instructions that are `>= 0`, every call of
`Math.abs`, and the constants that are `>= 0`. -/
def isGEZeroAt : Nat → Nat → Bool
  | 0, _ => false
  | fuel + 1, instruction =>
      match graph.instructionAt instruction with
      | .arrayLength _ => true
      | .invokeStaticOrDirect .mathMinIntInt [left, right]
      | .invokeStaticOrDirect .mathMinLongLong [left, right] =>
          isGEZeroAt fuel left && isGEZeroAt fuel right
      | .invokeStaticOrDirect .mathAbsInt _ | .invokeStaticOrDirect .mathAbsLong _ => true
      | other =>
          match other.isInt64AndGet with
          | some value => 0 ≤ value.toInt
          | none => false

/-- `IsGEZero`; the inputs of an instruction come before it. -/
def isGEZero (instruction : Nat) : Bool := isGEZeroAt graph (instruction + 1) instruction

/-- `HuntForDeclaration`: look through array lengths, null checks and new arrays. -/
def huntForDeclarationAt : Nat → Nat → Nat
  | 0, instruction => instruction
  | fuel + 1, instruction =>
      match graph.instructionAt instruction with
      | .arrayLength input | .nullCheck input | .newArray input => huntForDeclarationAt fuel input
      | _ => instruction

/-- `HuntForDeclaration`. -/
def huntForDeclaration (instruction : Nat) : Nat :=
  huntForDeclarationAt graph (instruction + 1) instruction

/-- `IsMaxAtHint`: the suitable instruction when the answer is true. -/
def isMaxAtHintAt (hint : Option Nat) : Nat → Nat → Option Nat
  | 0, _ => none
  | fuel + 1, instruction =>
      match graph.instructionAt instruction with
      | .invokeStaticOrDirect .mathMinIntInt [left, right]
      | .invokeStaticOrDirect .mathMinLongLong [left, right] =>
          (isMaxAtHintAt hint fuel left).or (isMaxAtHintAt hint fuel right)
      | .invokeStaticOrDirect _ _ => none
      | _ => if some (huntForDeclaration graph instruction) = hint then some instruction else none

/-- `IsMaxAtHint`. -/
def isMaxAtHint (instruction : Nat) (hint : Option Nat) : Option Nat :=
  isMaxAtHintAt graph hint (instruction + 1) instruction

/-- `SimplifyMin`: a lower bound `instruction + b` with `b <= 0` and an
instruction that `IsGEZero` accepts becomes `b`. -/
def simplifyMin (v : Value) : Value :=
  if v.isKnown && v.aConstant == 1 && v.bConstant ≤ 0 then
    match v.instruction with
    | some instruction => if isGEZero graph instruction then constant v.bConstant else v
    | none => v
  else v

/-- `SimplifyMax`: an upper bound `a * (length / a) + b` becomes `length + b`,
and an upper bound `instruction + b` uses the operand of a minimum that is at the
hint. -/
def simplifyMax (v : Value) (hint : Option Nat) : Value :=
  if v.isKnown && 1 ≤ v.aConstant then
    match v.instruction with
    | none => v
    | some instruction =>
        let byLength : Option Value :=
          match graph.instructionAt instruction with
          | .div _ length divisor =>
              match graph.instructionAt length, (graph.instructionAt divisor).isInt64AndGet with
              | .arrayLength _, some value =>
                  if v.aConstant = value.toInt then some (affine (some length) 1 v.bConstant) else none
              | _, _ => none
          | _ => none
        match byLength with
        | some simplified => simplified
        | none =>
            if v.aConstant = 1 then
              match isMaxAtHint graph instruction hint with
              | some suitable => affine (some suitable) 1 v.bConstant
              | none => v
            else v
  else v

/-! ## The bounds of an induction tree -/

/-- `ConstantRequest`. -/
inductive ConstantRequest
  | exact
  | atMost
  | atLeast
  deriving DecidableEq, Repr

variable (range : InductionVarRange)

/-- `HasInductionInfo(context, instruction)`: the closest loop around the context,
the induction tree of the instruction in it, and the trip count of the loop. -/
def hasInductionInfo (context instruction : Nat) : Option (Nat × InductionInfo × InductionInfo) := do
  let loop ← range.inductionAnalysis.loopOf context
  let info := range.inductionAnalysis.lookupInfo loop instruction
  if info = .null then none
  else some (loop, info, range.inductionAnalysis.lookupInfo loop (range.inductionAnalysis.loopControl loop))

/-- `IsUnsafeTripCount`: a trip count of a loop that may not end. -/
def isUnsafeTripCount (trip : InductionInfo) : Bool :=
  trip.inductionClass = .invariant && trip ≠ .null &&
    (trip.operation = .tripCountInBodyUnsafe || trip.operation = .tripCountInLoopUnsafe)

/-- `HasFetchInLoop`: the tree fetches an instruction defined in a loop. -/
def hasFetchInLoop : InductionInfo → Bool
  | .null => false
  | .node .invariant .fetch _ _ (some fetch) _ => (range.inductionAnalysis.loopOf fetch).isSome
  | .node _ _ opA opB _ _ => hasFetchInLoop opA || hasFetchInLoop opB

/-- The value of an integral constant that fits in an `int`. -/
def constantFittingInt (instruction : HInstruction) : Option Int :=
  match instruction.isInt64AndGet with
  | some value => if canLongValueFitIntoInt value.toInt then some value.toInt else none
  | none => none

mutual

/-- `GetVal(info, trip, in_body, is_min)`: a lower or an upper bound of the tree. -/
def getVal (range : InductionVarRange) : Nat → InductionInfo → InductionInfo → Bool → Bool → Value
  | 0, _, _, _, _ => unknown
  | _ + 1, .null, _, _, _ => unknown
  | fuel + 1, info@(.node inductionClass operation opA opB fetch type), trip, inBody, isMin =>
      match inductionClass with
      | .invariant =>
          match operation with
          | .add => addValue (getVal range fuel opA trip inBody isMin) (getVal range fuel opB trip inBody isMin)
          -- The bound of a difference takes the other bound of the second operand.
          | .sub => subValue (getVal range fuel opA trip inBody isMin) (getVal range fuel opB trip inBody !isMin)
          | .neg => subValue (constant 0) (getVal range fuel opB trip inBody !isMin)
          | .mul => getMul range fuel opA opB trip inBody isMin
          | .div => getDiv range fuel opA opB trip inBody isMin
          | .rem => getRem range fuel opA opB
          | .xor => getXor range fuel opA opB
          | .fetch =>
              match fetch with
              | some instruction => getFetch range fuel instruction trip inBody isMin
              | none => unknown
          -- A trip count valid in the whole loop is one more than in the body
          -- at the header; otherwise the code falls through to the body case.
          | .tripCountInLoop | .tripCountInLoopUnsafe =>
              if !inBody && !isMin then getVal range fuel opA trip inBody isMin
              else if isMin then constant 0
              else if inBody then subValue (getVal range fuel opA trip inBody isMin) (constant 1)
              else unknown
          | .tripCountInBody | .tripCountInBodyUnsafe =>
              if isMin then constant 0
              else if inBody then subValue (getVal range fuel opA trip inBody isMin) (constant 1)
              else unknown
          | _ => unknown
      | .linear => correctForType (getLinear range fuel info trip inBody isMin) type
      | .polynomial => getPolynomial range fuel info trip inBody isMin
      | .geometric => getGeometric range fuel info trip inBody isMin
      | .wrapAround | .periodic =>
          mergeVal (getVal range fuel opA trip inBody isMin) (getVal range fuel opB trip inBody isMin) isMin

/-- `GetLinear`: the bound of `a * i + b` for `0 <= i < TC`, where an offset in
the trip count that cancels the offset of the induction is left out first. -/
def getLinear (range : InductionVarRange) : Nat → InductionInfo → InductionInfo → Bool → Bool → Value
  | 0, _, _, _, _ => unknown
  | fuel + 1, info, trip, inBody, isMin =>
      let general := addValue (getMul range fuel info.opA trip trip inBody isMin)
        (getVal range fuel info.opB trip inBody isMin)
      match trip with
      | .null => general
      | .node tripClass tripOperation tripExpr tripB _ tripType =>
          if tripExpr.type = info.type && tripExpr.operation = .sub then
            match isConstant range fuel info.opA .exact with
            | some strideValue =>
                if !isMin && strideValue = 1 then
                  if inductionEqual tripExpr.opB info.opB then
                    getVal range fuel (.node tripClass tripOperation tripExpr.opA tripB none tripType) trip inBody isMin
                  else general
                else if isMin && strideValue = -1 then
                  if inductionEqual tripExpr.opA info.opB then
                    subValue (constant 0)
                      (getVal range fuel
                        (.node tripClass tripOperation (.node .invariant .neg .null tripExpr.opB none tripType) tripB
                          none tripType) trip inBody !isMin)
                  else general
                else general
            | none => general
          else general

/-- `GetPolynomial`: the sum of `a * i + b` for `a, b >= 0` is at least its
offset and at most `a * (m * (m - 1)) / 2 + b * m + c` for the trip count `m`. -/
def getPolynomial (range : InductionVarRange) : Nat → InductionInfo → InductionInfo → Bool → Bool → Value
  | 0, _, _, _, _ => unknown
  | fuel + 1, info, trip, inBody, isMin =>
      match isConstant range fuel info.opA.opA .exact, isConstant range fuel info.opA.opB .exact with
      | some a, some b =>
          if canLongValueFitIntoInt a && 0 ≤ a && canLongValueFitIntoInt b && 0 ≤ b then
            let c := getVal range fuel info.opB trip inBody isMin
            if isMin then c
            else
              let m := getVal range fuel trip trip inBody isMin
              let t := divValue (mulValue m (subValue m (constant 1))) (constant 2)
              let x := mulValue (constant a) t
              let y := mulValue (constant b) m
              addValue (addValue x y) c
          else unknown
      | _, _ => unknown

/-- `GetGeometric`: `a * f^-i + b` with `f >= 1` lies between `b` and `a + b`. -/
def getGeometric (range : InductionVarRange) : Nat → InductionInfo → InductionInfo → Bool → Bool → Value
  | 0, _, _, _, _ => unknown
  | fuel + 1, info, trip, inBody, isMin =>
      match isConstant range fuel info.opA .exact, info.fetch.bind fun f => (range.graph.instructionAt f).isInt64AndGet with
      | some a, some f =>
          if canLongValueFitIntoInt a && 1 ≤ f.toInt then
            let isMinA := if 0 ≤ a then isMin else !isMin
            if info.operation = .div then
              let b := getVal range fuel info.opB trip inBody isMin
              if isMinA then b else addValue (constant a) b
            else unknown
          else unknown
      | _, _ => unknown

/-- `GetFetch`: the bound of a fetched instruction, chased through constants,
additions of constants, array lengths, widening conversions and the induction
trees of enclosing loops, and the instruction itself otherwise. -/
def getFetch (range : InductionVarRange) : Nat → Nat → InductionInfo → Bool → Bool → Value
  | 0, _, _, _, _ => unknown
  | fuel + 1, instruction, trip, inBody, isMin =>
      let graph := range.graph
      -- Chase into an enclosing loop when the trip count so far is well-behaved.
      let chaseOuter : Value :=
        match range.hasInductionInfo instruction instruction with
        | some (_, nextInfo, nextTrip) =>
            if isWellBehavedTripCount range fuel trip && !isUnsafeTripCount nextTrip then
              getVal range fuel nextInfo nextTrip true isMin
            else affine (some instruction) 1 0
        | none => affine (some instruction) 1 0
      let chased : Value :=
        match constantFittingInt (graph.instructionAt instruction) with
        | some value => constant value
        | none =>
            if some instruction = range.chaseHint then affine (some instruction) 1 0
            else
              match graph.instructionAt instruction with
              | .add _ left right =>
                  match constantFittingInt (graph.instructionAt left), constantFittingInt (graph.instructionAt right) with
                  | some value, _ => addValue (constant value) (getFetch range fuel right trip inBody isMin)
                  | none, some value => addValue (getFetch range fuel left trip inBody isMin) (constant value)
                  | none, none => chaseOuter
              | .arrayLength array =>
                  if range.chaseHint = none then (if isMin then constant 0 else constant int32Max)
                  else
                    match graph.instructionAt array with
                    | .newArray length => getFetch range fuel length trip inBody isMin
                    | _ => chaseOuter
              | .typeConversion resultType input =>
                  if (graph.instructionAt input).getType = .primInt && resultType = .primLong then
                    getFetch range fuel input trip inBody isMin
                  else chaseOuter
              | _ => chaseOuter
      -- In the body, the instruction that is the trip count is at least 1, and
      -- at most the largest int when the trip count is safe.
      if range.chaseHint = none && inBody && trip ≠ .null && trip.opA.fetch = some instruction then
        if isMin then constant 1
        else if !(graph.instructionAt instruction).isConstant && !isUnsafeTripCount trip then constant int32Max
        else chased
      else chased

/-- `GetMul`: a constant times a range, or the product of two ranges of one sign. -/
def getMul (range : InductionVarRange) :
    Nat → InductionInfo → InductionInfo → InductionInfo → Bool → Bool → Value
  | 0, _, _, _, _, _ => unknown
  | fuel + 1, info1, info2, trip, inBody, isMin =>
      match isConstant range fuel info1 .exact, isConstant range fuel info2 .exact with
      | some value, _ => mulRangeAndConstant range fuel value info2 trip inBody isMin
      | none, some value => mulRangeAndConstant range fuel value info1 trip inBody isMin
      | none, none =>
          let v1Min := getVal range fuel info1 trip inBody true
          let v1Max := getVal range fuel info1 trip inBody false
          let v2Min := getVal range fuel info2 trip inBody true
          let v2Max := getVal range fuel info2 trip inBody false
          let negative : Value :=
            if isConstantValue v1Max && v1Max.bConstant ≤ 0 then
              if isConstantValue v2Min && 0 ≤ v2Min.bConstant then
                if isMin then mulValue v1Min v2Max else mulValue v1Max v2Min
              else if isConstantValue v2Max && v2Max.bConstant ≤ 0 then
                if isMin then mulValue v1Max v2Max else mulValue v1Min v2Min
              else unknown
            else unknown
          if isConstantValue v1Min && 0 ≤ v1Min.bConstant then
            if isConstantValue v2Min && 0 ≤ v2Min.bConstant then
              if isMin then mulValue v1Min v2Min else mulValue v1Max v2Max
            else if isConstantValue v2Max && v2Max.bConstant ≤ 0 then
              if isMin then mulValue v1Max v2Min else mulValue v1Min v2Max
            else negative
          else negative

/-- `GetDiv`: a range divided by a constant, or by a range of one sign. -/
def getDiv (range : InductionVarRange) :
    Nat → InductionInfo → InductionInfo → InductionInfo → Bool → Bool → Value
  | 0, _, _, _, _, _ => unknown
  | fuel + 1, info1, info2, trip, inBody, isMin =>
      match isConstant range fuel info2 .exact with
      | some value => divRangeAndConstant range fuel value info1 trip inBody isMin
      | none =>
          let v1Min := getVal range fuel info1 trip inBody true
          let v1Max := getVal range fuel info1 trip inBody false
          let v2Min := getVal range fuel info2 trip inBody true
          let v2Max := getVal range fuel info2 trip inBody false
          let negative : Value :=
            if isConstantValue v1Max && v1Max.bConstant ≤ 0 then
              if isConstantValue v2Min && 0 ≤ v2Min.bConstant then
                if isMin then divValue v1Min v2Min else divValue v1Max v2Max
              else if isConstantValue v2Max && v2Max.bConstant ≤ 0 then
                if isMin then divValue v1Max v2Min else divValue v1Min v2Max
              else unknown
            else unknown
          if isConstantValue v1Min && 0 ≤ v1Min.bConstant then
            if isConstantValue v2Min && 0 ≤ v2Min.bConstant then
              if isMin then divValue v1Min v2Max else divValue v1Max v2Min
            else if isConstantValue v2Max && v2Max.bConstant ≤ 0 then
              if isMin then divValue v1Max v2Max else divValue v1Min v2Min
            else negative
          else negative

/-- `GetRem`: only of two exact constants. -/
def getRem (range : InductionVarRange) : Nat → InductionInfo → InductionInfo → Value
  | 0, _, _ => unknown
  | fuel + 1, info1, info2 =>
      match isConstant range fuel info1 .exact, isConstant range fuel info2 .exact with
      | some v1, some v2 =>
          if v2 ≠ 0 && canLongValueFitIntoInt (v1.tmod v2) then constant (v1.tmod v2) else unknown
      | _, _ => unknown

/-- `GetXor`: only of two exact constants, as 64-bit words. -/
def getXor (range : InductionVarRange) : Nat → InductionInfo → InductionInfo → Value
  | 0, _, _ => unknown
  | fuel + 1, info1, info2 =>
      match isConstant range fuel info1 .exact, isConstant range fuel info2 .exact with
      | some v1, some v2 =>
          let value := (BitVec.ofInt 64 v1 ^^^ BitVec.ofInt 64 v2).toInt
          if canLongValueFitIntoInt value then constant value else unknown
      | _, _ => unknown

/-- `MulRangeAndConstant`: a negative constant swaps the bounds of the range. -/
def mulRangeAndConstant (range : InductionVarRange) :
    Nat → Int → InductionInfo → InductionInfo → Bool → Bool → Value
  | 0, _, _, _, _, _ => unknown
  | fuel + 1, value, info, trip, inBody, isMin =>
      if canLongValueFitIntoInt value then
        mulValue (getVal range fuel info trip inBody (isMin == decide (0 ≤ value))) (constant value)
      else unknown

/-- `DivRangeAndConstant`: a negative constant swaps the bounds of the range. -/
def divRangeAndConstant (range : InductionVarRange) :
    Nat → Int → InductionInfo → InductionInfo → Bool → Bool → Value
  | 0, _, _, _, _, _ => unknown
  | fuel + 1, value, info, trip, inBody, isMin =>
      if canLongValueFitIntoInt value then
        divValue (getVal range fuel info trip inBody (isMin == decide (0 ≤ value))) (constant value)
      else unknown

/-- `IsConstant(info, request)`: a fetched constant, or the bound a proper range
of the tree gives for the request. -/
def isConstant (range : InductionVarRange) : Nat → InductionInfo → ConstantRequest → Option Int
  | 0, _, _ => none
  | _ + 1, .null, _ => none
  | fuel + 1, info@(.node inductionClass operation _ _ fetch _), request =>
      let direct : Option (BitVec 64) :=
        if inductionClass = .invariant && operation = .fetch then
          fetch.bind fun f => (range.graph.instructionAt f).isInt64AndGet
        else none
      match direct with
      | some value => some value.toInt
      | none =>
          let minVal := getVal range fuel info .null true true
          let maxVal := getVal range fuel info .null true false
          if isConstantValue minVal && isConstantValue maxVal && minVal.bConstant ≤ maxVal.bConstant then
            if (request = .exact && minVal.bConstant = maxVal.bConstant) || request = .atMost then
              some maxVal.bConstant
            else if request = .atLeast then some minVal.bConstant
            else none
          else none

/-- `IsWellBehavedTripCount`: both bounds of the trip count are defined outside
every loop, or have a lower bound. The code asks a new `InductionVarRange`,
which has no hint. -/
def isWellBehavedTripCount (range : InductionVarRange) : Nat → InductionInfo → Bool
  | 0, _ => false
  | _ + 1, .null => true
  | fuel + 1, trip@(.node ..) =>
      let fresh := { range with chaseHint := none }
      let lower := trip.opB.opA
      let upper := trip.opB.opB
      (!range.hasFetchInLoop lower || (isConstant fresh fuel lower .atLeast).isSome) &&
        (!range.hasFetchInLoop upper || (isConstant fresh fuel upper .atLeast).isSome)

end

/-- `NeedsTripCount`: the bounds of the tree depend on the trip count. -/
def needsTripCount (fuel : Nat) : InductionInfo → Bool
  | .null => false
  | info@(.node .linear ..) => (isConstant range fuel info.opA .exact).isSome
  | .node .polynomial _ opA .. => needsTripCount fuel opA
  | .node .wrapAround _ _ opB .. => needsTripCount fuel opB
  | .node .. => false

/-- `GetInductionRange(context, instruction, chase_hint)`: the bounds of the
instruction at the context, for an induction of type `int` or narrower, and
whether the loop needs a test that it ends. A wrap-around induction with no
lower bound is tried again without the hint. -/
def getInductionRange (fuel context instruction : Nat) (chaseHint : Option Nat) :
    Option (Value × Value × Bool) := do
  let (loop, info, trip) ← range.hasInductionInfo context instruction
  if info.type ∈ [.primInt, .primShort, .primChar, .primByte] then
    let hinted := { range with chaseHint }
    let inBody := range.inductionAnalysis.blockOf context ≠ range.inductionAnalysis.header loop
    let minVal := simplifyMin range.graph (getVal hinted fuel info trip inBody true)
    let maxVal := simplifyMax range.graph (getVal hinted fuel info trip inBody false) chaseHint
    let needsFiniteTest := needsTripCount hinted fuel info && isUnsafeTripCount trip
    let unhinted := { range with chaseHint := none }
    let minVal :=
      if !minVal.isKnown && info.inductionClass = .wrapAround then
        simplifyMin range.graph (getVal unhinted fuel info trip inBody true)
      else minVal
    some (minVal, maxVal, needsFiniteTest)
  else none

/-! ## The steps of the analysis on an offset it does not look into -/

section Steps

variable {range : InductionVarRange}

/-- `HasInductionInfo` finds the tree the analysis has for the instruction in the
closest loop around the context. -/
theorem hasInductionInfo_of_lookupInfo {context instruction loop : Nat}
    (inLoop : range.inductionAnalysis.loopOf context = some loop)
    (found : range.inductionAnalysis.lookupInfo loop instruction ≠ .null) :
    range.hasInductionInfo context instruction =
      some (loop, range.inductionAnalysis.lookupInfo loop instruction,
        range.inductionAnalysis.lookupInfo loop (range.inductionAnalysis.loopControl loop)) := by
  simp [hasInductionInfo, inLoop, found]

/-- The lower bound of every trip count is `0`. -/
theorem getVal_tripCount_min {fuel : Nat} {operation : InductionOp} {opA opB trip : InductionInfo}
    {fetch : Option Nat} {type : Primitive.Type} {inBody : Bool}
    (counts : operation ∈ [.tripCountInLoop, .tripCountInBody, .tripCountInLoopUnsafe, .tripCountInBodyUnsafe]) :
    getVal range (fuel + 1) (.node .invariant operation opA opB fetch type) trip inBody true = constant 0 := by
  simp only [List.mem_cons, List.not_mem_nil, or_false] at counts
  rcases counts with rfl | rfl | rfl | rfl
  · rw [getVal]; simp
  · rw [getVal]; simp
  · rw [getVal]; simp
  · rw [getVal]; simp

/-- A fetched `int` constant is an exact constant. -/
theorem isConstant_invariantFetch {fuel stride : Nat} {strideValue : BitVec 32} {request : ConstantRequest}
    (strideConstant : range.graph.instructionAt stride = .intConstant strideValue) :
    isConstant range (fuel + 1) (InductionInfo.invariantFetch stride .primInt) request = some strideValue.toInt := by
  rw [InductionInfo.invariantFetch, isConstant]
  simp only [decide_true, Bool.and_self, if_true, Option.bind_some, strideConstant,
    HInstruction.isInt64AndGet_intConstant]
  rw [BitVec.toInt_signExtend_of_le (by omega)]

/-- An `int` fits in an `int`. -/
theorem canLongValueFitIntoInt_toInt (value : BitVec 32) : canLongValueFitIntoInt value.toInt := by
  have lower : -2 ^ (32 - 1) ≤ value.toInt := BitVec.le_toInt value
  have upper : value.toInt < 2 ^ (32 - 1) := BitVec.toInt_lt
  simp only [canLongValueFitIntoInt, Bool.and_eq_true, decide_eq_true_eq]
  omega

/-- `MulRangeAndConstant` by a constant that is not negative, of a range whose
lower bound is `0`, has the lower bound `0`. -/
theorem mulRangeAndConstant_of_zero {fuel : Nat} {value : Int} {info trip : InductionInfo} {inBody : Bool}
    (fits : canLongValueFitIntoInt value) (notNegative : 0 ≤ value)
    (zero : getVal range fuel info trip inBody true = constant 0) :
    mulRangeAndConstant range (fuel + 1) value info trip inBody true = constant 0 := by
  have unchanged : (true == decide (0 ≤ value)) = true := by simp [notNegative]
  rw [mulRangeAndConstant, if_pos fits, unchanged, zero]
  simp [mulValue, constant, affine, isSafeMul, canLongValueFitIntoInt]

/-- `GetFetch` of an instruction it cannot look into, with no induction tree of
its own, is the instruction itself. -/
theorem getFetch_self {fuel instruction : Nat} {trip : InductionInfo} {inBody isMin : Bool}
    (notTripCount : trip.opA.fetch ≠ some instruction)
    (notConstant : constantFittingInt (range.graph.instructionAt instruction) = none)
    (notHint : range.chaseHint ≠ some instruction)
    (notAdd : ∀ type left right, range.graph.instructionAt instruction ≠ .add type left right)
    (notLength : ∀ array, range.graph.instructionAt instruction ≠ .arrayLength array)
    (notConversion : ∀ resultType input, range.graph.instructionAt instruction ≠ .typeConversion resultType input)
    (noInduction : range.hasInductionInfo instruction instruction = none) :
    getFetch range (fuel + 1) instruction trip inBody isMin = affine (some instruction) 1 0 := by
  have notAtHint : ¬ some instruction = range.chaseHint := fun same => notHint same.symm
  have notTrip : (decide (range.chaseHint = none) && inBody && decide (trip ≠ .null) &&
      decide (trip.opA.fetch = some instruction)) = false := by simp [notTripCount]
  rw [getFetch]
  -- `notAdd`, `notLength` and `notConversion` select the last branch on the
  -- kind of the instruction.
  simp only [notConstant, notAtHint, noInduction, notTrip, if_false, Bool.false_eq_true]

/-- The lower bound of a linear induction whose stride is an exact constant
other than `-1` is the general one: the stride times the lower bound of the trip
count, plus the lower bound of the offset. -/
theorem getLinear_min {fuel : Nat} {info trip : InductionInfo} {inBody : Bool}
    (notDescending : isConstant range fuel info.opA .exact ≠ some (-1)) :
    getLinear range (fuel + 1) info trip inBody true =
      addValue (getMul range fuel info.opA trip trip inBody true) (getVal range fuel info.opB trip inBody true) := by
  unfold getLinear
  split
  · rfl
  · split
    · split
      · rename_i strideValue isStride
        have notMinusOne : strideValue ≠ -1 := fun same => notDescending (same ▸ isStride)
        simp [notMinusOne]
      · rfl
    · rfl

end Steps

/-! ## `Math.abs` is not always `>= 0` -/

/-- `IsGEZero` accepts every call of `Math.abs`, whatever its argument. -/
theorem isGEZero_of_mathAbsInt {graph : HGraph} {abs : Nat} {arguments : List Nat}
    (isAbs : graph.instructionAt abs = .invokeStaticOrDirect .mathAbsInt arguments) :
    isGEZero graph abs := by
  simp [isGEZero, isGEZeroAt, isAbs]

/-- So `SimplifyMin` turns the lower bound `abs + b` into `b`. -/
theorem simplifyMin_of_mathAbsInt {graph : HGraph} {abs : Nat} {arguments : List Nat} {b : Int}
    (isAbs : graph.instructionAt abs = .invokeStaticOrDirect .mathAbsInt arguments) (notPositive : b ≤ 0) :
    simplifyMin graph (affine (some abs) 1 b) = constant b := by
  simp [simplifyMin, affine, notPositive, isGEZero_of_mathAbsInt isAbs]

/-- `Math.abs` of the most negative `int` is itself. -/
theorem javaAbs_intMin : javaAbs (BitVec.intMin 32) = BitVec.intMin 32 := by decide

/-- **A loop from `Math.abs(x)`.** For a linear induction of type `int` that
starts at a call of `Math.abs` defined outside the loops and steps by a constant
that is not negative, every trip count, every context in the loop and every hint
other than the call give the lower bound `0`; but when `x` is
`Integer.MIN_VALUE` the instruction takes the value `Integer.MIN_VALUE` in the
first iteration. -/
theorem getInductionRange_of_abs_offset {range : InductionVarRange}
    {fuel context instruction loop stride abs x : Nat} {strideValue : BitVec 32}
    {tripOperation : InductionOp} {tripExpression takenTest : InductionInfo} {tripType : Primitive.Type}
    {hint : Option Nat}
    (enough : 5 ≤ fuel)
    (inLoop : range.inductionAnalysis.loopOf context = some loop)
    (linear : range.inductionAnalysis.lookupInfo loop instruction =
      .node .linear .nop (.invariantFetch stride .primInt) (.invariantFetch abs .primInt) none .primInt)
    (strideConstant : range.graph.instructionAt stride = .intConstant strideValue)
    (ascending : 0 ≤ strideValue.toInt)
    (isAbs : range.graph.instructionAt abs = .invokeStaticOrDirect .mathAbsInt [x])
    (argumentFirst : x < abs)
    (absOutside : range.inductionAnalysis.loopOf abs = none)
    (tripCount : range.inductionAnalysis.lookupInfo loop (range.inductionAnalysis.loopControl loop) =
      .node .invariant tripOperation tripExpression takenTest none tripType)
    (counts : tripOperation ∈ [.tripCountInLoop, .tripCountInBody, .tripCountInLoopUnsafe, .tripCountInBodyUnsafe])
    (notTripCount : tripExpression.fetch ≠ some abs)
    (notHint : hint ≠ some abs) :
    (∃ maxVal needsFiniteTest,
      range.getInductionRange fuel context instruction hint = some (constant 0, maxVal, needsFiniteTest)) ∧
    ∀ arguments : Nat → HValue, range.graph.evaluate arguments x = some (.int (BitVec.intMin 32)) →
      (range.inductionAnalysis.lookupInfo loop instruction).valueAt
        (fun id => (range.graph.evaluate arguments id).map HValue.toInt) 0 = some (-2 ^ 31) := by
  obtain ⟨fuel, rfl⟩ : ∃ rest, fuel = rest + 5 := ⟨fuel - 5, by omega⟩
  have fits : canLongValueFitIntoInt strideValue.toInt := canLongValueFitIntoInt_toInt strideValue
  constructor
  · -- The lower bound before `SimplifyMin` is `abs` itself, for every hint but
    -- `abs` and in the body as at the header.
    have lower : ∀ inBody, getVal { range with chaseHint := hint } (fuel + 5)
        (.node .linear .nop (.invariantFetch stride .primInt) (.invariantFetch abs .primInt) none .primInt)
        (.node .invariant tripOperation tripExpression takenTest none tripType) inBody true =
          affine (some abs) 1 0 := by
      intro inBody
      have strideExact : ∀ rest, isConstant { range with chaseHint := hint } (rest + 1)
          (.invariantFetch stride .primInt) .exact = some strideValue.toInt :=
        fun rest => isConstant_invariantFetch strideConstant
      have scaled : getMul { range with chaseHint := hint } (fuel + 3) (.invariantFetch stride .primInt)
          (.node .invariant tripOperation tripExpression takenTest none tripType)
          (.node .invariant tripOperation tripExpression takenTest none tripType) inBody true = constant 0 := by
        rw [getMul, strideExact]
        exact mulRangeAndConstant_of_zero fits ascending (getVal_tripCount_min counts)
      have offset : getVal { range with chaseHint := hint } (fuel + 3) (.invariantFetch abs .primInt)
          (.node .invariant tripOperation tripExpression takenTest none tripType) inBody true =
            affine (some abs) 1 0 := by
        rw [InductionInfo.invariantFetch, getVal]
        exact getFetch_self notTripCount (by rw [isAbs]; rfl) notHint (by simp [isAbs]) (by simp [isAbs])
          (by simp [isAbs]) (by simp [hasInductionInfo, absOutside])
      have notDescending : strideValue.toInt ≠ -1 := by omega
      rw [getVal]
      simp only [correctForType]
      rw [getLinear_min (by rw [InductionInfo.opA, strideExact]; simpa using notDescending)]
      simp only [InductionInfo.opA, InductionInfo.opB, scaled, offset]
      simp [addValue, constant, affine, isSafeAdd, canLongValueFitIntoInt]
    rw [getInductionRange, hasInductionInfo_of_lookupInfo inLoop (by rw [linear]; nofun), linear, tripCount]
    simp [InductionInfo.type, InductionInfo.inductionClass, lower, simplifyMin_of_mathAbsInt isAbs (Int.le_refl 0)]
  · intro arguments minimum
    have strideEvaluated : range.graph.evaluate arguments stride = some (.int strideValue) := by
      rw [HGraph.evaluate_of_instructionAt range.graph arguments strideConstant nofun]
      rfl
    have absEvaluated : range.graph.evaluate arguments abs = some (.int (BitVec.intMin 32)) := by
      rw [HGraph.evaluate_of_instructionAt range.graph arguments isAbs nofun]
      simp [HInstruction.compute, argumentFirst, minimum, javaAbs_intMin]
    rw [linear]
    simp only [InductionInfo.valueAt, InductionInfo.invariantValue, InductionInfo.invariantFetch,
      Option.bind_some, strideEvaluated, absEvaluated, Option.map_some, HValue.toInt]
    show some (javaWrap .primInt (strideValue.toInt * ((0 : Nat) : Int) + (BitVec.intMin 32).toInt)) = _
    rw [Int.natCast_zero, Int.mul_zero, Int.zero_add]
    decide

/-- `static int sum(int[] a, int x)`, whose loop is
`for (int i = Math.abs(x); i < a.length; i++) s += a[i];`: the two parameters,
the null check and the length of `a`, the call, the stride, the phi of `i`, the
bounds check of `a[i]` and the update of `i`. -/
def sumFromAbs : HGraph :=
  [.parameterValue .primNot, .parameterValue .primInt, .nullCheck 0, .arrayLength 2,
    .invokeStaticOrDirect .mathAbsInt [1], .intConstant 1, .phi .primInt [4, 8], .boundsCheck 6 3,
    .add .primInt 6 5]

/-- The loop of `sumFromAbs` (loop `0`): its header is block `1`, which holds the
phi and the test `i < a.length` (instruction `9`), and its body is block `2`.
The analysis finds `i` linear, `1 * i + abs(x)`, and the trip count
`a.length - abs(x)`, taken when `abs(x) < a.length`. -/
def sumFromAbsLoops : InductionAnalysis where
  loopOf id := if 6 ≤ id ∧ id ≤ 9 then some 0 else none
  blockOf id := if id = 6 ∨ id = 9 then 1 else if id = 7 ∨ id = 8 then 2 else 0
  header _ := 1
  loopControl _ := 9
  lookupInfo loop id :=
    if loop = 0 ∧ id = 6 then
      .node .linear .nop (.invariantFetch 5 .primInt) (.invariantFetch 4 .primInt) none .primInt
    else if loop = 0 ∧ id = 9 then
      .node .invariant .tripCountInBody
        (.node .invariant .sub (.invariantFetch 3 .primInt) (.invariantFetch 4 .primInt) none .primInt)
        (.node .invariant .lt (.invariantFetch 4 .primInt) (.invariantFetch 3 .primInt) none .primInt) none .primInt
    else .null

/-- `sum(new int[1], Integer.MIN_VALUE)`. -/
def sumFromAbsArguments : Nat → HValue := fun id => if id = 1 then .int (BitVec.intMin 32) else .int 1

/-- Asked by bounds-check elimination about `i` at `a[i]`, with the array as the
hint, the analysis gives the lower bound `0`, while `i` is `Integer.MIN_VALUE`
in the first iteration of `sum(new int[1], Integer.MIN_VALUE)`. -/
theorem sumFromAbs_index_below_range :
    (∃ maxVal needsFiniteTest, InductionVarRange.getInductionRange ⟨sumFromAbs, sumFromAbsLoops, none⟩ 5 7 6 (some 0) =
      some (constant 0, maxVal, needsFiniteTest)) ∧
    (sumFromAbsLoops.lookupInfo 0 6).valueAt
      (fun id => (sumFromAbs.evaluate sumFromAbsArguments id).map HValue.toInt) 0 = some (-2 ^ 31) := by
  obtain ⟨bounds, first⟩ := @getInductionRange_of_abs_offset ⟨sumFromAbs, sumFromAbsLoops, none⟩ 5 7 6 0 5 4 1 1
    .tripCountInBody (.node .invariant .sub (.invariantFetch 3 .primInt) (.invariantFetch 4 .primInt) none .primInt)
    (.node .invariant .lt (.invariantFetch 4 .primInt) (.invariantFetch 3 .primInt) none .primInt) .primInt (some 0)
    (by decide) (by decide) (by decide) (by decide) (by decide) (by decide) (by decide) (by decide) (by decide)
    (by decide) (by decide) (by decide)
  exact ⟨bounds, first sumFromAbsArguments (by decide)⟩

end InductionVarRange

end Art.Compiler.Optimizing
