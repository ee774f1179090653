import Art.Compiler.Optimizing.MoveOperands

/-!
# Integral instructions of the graph and what they compute

The optimizing compiler's graph holds `HInstruction`s whose inputs are other
instructions. This module keeps the integral ones the simplifier and the range
analysis look at, the constants, and the few others whose kind they test (array
lengths, new arrays, null checks, type conversions, calls of intrinsics). An
instruction refers to its inputs by their index in the graph, which stands for
the pointer the code compares; the graph lists an instruction after its inputs,
as the code's definitions dominate their uses.

Each arithmetic instruction computes by its `Compute` function (`HShl.compute`,
`HRor.compute`, ...) on two's-complement words of the width of its type. A shift
distance is an `int` masked by `kMaxIntShiftDistance` or `kMaxLongShiftDistance`,
so the masked distance is the distance modulo the width
(`toNat_and_kMaxIntShiftDistance`, `toNat_neg_and_kMaxIntShiftDistance`).
Division and remainder round to zero, and off a divisor `-1` they are the integer
ones (`HDiv.toInt_computeIntegral`, `HRem.toInt_computeIntegral`).
`HGraph.evaluate` runs the graph on values for its parameters.
-/

set_option autoImplicit false

namespace Art.Compiler.Optimizing

/-- `Primitive::ComponentSize`, with references of four bytes. -/
def Primitive.componentSize : Primitive.Type → Nat
  | .primVoid => 0
  | .primBoolean | .primByte => 1
  | .primChar | .primShort => 2
  | .primInt | .primFloat => 4
  | .primLong | .primDouble => 8
  | .primNot => 4

/-- `kMaxIntShiftDistance`. -/
def kMaxIntShiftDistance : BitVec 32 := 0x1f

/-- `kMaxLongShiftDistance`. -/
def kMaxLongShiftDistance : BitVec 32 := 0x3f

/-! ## What the instructions compute -/

/-- `HAdd::Compute`. -/
def HAdd.compute {w : Nat} (x y : BitVec w) : BitVec w := x + y

/-- `HSub::Compute`. -/
def HSub.compute {w : Nat} (x y : BitVec w) : BitVec w := x - y

/-- `HNeg::Compute`. -/
def HNeg.compute {w : Nat} (x : BitVec w) : BitVec w := -x

/-- `HOr::Compute`. -/
def HOr.compute {w : Nat} (x y : BitVec w) : BitVec w := x ||| y

/-- `HXor::Compute`. -/
def HXor.compute {w : Nat} (x y : BitVec w) : BitVec w := x ^^^ y

/-- `HDiv::ComputeIntegral`: Java's division, rounding to zero, with `-1` taken
apart so that the most negative value divided by `-1` is itself. -/
def HDiv.computeIntegral {w : Nat} (x y : BitVec w) : BitVec w :=
  if y = -1 then -x else x.sdiv y

/-- `HRem::ComputeIntegral`: the remainder of Java's division, with `-1` taken
apart so that the most negative value has the remainder `0`. -/
def HRem.computeIntegral {w : Nat} (x y : BitVec w) : BitVec w :=
  if y = -1 then 0 else x.srem y

theorem natAbs_toInt_neg_one_le {w : Nat} : (-1 : BitVec w).toInt.natAbs ≤ 1 := by
  rw [show (-1 : BitVec w) = BitVec.allOnes w from BitVec.neg_one_eq_allOnes, BitVec.toInt_allOnes]
  split <;> simp

/-- Off `-1` no division of words overflows: for `|y| ≥ 2` Java's quotient is the
integer quotient rounded to zero. -/
theorem HDiv.toInt_computeIntegral {w : Nat} (x y : BitVec w) (two_le : 2 ≤ y.toInt.natAbs) :
    (HDiv.computeIntegral x y).toInt = x.toInt.tdiv y.toInt := by
  have notMinusOne : y ≠ -1 := by
    rintro rfl
    have := natAbs_toInt_neg_one_le (w := w)
    omega
  rw [HDiv.computeIntegral, if_neg notMinusOne, BitVec.toInt_sdiv_of_ne_or_ne x y (Or.inr notMinusOne)]

/-- Taking `-1` apart does not change the remainder: it is `BitVec.srem` for every
divisor. -/
theorem HRem.computeIntegral_eq_srem {w : Nat} (x y : BitVec w) : HRem.computeIntegral x y = x.srem y := by
  rw [HRem.computeIntegral]
  split
  · rename_i minusOne
    subst minusOne
    apply BitVec.eq_of_toInt_eq
    rw [BitVec.toInt_srem, show (-1 : BitVec w) = BitVec.allOnes w from BitVec.neg_one_eq_allOnes,
      BitVec.toInt_allOnes]
    split
    · simp
    · -- a word of no bits is zero
      obtain rfl : w = 0 := by omega
      simp [BitVec.of_length_zero]
  · rfl

/-- Java's remainder is the integer remainder of the quotient rounded to zero. -/
theorem HRem.toInt_computeIntegral {w : Nat} (x y : BitVec w) :
    (HRem.computeIntegral x y).toInt = x.toInt.tmod y.toInt := by
  rw [HRem.computeIntegral_eq_srem, BitVec.toInt_srem]

/-- `HShl::Compute`: the distance is masked by the largest shift of the type. -/
def HShl.compute {w : Nat} (value : BitVec w) (distance maxShiftDistance : BitVec 32) : BitVec w :=
  value <<< (distance &&& maxShiftDistance).toNat

/-- `HUShr::Compute`: a shift right of the unsigned word. -/
def HUShr.compute {w : Nat} (value : BitVec w) (distance maxShiftDistance : BitVec 32) : BitVec w :=
  value >>> (distance &&& maxShiftDistance).toNat

/-- `HRor::Compute`: the word itself for a masked distance of zero, and otherwise
the or of the word shifted right by the distance and left by the rest of the
width. -/
def HRor.compute {w : Nat} (value : BitVec w) (distance maxShiftValue : BitVec 32) : BitVec w :=
  if distance &&& maxShiftValue = 0 then value
  else value >>> (distance &&& maxShiftValue).toNat ||| value <<< (w - (distance &&& maxShiftValue).toNat)

/-! ## Masked shift distances -/

/-- An `int` shift distance is taken modulo 32. -/
theorem toNat_and_kMaxIntShiftDistance (distance : BitVec 32) :
    (distance &&& kMaxIntShiftDistance).toNat = distance.toNat % 32 := by
  rw [BitVec.toNat_and, show kMaxIntShiftDistance.toNat = 2 ^ 5 - 1 from rfl,
    Nat.and_two_pow_sub_one_eq_mod]

/-- A `long` shift distance is taken modulo 64. -/
theorem toNat_and_kMaxLongShiftDistance (distance : BitVec 32) :
    (distance &&& kMaxLongShiftDistance).toNat = distance.toNat % 64 := by
  rw [BitVec.toNat_and, show kMaxLongShiftDistance.toNat = 2 ^ 6 - 1 from rfl,
    Nat.and_two_pow_sub_one_eq_mod]

/-- The negated distance, masked for an `int`, is what is left of the width. -/
theorem toNat_neg_and_kMaxIntShiftDistance (distance : BitVec 32) :
    ((-distance) &&& kMaxIntShiftDistance).toNat = (32 - distance.toNat % 32) % 32 := by
  have bound := distance.isLt
  rw [toNat_and_kMaxIntShiftDistance, BitVec.toNat_neg]
  omega

/-- The negated distance, masked for a `long`, is what is left of the width. -/
theorem toNat_neg_and_kMaxLongShiftDistance (distance : BitVec 32) :
    ((-distance) &&& kMaxLongShiftDistance).toNat = (64 - distance.toNat % 64) % 64 := by
  have bound := distance.isLt
  rw [toNat_and_kMaxLongShiftDistance, BitVec.toNat_neg]
  omega

/-! ## Shifts by a masked distance -/

section Shifts

variable {w : Nat} {maxShift : BitVec 32}

/-- `HUShr::Compute` shifts by the distance modulo the width, for a mask that
keeps the distance modulo the width. -/
theorem HUShr.compute_eq (masked : ∀ distance : BitVec 32, (distance &&& maxShift).toNat = distance.toNat % w)
    (value : BitVec w) (distance : BitVec 32) :
    HUShr.compute value distance maxShift = value >>> (distance.toNat % w) := by
  rw [HUShr.compute, masked]

/-- `HShl::Compute` shifts by the distance modulo the width. -/
theorem HShl.compute_eq (masked : ∀ distance : BitVec 32, (distance &&& maxShift).toNat = distance.toNat % w)
    (value : BitVec w) (distance : BitVec 32) :
    HShl.compute value distance maxShift = value <<< (distance.toNat % w) := by
  rw [HShl.compute, masked]

/-- `HRor::Compute` rotates right by the distance modulo the width. -/
theorem HRor.compute_eq_rotateRight
    (masked : ∀ distance : BitVec 32, (distance &&& maxShift).toNat = distance.toNat % w)
    (value : BitVec w) (distance : BitVec 32) :
    HRor.compute value distance maxShift = value.rotateRight (distance.toNat % w) := by
  have reduced : distance.toNat % w % w = distance.toNat % w := Nat.mod_mod _ _
  rw [HRor.compute, BitVec.rotateRight_def, reduced, ← masked]
  split_ifs with zero
  · simp [zero]
  · rfl

end Shifts

/-! ## Instructions and graphs -/

/-- A value an integral instruction computes: an `int` or a `long`. -/
inductive HValue
  | int (value : BitVec 32)
  | long (value : BitVec 64)
  deriving DecidableEq, Repr

/-- `Intrinsics`: the intrinsics the analyses here recognize, and the others. -/
inductive Intrinsics
  | none
  | mathMinIntInt
  | mathMinLongLong
  | mathAbsInt
  | mathAbsLong
  deriving DecidableEq, Repr

/-- An `HInstruction`, with its inputs given by their index in the graph. -/
inductive HInstruction
  | parameterValue (type : Primitive.Type)
  | intConstant (value : BitVec 32)
  | longConstant (value : BitVec 64)
  | nullConstant
  | add (type : Primitive.Type) (left right : Nat)
  | sub (type : Primitive.Type) (left right : Nat)
  | neg (type : Primitive.Type) (input : Nat)
  | div (type : Primitive.Type) (left right : Nat)
  | or (type : Primitive.Type) (left right : Nat)
  | xor (type : Primitive.Type) (left right : Nat)
  | shl (type : Primitive.Type) (value distance : Nat)
  | ushr (type : Primitive.Type) (value distance : Nat)
  | ror (type : Primitive.Type) (value distance : Nat)
  | arrayLength (array : Nat)
  | newArray (length : Nat)
  | nullCheck (input : Nat)
  | typeConversion (resultType : Primitive.Type) (input : Nat)
  | invokeStaticOrDirect (intrinsic : Intrinsics) (arguments : List Nat)
  | phi (type : Primitive.Type) (inputs : List Nat)
  | boundsCheck (index length : Nat)
  deriving DecidableEq, Repr

/-- The instructions of a graph, each after its inputs. -/
abbrev HGraph := List HInstruction

namespace HValue

/-- The type of a value. -/
def type : HValue → Primitive.Type
  | int _ => .primInt
  | long _ => .primLong

/-- The value as an integer, read as Java reads it: signed. -/
def toInt : HValue → Int
  | int x => x.toInt
  | long x => x.toInt

/-- The width of a value in bits. -/
def width : HValue → Nat
  | int _ => 32
  | long _ => 64

/-- Apply a binary operation of the words to two values of one type. -/
def binary (operation : ∀ {w : Nat}, BitVec w → BitVec w → BitVec w) : HValue → HValue → Option HValue
  | int x, int y => some (int (operation x y))
  | long x, long y => some (long (operation x y))
  | _, _ => none

/-- A commutative operation of the words applies to the values in either order. -/
theorem binary_comm {operation : ∀ {w : Nat}, BitVec w → BitVec w → BitVec w}
    (comm : ∀ {w : Nat} (x y : BitVec w), operation x y = operation y x) (first second : HValue) :
    binary operation first second = binary operation second first := by
  cases first <;> cases second <;> simp [binary, comm]

/-- Shift a value by an `int` distance, masked for the type of the value. -/
def shift (operation : ∀ {w : Nat}, BitVec w → BitVec 32 → BitVec 32 → BitVec w) :
    HValue → HValue → Option HValue
  | int x, int distance => some (int (operation x distance kMaxIntShiftDistance))
  | long x, int distance => some (long (operation x distance kMaxLongShiftDistance))
  | _, _ => none

/-- `HTypeConversion` of an integral value: narrowing keeps the low bits, and a
byte, short or char is held in an `int`, sign- or zero-extended. -/
def convert (resultType : Primitive.Type) (value : HValue) : Option HValue :=
  let word : BitVec 64 := match value with
    | int x => x.signExtend 64
    | long x => x
  match resultType with
  | .primLong => some (long word)
  | .primInt => some (int (word.setWidth 32))
  | .primShort => some (int ((word.setWidth 16).signExtend 32))
  | .primChar => some (int ((word.setWidth 16).setWidth 32))
  | .primByte => some (int ((word.setWidth 8).signExtend 32))
  | _ => none

end HValue

/-- `Math.abs` on a word: the most negative word is its own absolute value. -/
def javaAbs {w : Nat} (x : BitVec w) : BitVec w := if x.slt 0 then -x else x

/-- `Math.min` on words. -/
def javaMin {w : Nat} (x y : BitVec w) : BitVec w := if x.sle y then x else y

namespace HInstruction

/-- What an instruction computes from the values of its inputs; `argument` is
the value of a parameter, or the length of the array an `HArrayLength` reads.
References, a division by zero, an index out of bounds and the calls of other
methods give no value, and neither does a phi, whose value depends on the path
that reached it. -/
def compute (instruction : HInstruction) (input : Nat → Option HValue) (argument : HValue) :
    Option HValue :=
  match instruction with
  | parameterValue _ => some argument
  | intConstant value => some (.int value)
  | longConstant value => some (.long value)
  | nullConstant => none
  | add _ left right => do HValue.binary HAdd.compute (← input left) (← input right)
  | sub _ left right => do HValue.binary HSub.compute (← input left) (← input right)
  | neg _ operand => do
      match ← input operand with
      | .int x => some (.int (HNeg.compute x))
      | .long x => some (.long (HNeg.compute x))
  | div _ left right => do
      match ← input left, ← input right with
      | .int x, .int y => if y = 0 then none else some (.int (HDiv.computeIntegral x y))
      | .long x, .long y => if y = 0 then none else some (.long (HDiv.computeIntegral x y))
      | _, _ => none
  | or _ left right => do HValue.binary HOr.compute (← input left) (← input right)
  | xor _ left right => do HValue.binary HXor.compute (← input left) (← input right)
  | shl _ value distance => do HValue.shift HShl.compute (← input value) (← input distance)
  | ushr _ value distance => do HValue.shift HUShr.compute (← input value) (← input distance)
  | ror _ value distance => do HValue.shift HRor.compute (← input value) (← input distance)
  | arrayLength _ => some argument
  | newArray _ => none
  | nullCheck _ => none
  | typeConversion resultType operand => do HValue.convert resultType (← input operand)
  | invokeStaticOrDirect intrinsic arguments =>
      match intrinsic, arguments with
      | .mathAbsInt, [operand] | .mathAbsLong, [operand] => do
          match ← input operand with
          | .int x => some (.int (javaAbs x))
          | .long x => some (.long (javaAbs x))
      | .mathMinIntInt, [left, right] | .mathMinLongLong, [left, right] => do
          HValue.binary javaMin (← input left) (← input right)
      | _, _ => none
  | phi _ _ => none
  | boundsCheck index length => do
      match ← input index, ← input length with
      | .int i, .int n => if 0 ≤ i.toInt ∧ i.toInt < n.toInt then some (.int i) else none
      | _, _ => none

end HInstruction

namespace HInstruction

/-- `GetType`: the type of the value, with the calls of other methods typed
`void` and a null check typed as the reference it checks. -/
def getType : HInstruction → Primitive.Type
  | parameterValue type => type
  | intConstant _ | arrayLength _ | boundsCheck _ _ => .primInt
  | longConstant _ => .primLong
  | nullConstant | newArray _ | nullCheck _ => .primNot
  | add type _ _ | sub type _ _ | neg type _ | div type _ _ | or type _ _ | xor type _ _ => type
  | shl type _ _ | ushr type _ _ | ror type _ _ | phi type _ => type
  | typeConversion resultType _ => resultType
  | invokeStaticOrDirect .mathAbsInt _ | invokeStaticOrDirect .mathMinIntInt _ => .primInt
  | invokeStaticOrDirect .mathAbsLong _ | invokeStaticOrDirect .mathMinLongLong _ => .primLong
  | invokeStaticOrDirect .none _ => .primVoid

/-- `IsConstant`. -/
def isConstant : HInstruction → Bool
  | intConstant _ | longConstant _ | nullConstant => true
  | _ => false

/-- `IsSub`. -/
def isSub : HInstruction → Bool
  | sub _ _ _ => true
  | _ => false

/-- `IsNeg`. -/
def isNeg : HInstruction → Bool
  | neg _ _ => true
  | _ => false

/-- `InputAt(0)`. -/
def inputAt0 : HInstruction → Option Nat
  | add _ left _ | sub _ left _ | div _ left _ | or _ left _ | xor _ left _ => some left
  | neg _ input | shl _ input _ | ushr _ input _ | ror _ input _ => some input
  | arrayLength input | nullCheck input | typeConversion _ input => some input
  | invokeStaticOrDirect _ (input :: _) => some input
  | _ => none

/-- `IsInt64AndGet`: the value of an integral constant, the null constant being 0. -/
def isInt64AndGet : HInstruction → Option (BitVec 64)
  | intConstant value => some (value.signExtend 64)
  | longConstant value => some value
  | nullConstant => some 0
  | _ => none

/-- An `int` constant is read sign-extended. -/
theorem isInt64AndGet_intConstant (value : BitVec 32) :
    (intConstant value).isInt64AndGet = some (value.signExtend 64) := rfl

/-- `Int64FromConstant`, read on a constant. -/
def int64FromConstant (constant : HInstruction) : BitVec 64 :=
  (isInt64AndGet constant).getD 0

end HInstruction

namespace HGraph

/-- The instruction at an index; an index past the end reads as the null
constant, which no analysis here looks for. -/
def instructionAt (graph : HGraph) (id : Nat) : HInstruction := graph[id]?.getD .nullConstant

/-- Run the graph up to an instruction, the parameters holding `arguments`. An
input listed after the instruction that reads it gives no value, and so does an
index past the end; `fuel` bounds the depth and `evaluate` gives enough. -/
def evaluateAt (graph : HGraph) (arguments : Nat → HValue) : Nat → Nat → Option HValue
  | 0, _ => none
  | fuel + 1, id =>
      match graph[id]? with
      | none => none
      | some instruction =>
          instruction.compute (fun input => if input < id then evaluateAt graph arguments fuel input else none)
            (arguments id)

/-- The value of the instruction at an index. -/
def evaluate (graph : HGraph) (arguments : Nat → HValue) (id : Nat) : Option HValue :=
  graph.evaluateAt arguments (id + 1) id

variable (graph : HGraph) (arguments : Nat → HValue)

/-- More fuel than the index changes nothing: every input read has a smaller
index. -/
theorem evaluateAt_of_lt : ∀ (id fuel : Nat), id < fuel →
    graph.evaluateAt arguments fuel id = graph.evaluate arguments id := by
  intro id
  induction id using Nat.strongRecOn with
  | ind id ih =>
      intro fuel enough
      obtain ⟨fuel, rfl⟩ : ∃ previous, fuel = previous + 1 := ⟨fuel - 1, by omega⟩
      simp only [evaluate, evaluateAt]
      -- The inputs below `id` are read with `fuel` and with `id` units of fuel.
      have inputs : (fun input => if input < id then graph.evaluateAt arguments fuel input else none) =
          fun input => if input < id then graph.evaluateAt arguments id input else none := by
        funext input
        split_ifs with below
        · rw [ih input below fuel (by omega), ih input below id below]
        · rfl
      rw [inputs]

/-- The value of an instruction is what it computes from the values of the
inputs listed before it. -/
theorem evaluate_eq (id : Nat) :
    graph.evaluate arguments id =
      match graph[id]? with
      | none => none
      | some instruction =>
          instruction.compute (fun input => if input < id then graph.evaluate arguments input else none)
            (arguments id) := by
  have inputs : (fun input => if input < id then graph.evaluateAt arguments id input else none) =
      fun input => if input < id then graph.evaluate arguments input else none := by
    funext input
    split_ifs with below
    · exact evaluateAt_of_lt graph arguments input id below
    · rfl
  show graph.evaluateAt arguments (id + 1) id = _
  rw [evaluateAt, inputs]

/-- The value of an instruction other than the null constant, read by its kind. -/
theorem evaluate_of_instructionAt {id : Nat} {instruction : HInstruction}
    (at_ : graph.instructionAt id = instruction) (notNull : instruction ≠ .nullConstant) :
    graph.evaluate arguments id =
      instruction.compute (fun input => if input < id then graph.evaluate arguments input else none)
        (arguments id) := by
  rw [evaluate_eq]
  unfold instructionAt at at_
  cases found : graph[id]? with
  | none => rw [found] at at_; exact absurd at_.symm notNull
  | some present => rw [found] at at_; simp only [Option.getD_some] at at_; subst at_; rfl

/-- Graphs with the same instructions below an index give them the same values. -/
theorem evaluate_congr {other : HGraph} {bound : Nat}
    (same : ∀ id < bound, other[id]? = graph[id]?) :
    ∀ id < bound, other.evaluate arguments id = graph.evaluate arguments id := by
  intro id
  induction id using Nat.strongRecOn with
  | ind id ih =>
      intro below
      rw [evaluate_eq, evaluate_eq, same id below]
      have inputs : (fun input => if input < id then other.evaluate arguments input else none) =
          fun input => if input < id then graph.evaluate arguments input else none := by
        funext input
        split_ifs with earlier
        · exact ih input earlier (by omega)
        · rfl
      rw [inputs]

/-- An input read by an instruction has a value only when it is listed before it. -/
theorem guarded_eq_some {id input : Nat} {value : HValue} :
    (if input < id then graph.evaluate arguments input else none) = some value ↔
      input < id ∧ graph.evaluate arguments input = some value := by
  split_ifs with before <;> simp [before]

variable {graph arguments}

/-- An instruction that applies a binary operation to two inputs has a value only
when both inputs come before it and have values. -/
theorem evaluate_of_binary {id left right : Nat} {operation : ∀ {w : Nat}, BitVec w → BitVec w → BitVec w}
    {result : HValue}
    (computes : ∀ input argument, (graph.instructionAt id).compute input argument =
      do HValue.binary operation (← input left) (← input right))
    (notNull : graph.instructionAt id ≠ .nullConstant)
    (evaluated : graph.evaluate arguments id = some result) :
    left < id ∧ right < id ∧ ∃ first second, graph.evaluate arguments left = some first ∧
      graph.evaluate arguments right = some second ∧ HValue.binary operation first second = some result := by
  rw [evaluate_of_instructionAt graph arguments rfl notNull, computes] at evaluated
  simp only [Option.bind_eq_bind, Option.bind_eq_some_iff, guarded_eq_some] at evaluated
  obtain ⟨first, ⟨leftBefore, leftValue⟩, second, ⟨rightBefore, rightValue⟩, combined⟩ := evaluated
  exact ⟨leftBefore, rightBefore, first, second, leftValue, rightValue, combined⟩

/-- An instruction that shifts an input by another has a value only when both
come before it and have values. -/
theorem evaluate_of_shift {id value distance : Nat}
    {operation : ∀ {w : Nat}, BitVec w → BitVec 32 → BitVec 32 → BitVec w} {result : HValue}
    (computes : ∀ input argument, (graph.instructionAt id).compute input argument =
      do HValue.shift operation (← input value) (← input distance))
    (notNull : graph.instructionAt id ≠ .nullConstant)
    (evaluated : graph.evaluate arguments id = some result) :
    value < id ∧ distance < id ∧ ∃ shifted amount, graph.evaluate arguments value = some shifted ∧
      graph.evaluate arguments distance = some amount ∧ HValue.shift operation shifted amount = some result := by
  rw [evaluate_of_instructionAt graph arguments rfl notNull, computes] at evaluated
  simp only [Option.bind_eq_bind, Option.bind_eq_some_iff, guarded_eq_some] at evaluated
  obtain ⟨shifted, ⟨valueBefore, valueValue⟩, amount, ⟨distanceBefore, distanceValue⟩, combined⟩ := evaluated
  exact ⟨valueBefore, distanceBefore, shifted, amount, valueValue, distanceValue, combined⟩

/-- A shift whose inputs come before it and have values has the shifted value. -/
theorem evaluate_shift {id value distance : Nat}
    {operation : ∀ {w : Nat}, BitVec w → BitVec 32 → BitVec 32 → BitVec w} {shifted amount : HValue}
    (computes : ∀ input argument, (graph.instructionAt id).compute input argument =
      do HValue.shift operation (← input value) (← input distance))
    (notNull : graph.instructionAt id ≠ .nullConstant)
    (valueBefore : value < id) (distanceBefore : distance < id)
    (valueValue : graph.evaluate arguments value = some shifted)
    (distanceValue : graph.evaluate arguments distance = some amount) :
    graph.evaluate arguments id = HValue.shift operation shifted amount := by
  rw [evaluate_of_instructionAt graph arguments rfl notNull, computes]
  simp [valueBefore, distanceBefore, valueValue, distanceValue]

/-- The null constant, and an index past the end, have no value. -/
theorem evaluate_of_nullConstant {id : Nat} (found : graph.instructionAt id = .nullConstant) :
    graph.evaluate arguments id = none := by
  rw [evaluate_eq]
  unfold instructionAt at found
  cases present : graph[id]? with
  | none => rfl
  | some instruction =>
      rw [present] at found
      simp only [Option.getD_some] at found
      subst found
      rfl

/-- A constant with an `int` value is the `HIntConstant` of that value. -/
theorem int64FromConstant_of_evaluate {id : Nat} {value : BitVec 32}
    (constant : (graph.instructionAt id).isConstant) (evaluated : graph.evaluate arguments id = some (.int value)) :
    (graph.instructionAt id).int64FromConstant = value.signExtend 64 := by
  cases found : graph.instructionAt id with
  | intConstant stored =>
      rw [evaluate_of_instructionAt graph arguments found nofun] at evaluated
      simp only [HInstruction.compute, Option.some.injEq, HValue.int.injEq] at evaluated
      rw [evaluated]
      rfl
  | longConstant stored =>
      rw [evaluate_of_instructionAt graph arguments found nofun] at evaluated
      simp [HInstruction.compute] at evaluated
  | nullConstant => rw [evaluate_of_nullConstant found] at evaluated; cases evaluated
  | _ => rw [found] at constant; cases constant

/-- An `HNeg` has a value only when its input comes before it and has one. -/
theorem evaluate_of_neg {id input : Nat} {type : Primitive.Type} {result : HValue}
    (found : graph.instructionAt id = .neg type input) (evaluated : graph.evaluate arguments id = some result) :
    input < id ∧ ∃ operand, graph.evaluate arguments input = some operand ∧
      result = match operand with
        | .int x => .int (HNeg.compute x)
        | .long x => .long (HNeg.compute x) := by
  rw [evaluate_of_instructionAt graph arguments found nofun] at evaluated
  simp only [HInstruction.compute, Option.bind_eq_bind, Option.bind_eq_some_iff, guarded_eq_some] at evaluated
  obtain ⟨operand, ⟨before, value⟩, computed⟩ := evaluated
  refine ⟨before, operand, value, ?_⟩
  cases operand <;> simp_all

end HGraph

end Art.Compiler.Optimizing
