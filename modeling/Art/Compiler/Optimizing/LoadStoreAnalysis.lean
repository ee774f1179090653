import Art.Compiler.Optimizing.Nodes
import Mathlib.Data.BitVec
import Mathlib.Data.List.Nodup
import Mathlib.Data.Set.Function
import Mathlib.Tactic.Ring

/-!
# Which heap locations may alias

`HeapLocationCollector` lists the heap locations a method reads and writes: a
field of an object (a reference, an offset and the declaring class) or an element
of an array (a reference and the index instruction). `ComputeMayAlias` decides for
two locations whether they may be the same cell, and `BuildAliasingMatrix` keeps
the answer for each pair `i < j` in one bit of a vector, at the position
`AliasingMatrixPosition(i, j)`, which `MayAlias` reads back.

Two array indices are told apart only in a few shapes (`CanArrayIndicesAlias`):
two different constants, `i` against `i ± c` with `c ≠ 0`, and `i ± c1` against
`i ± c2` with constants that differ as the operations ask. The answer "no alias" is
sound: under every assignment of `int` values to the graph that its constants,
additions and subtractions respect, the two indices have different values
(`canArrayIndicesAlias_sound`). The constants are compared as `int`s, so the test
`CONST1 == -CONST2` of `[i + CONST1]` against `[i - CONST2]` is exact also where
the negation wraps.

The positions of the pairs, in the order `BuildAliasingMatrix` visits them, are
`0, 1, 2, …` up to `n (n - 1) / 2` (`map_aliasingMatrixPosition_matrixPairs`): the
counter that the `DCHECK` compares each position with is the position itself, and
the position is a bijection from the pairs `i < j < n` onto the bits
(`aliasingMatrixPosition_bijOn`). `MayAlias` of two different locations therefore
reads `ComputeMayAlias` of the pair (`mayAlias_buildAliasingMatrix`).

A location names a cell: the object its reference holds, the field, and the value
of the index of an array element. What the reference infos say of the objects is
taken as given (`RespectsReferenceInfos`): the escape analysis behind
`IsSingleton`, and that an allocation holds no object that a name visited before
it in the reverse post order holds. Under it, two collected locations that
`MayAlias` calls disjoint name different cells (`cell_ne_of_mayAlias`). The side
effect of `ComputeMayAlias` on `HasIndexAliasing`, which this pass does not read,
is left out.
-/

set_option autoImplicit false

namespace Art.Compiler.Optimizing

namespace HInstruction

/-- `IsBinaryOperation`, with `GetLeft` and `GetRight`. -/
def binaryOperands : HInstruction → Option (Nat × Nat)
  | add _ left right | sub _ left right | div _ left right | or _ left right | xor _ left right =>
      some (left, right)
  | shl _ left right | ushr _ left right | ror _ left right => some (left, right)
  | _ => none

/-- `IsCommutative`. -/
def isCommutative : HInstruction → Bool
  | add .. | or .. | xor .. => true
  | _ => false

/-- `IsAdd`. -/
def isAdd : HInstruction → Bool
  | add .. => true
  | _ => false

/-- The value of an `int` constant, what `AsIntConstant()->GetValue()` reads. -/
def intConstantValue : HInstruction → Option (BitVec 32)
  | intConstant value => some value
  | _ => none

/-- Only an `int` constant has an `int` constant's value. -/
@[simp]
theorem intConstantValue_eq_some {instruction : HInstruction} {c : BitVec 32} :
    instruction.intConstantValue = some c ↔ instruction = intConstant c := by
  cases instruction <;> simp [intConstantValue]

/-- `IsArithmeticZero` of a constant: a zero `int` or `long`. -/
def isArithmeticZero : HInstruction → Bool
  | intConstant value => value == 0
  | longConstant value => value == 0
  | _ => false

/-- `HBinaryOperation::GetConstantRight`: the right operand if it is a constant,
else the left one if it is a constant and the operation commutes. -/
def getConstantRight (graph : HGraph) (instruction : HInstruction) : Option Nat :=
  match instruction.binaryOperands with
  | none => none
  | some (left, right) =>
    if (graph.instructionAt right).isConstant then some right
    else if instruction.isCommutative && (graph.instructionAt left).isConstant then some left
    else none

/-- `HBinaryOperation::GetLeastConstantLeft`: the operand `GetConstantRight` did not
return. -/
def getLeastConstantLeft (graph : HGraph) (instruction : HInstruction) : Option Nat :=
  match instruction.binaryOperands, instruction.getConstantRight graph with
  | some (left, right), some mostConstantRight => if mostConstantRight = left then some right else some left
  | _, _ => none

end HInstruction

namespace HeapLocationCollector

open HInstruction

variable (graph : HGraph)

/-! ## Array indices -/

/-- `BinaryOpAndIndexMayAlias(idx1, idx2)`: whether `array[idx1]` and `array[idx2]`
may alias when `idx1` is a binary operation. -/
def binaryOpAndIndexMayAlias (idx1 idx2 : Nat) : Bool :=
  let operation := graph.instructionAt idx1
  if !operation.isAdd && !operation.isSub then true
  else
    match operation.getConstantRight graph with
    | none => true
    | some cst =>
      if (graph.instructionAt cst).isArithmeticZero then true
      else if operation.getLeastConstantLeft graph = some idx2 then false
      else true

/-- `BinaryOpsMayAlias(idx1, idx2)`: whether `[i ± CONST1]` and `[i ± CONST2]` may
alias. The constants are read as `int`s; another constant, which an `int` index
does not have, is answered "may alias". -/
def binaryOpsMayAlias (idx1 idx2 : Nat) : Bool :=
  let operation1 := graph.instructionAt idx1
  let operation2 := graph.instructionAt idx2
  match operation1.getConstantRight graph, operation1.getLeastConstantLeft graph,
      operation2.getConstantRight graph, operation2.getLeastConstantLeft graph with
  | some idx1Cst, some idx1Other, some idx2Cst, some idx2Other =>
    if idx1Other ≠ idx2Other then true
    else
      match (graph.instructionAt idx1Cst).intConstantValue, (graph.instructionAt idx2Cst).intConstantValue with
      | some value1, some value2 =>
        if (operation1.isAdd && operation2.isAdd) || (operation1.isSub && operation2.isSub) then value1 == value2
        -- `[i + CONST1]` and `[i - CONST2]` may alias iff `CONST1 == -CONST2`
        else if (operation1.isAdd && operation2.isSub) || (operation1.isSub && operation2.isAdd) then
          value1 == -value2
        else true
      | _, _ => true
  | _, _, _, _ => true

/-- `HeapLocationCollector::CanArrayIndicesAlias`. -/
def canArrayIndicesAlias (idx1 idx2 : Nat) : Bool :=
  if idx1 = idx2 then true
  else
    match (graph.instructionAt idx1).intConstantValue, (graph.instructionAt idx2).intConstantValue with
    | some value1, some value2 => value1 == value2
    | _, _ =>
      if (graph.instructionAt idx1).binaryOperands.isSome && !binaryOpAndIndexMayAlias graph idx1 idx2 then false
      else if (graph.instructionAt idx2).binaryOperands.isSome && !binaryOpAndIndexMayAlias graph idx2 idx1 then false
      else if (graph.instructionAt idx1).binaryOperands.isSome && (graph.instructionAt idx2).binaryOperands.isSome &&
          !binaryOpsMayAlias graph idx1 idx2 then false
      else true

end HeapLocationCollector

/-! ## The index test is sound -/

namespace HGraph

/-- The operands of every `int` addition and subtraction are typed `int`, as the
graph's type checking keeps them. -/
def IntOperands (graph : HGraph) : Prop :=
  ∀ id left right, (graph.instructionAt id = .add .primInt left right ∨ graph.instructionAt id = .sub .primInt left right) →
    (graph.instructionAt left).getType = .primInt ∧ (graph.instructionAt right).getType = .primInt

/-- An assignment of `int` values to the instructions of a graph that its `int`
constants, additions and subtractions agree with: the values the instructions
hold at one point of an execution, whatever its parameters, loads and phis hold. -/
structure IntValuation (graph : HGraph) where
  value : Nat → BitVec 32
  constant : ∀ {id c}, graph.instructionAt id = .intConstant c → value id = c
  add : ∀ {id left right}, graph.instructionAt id = .add .primInt left right → value id = value left + value right
  sub : ∀ {id left right}, graph.instructionAt id = .sub .primInt left right → value id = value left - value right

end HGraph

namespace HInstruction

variable {graph : HGraph}

/-- A constant typed `int` is an `int` constant. -/
theorem intConstant_of_isConstant {instruction : HInstruction} (constant : instruction.isConstant = true)
    (intType : instruction.getType = .primInt) : ∃ c, instruction = .intConstant c := by
  cases instruction with
  | intConstant c => exact ⟨c, rfl⟩
  | longConstant _ | nullConstant => cases intType
  | _ => cases constant

/-- `GetConstantRight` returns the right operand, or the left one of a commutative
operation whose right operand is not a constant. -/
theorem getConstantRight_eq_some {instruction : HInstruction} {cst : Nat}
    (constantRight : instruction.getConstantRight graph = some cst) :
    ∃ left right, instruction.binaryOperands = some (left, right) ∧
      ((cst = right ∧ (graph.instructionAt right).isConstant = true) ∨
        (cst = left ∧ instruction.isCommutative = true ∧ (graph.instructionAt left).isConstant = true)) := by
  unfold getConstantRight at constantRight
  cases operands : instruction.binaryOperands with
  | none => rw [operands] at constantRight; cases constantRight
  | some pair =>
      obtain ⟨left, right⟩ := pair
      rw [operands] at constantRight
      refine ⟨left, right, rfl, ?_⟩
      dsimp only at constantRight
      split_ifs at constantRight with rightConstant leftConstant
      · exact .inl ⟨(Option.some.inj constantRight).symm, rightConstant⟩
      · rw [Bool.and_eq_true] at leftConstant
        exact .inr ⟨(Option.some.inj constantRight).symm, leftConstant⟩

/-- `GetLeastConstantLeft` is the operand that `GetConstantRight` did not return. -/
theorem getLeastConstantLeft_eq {instruction : HInstruction} {left right cst : Nat}
    (operands : instruction.binaryOperands = some (left, right))
    (constantRight : instruction.getConstantRight graph = some cst) :
    instruction.getLeastConstantLeft graph = some (if cst = left then right else left) := by
  unfold getLeastConstantLeft
  rw [operands, constantRight]
  dsimp only
  split_ifs <;> rfl

/-- What an `int` addition or subtraction adds to its other operand for the
constant `c`. -/
def offsetOf (operation : HInstruction) (c : BitVec 32) : BitVec 32 := if operation.isSub then -c else c

/-- An addition adds its constant. -/
theorem offsetOf_of_isAdd {operation : HInstruction} (add : operation.isAdd = true) (c : BitVec 32) :
    operation.offsetOf c = c := by
  cases operation <;> first | rfl | cases add

/-- A subtraction adds the negation of its constant. -/
theorem offsetOf_of_isSub {operation : HInstruction} (sub : operation.isSub = true) (c : BitVec 32) :
    operation.offsetOf c = -c := by
  unfold offsetOf
  rw [if_pos sub]

/-- The test of `BinaryOpsMayAlias` on the two constants fails only for two
additions or subtractions whose offsets differ: `c1 ≠ c2` for two of one kind and
`c1 ≠ -c2` for one of each, the negation wrapping as the offsets do. -/
theorem offsetOf_ne_of_test {operation1 operation2 : HInstruction} {c1 c2 : BitVec 32}
    (test : (if (operation1.isAdd && operation2.isAdd) || (operation1.isSub && operation2.isSub) then c1 == c2
      else if (operation1.isAdd && operation2.isSub) || (operation1.isSub && operation2.isAdd) then c1 == -c2
      else true) = false) :
    (operation1.isAdd = true ∨ operation1.isSub = true) ∧ (operation2.isAdd = true ∨ operation2.isSub = true) ∧
      operation1.offsetOf c1 ≠ operation2.offsetOf c2 := by
  simp only [Bool.or_eq_true, Bool.and_eq_true] at test
  split_ifs at test with same mixed
  · have differ : c1 ≠ c2 := by simpa using test
    rcases same with ⟨add1, add2⟩ | ⟨sub1, sub2⟩
    · rw [offsetOf_of_isAdd add1, offsetOf_of_isAdd add2]
      exact ⟨.inl add1, .inl add2, differ⟩
    · rw [offsetOf_of_isSub sub1, offsetOf_of_isSub sub2, Ne, neg_inj]
      exact ⟨.inr sub1, .inr sub2, differ⟩
  · have differ : c1 ≠ -c2 := by simpa using test
    rcases mixed with ⟨add1, sub2⟩ | ⟨sub1, add2⟩
    · rw [offsetOf_of_isAdd add1, offsetOf_of_isSub sub2]
      exact ⟨.inl add1, .inr sub2, differ⟩
    · rw [offsetOf_of_isSub sub1, offsetOf_of_isAdd add2, Ne, BitVec.neg_eq_iff_eq_neg]
      exact ⟨.inr sub1, .inl add2, differ⟩

/-- Only a zero offset is zero. -/
theorem offsetOf_ne_zero (operation : HInstruction) {c : BitVec 32} (nonzero : c ≠ 0) : operation.offsetOf c ≠ 0 := by
  unfold offsetOf
  split_ifs
  · exact neg_ne_zero.2 nonzero
  · exact nonzero

end HInstruction

namespace HGraph.IntValuation

open HInstruction

variable {graph : HGraph} (valuation : graph.IntValuation)

/-- An `int` addition or subtraction with a constant holds the other operand plus
the offset of the constant. -/
theorem value_eq_add_offsetOf (typed : graph.IntOperands) {id cst : Nat}
    (addOrSub : (graph.instructionAt id).isAdd = true ∨ (graph.instructionAt id).isSub = true)
    (intType : (graph.instructionAt id).getType = .primInt)
    (constantRight : (graph.instructionAt id).getConstantRight graph = some cst) :
    ∃ c other, graph.instructionAt cst = .intConstant c ∧
      (graph.instructionAt id).getLeastConstantLeft graph = some other ∧
      valuation.value id = valuation.value other + (graph.instructionAt id).offsetOf c := by
  obtain ⟨left, right, operands, chosen⟩ := getConstantRight_eq_some constantRight
  rw [getLeastConstantLeft_eq operands constantRight]
  generalize operation : graph.instructionAt id = instruction at addOrSub intType operands chosen ⊢
  cases instruction with
  | add type left' right' =>
      obtain rfl : type = .primInt := intType
      cases operands
      obtain ⟨leftInt, rightInt⟩ := typed id left right (.inl operation)
      rw [valuation.add operation]
      simp only [offsetOf, isSub, Bool.false_eq_true, reduceIte]
      -- the constant is either operand of the addition
      rcases chosen with ⟨rfl, constant⟩ | ⟨rfl, -, constant⟩
      · obtain ⟨c, isC⟩ := intConstant_of_isConstant constant rightInt
        refine ⟨c, _, isC, rfl, ?_⟩
        split_ifs with same
        · rw [← valuation.constant isC, same]
        · rw [← valuation.constant isC]
      · obtain ⟨c, isC⟩ := intConstant_of_isConstant constant leftInt
        refine ⟨c, _, isC, rfl, ?_⟩
        rw [if_pos rfl, ← valuation.constant isC, add_comm]
  | sub type left' right' =>
      obtain rfl : type = .primInt := intType
      cases operands
      obtain ⟨-, rightInt⟩ := typed id left right (.inr operation)
      rw [valuation.sub operation]
      simp only [offsetOf, isSub, reduceIte]
      -- a subtraction does not commute: the constant is its right operand
      rcases chosen with ⟨rfl, constant⟩ | ⟨-, commutative, -⟩
      · obtain ⟨c, isC⟩ := intConstant_of_isConstant constant rightInt
        refine ⟨c, _, isC, rfl, ?_⟩
        split_ifs with same
        · rw [← valuation.constant isC, same, sub_eq_add_neg]
        · rw [← valuation.constant isC, sub_eq_add_neg]
      · simp [isCommutative] at commutative
  | _ => simp [isAdd, isSub] at addOrSub

end HGraph.IntValuation

namespace HeapLocationCollector

open HInstruction

variable {graph : HGraph} (typed : graph.IntOperands) (valuation : graph.IntValuation)

include typed in
/-- An `int` binary operation that `BinaryOpAndIndexMayAlias` tells apart from an
index holds another value than the index. -/
theorem value_ne_of_binaryOpAndIndexMayAlias {idx1 idx2 : Nat}
    (intType : (graph.instructionAt idx1).getType = .primInt)
    (disjoint : binaryOpAndIndexMayAlias graph idx1 idx2 = false) :
    valuation.value idx1 ≠ valuation.value idx2 := by
  unfold binaryOpAndIndexMayAlias at disjoint
  cases constantRight : (graph.instructionAt idx1).getConstantRight graph with
  | none => simp [constantRight] at disjoint
  | some cst =>
      simp only [constantRight] at disjoint
      split_ifs at disjoint with neither zero other
      have addOrSub : (graph.instructionAt idx1).isAdd = true ∨ (graph.instructionAt idx1).isSub = true := by
        rw [Bool.and_eq_true, not_and_or] at neither
        simpa using neither
      obtain ⟨c, _, isC, leastLeft, sum⟩ := valuation.value_eq_add_offsetOf typed addOrSub intType constantRight
      obtain rfl := Option.some.inj (other.symm.trans leastLeft)
      -- `IsArithmeticZero` is false of the constant, so its offset is not zero
      have nonzero : c ≠ 0 := by simpa [isArithmeticZero, isC] using zero
      rw [sum, Ne, add_eq_left]
      exact offsetOf_ne_zero _ nonzero

include typed in
/-- Two `int` binary operations that `BinaryOpsMayAlias` tells apart hold different
values. -/
theorem value_ne_of_binaryOpsMayAlias {idx1 idx2 : Nat}
    (intType1 : (graph.instructionAt idx1).getType = .primInt) (intType2 : (graph.instructionAt idx2).getType = .primInt)
    (disjoint : binaryOpsMayAlias graph idx1 idx2 = false) :
    valuation.value idx1 ≠ valuation.value idx2 := by
  simp only [binaryOpsMayAlias] at disjoint
  split at disjoint
  case h_2 => cases disjoint
  case h_1 cst1 other1 cst2 other2 constantRight1 leastLeft1 constantRight2 leastLeft2 =>
    -- the two operations offset one operand
    by_cases sameOther : other1 = other2
    case neg => rw [if_pos sameOther] at disjoint; cases disjoint
    rw [if_neg (not_not.2 sameOther)] at disjoint
    split at disjoint
    case h_2 => cases disjoint
    case h_1 c1 c2 value1 value2 =>
      obtain ⟨addOrSub1, addOrSub2, offsets⟩ := offsetOf_ne_of_test disjoint
      obtain ⟨c1', _, isC1, leastLeft1', sum1⟩ :=
        valuation.value_eq_add_offsetOf typed addOrSub1 intType1 constantRight1
      obtain ⟨c2', _, isC2, leastLeft2', sum2⟩ :=
        valuation.value_eq_add_offsetOf typed addOrSub2 intType2 constantRight2
      -- by the constants the test compared
      obtain rfl := Option.some.inj (leastLeft1.symm.trans leastLeft1')
      obtain rfl := Option.some.inj (leastLeft2.symm.trans leastLeft2')
      obtain rfl : c1' = c1 := by simpa [isC1] using value1
      obtain rfl : c2' = c2 := by simpa [isC2] using value2
      rw [sum1, sum2, sameOther, Ne, add_right_inj]
      exact offsets

include typed in
/-- `CanArrayIndicesAlias` is sound: two `int` indices it tells apart hold
different values under every assignment of `int` values that the graph's
constants, additions and subtractions agree with. -/
theorem canArrayIndicesAlias_sound {idx1 idx2 : Nat}
    (intType1 : (graph.instructionAt idx1).getType = .primInt) (intType2 : (graph.instructionAt idx2).getType = .primInt)
    (disjoint : canArrayIndicesAlias graph idx1 idx2 = false) :
    valuation.value idx1 ≠ valuation.value idx2 := by
  unfold canArrayIndicesAlias at disjoint
  by_cases same : idx1 = idx2
  · rw [if_pos same] at disjoint
    cases disjoint
  rw [if_neg same] at disjoint
  split at disjoint
  case h_1 c1 c2 value1 value2 =>
    -- two constants are told apart by their values
    rw [valuation.constant (intConstantValue_eq_some.1 value1), valuation.constant (intConstantValue_eq_some.1 value2)]
    simpa using disjoint
  case h_2 =>
    split_ifs at disjoint with first second both <;> simp only [Bool.and_eq_true, Bool.not_eq_true'] at *
    · exact value_ne_of_binaryOpAndIndexMayAlias typed valuation intType1 first.2
    · exact (value_ne_of_binaryOpAndIndexMayAlias typed valuation intType2 second.2).symm
    · exact value_ne_of_binaryOpsMayAlias typed valuation intType1 intType2 both.2

/-- `[i + 1]` and `[i - 1]` are told apart; `[i + MIN_VALUE]` and `[i - MIN_VALUE]`,
one cell since the negation wraps, are not. -/
example : canArrayIndicesAlias [.parameterValue .primInt, .intConstant 1, .add .primInt 0 1, .sub .primInt 0 1] 2 3 = false ∧
    canArrayIndicesAlias [.parameterValue .primInt, .intConstant (BitVec.intMin 32), .add .primInt 0 1, .sub .primInt 0 1]
      2 3 = true := by
  decide

end HeapLocationCollector

/-! ## The aliasing matrix -/

namespace HeapLocationCollector

/-- `AliasingMatrixPosition(index1, index2)` among `numberOfLocations` heap
locations: `(n - 1) + … + (n - index1)` bits for the rows above, then the column. -/
def aliasingMatrixPosition (numberOfLocations index1 index2 : Nat) : Nat :=
  numberOfLocations * index1 - (1 + index1) * index1 / 2 + (index2 - index1 - 1)

/-- `CheckedAliasingMatrixPosition`: the position, which its `DCHECK_EQ` requires to
be the loop's counter. -/
def checkedAliasingMatrixPosition (numberOfLocations index1 index2 position : Nat) : Option Nat :=
  let calculatedPosition := aliasingMatrixPosition numberOfLocations index1 index2
  if calculatedPosition = position then some calculatedPosition else none

/-- The pairs `i < j` of the two loops of `BuildAliasingMatrix`, in their order. -/
def matrixPairs (numberOfLocations : Nat) : List (Nat × Nat) :=
  (List.range (numberOfLocations - 1)).flatMap fun i =>
    (List.range' (i + 1) (numberOfLocations - (i + 1))).map fun j => (i, j)

/-- `SetBit` of the matrix's bit vector, which reads clear where nothing was set. -/
def setBit (bits : Nat → Bool) (index : Nat) : Nat → Bool := fun k => k == index || bits k

/-- One pass of the inner loop of `BuildAliasingMatrix` on the bits and the counter
`pos`; a failed `DCHECK` gives `none`. -/
def buildAliasingMatrixStep (numberOfLocations : Nat) (computeMayAlias : Nat → Nat → Bool)
    (state : (Nat → Bool) × Nat) (pair : Nat × Nat) : Option ((Nat → Bool) × Nat) :=
  if computeMayAlias pair.1 pair.2 then
    (checkedAliasingMatrixPosition numberOfLocations pair.1 pair.2 state.2).map fun position =>
      (setBit state.1 position, state.2 + 1)
  else some (state.1, state.2 + 1)

/-- `BuildAliasingMatrix` over `numberOfLocations` heap locations and their
`ComputeMayAlias`: the bits it sets, from a clear vector. -/
def buildAliasingMatrix (numberOfLocations : Nat) (computeMayAlias : Nat → Nat → Bool) : Option (Nat → Bool) :=
  if numberOfLocations = 0 then some fun _ => false
  else
    ((matrixPairs numberOfLocations).foldlM (buildAliasingMatrixStep numberOfLocations computeMayAlias)
      (fun _ => false, 0)).map Prod.fst

/-- `MayAlias(index1, index2)`: the bit of the pair, in either order. -/
def mayAlias (numberOfLocations : Nat) (bits : Nat → Bool) (index1 index2 : Nat) : Bool :=
  if index1 < index2 then bits (aliasingMatrixPosition numberOfLocations index1 index2)
  else if index1 > index2 then bits (aliasingMatrixPosition numberOfLocations index2 index1)
  else true

section Positions

variable (numberOfLocations : Nat)

/-- The loops visit exactly the pairs `i < j < n`. -/
theorem mem_matrixPairs {pair : Nat × Nat} :
    pair ∈ matrixPairs numberOfLocations ↔ pair.1 < pair.2 ∧ pair.2 < numberOfLocations := by
  obtain ⟨i, j⟩ := pair
  simp only [matrixPairs, List.mem_flatMap, List.mem_range, List.mem_map, List.mem_range'_1, Prod.mk.injEq]
  constructor
  · rintro ⟨i', _, j', ⟨_, _⟩, rfl, rfl⟩
    omega
  · rintro ⟨below, bound⟩
    exact ⟨i, by omega, j, ⟨by omega, by omega⟩, rfl, rfl⟩

/-- The number of bits in the rows above row `i + 1` is that above row `i` and the
`n - 1 - i` bits of row `i`. -/
theorem aliasingMatrixPosition_next_row {i : Nat} (row : i < numberOfLocations) :
    aliasingMatrixPosition numberOfLocations (i + 1) (i + 1 + 1) =
      aliasingMatrixPosition numberOfLocations i (i + 1) + (numberOfLocations - (i + 1)) := by
  have triangle : (1 + (i + 1)) * (i + 1) / 2 = (1 + i) * i / 2 + (i + 1) := by
    have twice : (1 + (i + 1)) * (i + 1) = (1 + i) * i + (i + 1) * 2 := by ring
    rw [twice, Nat.add_mul_div_right _ _ (by omega)]
  -- the rows above row `i` have fewer bits than `n i`, so no subtraction truncates
  have above : (1 + i) * i / 2 ≤ numberOfLocations * i :=
    (Nat.div_le_self _ _).trans (Nat.mul_le_mul_right i (by omega))
  unfold aliasingMatrixPosition
  rw [triangle, Nat.mul_succ]
  omega

/-- The positions of row `i` are consecutive. -/
theorem map_aliasingMatrixPosition_row (i : Nat) :
    ((List.range' (i + 1) (numberOfLocations - (i + 1))).map fun j => aliasingMatrixPosition numberOfLocations i j) =
      List.range' (aliasingMatrixPosition numberOfLocations i (i + 1)) (numberOfLocations - (i + 1)) := by
  apply List.ext_getElem
  · simp only [List.length_map, List.length_range']
  · intro k _ _
    simp only [List.getElem_map, List.getElem_range', aliasingMatrixPosition]
    omega

/-- The positions of the first `k` rows, in the order of the loops, are the
numbers below the first position of row `k`. -/
theorem map_aliasingMatrixPosition_rows : ∀ k, k < numberOfLocations →
    (((List.range k).flatMap fun i =>
        (List.range' (i + 1) (numberOfLocations - (i + 1))).map fun j => (i, j)).map fun pair =>
          aliasingMatrixPosition numberOfLocations pair.1 pair.2) =
      List.range (aliasingMatrixPosition numberOfLocations k (k + 1))
  | 0, _ => by simp [aliasingMatrixPosition]
  | k + 1, row => by
      rw [List.range_succ, List.flatMap_append, List.map_append,
        map_aliasingMatrixPosition_rows k (by omega), List.flatMap_singleton, List.map_map]
      have rowK := map_aliasingMatrixPosition_row numberOfLocations k
      simp only [Function.comp_def] at rowK ⊢
      rw [rowK, List.range_eq_range', List.range_eq_range', aliasingMatrixPosition_next_row _ (by omega)]
      simpa using List.range'_append_1 (s := 0) (m := aliasingMatrixPosition numberOfLocations k (k + 1))
        (n := numberOfLocations - (k + 1))

/-- The positions of the pairs, in the order the loops visit them, are `0, 1, 2, …`
up to `n (n - 1) / 2`: every position is the loop's counter. -/
theorem map_aliasingMatrixPosition_matrixPairs :
    (matrixPairs numberOfLocations).map (fun pair => aliasingMatrixPosition numberOfLocations pair.1 pair.2) =
      List.range (numberOfLocations * (numberOfLocations - 1) / 2) := by
  cases numberOfLocations with
  | zero => rfl
  | succ n =>
      rw [matrixPairs, map_aliasingMatrixPosition_rows _ (n + 1 - 1) (by omega)]
      congr 1
      obtain ⟨half, even⟩ := Nat.even_mul_pred_self (n + 1)
      rw [Nat.add_sub_cancel] at even ⊢
      -- the rows above the last one hold `n (n + 1) - n (n + 1) / 2` bits
      have rows : (1 + n) * n = (n + 1) * n := by rw [Nat.add_comm]
      unfold aliasingMatrixPosition
      rw [rows, even]
      omega

/-- `AliasingMatrixPosition` is a bijection from the pairs `i < j < n` onto the
bits below `n (n - 1) / 2`. -/
theorem aliasingMatrixPosition_bijOn :
    Set.BijOn (fun pair : Nat × Nat => aliasingMatrixPosition numberOfLocations pair.1 pair.2)
      {pair | pair.1 < pair.2 ∧ pair.2 < numberOfLocations}
      (Set.Iio (numberOfLocations * (numberOfLocations - 1) / 2)) := by
  have positions := map_aliasingMatrixPosition_matrixPairs numberOfLocations
  refine ⟨?_, ?_, ?_⟩
  · intro pair isPair
    have visited : aliasingMatrixPosition numberOfLocations pair.1 pair.2 ∈ List.range _ :=
      positions ▸ List.mem_map_of_mem ((mem_matrixPairs numberOfLocations).2 isPair)
    exact List.mem_range.1 visited
  · intro pair1 isPair1 pair2 isPair2 same
    exact List.inj_on_of_nodup_map (positions ▸ List.nodup_range) ((mem_matrixPairs _).2 isPair1)
      ((mem_matrixPairs _).2 isPair2) same
  · intro position below
    obtain ⟨pair, visited, rfl⟩ := List.mem_map.1 (positions ▸ List.mem_range.2 below)
    exact ⟨pair, (mem_matrixPairs _).1 visited, rfl⟩

end Positions

section Build

variable (numberOfLocations : Nat) (computeMayAlias : Nat → Nat → Bool)

/-- The loop over pairs whose positions are the counter's values sets the bit of
every pair that may alias, and no other. -/
theorem foldlM_buildAliasingMatrixStep : ∀ (pairs : List (Nat × Nat)) (bits : Nat → Bool) (pos : Nat),
    pairs.map (fun pair => aliasingMatrixPosition numberOfLocations pair.1 pair.2) = List.range' pos pairs.length →
    pairs.foldlM (buildAliasingMatrixStep numberOfLocations computeMayAlias) (bits, pos) =
      some (fun k => bits k || pairs.any fun pair =>
        computeMayAlias pair.1 pair.2 && aliasingMatrixPosition numberOfLocations pair.1 pair.2 == k,
        pos + pairs.length)
  | [], bits, pos, _ => by simp
  | pair :: pairs, bits, pos, positions => by
      rw [List.map_cons, List.length_cons, List.range'_succ, List.cons.injEq] at positions
      obtain ⟨here, rest⟩ := positions
      -- the `DCHECK_EQ` holds: the pair's position is the counter
      have step : buildAliasingMatrixStep numberOfLocations computeMayAlias (bits, pos) pair =
          some (fun k => bits k || (computeMayAlias pair.1 pair.2 &&
            aliasingMatrixPosition numberOfLocations pair.1 pair.2 == k), pos + 1) := by
        unfold buildAliasingMatrixStep checkedAliasingMatrixPosition
        split_ifs with may
        · simp only [here, reduceIte, Option.map_some, may, Bool.true_and, Option.some.injEq, Prod.mk.injEq,
            and_true]
          funext k
          show (k == pos || bits k) = (bits k || pos == k)
          rw [Bool.or_comm, Bool.beq_comm]
        · simp [may]
      rw [List.foldlM_cons, step, Option.bind_eq_bind, Option.bind_some,
        foldlM_buildAliasingMatrixStep pairs _ (pos + 1) rest, Option.some.injEq, Prod.mk.injEq]
      refine ⟨funext fun k => ?_, by rw [List.length_cons]; omega⟩
      rw [List.any_cons, Bool.or_assoc]

/-- The loops run to their end: every `DCHECK` holds, and the bit of a position is
set when the pair at that position may alias. -/
theorem buildAliasingMatrix_eq :
    buildAliasingMatrix numberOfLocations computeMayAlias =
      some fun k => (matrixPairs numberOfLocations).any fun pair =>
        computeMayAlias pair.1 pair.2 && aliasingMatrixPosition numberOfLocations pair.1 pair.2 == k := by
  unfold buildAliasingMatrix
  split_ifs with empty
  · subst empty
    rfl
  · have length : (matrixPairs numberOfLocations).length = numberOfLocations * (numberOfLocations - 1) / 2 := by
      rw [← List.length_map (f := fun pair => aliasingMatrixPosition numberOfLocations pair.1 pair.2),
        map_aliasingMatrixPosition_matrixPairs, List.length_range]
    have positions : (matrixPairs numberOfLocations).map
        (fun pair => aliasingMatrixPosition numberOfLocations pair.1 pair.2) =
          List.range' 0 (matrixPairs numberOfLocations).length := by
      rw [map_aliasingMatrixPosition_matrixPairs, List.range_eq_range', length]
    rw [foldlM_buildAliasingMatrixStep _ _ _ _ _ positions]
    simp

/-- The bit of a pair `i < j < n` is its `ComputeMayAlias`: no other pair shares
its position. -/
theorem any_aliasingMatrixPosition_eq {index1 index2 : Nat} (isPair : index1 < index2 ∧ index2 < numberOfLocations) :
    ((matrixPairs numberOfLocations).any fun pair => computeMayAlias pair.1 pair.2 &&
        aliasingMatrixPosition numberOfLocations pair.1 pair.2 ==
          aliasingMatrixPosition numberOfLocations index1 index2) = computeMayAlias index1 index2 := by
  have visited : (index1, index2) ∈ matrixPairs numberOfLocations := (mem_matrixPairs _).2 isPair
  rw [Bool.eq_iff_iff, List.any_eq_true]
  constructor
  · rintro ⟨pair, other, found⟩
    rw [Bool.and_eq_true, beq_iff_eq] at found
    obtain rfl : pair = (index1, index2) :=
      (aliasingMatrixPosition_bijOn numberOfLocations).injOn ((mem_matrixPairs _).1 other) isPair found.2
    exact found.1
  · intro may
    exact ⟨_, visited, by simp [may]⟩

/-- `MayAlias` of two different locations reads `ComputeMayAlias` of the pair, the
lower index first. -/
theorem mayAlias_buildAliasingMatrix {index1 index2 : Nat} (bound1 : index1 < numberOfLocations)
    (bound2 : index2 < numberOfLocations) (different : index1 ≠ index2) :
    ∃ bits, buildAliasingMatrix numberOfLocations computeMayAlias = some bits ∧
      mayAlias numberOfLocations bits index1 index2 =
        if index1 < index2 then computeMayAlias index1 index2 else computeMayAlias index2 index1 := by
  refine ⟨_, buildAliasingMatrix_eq numberOfLocations computeMayAlias, ?_⟩
  unfold mayAlias
  dsimp only
  by_cases below : index1 < index2
  · rw [if_pos below, if_pos below, any_aliasingMatrixPosition_eq _ _ ⟨below, bound2⟩]
  · have above : index1 > index2 := by omega
    rw [if_neg below, if_neg below, if_pos above, any_aliasingMatrixPosition_eq _ _ ⟨above, bound1⟩]

end Build

end HeapLocationCollector

/-! ## Heap locations -/

/-- `ReferenceInfo`: a reference instruction and what the collector knows of it. -/
structure ReferenceInfo where
  /-- `GetReference()`. -/
  reference : Nat
  /-- `GetPosition()`: the index in `ref_info_array_`, filled in the reverse post
  order of the blocks. -/
  position : Nat
  /-- `IsSingleton()`, from the escape analysis. -/
  isSingleton : Bool
  /-- Whether the reference is an `HNewInstance` or an `HNewArray`. -/
  isAllocation : Bool
  deriving DecidableEq

/-- `HeapLocation::kInvalidFieldOffset`, the offset of an array element: `-1` as a
`size_t`. -/
def kInvalidFieldOffset : Nat := 2 ^ 64 - 1

/-- `HeapLocation`: a field of the reference, at `offset` in the class
`declaringClassDefIndex`, or an element of it at `index`. -/
structure HeapLocation where
  refInfo : ReferenceInfo
  offset : Nat
  index : Option Nat
  declaringClassDefIndex : Int
  /-- The `DCHECK` of the constructor: an array element has an index and no field
  offset, a field an offset and no index. -/
  elementOrField : (offset = kInvalidFieldOffset ∧ index.isSome = true) ∨ (offset ≠ kInvalidFieldOffset ∧ index = none)

namespace HeapLocationCollector

/-- `MayAliasWithPreexistenceChecking`: an allocation is no name that the reverse
post order visits before it. -/
def mayAliasWithPreexistenceChecking (refInfo1 refInfo2 : ReferenceInfo) : Bool :=
  if refInfo1.isAllocation then decide (refInfo2.position ≥ refInfo1.position) else true

/-- `CanReferencesAlias`. -/
def canReferencesAlias (refInfo1 refInfo2 : ReferenceInfo) : Bool :=
  if refInfo1 = refInfo2 then true
  else if refInfo1.isSingleton then false
  else if refInfo2.isSingleton then false
  else if !mayAliasWithPreexistenceChecking refInfo1 refInfo2 || !mayAliasWithPreexistenceChecking refInfo2 refInfo1 then
    false
  else true

/-- `ComputeMayAlias` of two heap locations. -/
def computeMayAlias (graph : HGraph) (loc1 loc2 : HeapLocation) : Bool :=
  if loc1.offset ≠ loc2.offset then false
  else if loc1.declaringClassDefIndex ≠ loc2.declaringClassDefIndex then false
  else if !canReferencesAlias loc1.refInfo loc2.refInfo then false
  else
    match loc1.index, loc2.index with
    | some arrayIndex1, some arrayIndex2 => canArrayIndicesAlias graph arrayIndex1 arrayIndex2
    | _, _ => true

/-- `BuildAliasingMatrix` of the collected heap locations. -/
def aliasingMatrix (graph : HGraph) (heapLocations : List HeapLocation) : Option (Nat → Bool) :=
  buildAliasingMatrix heapLocations.length fun index1 index2 =>
    match heapLocations[index1]?, heapLocations[index2]? with
    | some loc1, some loc2 => computeMayAlias graph loc1 loc2
    | _, _ => true

end HeapLocationCollector

/-! ## Locations that may not alias name different cells -/

section Cells

variable {α : Type}

/-- What the reference infos say of the objects their references hold at one point
of an execution: a singleton is the only name of its object, and an allocation
holds an object that no name visited before it in the reverse post order holds. -/
structure RespectsReferenceInfos (object : ReferenceInfo → α) : Prop where
  singleton : ∀ {refInfo1 refInfo2 : ReferenceInfo}, refInfo1 ≠ refInfo2 → refInfo1.isSingleton = true →
    object refInfo1 ≠ object refInfo2
  preexisting : ∀ {refInfo1 refInfo2 : ReferenceInfo}, refInfo1.isAllocation = true →
    refInfo2.position < refInfo1.position → object refInfo1 ≠ object refInfo2

/-- The cell a heap location names: the object of its reference, the field (its
offset and declaring class) and, for an array element, the value of its index. -/
def HeapLocation.cell (object : ReferenceInfo → α) (value : Nat → BitVec 32) (location : HeapLocation) :
    α × Nat × Int × Option (BitVec 32) :=
  (object location.refInfo, location.offset, location.declaringClassDefIndex, location.index.map value)

namespace HeapLocationCollector

variable {object : ReferenceInfo → α} (respects : RespectsReferenceInfos object)

include respects in
/-- References that `CanReferencesAlias` tells apart hold different objects. -/
theorem object_ne_of_canReferencesAlias {refInfo1 refInfo2 : ReferenceInfo}
    (disjoint : canReferencesAlias refInfo1 refInfo2 = false) : object refInfo1 ≠ object refInfo2 := by
  unfold canReferencesAlias at disjoint
  split_ifs at disjoint with same singleton1 singleton2 preexisting
  · exact respects.singleton same singleton1
  · exact (respects.singleton (Ne.symm same) singleton2).symm
  · -- one of the two is an allocation that the other precedes
    unfold mayAliasWithPreexistenceChecking at preexisting
    rw [Bool.or_eq_true] at preexisting
    rcases preexisting with first | second
    · split_ifs at first with allocation
      · exact respects.preexisting allocation (by simpa using first)
      · cases first
    · split_ifs at second with allocation
      · exact (respects.preexisting allocation (by simpa using second)).symm
      · cases second

variable {graph : HGraph} (typed : graph.IntOperands) (valuation : graph.IntValuation)

include respects typed in
/-- Two heap locations that `ComputeMayAlias` tells apart name different cells:
another field, another object, or an element at another index. -/
theorem cell_ne_of_computeMayAlias {loc1 loc2 : HeapLocation}
    (intIndex1 : ∀ index ∈ loc1.index, (graph.instructionAt index).getType = .primInt)
    (intIndex2 : ∀ index ∈ loc2.index, (graph.instructionAt index).getType = .primInt)
    (disjoint : computeMayAlias graph loc1 loc2 = false) :
    loc1.cell object valuation.value ≠ loc2.cell object valuation.value := by
  unfold computeMayAlias at disjoint
  simp only [HeapLocation.cell, ne_eq, Prod.mk.injEq, not_and]
  split_ifs at disjoint with offsets classes references
  · exact fun _ same => absurd same offsets
  · exact fun _ _ same => absurd same classes
  · exact fun same => absurd same (object_ne_of_canReferencesAlias respects (by simpa using references))
  · split at disjoint
    case h_1 arrayIndex1 arrayIndex2 index1 index2 =>
      -- two elements of one array at indices told apart
      have values := canArrayIndicesAlias_sound typed valuation (intIndex1 _ index1) (intIndex2 _ index2) disjoint
      rw [index1, index2]
      exact fun _ _ _ same => values (Option.some.inj same)
    case h_2 => cases disjoint

include respects typed in
/-- The aliasing matrix is sound: two collected heap locations that `MayAlias`
calls disjoint name different cells, under every assignment of `int` values and of
objects that the graph and the reference infos agree with. -/
theorem cell_ne_of_mayAlias {heapLocations : List HeapLocation}
    (intIndices : ∀ location ∈ heapLocations, ∀ index ∈ location.index, (graph.instructionAt index).getType = .primInt) :
    ∃ bits, aliasingMatrix graph heapLocations = some bits ∧
      ∀ {index1 index2 : Nat} {loc1 loc2 : HeapLocation}, heapLocations[index1]? = some loc1 →
        heapLocations[index2]? = some loc2 → index1 ≠ index2 → mayAlias heapLocations.length bits index1 index2 = false →
        loc1.cell object valuation.value ≠ loc2.cell object valuation.value := by
  refine ⟨_, buildAliasingMatrix_eq _ _, ?_⟩
  intro index1 index2 loc1 loc2 found1 found2 different disjoint
  have bound1 := (List.getElem?_eq_some_iff.1 found1).1
  have bound2 := (List.getElem?_eq_some_iff.1 found2).1
  have member1 := List.mem_of_getElem? found1
  have member2 := List.mem_of_getElem? found2
  obtain ⟨bits, built, reads⟩ := mayAlias_buildAliasingMatrix heapLocations.length (fun index1 index2 =>
    match heapLocations[index1]?, heapLocations[index2]? with
    | some loc1, some loc2 => computeMayAlias graph loc1 loc2
    | _, _ => true) bound1 bound2 different
  obtain rfl := Option.some.inj ((buildAliasingMatrix_eq _ _).symm.trans built)
  rw [disjoint] at reads
  -- the bit is `ComputeMayAlias` of the pair in index order
  split_ifs at reads with below
  · rw [found1, found2] at reads
    exact cell_ne_of_computeMayAlias respects typed valuation (intIndices _ member1) (intIndices _ member2) reads.symm
  · rw [found1, found2] at reads
    exact (cell_ne_of_computeMayAlias respects typed valuation (intIndices _ member2) (intIndices _ member1)
      reads.symm).symm

end HeapLocationCollector

end Cells

end Art.Compiler.Optimizing
