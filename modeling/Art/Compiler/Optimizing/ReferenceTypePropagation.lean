import Mathlib.Logic.Basic
import Mathlib.Tactic.SplitIfs

/-!
# Bound types from `instanceof` branches

`ReferenceTypePropagation` narrows the type of an object below a branch that tests
it. For an `HIf` whose condition is an `instanceof` test of `obj` against a class
`C`, `MatchIfInstanceOf` recognises six shapes of the condition and names the
successor in which the test succeeded; `BoundTypeForIfInstanceOf` then gives the
uses of `obj` dominated by that successor an `HBoundType` whose upper bound is
`C` and which cannot be null, and `VisitBoundType` types it.

The shapes compare the `HInstanceOf` with an integer constant. The code reads a
constant that is not `1` as `0` (`Equal`) and one that is not `0` as `1`
(`NotEqual`), and only a debug assertion says that no other constant occurs.
When the constants are `0` or `1`, the successor found is reached only when the
test succeeded (`matchIfInstanceOf_sound`). A comparison with `2` is accepted by
the dex verifier and reaches the pass as built: the branch `instanceof == 2` is
never taken, every execution goes to the false successor, and that is where the
bound type is placed (`boundType_of_compare_with_two`).

The model keeps of the graph what these functions read: the condition as an
expression tree over the `HInstanceOf`, constants and other instructions; the
resolved class of the `HLoadClass` and what the class linker knows of it; the
type of the object.
-/

set_option autoImplicit false

namespace Art.Compiler.Optimizing.ReferenceTypePropagation

/-- The instructions the branch matching inspects, as the expression tree of the
`HIf` input. `instanceOf` names its object and its `HLoadClass`; `otherConstant`
is a long, float, double or null constant; `other` any other instruction. -/
inductive HInstruction
  | instanceOf (object loadClass : Nat)
  | intConstant (value : Int)
  | otherConstant (id : Nat)
  | equal (left right : HInstruction)
  | notEqual (left right : HInstruction)
  | booleanNot (input : HInstruction)
  | other (id : Nat)
  deriving DecidableEq, Repr

namespace HInstruction

/-- `IsConstant`. -/
def isConstant : HInstruction → Bool
  | intConstant _ => true
  | otherConstant _ => true
  | _ => false

/-- `IsIntConstant`. -/
def isIntConstant : HInstruction → Bool
  | intConstant _ => true
  | _ => false

/-- `IsInstanceOf`. -/
def isInstanceOf : HInstruction → Bool
  | instanceOf _ _ => true
  | _ => false

end HInstruction

open HInstruction

/-- `HBinaryOperation::GetConstantRight` of a commutative comparison. -/
def getConstantRight (left right : HInstruction) : Option HInstruction :=
  if right.isConstant then some right
  else if left.isConstant then some left
  else none

/-- `HBinaryOperation::GetLeastConstantLeft`: the operand that is not the one
`GetConstantRight` returned. -/
def getLeastConstantLeft (left right : HInstruction) : Option HInstruction :=
  match getConstantRight left right with
  | none => none
  | some mostConstantRight => if mostConstantRight = left then some right else some left

/-- The two successors of an `HIf`. -/
inductive Successor
  | ifTrue
  | ifFalse
  deriving DecidableEq, Repr

/-- `MatchIfInstanceOf`: the `HInstanceOf` the condition tests and the successor in
which the object is an instance, for the shapes the code recognises. -/
def matchIfInstanceOf (input : HInstruction) : Option (HInstruction × Successor) :=
  match input with
  | equal left right =>
      match getConstantRight left right, getLeastConstantLeft left right with
      | some rhs, some lhs =>
          if lhs.isInstanceOf && rhs.isIntConstant then
            -- Case (1a) for the constant `1`; every other constant is read as case (2a).
            if rhs = intConstant 1 then some (lhs, .ifTrue) else some (lhs, .ifFalse)
          else none
      | _, _ => none
  | notEqual left right =>
      match getConstantRight left right, getLeastConstantLeft left right with
      | some rhs, some lhs =>
          if lhs.isInstanceOf && rhs.isIntConstant then
            -- Case (1b) for the constant `0`; every other constant is read as case (2b).
            if rhs = intConstant 0 then some (lhs, .ifTrue) else some (lhs, .ifFalse)
          else none
      | _, _ => none
  | instanceOf _ _ => some (input, .ifTrue)
  | booleanNot notInput => if notInput.isInstanceOf then some (notInput, .ifFalse) else none
  | _ => none

/-! ## What the branch computes -/

/-- The value an instruction computes, from the values of the instructions that are
not comparisons or negations. -/
def evaluate (leaf : HInstruction → Int) : HInstruction → Int
  | intConstant value => value
  | equal left right => if evaluate leaf left = evaluate leaf right then 1 else 0
  | notEqual left right => if evaluate leaf left = evaluate leaf right then 0 else 1
  | booleanNot input => if evaluate leaf input = 0 then 1 else 0
  | instruction => leaf instruction

/-- The successor an `HIf` takes for the value of its condition. -/
def ifSuccessor (condition : Int) : Successor :=
  if condition = 0 then .ifFalse else .ifTrue

/-- An `HInstanceOf` computes `1` for an instance of the class and `0` otherwise
(and for null). -/
def InstanceOfIsBoolean (leaf : HInstruction → Int) : Prop :=
  ∀ object loadClass, leaf (instanceOf object loadClass) = 0 ∨ leaf (instanceOf object loadClass) = 1

/-- What the debug assertions of `MatchIfInstanceOf` demand: an integer constant
compared with an `HInstanceOf` is `0` or `1`. -/
def ComparesWithBoolean : HInstruction → Prop
  | equal left right => ∀ value, intConstant value = left ∨ intConstant value = right → value = 0 ∨ value = 1
  | notEqual left right => ∀ value, intConstant value = left ∨ intConstant value = right → value = 0 ∨ value = 1
  | _ => True

/-! ## The bound type -/

/-- A `ReferenceTypeInfo` that is valid: a class and whether it is exact. -/
structure ReferenceTypeInfo where
  typeHandle : Nat
  isExact : Bool
  deriving DecidableEq, Repr

/-- What `BoundTypeForIfInstanceOf` and `VisitBoundType` give the uses of the
object in the successor: the upper bound of the `HBoundType` and whether it can
be null. -/
structure BoundType where
  receiver : Nat
  successor : Successor
  upperBound : ReferenceTypeInfo
  canBeNull : Bool
  deriving DecidableEq, Repr

/-- What the pass reads of the classes and of the object: the class an
`HLoadClass` loaded (none when unresolved), whether that class can be assigned
from no other type, and the object's type and nullability. -/
structure TypeFacts where
  loadedClassRTI : Nat → Option ReferenceTypeInfo
  cannotBeAssignedFromOtherTypes : Nat → Bool
  objectIsExactNonPhi : Nat → Bool
  objectCanBeNull : Nat → Bool

/-- `BoundTypeForIfInstanceOf` for a block ending in `if (input)`, followed by
`VisitBoundType` of the bound type it inserts (which takes the upper bound when it
is exact, and can be null only if the object can and the upper bound allows it,
which `BoundTypeIn` does not). -/
def boundTypeForIfInstanceOf (facts : TypeFacts) (input : HInstruction) : Option BoundType :=
  match matchIfInstanceOf input with
  | some (instanceOf object loadClass, trueBlock) =>
      match facts.loadedClassRTI loadClass with
      | none => none
      | some classRTI =>
          if facts.objectIsExactNonPhi object then none
          else
            let classRTI :=
              if facts.cannotBeAssignedFromOtherTypes classRTI.typeHandle then classRTI
              else { classRTI with isExact := false }
            some { receiver := object, successor := trueBlock, upperBound := classRTI,
                   canBeNull := facts.objectCanBeNull object && false }
  | _ => none

/-! ## Which successor the match names -/

theorem eq_instanceOf_of_isInstanceOf {instruction : HInstruction} (shape : instruction.isInstanceOf) :
    ∃ object loadClass, instruction = instanceOf object loadClass := by
  cases instruction <;> simp_all [isInstanceOf]

theorem eq_intConstant_of_isIntConstant {instruction : HInstruction} (shape : instruction.isIntConstant) :
    ∃ value, instruction = intConstant value := by
  cases instruction <;> simp_all [isIntConstant]

/-- The constant and the other operand that the two getters of a comparison
return are its two operands, in one order or the other. -/
theorem operands_of_getConstantRight {left right rhs lhs : HInstruction}
    (constant : getConstantRight left right = some rhs) (other : getLeastConstantLeft left right = some lhs) :
    (rhs = right ∧ lhs = left) ∨ (rhs = left ∧ lhs = right) := by
  simp only [getLeastConstantLeft, constant] at other
  by_cases same : rhs = left
  · simp only [same, if_true, Option.some.injEq] at other
    exact .inr ⟨same, other.symm⟩
  · simp only [same, if_false, Option.some.injEq] at other
    unfold getConstantRight at constant
    split_ifs at constant <;> cases constant
    · exact .inl ⟨rfl, other.symm⟩
    · exact absurd rfl same

/-- What `MatchIfInstanceOf` answers for a comparison: the `HInstanceOf` is one
operand, an integer constant the other, and the successor is chosen by whether the
constant is `yes`. -/
theorem matchIfInstanceOf_compare {left right instanceOfInstruction rhs lhs : HInstruction}
    {trueBlock : Successor} {yes : Int}
    (constant : getConstantRight left right = some rhs) (other : getLeastConstantLeft left right = some lhs)
    (matched : (if (lhs.isInstanceOf && rhs.isIntConstant) = true then
        if rhs = intConstant yes then some (lhs, Successor.ifTrue) else some (lhs, Successor.ifFalse)
      else none) = some (instanceOfInstruction, trueBlock)) :
    ∃ object loadClass value, instanceOfInstruction = instanceOf object loadClass ∧
      ((left = instanceOfInstruction ∧ right = intConstant value) ∨
        (left = intConstant value ∧ right = instanceOfInstruction)) ∧
      trueBlock = if value = yes then .ifTrue else .ifFalse := by
  by_cases shape : (lhs.isInstanceOf && rhs.isIntConstant) = true
  · rw [if_pos shape] at matched
    simp only [Bool.and_eq_true] at shape
    obtain ⟨object, loadClass, rfl⟩ := eq_instanceOf_of_isInstanceOf shape.1
    obtain ⟨value, rfl⟩ := eq_intConstant_of_isIntConstant shape.2
    have answer : instanceOfInstruction = instanceOf object loadClass ∧
        trueBlock = if value = yes then .ifTrue else .ifFalse := by
      by_cases isYes : value = yes
      · subst isYes
        simp only [if_true, Option.some.injEq, Prod.mk.injEq] at matched
        exact ⟨matched.1.symm, by simp [matched.2]⟩
      · have notYes : intConstant value ≠ intConstant yes := fun same => isYes (intConstant.inj same)
        simp only [notYes, if_false, Option.some.injEq, Prod.mk.injEq] at matched
        exact ⟨matched.1.symm, by simp [isYes, matched.2]⟩
    obtain ⟨rfl, rfl⟩ := answer
    refine ⟨object, loadClass, value, rfl, ?_, rfl⟩
    rcases operands_of_getConstantRight constant other with ⟨rfl, rfl⟩ | ⟨rfl, rfl⟩
    · exact .inl ⟨rfl, rfl⟩
    · exact .inr ⟨rfl, rfl⟩
  · rw [if_neg shape] at matched
    cases matched

/-- A comparison of an `HInstanceOf` with a constant, in either order. -/
theorem evaluate_equal_operands (leaf : HInstruction → Int) {left right instanceOfInstruction : HInstruction}
    {value : Int} (operands : (left = instanceOfInstruction ∧ right = intConstant value) ∨
      (left = intConstant value ∧ right = instanceOfInstruction))
    (leafInstance : evaluate leaf instanceOfInstruction = leaf instanceOfInstruction) :
    evaluate leaf (equal left right) = if leaf instanceOfInstruction = value then 1 else 0 := by
  rcases operands with ⟨rfl, rfl⟩ | ⟨rfl, rfl⟩
  · simp only [evaluate, leafInstance]
  · simp only [evaluate, leafInstance, eq_comm]

theorem evaluate_notEqual_operands (leaf : HInstruction → Int) {left right instanceOfInstruction : HInstruction}
    {value : Int} (operands : (left = instanceOfInstruction ∧ right = intConstant value) ∨
      (left = intConstant value ∧ right = instanceOfInstruction))
    (leafInstance : evaluate leaf instanceOfInstruction = leaf instanceOfInstruction) :
    evaluate leaf (notEqual left right) = if leaf instanceOfInstruction = value then 0 else 1 := by
  rcases operands with ⟨rfl, rfl⟩ | ⟨rfl, rfl⟩
  · simp only [evaluate, leafInstance]
  · simp only [evaluate, leafInstance, eq_comm]

/-- The constant a matched comparison uses is one of its operands, so the
assertion covers it. -/
theorem value_boolean_of_operands {left right instanceOfInstruction : HInstruction} {value : Int}
    (asserted : ∀ constant, intConstant constant = left ∨ intConstant constant = right →
      constant = 0 ∨ constant = 1)
    (operands : (left = instanceOfInstruction ∧ right = intConstant value) ∨
      (left = intConstant value ∧ right = instanceOfInstruction)) : value = 0 ∨ value = 1 := by
  rcases operands with ⟨_, rfl⟩ | ⟨rfl, _⟩
  · exact asserted value (.inr rfl)
  · exact asserted value (.inl rfl)

/-- **The matched successor is reached only by instances**, when the constants
are booleans as the debug assertions demand: whenever the `HIf` takes the
successor that `MatchIfInstanceOf` names, the `HInstanceOf` it names computed `1`. -/
theorem matchIfInstanceOf_sound {leaf : HInstruction → Int} (boolean : InstanceOfIsBoolean leaf)
    {input instanceOfInstruction : HInstruction} {trueBlock : Successor}
    (asserted : ComparesWithBoolean input)
    (matched : matchIfInstanceOf input = some (instanceOfInstruction, trueBlock))
    (taken : ifSuccessor (evaluate leaf input) = trueBlock) :
    leaf instanceOfInstruction = 1 := by
  cases input with
  | equal left right =>
      simp only [matchIfInstanceOf] at matched
      split at matched
      case h_2 => cases matched
      case h_1 rhs lhs constant other =>
        obtain ⟨object, loadClass, value, rfl, operands, rfl⟩ :=
          matchIfInstanceOf_compare constant other matched
        have isBoolean := value_boolean_of_operands asserted operands
        rw [evaluate_equal_operands leaf operands rfl] at taken
        -- The test computed `0` or `1`; the successor taken rules out `0`.
        rcases boolean object loadClass with zero | one
        · rcases isBoolean with rfl | rfl <;> simp [zero, ifSuccessor] at taken
        · exact one
  | notEqual left right =>
      simp only [matchIfInstanceOf] at matched
      split at matched
      case h_2 => cases matched
      case h_1 rhs lhs constant other =>
        obtain ⟨object, loadClass, value, rfl, operands, rfl⟩ :=
          matchIfInstanceOf_compare constant other matched
        have isBoolean := value_boolean_of_operands asserted operands
        rw [evaluate_notEqual_operands leaf operands rfl] at taken
        rcases boolean object loadClass with zero | one
        · rcases isBoolean with rfl | rfl <;> simp [zero, ifSuccessor] at taken
        · exact one
  | instanceOf object loadClass =>
      simp only [matchIfInstanceOf, Option.some.injEq, Prod.mk.injEq] at matched
      obtain ⟨rfl, rfl⟩ := matched
      rcases boolean object loadClass with zero | one
      · simp [evaluate, zero, ifSuccessor] at taken
      · exact one
  | booleanNot notInput =>
      simp only [matchIfInstanceOf] at matched
      split_ifs at matched with shape
      obtain ⟨rfl, rfl⟩ := Prod.mk.inj (Option.some.inj matched)
      obtain ⟨object, loadClass, rfl⟩ := eq_instanceOf_of_isInstanceOf shape
      rcases boolean object loadClass with zero | one
      · simp [evaluate, zero, ifSuccessor] at taken
      · exact one
  | _ => simp [matchIfInstanceOf] at matched

/-- **A comparison with `2` bounds the type in the wrong successor.** For
`if (obj instanceof C == 2)`, with `C` resolved and `obj` not already exactly
typed, the pass gives the uses of `obj` in the false successor a bound type
with upper bound `C` that cannot be null; yet the branch is never taken, so an
object that is not an instance of `C` (or null, for which the test computes `0`)
reaches that successor. -/
theorem boundType_of_compare_with_two (facts : TypeFacts) (object loadClass : Nat)
    (classRTI : ReferenceTypeInfo) (resolved : facts.loadedClassRTI loadClass = some classRTI)
    (notExact : facts.objectIsExactNonPhi object = false) (leaf : HInstruction → Int)
    (notInstance : leaf (instanceOf object loadClass) = 0) :
    (∃ upperBound, boundTypeForIfInstanceOf facts (equal (instanceOf object loadClass) (intConstant 2)) =
        some { receiver := object, successor := .ifFalse, upperBound := upperBound, canBeNull := false }) ∧
      ifSuccessor (evaluate leaf (equal (instanceOf object loadClass) (intConstant 2))) = .ifFalse := by
  constructor
  · -- `2` is not `1`, so the comparison is read as case (2a).
    have matched : matchIfInstanceOf (equal (instanceOf object loadClass) (intConstant 2)) =
        some (instanceOf object loadClass, .ifFalse) := rfl
    simp [boundTypeForIfInstanceOf, matched, resolved, notExact]
  · simp [evaluate, notInstance, ifSuccessor]

/-- The facts of the failing input: the class tested is `String` (class `1`, final,
so its bound is exact), the object is a parameter (instruction `0`) typed
`Object`, which can be null. -/
def stringTestFacts : TypeFacts where
  loadedClassRTI _ := some ⟨1, true⟩
  cannotBeAssignedFromOtherTypes _ := true
  objectIsExactNonPhi _ := false
  objectCanBeNull _ := true

/-- The failing input: `if (p0 instanceof String == 2)` with `p0` a plain `Object`
or null. The pass bounds `p0` to a non-null `String` in the false successor, and
that is where the method goes. -/
theorem string_test_against_two_bounds_false_successor :
    stringTestFacts.loadedClassRTI 5 = some ⟨1, true⟩ ∧ stringTestFacts.objectIsExactNonPhi 0 = false ∧
      (∃ upperBound, boundTypeForIfInstanceOf stringTestFacts (equal (instanceOf 0 5) (intConstant 2)) =
        some { receiver := 0, successor := .ifFalse, upperBound := upperBound, canBeNull := false }) ∧
      ifSuccessor (evaluate (fun _ => 0) (equal (instanceOf 0 5) (intConstant 2))) = .ifFalse :=
  ⟨rfl, rfl, boundType_of_compare_with_two stringTestFacts 0 5 ⟨1, true⟩ rfl rfl (fun _ => 0) rfl⟩

end Art.Compiler.Optimizing.ReferenceTypePropagation
