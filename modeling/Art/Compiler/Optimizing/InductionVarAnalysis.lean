import Art.Compiler.Optimizing.InductionVarRange
import Art.Machine.Word

/-!
# The trip count of a loop

`HInductionVarAnalysis::VisitControl` looks at the `HIf` that ends a loop header.
When it compares a linear induction `i` (initial value `L`, constant stride `S`)
with a loop invariant `U`, `VisitCondition` normalises the test to `i < U` or
`i <= U` for a positive stride and to `i > U` or `i >= U` for a negative one, and
`VisitTripCount` gives the loop the trip count `(U + S - L) / S` (with `U - 1` for
`U` under `<` and `U + 1` under `>`, unless the stride is a unit), an invariant
expression computed in the type of the condition and read as an unsigned number.
It is valid in the whole loop (`kTripCountInLoop`) when `IsTaken` and `IsFinite`
prove at compile time that the loop is entered and that it ends.

The expression is built by `CreateInvariantOp`, which folds a few identities, and
the constant bounds are asked of `InductionVarRange` (`IsExact`, `IsAtMost`,
`IsAtLeast`). A loop is run by `tripsOf`: the number of times its body runs, in
the arithmetic of the condition's words.

A loop `i <= U` with a positive stride that does not carry `U` out of the type
runs `(U + S - L) / S` times (`tripsOf_le_quotient`, from the run lemma
`tripsOf_le`). For a stride of `2` or more the numerator `U + S - L` may leave the
range of the type while both tests succeed: `IsFinite` bounds `U + S` but nothing
bounds `U + S - L`. The wrapped numerator is negative, the signed division keeps it
at zero or below, and the unsigned reading of the quotient is never the number of
runs (`toNat_wrapped_quotient_ne`, `visitCondition_tripCount_wraps`). The loop
`for (int i = Integer.MIN_VALUE; i <= Integer.MAX_VALUE - 2; i += 2)` runs
`2^31 - 1` times, and its trip count is `0`.
-/

set_option autoImplicit false

namespace Art.Compiler.Optimizing

namespace HInductionVarAnalysis

open InductionVarRange

/-- `IfCondition`. -/
inductive IfCondition
  | eq
  | ne
  | lt
  | le
  | gt
  | ge
  | b
  | be
  | a
  | ae
  deriving DecidableEq, Repr

/-- `GetOppositeCondition` of the condition that tests it. -/
def IfCondition.opposite : IfCondition → IfCondition
  | .eq => .ne
  | .ne => .eq
  | .lt => .ge
  | .le => .gt
  | .gt => .le
  | .ge => .lt
  | .b => .ae
  | .be => .a
  | .a => .be
  | .ae => .b

/-- Whether the condition holds of two words: signed for `<`, `<=`, `>`, `>=`,
unsigned for the others. -/
def IfCondition.holds {w : Nat} (x y : BitVec w) : IfCondition → Bool
  | .eq => x == y
  | .ne => x != y
  | .lt => x.slt y
  | .le => x.sle y
  | .gt => y.slt x
  | .ge => y.sle x
  | .b => x.ult y
  | .be => x.ule y
  | .a => y.ult x
  | .ae => y.ule x

/-- `ImplicitConversion`: the types narrower than `int` compute as `int`. -/
def implicitConversion : Primitive.Type → Primitive.Type
  | .primShort | .primChar | .primByte | .primBoolean => .primInt
  | type => type

/-- `Primitive::MinValueOfIntegralType`. -/
def minValueOfIntegralType : Primitive.Type → Int
  | .primBoolean => 0
  | .primByte => -2 ^ 7
  | .primChar => 0
  | .primShort => -2 ^ 15
  | .primInt => -2 ^ 31
  | .primLong => -2 ^ 63
  | _ => 0

/-- `Primitive::MaxValueOfIntegralType`. -/
def maxValueOfIntegralType : Primitive.Type → Int
  | .primBoolean => 1
  | .primByte => 2 ^ 7 - 1
  | .primChar => 2 ^ 16 - 1
  | .primShort => 2 ^ 15 - 1
  | .primInt => 2 ^ 31 - 1
  | .primLong => 2 ^ 63 - 1
  | _ => 0

/-- What the analysis reads besides the trees: the range analysis it asks for
constant bounds (`InductionVarRange(this)`, with the fuel of its recursion), and
the constants of the graph (`GetIntConstant`, `GetLongConstant`, ...) by value. -/
structure Analysis where
  range : InductionVarRange
  fuel : Nat
  constant : Primitive.Type → Int → Nat

namespace Analysis

variable (analysis : Analysis)

/-- `IsExact`. -/
def isExact (info : InductionInfo) : Option Int := isConstant analysis.range analysis.fuel info .exact

/-- `IsAtMost`. -/
def isAtMost (info : InductionInfo) : Option Int := isConstant analysis.range analysis.fuel info .atMost

/-- `IsAtLeast`. -/
def isAtLeast (info : InductionInfo) : Option Int := isConstant analysis.range analysis.fuel info .atLeast

/-- `CreateConstant`: the fetch of the graph's constant of the type, an `int` for
the types that are not `long`, `float` or `double`. -/
def createConstant (value : Int) (type : Primitive.Type) : InductionInfo :=
  match type with
  | .primLong | .primFloat | .primDouble => .invariantFetch (analysis.constant type value) type
  | _ => .invariantFetch (analysis.constant .primInt value) .primInt

/-- `CreateSimplifiedInvariant` (and `CreateInvariantOp`, which calls it): a new
invariant node, after a few identities of constant operands. -/
def createSimplifiedInvariant (op : InductionOp) (a b : InductionInfo) : InductionInfo :=
  let created := InductionInfo.node .invariant op a b none (implicitConversion b.type)
  -- 0 + b = b, 0 ^ b = b, 0 * b = 0, 1 * b = b, -1 * b = -b
  if analysis.isExact a = some 0 ∧ (op = .add ∨ op = .xor) then b
  else if analysis.isExact a = some 0 ∧ op = .mul then a
  else if analysis.isExact a = some 1 ∧ op = .mul then b
  else if analysis.isExact a = some (-1) ∧ op = .mul then createSimplifiedInvariant .neg .null b
  -- a + 0 = a, a - 0 = a, a ^ 0 = a, a * 0 = 0, -0 = 0, a * 1 = a, a / 1 = a, a * -1 = -a, a / -1 = -a
  else if analysis.isExact b = some 0 ∧ (op = .add ∨ op = .sub ∨ op = .xor) then a
  else if analysis.isExact b = some 0 ∧ (op = .mul ∨ op = .neg) then b
  else if analysis.isExact b = some 1 ∧ (op = .mul ∨ op = .div) then a
  else if analysis.isExact b = some (-1) ∧ (op = .mul ∨ op = .div) then createSimplifiedInvariant .neg .null a
  else if (analysis.isExact b).isSome then created
  -- a + (-b) = a - b, a - (-b) = a + b, -(-b) = b, -(a - b) = b - a
  else if b.operation = .neg ∧ op = .add then createSimplifiedInvariant .sub a b.opB
  else if b.operation = .neg ∧ op = .sub then createSimplifiedInvariant .add a b.opB
  else if b.operation = .neg ∧ op = .neg then b.opB
  else if b.operation = .sub ∧ op = .neg then createSimplifiedInvariant .sub b.opB b.opA
  else created
termination_by sizeOf a + sizeOf b + if op = .mul ∨ op = .div then 1 else 0
decreasing_by
  all_goals
    have positiveA : 0 < sizeOf a := by
      cases a <;> simp only [InductionInfo.null.sizeOf_spec, InductionInfo.node.sizeOf_spec] <;> omega
    cases b <;> simp_all [InductionInfo.operation, InductionInfo.opA, InductionInfo.opB] <;> omega

/-- `CreateTripCount`. -/
def createTripCount (op : InductionOp) (a b : InductionInfo) (type : Primitive.Type) : InductionInfo :=
  .node .invariant op a b none type

/-- `IsTaken`: the loop is entered, by the constant bounds of the two ends. -/
def isTaken (lowerExpr upperExpr : InductionInfo) : IfCondition → Bool
  | .lt => match analysis.isAtMost lowerExpr, analysis.isAtLeast upperExpr with
    | some lowerValue, some upperValue => lowerValue < upperValue
    | _, _ => false
  | .le => match analysis.isAtMost lowerExpr, analysis.isAtLeast upperExpr with
    | some lowerValue, some upperValue => lowerValue ≤ upperValue
    | _, _ => false
  | .gt => match analysis.isAtLeast lowerExpr, analysis.isAtMost upperExpr with
    | some lowerValue, some upperValue => lowerValue > upperValue
    | _, _ => false
  | .ge => match analysis.isAtLeast lowerExpr, analysis.isAtMost upperExpr with
    | some lowerValue, some upperValue => lowerValue ≥ upperValue
    | _, _ => false
  | _ => false

/-- `IsFinite`: the loop ends, by the constant bound of its upper end. The bounds
are computed in `int64_t`, here without its wrap-around. -/
def isFinite (upperExpr : InductionInfo) (strideValue : Int) (type : Primitive.Type) : IfCondition → Bool
  | .lt => strideValue = 1 ||
      (analysis.isAtMost upperExpr).any fun value => value ≤ maxValueOfIntegralType type - strideValue + 1
  | .le => (analysis.isAtMost upperExpr).any fun value => value ≤ maxValueOfIntegralType type - strideValue
  | .gt => strideValue = -1 ||
      (analysis.isAtLeast upperExpr).any fun value => value ≥ minValueOfIntegralType type - strideValue - 1
  | .ge => (analysis.isAtLeast upperExpr).any fun value => value ≥ minValueOfIntegralType type - strideValue
  | _ => false

/-- `FitsNarrowerControl`: a unit stride, and both ends within the narrower type,
one short of its end for an inclusive test. -/
def fitsNarrowerControl (lowerExpr upperExpr : InductionInfo) (strideValue : Int) (type : Primitive.Type)
    (cmp : IfCondition) : Bool :=
  if strideValue ≠ 1 ∧ strideValue ≠ -1 then false
  else
    let max := if cmp = .le then maxValueOfIntegralType type - 1 else maxValueOfIntegralType type
    let min := if cmp ≠ .le ∧ cmp = .ge then minValueOfIntegralType type + 1 else minValueOfIntegralType type
    (analysis.isAtLeast lowerExpr).any (· ≥ min) && (analysis.isAtMost lowerExpr).any (· ≤ max) &&
      (analysis.isAtLeast upperExpr).any (· ≥ min) && (analysis.isAtMost upperExpr).any (· ≤ max)

/-- `VisitTripCount`: the trip count the loop control is given. -/
def visitTripCount (lowerExpr upperExpr strideExpr : InductionInfo) (strideValue : Int) (type : Primitive.Type)
    (cmp : IfCondition) : InductionInfo :=
  let isTaken := analysis.isTaken lowerExpr upperExpr cmp
  let isFinite := analysis.isFinite upperExpr strideValue type cmp
  let cancels := (cmp = .lt ∨ cmp = .gt) ∧ strideValue.natAbs = 1
  let tripCount :=
    if cancels then upperExpr
    else
      -- `i < U` is `i <= U - 1` and `i > U` is `i >= U + 1`; then compensate for the stride
      let inclusive :=
        if cmp = .lt then analysis.createSimplifiedInvariant .sub upperExpr (analysis.createConstant 1 type)
        else if cmp = .gt then analysis.createSimplifiedInvariant .add upperExpr (analysis.createConstant 1 type)
        else upperExpr
      analysis.createSimplifiedInvariant .add inclusive strideExpr
  let tripCount :=
    analysis.createSimplifiedInvariant .div (analysis.createSimplifiedInvariant .sub tripCount lowerExpr) strideExpr
  let tcKind : InductionOp :=
    if isTaken ∧ isFinite then .tripCountInLoop
    else if isFinite then .tripCountInBody
    else if isTaken then .tripCountInLoopUnsafe
    else .tripCountInBodyUnsafe
  let op : InductionOp :=
    match cmp with
    | .lt => .lt
    | .le => .le
    | .gt => .gt
    | .ge => .ge
    | _ => .nop
  createTripCount tcKind tripCount (analysis.createSimplifiedInvariant op lowerExpr upperExpr) type

/-- The second case of `VisitCondition`, with the induction on the left: the trip
count of a normalised loop control, if any. -/
def visitLinearCondition (a b : InductionInfo) (type : Primitive.Type) (cmp : IfCondition) : Option InductionInfo :=
  let lowerExpr := a.opB
  let upperExpr := b
  let strideExpr := a.opA
  match analysis.isExact strideExpr with
  | none => none
  | some strideValue =>
    -- `i != U` is `i < U` or `i > U` when a unit stride reaches `U` exactly
    let cmp :=
      if cmp = .ne ∧ ((strideValue = 1 ∧ analysis.isTaken lowerExpr upperExpr .le) ∨
          (strideValue = -1 ∧ analysis.isTaken lowerExpr upperExpr .ge)) then
        if strideValue > 0 then .lt else .gt
      else cmp
    if type ≠ .primInt ∧ type ≠ .primLong then none
    else if type ≠ a.type ∧ !analysis.fitsNarrowerControl lowerExpr upperExpr strideValue a.type cmp then none
    else if (strideValue > 0 ∧ (cmp = .lt ∨ cmp = .le)) ∨ (strideValue < 0 ∧ (cmp = .gt ∨ cmp = .ge)) then
      some (analysis.visitTripCount lowerExpr upperExpr strideExpr strideValue type cmp)
    else none

/-- `VisitCondition`: with the induction on the right, the test is turned around,
and the code calls itself on the turned test, which takes the second case. -/
def visitCondition (a b : InductionInfo) (type : Primitive.Type) (cmp : IfCondition) : Option InductionInfo :=
  if a.inductionClass = .invariant ∧ b.inductionClass = .linear then
    match cmp with
    | .lt => analysis.visitLinearCondition b a type .gt
    | .le => analysis.visitLinearCondition b a type .ge
    | .gt => analysis.visitLinearCondition b a type .lt
    | .ge => analysis.visitLinearCondition b a type .le
    | .ne => analysis.visitLinearCondition b a type .ne
    | _ => none
  else if a.inductionClass = .linear ∧ b.inductionClass = .invariant then
    analysis.visitLinearCondition a b type cmp
  else none

/-- `VisitControl`: the trees of the two inputs of the condition (`null` when
the analysis has none), the type of its first input, the condition, and whether
the true and the false successor stay in the loop. The test is passed on as the
one that keeps the loop going. -/
def visitControl (a b : InductionInfo) (inputType : Primitive.Type) (condition : IfCondition)
    (trueInLoop falseInLoop : Bool) : Option InductionInfo :=
  let type := implicitConversion inputType
  if a = .null ∨ b = .null then none
  else if !trueInLoop ∧ falseInLoop then analysis.visitCondition a b type condition.opposite
  else if trueInLoop ∧ !falseInLoop then analysis.visitCondition a b type condition
  else none

/-! ### Steps of the analysis -/

section Steps

variable {analysis : Analysis}

/-- An `int` constant of the graph is its own exact value and bounds. -/
theorem isConstant_fetch (fueled : 0 < analysis.fuel) {id : Nat} {value : BitVec 32}
    (constant : analysis.range.graph.instructionAt id = .intConstant value) (request : ConstantRequest) :
    isConstant analysis.range analysis.fuel (.invariantFetch id .primInt) request = some value.toInt := by
  obtain ⟨fuel, more⟩ : ∃ fuel, analysis.fuel = fuel + 1 := ⟨analysis.fuel - 1, by omega⟩
  rw [more]
  exact isConstant_invariantFetch constant

/-- `0 + b` is `b`. -/
theorem createSimplifiedInvariant_zero_add {a b : InductionInfo} (leftZero : analysis.isExact a = some 0) :
    analysis.createSimplifiedInvariant .add a b = b := by
  rw [createSimplifiedInvariant, if_pos ⟨leftZero, .inl rfl⟩]

/-- A node is created for a right operand with an exact value that no identity of
`op` folds, and a left operand that none folds either. -/
theorem createSimplifiedInvariant_of_isExact {op : InductionOp} {a b : InductionInfo} {v : Int}
    (leftZero : analysis.isExact a = some 0 → op ≠ .add ∧ op ≠ .xor ∧ op ≠ .mul)
    (leftUnit : op = .mul → analysis.isExact a ≠ some 1 ∧ analysis.isExact a ≠ some (-1))
    (rightExact : analysis.isExact b = some v)
    (rightZero : v = 0 → op ≠ .add ∧ op ≠ .sub ∧ op ≠ .xor ∧ op ≠ .mul ∧ op ≠ .neg)
    (rightUnit : op = .mul ∨ op = .div → v ≠ 1 ∧ v ≠ -1) :
    analysis.createSimplifiedInvariant op a b = .node .invariant op a b none (implicitConversion b.type) := by
  rw [createSimplifiedInvariant]
  simp only [rightExact, Option.some.injEq, Option.isSome_some]
  split_ifs <;> grind

/-- `IsTaken` of `<=`: the lower end at most the upper. -/
theorem isTaken_le {lowerExpr upperExpr : InductionInfo} {lowerValue upperValue : Int}
    (lower : analysis.isAtMost lowerExpr = some lowerValue) (upper : analysis.isAtLeast upperExpr = some upperValue) :
    analysis.isTaken lowerExpr upperExpr .le = decide (lowerValue ≤ upperValue) := by
  rw [isTaken, lower, upper]

/-- `IsFinite` of `<=`: the upper end a stride short of the end of the type. -/
theorem isFinite_le {upperExpr : InductionInfo} {upperValue : Int} (upper : analysis.isAtMost upperExpr = some upperValue)
    (strideValue : Int) (type : Primitive.Type) :
    analysis.isFinite upperExpr strideValue type .le = decide (upperValue ≤ maxValueOfIntegralType type - strideValue) := by
  rw [isFinite, upper]
  rfl

/-- A loop `i <= U` that is taken and finite gets the trip count
`(U + S - L) / S`, valid in the loop. -/
theorem visitTripCount_le {lowerExpr upperExpr strideExpr : InductionInfo} {strideValue : Int} {type : Primitive.Type}
    (taken : analysis.isTaken lowerExpr upperExpr .le) (finite : analysis.isFinite upperExpr strideValue type .le) :
    analysis.visitTripCount lowerExpr upperExpr strideExpr strideValue type .le =
      .node .invariant .tripCountInLoop
        (analysis.createSimplifiedInvariant .div
          (analysis.createSimplifiedInvariant .sub (analysis.createSimplifiedInvariant .add upperExpr strideExpr) lowerExpr)
          strideExpr)
        (analysis.createSimplifiedInvariant .le lowerExpr upperExpr) none type := by
  simp [visitTripCount, taken, finite, createTripCount]

/-- An `int` control `i <= U` of a linear induction with a positive stride is given
the trip count of `VisitTripCount`. -/
theorem visitCondition_le {a b : InductionInfo} {strideValue : Int} (linear : a.inductionClass = .linear)
    (invariant : b.inductionClass = .invariant) (intType : a.type = .primInt)
    (stride : analysis.isExact a.opA = some strideValue) (positive : 0 < strideValue) :
    analysis.visitCondition a b .primInt .le =
      some (analysis.visitTripCount a.opB b a.opA strideValue .primInt .le) := by
  rw [visitCondition, if_neg (by simp [linear]), if_pos ⟨linear, invariant⟩, visitLinearCondition, stride]
  simp [intType, positive]

end Steps

end Analysis

/-! ## Running the loop -/

/-- The number of times the body of `for (i = initial; i cmp upper; i += stride)`
runs, in the arithmetic of `w`-bit words, when the loop leaves within `fuel`
tests of its condition. -/
def tripsOf {w : Nat} (cmp : IfCondition) (upper stride : BitVec w) : Nat → BitVec w → Option Nat
  | 0, _ => none
  | fuel + 1, i => if cmp.holds i upper then (tripsOf cmp upper stride fuel (i + stride)).map (· + 1) else some 0

/-- **The loop `i <= upper; i += stride` runs `n` times** from a start `n` strides
below the first value past `upper`, when a positive stride cannot carry `upper` out
of the range of the word. The induction is on `n`, each test of the condition moving
the start one stride up. -/
theorem tripsOf_le {w : Nat} {upper stride : BitVec w} (positive : 0 < stride.toInt)
    (noOverflow : upper.toInt + stride.toInt < 2 ^ (w - 1)) :
    ∀ (n fuel : Nat) (i : BitVec w), n < fuel → upper.toInt < i.toInt + n * stride.toInt →
      i.toInt + n * stride.toInt ≤ upper.toInt + stride.toInt → tripsOf .le upper stride fuel i = some n := by
  intro n
  induction n with
  | zero =>
      rintro (_ | fuel) i enough past _
      · omega
      · have stops : ¬i.sle upper := by
          rw [BitVec.sle_iff_toInt_le]
          omega
        simp [tripsOf, IfCondition.holds, stops]
  | succ n ih =>
      rintro (_ | fuel) i enough past within
      · omega
      · have runs : i.sle upper := by
          rw [BitVec.sle_iff_toInt_le]
          have : 0 ≤ (n : Int) * stride.toInt := Int.mul_nonneg (by omega) (by omega)
          push_cast at within
          linarith
        have next : (i + stride).toInt = i.toInt + stride.toInt := by
          have := BitVec.le_toInt i
          refine Art.Machine.toInt_add_of_mem (by omega) ?_
          rw [BitVec.sle_iff_toInt_le] at runs
          omega
        have rest := ih fuel (i + stride) (by omega) (by push_cast at past; rw [next]; linarith)
          (by push_cast at within; rw [next]; linarith)
        simp [tripsOf, IfCondition.holds, runs, rest]

/-- **The loop `i <= U; i += S` runs `(U + S - L) / S` times** from `L <= U`, for a
positive stride that does not carry `U` out of the range of the word: that many
strides put `L` past `U`, and no fewer. -/
theorem tripsOf_le_quotient {w : Nat} {lower upper stride : BitVec w} (positive : 0 < stride.toInt)
    (entered : lower.toInt ≤ upper.toInt) (noOverflow : upper.toInt + stride.toInt < 2 ^ (w - 1)) (fuel : Nat)
    (enough : ((upper.toInt + stride.toInt - lower.toInt) / stride.toInt).toNat < fuel) :
    tripsOf .le upper stride fuel lower = some ((upper.toInt + stride.toInt - lower.toInt) / stride.toInt).toNat := by
  -- the quotient `N` of `U + S - L` puts `L + N * S` in `U + 1 .. U + S`
  have atLeastOne : 1 ≤ (upper.toInt + stride.toInt - lower.toInt) / stride.toInt :=
    (Int.le_ediv_iff_mul_le positive).2 (by omega)
  have below := Int.ediv_mul_le (upper.toInt + stride.toInt - lower.toInt) (show stride.toInt ≠ 0 by omega)
  have above := Int.lt_ediv_add_one_mul_self (upper.toInt + stride.toInt - lower.toInt) positive
  rw [Int.add_mul, Int.one_mul] at above
  refine tripsOf_le positive noOverflow _ fuel lower enough ?_ ?_
  · rw [Int.toNat_of_nonneg (by omega)]
    omega
  · rw [Int.toNat_of_nonneg (by omega)]
    omega

/-- A numerator `x` of `2^31 .. 2^32 - 1` wraps in `int`; divided there by a stride
of `2` or more no greater than it, and read as an unsigned `int`, it is `0` where the
quotient of `x` is positive, and within `2^30` of `2^32` where that quotient is below
`2^31`: never the quotient of `x`. -/
theorem toNat_wrapped_quotient_ne {x stride : Int} (two : 2 ≤ stride) (covers : stride ≤ x)
    (wrapped : 2 ^ 31 ≤ x) (fits : x < 2 ^ 32) :
    (BitVec.ofInt 32 (javaWrap .primInt ((javaWrap .primInt x).tdiv stride))).toNat ≠ (x / stride).toNat := by
  have numerator : javaWrap .primInt x = -(2 ^ 32 - x) := by
    rw [javaWrap, Art.Machine.toInt_ofInt_of_lt (by norm_num) (by omega) (by omega)]
    simp only [show ¬x < -2 ^ (32 - 1) by omega, if_false, if_pos (show 2 ^ (32 - 1) ≤ x by omega)]
    omega
  -- the signed division rounds the negative numerator toward zero
  have quotient : (javaWrap .primInt x).tdiv stride = -((2 ^ 32 - x) / stride) := by
    rw [numerator, Int.neg_tdiv, Int.tdiv_eq_ediv_of_nonneg (by omega)]
  have nonneg : 0 ≤ (2 ^ 32 - x) / stride := Int.ediv_nonneg (by omega) (by omega)
  have small : 2 * ((2 ^ 32 - x) / stride) ≤ 2 ^ 32 - x :=
    calc 2 * ((2 ^ 32 - x) / stride) ≤ stride * ((2 ^ 32 - x) / stride) := Int.mul_le_mul_of_nonneg_right two nonneg
      _ ≤ 2 ^ 32 - x := Int.mul_ediv_self_le (by omega)
  have unwrapped : javaWrap .primInt (-((2 ^ 32 - x) / stride)) = -((2 ^ 32 - x) / stride) :=
    BitVec.toInt_ofInt_eq_self (by norm_num) (by omega) (by omega)
  -- the quotient of `x` itself is at least `1` and below `2^31`
  have atLeastOne : 1 ≤ x / stride := (Int.le_ediv_iff_mul_le (by omega)).2 (by omega)
  have half : 2 * (x / stride) ≤ x :=
    calc 2 * (x / stride) ≤ stride * (x / stride) := Int.mul_le_mul_of_nonneg_right two (by omega)
      _ ≤ x := Int.mul_ediv_self_le (by omega)
  rw [quotient, unwrapped, BitVec.toNat_ofInt]
  omega

/-! ## The trip count of a wrapped numerator -/

/-- The fetch of an `int` constant has the constant's value. -/
theorem invariantValue_fetch {graph : HGraph} {id : Nat} {value : BitVec 32}
    (constant : graph.instructionAt id = .intConstant value) (arguments : Nat → HValue) :
    (InductionInfo.invariantFetch id .primInt).invariantValue
        (fun id => (graph.evaluate arguments id).map HValue.toInt) = some value.toInt := by
  rw [InductionInfo.invariantFetch, InductionInfo.invariantValue, Option.bind_some,
    HGraph.evaluate_of_instructionAt graph arguments constant fun same => by cases same]
  rfl

/-- `U + S` as `CreateInvariantOp` builds it from two `int` constants, the fetch of
`S` alone when `U` is zero, has the value `U + S` when that stays in `int`. -/
theorem invariantValue_add_fetch {analysis : Analysis} (fueled : 0 < analysis.fuel) {upper stride : Nat}
    {upperValue strideValue : BitVec 32}
    (upperConstant : analysis.range.graph.instructionAt upper = .intConstant upperValue)
    (strideConstant : analysis.range.graph.instructionAt stride = .intConstant strideValue)
    (nonzero : strideValue.toInt ≠ 0) (low : -2 ^ 31 ≤ upperValue.toInt + strideValue.toInt)
    (high : upperValue.toInt + strideValue.toInt < 2 ^ 31) (arguments : Nat → HValue) :
    (analysis.createSimplifiedInvariant .add (.invariantFetch upper .primInt) (.invariantFetch stride .primInt)).invariantValue
        (fun id => (analysis.range.graph.evaluate arguments id).map HValue.toInt) =
      some (upperValue.toInt + strideValue.toInt) := by
  have exactUpper : analysis.isExact (.invariantFetch upper .primInt) = some upperValue.toInt :=
    Analysis.isConstant_fetch fueled upperConstant .exact
  by_cases zero : upperValue.toInt = 0
  · rw [Analysis.createSimplifiedInvariant_zero_add (exactUpper.trans (by rw [zero])),
      invariantValue_fetch strideConstant, zero, Int.zero_add]
  · rw [Analysis.createSimplifiedInvariant_of_isExact (by simp [exactUpper, zero]) (by simp)
      (Analysis.isConstant_fetch fueled strideConstant .exact) (fun zero => absurd zero nonzero) (by simp)]
    simp only [InductionInfo.invariantValue, invariantValue_fetch upperConstant, invariantValue_fetch strideConstant,
      Option.bind_eq_bind, Option.bind_some]
    exact congrArg some (BitVec.toInt_ofInt_eq_self (by norm_num) (by omega) (by omega))

/-- **The trip count of `for (i = L; i <= U; i += S)` wraps.** With constant ends
and a constant stride of `2` or more, `IsTaken` and `IsFinite` both succeed when
`L <= U` and `U + S` stays in `int`, and the loop is given a trip count valid in the
loop. When `U + S - L` leaves `int`, the loop runs (it ends, in the arithmetic of
`int`, after `(U + S - L) / S` runs), and the trip count, evaluated as the tree says
and read as an unsigned number, is not that number of runs. -/
theorem visitCondition_tripCount_wraps (analysis : Analysis) (fueled : 0 < analysis.fuel)
    {lower upper stride : Nat} {lowerValue upperValue strideValue : BitVec 32}
    (lowerConstant : analysis.range.graph.instructionAt lower = .intConstant lowerValue)
    (upperConstant : analysis.range.graph.instructionAt upper = .intConstant upperValue)
    (strideConstant : analysis.range.graph.instructionAt stride = .intConstant strideValue)
    (twoOrMore : 2 ≤ strideValue.toInt) (entered : lowerValue.toInt ≤ upperValue.toInt)
    (finite : upperValue.toInt + strideValue.toInt ≤ 2 ^ 31 - 1)
    (wraps : 2 ^ 31 ≤ upperValue.toInt + strideValue.toInt - lowerValue.toInt) :
    ∃ tripCount takenTest,
      analysis.visitCondition
          (.node .linear .nop (.invariantFetch stride .primInt) (.invariantFetch lower .primInt) none .primInt)
          (.invariantFetch upper .primInt) .primInt .le =
        some (.node .invariant .tripCountInLoop tripCount takenTest none .primInt) ∧
      ∃ runs : Nat, (∀ fuel, runs < fuel → tripsOf .le upperValue strideValue fuel lowerValue = some runs) ∧
        ∀ arguments, ∃ count,
          tripCount.invariantValue (fun id => (analysis.range.graph.evaluate arguments id).map HValue.toInt) =
            some count ∧ (BitVec.ofInt 32 count).toNat ≠ runs := by
  have lowerBound := BitVec.le_toInt lowerValue
  have upperBound := BitVec.le_toInt upperValue
  have exactStride : analysis.isExact (.invariantFetch stride .primInt) = some strideValue.toInt :=
    Analysis.isConstant_fetch fueled strideConstant .exact
  have exactLower : analysis.isExact (.invariantFetch lower .primInt) = some lowerValue.toInt :=
    Analysis.isConstant_fetch fueled lowerConstant .exact
  -- both tests succeed: the loop is entered, and `U + S` stays in `int`
  have taken : analysis.isTaken (.invariantFetch lower .primInt) (.invariantFetch upper .primInt) .le := by
    rw [Analysis.isTaken_le (Analysis.isConstant_fetch fueled lowerConstant .atMost)
      (Analysis.isConstant_fetch fueled upperConstant .atLeast)]
    exact decide_eq_true entered
  have bounded : analysis.isFinite (.invariantFetch upper .primInt) strideValue.toInt .primInt .le := by
    rw [Analysis.isFinite_le (Analysis.isConstant_fetch fueled upperConstant .atMost)]
    exact decide_eq_true (by simp only [maxValueOfIntegralType]; omega)
  -- `L` is negative and `S` no unit, so neither is folded away
  set sum := analysis.createSimplifiedInvariant .add (.invariantFetch upper .primInt) (.invariantFetch stride .primInt)
    with sumIs
  have subtracted : analysis.createSimplifiedInvariant .sub sum (.invariantFetch lower .primInt) =
      .node .invariant .sub sum (.invariantFetch lower .primInt) none .primInt :=
    Analysis.createSimplifiedInvariant_of_isExact (by simp) (by simp) exactLower
      (fun zero => absurd zero (by omega)) (by simp)
  have divided : analysis.createSimplifiedInvariant .div
        (.node .invariant .sub sum (.invariantFetch lower .primInt) none .primInt) (.invariantFetch stride .primInt) =
      .node .invariant .div (.node .invariant .sub sum (.invariantFetch lower .primInt) none .primInt)
        (.invariantFetch stride .primInt) none .primInt :=
    Analysis.createSimplifiedInvariant_of_isExact (by simp) (by simp) exactStride
      (fun zero => absurd zero (by omega)) (fun _ => ⟨by omega, by omega⟩)
  have visited : analysis.visitCondition
      (.node .linear .nop (.invariantFetch stride .primInt) (.invariantFetch lower .primInt) none .primInt)
      (.invariantFetch upper .primInt) .primInt .le =
        some (analysis.visitTripCount (.invariantFetch lower .primInt) (.invariantFetch upper .primInt)
          (.invariantFetch stride .primInt) strideValue.toInt .primInt .le) :=
    Analysis.visitCondition_le rfl rfl rfl exactStride (by omega)
  rw [Analysis.visitTripCount_le taken bounded, subtracted, divided] at visited
  refine ⟨_, _, visited, ((upperValue.toInt + strideValue.toInt - lowerValue.toInt) / strideValue.toInt).toNat,
    ?runs, fun arguments => ⟨_, ?counted, toNat_wrapped_quotient_ne twoOrMore (by omega) wraps (by omega)⟩⟩
  case runs => exact tripsOf_le_quotient (by omega) entered (by omega)
  case counted =>
    have nonzero : strideValue.toInt ≠ 0 := by omega
    have summed := invariantValue_add_fetch fueled upperConstant strideConstant nonzero (by omega) (by omega) arguments
    rw [← sumIs] at summed
    simp only [InductionInfo.invariantValue, summed, invariantValue_fetch lowerConstant,
      invariantValue_fetch strideConstant, Option.bind_eq_bind, Option.bind_some, nonzero, reduceIte]

/-- `for (int i = Integer.MIN_VALUE; i <= Integer.MAX_VALUE - 2; i += 2)`: the
constants `L`, `U` and `S` of the loop. -/
def stepByTwo : HGraph :=
  [.intConstant (BitVec.intMin 32), .intConstant (BitVec.ofInt 32 (2 ^ 31 - 3)), .intConstant 2]

/-- The analysis of `stepByTwo`, with a range analysis that knows no loops. -/
def stepByTwoAnalysis : Analysis :=
  ⟨⟨stepByTwo, ⟨fun _ => none, fun _ => 0, fun _ => 0, fun _ => 0, fun _ _ => .null⟩, none⟩, 1, fun _ _ => 0⟩

theorem visitCondition_tripCount_wraps_stepByTwo :
    ∃ tripCount takenTest,
      stepByTwoAnalysis.visitCondition
          (.node .linear .nop (.invariantFetch 2 .primInt) (.invariantFetch 0 .primInt) none .primInt)
          (.invariantFetch 1 .primInt) .primInt .le =
        some (.node .invariant .tripCountInLoop tripCount takenTest none .primInt) ∧
      ∃ runs : Nat,
        (∀ fuel, runs < fuel → tripsOf .le (BitVec.ofInt 32 (2 ^ 31 - 3)) 2 fuel (BitVec.intMin 32) = some runs) ∧
        ∀ arguments, ∃ count,
          tripCount.invariantValue (fun id => (stepByTwo.evaluate arguments id).map HValue.toInt) = some count ∧
          (BitVec.ofInt 32 count).toNat ≠ runs :=
  visitCondition_tripCount_wraps stepByTwoAnalysis (by decide) rfl rfl rfl (by decide) (by decide) (by decide)
    (by decide)

end HInductionVarAnalysis

end Art.Compiler.Optimizing
