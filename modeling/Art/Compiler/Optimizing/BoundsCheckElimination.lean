import Art.Compiler.Optimizing.InductionVarRange
import Art.Machine.Word

/-!
# Value bounds and value ranges of bounds-check elimination

Bounds-check elimination keeps, for an `int` instruction, a range of values whose
lower and upper bounds are `ValueBound`s: an instruction, or none, plus an `int32_t`
constant, such as `array.length - 1`. A bound denotes the value of its instruction
plus its constant, computed exactly (`ValueBound.denote`); a `ValueRange` contains
the values between the two (`ValueRange.Contains`). A `MonotonicValueRange` stands
for a loop-header phi that starts at an initial value and moves by a constant
increment on each back edge.

**Shifting a bound.** `ValueBound::Add` adds a constant to the constant of a bound.
When it reports neither overflow nor underflow, the result denotes the bound plus
the constant exactly (`ValueBound.denote_add`), and its value stays in the `int`
range when the bound's does (`ValueBound.denote_add_mem`).

**Shifting a range.** `ValueRange::Add` returns null only when the lower bound may
underflow or the upper bound may overflow. A lower bound whose sum is not known to
stay in range becomes `Max()`, flagged as an overflow, which `ValueRange::Add` does
not look at; the range it returns then misses the values it should contain
(`valueRange_add_counterexample`). When neither bound reports either flag, every
value of the range shifted by the constant in `int` arithmetic does not wrap and
lies in the shifted range (`ValueRange.contains_add`); `valueRange_add_sound`
gathers these facts with those on narrowing.

**Comparing.** Two bounds compare only when `HuntForDeclaration` takes their
instructions to one, and then by their constants; for an assignment that gives such
instructions one value, a range that `FitsIn` another holds only values of the
other (`Range.contains_of_fitsIn`).

**Narrowing.** `NarrowLowerBound` and `NarrowUpperBound` return one of their two
bounds, so a value within both input bounds is within the result whatever the
comparisons find (`ValueBound.narrowLowerBound_eq_or`); the same holds of the
ranges `ValueRange::Narrow` builds (`ValueRange.contains_narrow`).
`MonotonicValueRange::Narrow` turns the range of a loop-header phi into a plain
range only when the next value of the phi cannot wrap: on every run of the loop,
every value of the phi that passes the loop test lies in that range, and adding the
increment to it does not wrap (`MonotonicValueRange.narrow_sound`). The induction
is on the number of back edges taken, with the exact value of the phi as the
invariant (`MonotonicValueRange.toInt_phiValue`).
-/

set_option autoImplicit false

namespace Art.Compiler.Optimizing

namespace BoundsCheckElimination

open Art.Machine

/-- `std::numeric_limits<int32_t>::max()`. -/
def int32Max : BitVec 32 := BitVec.intMax 32

/-- `std::numeric_limits<int32_t>::min()`. -/
def int32Min : BitVec 32 := BitVec.intMin 32

@[simp] theorem toInt_int32Max : int32Max.toInt = 2 ^ 31 - 1 := by decide

@[simp] theorem toInt_int32Min : int32Min.toInt = -2 ^ 31 := by decide

/-- `Max() - c`, for a `c` that is not negative, does not wrap. -/
theorem toInt_int32Max_sub {c : BitVec 32} (nonneg : 0 ≤ c.toInt) : (int32Max - c).toInt = 2 ^ 31 - 1 - c.toInt := by
  have upper := BitVec.toInt_lt (x := c)
  rw [toInt_sub_of_mem] <;> simp only [toInt_int32Max] <;> omega

/-- `Min() - c`, for a `c` that is not positive, does not wrap. -/
theorem toInt_int32Min_sub {c : BitVec 32} (nonpos : c.toInt ≤ 0) : (int32Min - c).toInt = -2 ^ 31 - c.toInt := by
  have lower := BitVec.le_toInt c
  rw [toInt_sub_of_mem] <;> simp only [toInt_int32Min] <;> omega

/-- `ValueBound::WouldAddOverflowOrUnderflow`: whether `left + right` leaves the
`int` range. -/
def wouldAddOverflowOrUnderflow (left right : BitVec 32) : Bool :=
  if right = 0 then false
  else if 0 < right.toInt ∧ left.toInt ≤ (int32Max - right).toInt then false
  else if right.toInt < 0 ∧ left.toInt ≥ (int32Min - right).toInt then false
  else true

/-- A `ValueBound`: an instruction, given by its index in the graph, or none, plus
a constant. -/
structure ValueBound where
  instruction : Option Nat
  constant : BitVec 32
  deriving DecidableEq, Repr

namespace ValueBound

variable (graph : HGraph)

/-- The constructor `ValueBound(instruction, constant)`: a bound on an int constant
is folded into a constant bound, unless the sum leaves the `int` range. -/
def make (instruction : Option Nat) (constant : BitVec 32) : ValueBound :=
  match instruction with
  | some i =>
      match graph.instructionAt i with
      | .intConstant instrConst =>
          if !wouldAddOverflowOrUnderflow instrConst constant then ⟨none, instrConst + constant⟩
          else ⟨instruction, constant⟩
      | _ => ⟨instruction, constant⟩
  | none => ⟨instruction, constant⟩

/-- `IsRelatedToArrayLength`: the instruction is an `HArrayLength`, or an
`HNewArray`, which stands for the length of the array it creates. -/
def isRelatedToArrayLength (bound : ValueBound) : Bool :=
  match bound.instruction with
  | some i =>
      match graph.instructionAt i with
      | .arrayLength _ | .newArray _ => true
      | _ => false
  | none => false

/-- `IsConstant`. -/
def isConstant (bound : ValueBound) : Bool := bound.instruction.isNone

/-- `Min()`. -/
def min : ValueBound := ⟨none, int32Min⟩

/-- `Max()`. -/
def max : ValueBound := ⟨none, int32Max⟩

/-- `Equal`: the same instruction, or two instructions that `HuntForDeclaration`
takes to one. -/
def equal (instruction1 instruction2 : Option Nat) : Bool :=
  if instruction1 = instruction2 then true
  else
    match instruction1, instruction2 with
    | some first, some second =>
        InductionVarRange.huntForDeclaration graph first == InductionVarRange.huntForDeclaration graph second
    | _, _ => false

/-- The comparisons of two bounds: certain only for comparable instructions, where
they compare the constants. -/
def compareWith (relation : Int → Int → Prop) [DecidableRel relation] (bound other : ValueBound) : Bool :=
  if equal graph bound.instruction other.instruction then decide (relation bound.constant.toInt other.constant.toInt)
  else false

/-- `GreaterThanOrEqualTo`. -/
def greaterThanOrEqualTo (bound other : ValueBound) : Bool := compareWith graph (fun a b => a ≥ b) bound other

/-- `LessThanOrEqualTo`. -/
def lessThanOrEqualTo (bound other : ValueBound) : Bool := compareWith graph (fun a b => a ≤ b) bound other

/-- `GreaterThan`. -/
def greaterThan (bound other : ValueBound) : Bool := compareWith graph (fun a b => a > b) bound other

/-- `LessThan`. -/
def lessThan (bound other : ValueBound) : Bool := compareWith graph (fun a b => a < b) bound other

/-- `NarrowLowerBound`: the greater of two lower bounds, or, when they do not
compare, the constant one. -/
def narrowLowerBound (bound1 bound2 : ValueBound) : ValueBound :=
  if greaterThanOrEqualTo graph bound1 bound2 then bound1
  else if greaterThanOrEqualTo graph bound2 bound1 then bound2
  else if bound1.isConstant then bound1
  else bound2

/-- `NarrowUpperBound`: the lesser of two upper bounds, or, when they do not
compare, the one related to an array length. -/
def narrowUpperBound (bound1 bound2 : ValueBound) : ValueBound :=
  if lessThanOrEqualTo graph bound1 bound2 then bound1
  else if lessThanOrEqualTo graph bound2 bound1 then bound2
  else if isRelatedToArrayLength graph bound1 then bound1
  else bound2

/-- `Add`: the bound plus `c`, with whether it may overflow and whether it may
underflow an `int`. -/
def add (bound : ValueBound) (c : BitVec 32) : ValueBound × Bool × Bool :=
  if c = 0 then (bound, false, false)
  else if 0 < c.toInt then
    if bound.constant.toInt > (int32Max - c).toInt then (max, true, false)
    else
      let newConstant := bound.constant + c
      -- `array.length` plus a constant that is not positive does not overflow
      if bound.isConstant || (isRelatedToArrayLength graph bound && decide (newConstant.toInt ≤ 0)) then
        (make graph bound.instruction newConstant, false, false)
      else (max, true, false)
  else
    if bound.constant.toInt < (int32Min - c).toInt then (min, false, true)
    else
      let newConstant := bound.constant + c
      -- `array.length` plus any constant does not underflow, the length being at least 0
      if bound.isConstant || isRelatedToArrayLength graph bound then
        (make graph bound.instruction newConstant, false, false)
      else (min, false, true)

/-! ### What a bound denotes -/

/-- The value a bound denotes when every instruction has the value `valueOf` gives
it: the instruction's value plus the constant, as integers. -/
def denote (valueOf : Nat → Int) (bound : ValueBound) : Int :=
  bound.instruction.elim 0 valueOf + bound.constant.toInt

/-- An assignment fits a bound when it gives the bound's instruction an `int`
value, not negative for an array length or a new array. -/
structure Fits (valueOf : Nat → Int) (bound : ValueBound) : Prop where
  int32 : ∀ i, bound.instruction = some i → -2 ^ 31 ≤ valueOf i ∧ valueOf i < 2 ^ 31
  nonneg : isRelatedToArrayLength graph bound = true → ∀ i, bound.instruction = some i → 0 ≤ valueOf i

end ValueBound

/-- A `ValueRange`: a lower and an upper bound, both inclusive. -/
structure ValueRange where
  lower : ValueBound
  upper : ValueBound
  deriving DecidableEq, Repr

/-- A `MonotonicValueRange`: the loop-header phi `inductionVariable`, which starts at
the instruction `initial` and moves by `increment` on each back edge; `bound` bounds
the initial value, below for an increasing phi and above for a decreasing one. -/
structure MonotonicValueRange where
  inductionVariable : Nat
  initial : Nat
  increment : BitVec 32
  bound : ValueBound
  deriving DecidableEq, Repr

/-- A range of the analysis: a plain `ValueRange`, or a `MonotonicValueRange`. -/
inductive Range
  | plain (range : ValueRange)
  | monotonic (range : MonotonicValueRange)
  deriving DecidableEq, Repr

namespace Range

/-- `GetLower`: a monotonic range is built as the whole range `[Min(), Max()]`. -/
def lower : Range → ValueBound
  | plain range => range.lower
  | monotonic _ => ValueBound.min

/-- `GetUpper`. -/
def upper : Range → ValueBound
  | plain range => range.upper
  | monotonic _ => ValueBound.max

/-- A range contains the values between what `GetLower` and `GetUpper` denote; a
monotonic range contains every `int`. -/
def Contains (valueOf : Nat → Int) (range : Range) (x : Int) : Prop :=
  range.lower.denote valueOf ≤ x ∧ x ≤ range.upper.denote valueOf

end Range

section Definitions

variable (graph : HGraph)

namespace ValueRange

/-- `ValueRange::FitsIn`: certain that the range lies within the other; a null
range stands for every value. -/
def fitsIn (range : ValueRange) (other : Option Range) : Bool :=
  match other with
  | none => true
  | some other =>
      ValueBound.greaterThanOrEqualTo graph range.lower other.lower &&
        ValueBound.lessThanOrEqualTo graph range.upper other.upper

/-- `ValueRange::Narrow`: the intersection with another range, as far as the
bounds compare; a null or monotonic range narrows nothing. -/
def narrow (range : ValueRange) (other : Option Range) : Range :=
  match other with
  | none => .plain range
  | some (.monotonic _) => .plain range
  | some (.plain other) =>
      .plain ⟨ValueBound.narrowLowerBound graph range.lower other.lower,
        ValueBound.narrowUpperBound graph range.upper other.upper⟩

/-- `ValueRange::Add`: the range shifted by a constant, or null when the lower
bound may underflow or the upper bound may overflow. -/
def add (range : ValueRange) (constant : BitVec 32) : Option ValueRange :=
  let lower := range.lower.add graph constant
  -- an underflow of the lower bound wraps around to positive values
  if lower.2.2 then none
  else
    let upper := range.upper.add graph constant
    -- an overflow of the upper bound wraps around to negative values
    if upper.2.1 then none
    else some ⟨lower.1, upper.1⟩

/-- A range contains the values between what its bounds denote. -/
def Contains (valueOf : Nat → Int) (range : ValueRange) (x : Int) : Prop :=
  range.lower.denote valueOf ≤ x ∧ x ≤ range.upper.denote valueOf

instance (valueOf : Nat → Int) (range : ValueRange) (x : Int) : Decidable (range.Contains valueOf x) :=
  inferInstanceAs (Decidable (_ ∧ _))

end ValueRange

namespace MonotonicValueRange

/-- `MonotonicValueRange::FitsIn`: a monotonic range fits only in the null range. -/
def fitsIn (other : Option Range) : Bool := other.isNone

/-- `upper` of `MonotonicValueRange::Narrow`: the greatest value the upper bound of
the other range can denote, an array length being at most `Max()`. -/
def upperLimit (upperBound : ValueBound) : BitVec 32 :=
  let maxArrayLen := int32Max
  if upperBound.isConstant then upperBound.constant
  else if ValueBound.isRelatedToArrayLength graph upperBound && decide (upperBound.constant.toInt ≤ 0) then
    maxArrayLen + upperBound.constant
  else int32Max

/-- `last_num_in_sequence` of `MonotonicValueRange::Narrow`: for a constant initial
value, the last value of the sequence not above `upper`, through 64-bit
arithmetic; otherwise `upper` itself. -/
def lastNumInSequence (range : MonotonicValueRange) (upper : BitVec 32) : BitVec 32 :=
  match graph.instructionAt range.initial with
  | .intConstant initialConstant =>
      if upper.toInt ≤ initialConstant.toInt then upper
      else
        BitVec.ofInt 32 (initialConstant.toInt +
          (upper.toInt - initialConstant.toInt).tdiv range.increment.toInt * range.increment.toInt)
  | _ => upper

/-- `MonotonicValueRange::Narrow`: a plain range when the bounds of the other range
show that the phi's next value cannot wrap, and the monotonic range otherwise. An
increasing phi needs a constant lower bound and the last value of its sequence to
leave room for one more increment; a decreasing phi needs a useful upper bound and
a constant lower bound of at least `Min() - increment`. -/
def narrow (range : MonotonicValueRange) (other : Option Range) : Range :=
  match other with
  | none => .monotonic range
  | some other =>
      if 0 < range.increment.toInt then
        let lower := ValueBound.narrowLowerBound graph range.bound other.lower
        if !lower.isConstant || lower.constant = int32Min then .monotonic range
        else if (lastNumInSequence graph range (upperLimit graph other.upper)).toInt ≤
            (int32Max - range.increment).toInt then
          .plain ⟨lower, other.upper⟩
        else .monotonic range
      else
        let upper := ValueBound.narrowUpperBound graph range.bound other.upper
        if (!upper.isConstant || upper.constant = int32Max) && !ValueBound.isRelatedToArrayLength graph upper then
          .monotonic range
        else if other.lower.isConstant ∧ other.lower.constant.toInt ≥ (int32Min - range.increment).toInt then
          .plain ⟨other.lower, upper⟩
        else .monotonic range

/-- The values the loop-header phi takes: the initial value, then each value plus
the increment, in `int` arithmetic. -/
def phiValue (initialValue increment : BitVec 32) : Nat → BitVec 32
  | 0 => initialValue
  | n + 1 => phiValue initialValue increment n + increment

end MonotonicValueRange

namespace Range

/-- `Narrow`, dispatched on the kind of the range. -/
def narrow : Range → Option Range → Range
  | plain range, other => range.narrow graph other
  | monotonic range, other => range.narrow graph other

/-- `FitsIn`, dispatched on the kind of the range. -/
def fitsIn : Range → Option Range → Bool
  | plain range, other => range.fitsIn graph other
  | monotonic _, other => MonotonicValueRange.fitsIn other

end Range

end Definitions

/-! ## Adding to a bound -/

namespace ValueBound

variable (graph : HGraph) {bound : ValueBound} {c : BitVec 32}

/-- A bound that is a constant or related to an array length is not folded by the
constructor. -/
theorem make_instruction (kept : bound.isConstant = true ∨ isRelatedToArrayLength graph bound = true) (constant : BitVec 32) :
    make graph bound.instruction constant = ⟨bound.instruction, constant⟩ := by
  rcases bound with ⟨_ | i, k⟩
  · rfl
  · simp only [isConstant, Option.isNone_some, Bool.false_eq_true, false_or, isRelatedToArrayLength] at kept
    simp only [make]
    split at kept <;> simp_all

@[simp] theorem add_zero (bound : ValueBound) : bound.add graph 0 = (bound, false, false) := by
  simp [add]

/-- **What `Add` returns when it reports nothing.** For a constant other than zero,
the bound's instruction with the sum of the constants, which does not wrap; the
bound is a constant, or related to an array length with a sum that is not
positive when the constant is. -/
theorem add_of_not_flags (nonzero : c ≠ 0) (noOverflow : (bound.add graph c).2.1 = false)
    (noUnderflow : (bound.add graph c).2.2 = false) :
    (bound.add graph c).1 = ⟨bound.instruction, bound.constant + c⟩ ∧
      (bound.constant + c).toInt = bound.constant.toInt + c.toInt ∧
      (bound.isConstant = true ∨
        (isRelatedToArrayLength graph bound = true ∧ (0 < c.toInt → (bound.constant + c).toInt ≤ 0))) := by
  have lower := BitVec.le_toInt c
  have upper := BitVec.toInt_lt (x := c)
  have lowerB := BitVec.le_toInt bound.constant
  have upperB := BitVec.toInt_lt (x := bound.constant)
  unfold add at noOverflow noUnderflow ⊢
  rw [if_neg nonzero] at noOverflow noUnderflow ⊢
  by_cases positive : 0 < c.toInt
  · rw [if_pos positive] at noOverflow noUnderflow ⊢
    rw [toInt_int32Max_sub positive.le] at noOverflow noUnderflow ⊢
    dsimp only at noOverflow noUnderflow ⊢
    split_ifs at noOverflow noUnderflow ⊢ with overflows fits
    have sum : (bound.constant + c).toInt = bound.constant.toInt + c.toInt := toInt_add_of_mem (by omega) (by omega)
    refine ⟨make_instruction graph ?_ _, sum, ?_⟩
    · simp only [Bool.or_eq_true, Bool.and_eq_true] at fits
      exact fits.imp id (fun related => related.1)
    · simp only [Bool.or_eq_true, Bool.and_eq_true, decide_eq_true_eq] at fits
      exact fits.imp id (fun related => ⟨related.1, fun _ => related.2⟩)
  · rw [if_neg positive] at noOverflow noUnderflow ⊢
    have negative : c.toInt < 0 := by
      have : c.toInt ≠ 0 := fun zero => nonzero (BitVec.eq_of_toInt_eq (by simpa using zero))
      omega
    rw [toInt_int32Min_sub negative.le] at noOverflow noUnderflow ⊢
    dsimp only at noOverflow noUnderflow ⊢
    split_ifs at noOverflow noUnderflow ⊢ with underflows fits
    have sum : (bound.constant + c).toInt = bound.constant.toInt + c.toInt := toInt_add_of_mem (by omega) (by omega)
    refine ⟨make_instruction graph (by simpa using fits) _, sum, ?_⟩
    simp only [Bool.or_eq_true] at fits
    exact fits.imp id (fun related => ⟨related, fun pos => absurd pos positive⟩)

/-- A positive constant never makes `Add` report an underflow. -/
theorem add_underflow_of_pos (bound : ValueBound) (positive : 0 < c.toInt) : (bound.add graph c).2.2 = false := by
  have nonzero : c ≠ 0 := by rintro rfl; simp at positive
  unfold add
  rw [if_neg nonzero, if_pos positive]
  dsimp only
  split_ifs <;> rfl

/-- A constant that is not positive never makes `Add` report an overflow. -/
theorem add_overflow_of_nonpos (bound : ValueBound) (nonpos : c.toInt ≤ 0) : (bound.add graph c).2.1 = false := by
  unfold add
  split_ifs <;> first | rfl | omega

variable {graph} {valueOf : Nat → Int}

/-- **`Add` is exact when it reports nothing**: the result denotes the bound plus
the constant. -/
theorem denote_add (noOverflow : (bound.add graph c).2.1 = false) (noUnderflow : (bound.add graph c).2.2 = false) :
    (bound.add graph c).1.denote valueOf = bound.denote valueOf + c.toInt := by
  by_cases zero : c = 0
  · subst zero
    rw [add_zero]
    simp [denote]
  · obtain ⟨result, sum, _⟩ := add_of_not_flags graph zero noOverflow noUnderflow
    rw [result]
    simp only [denote]
    omega

/-- The instruction of a bound that is not constant gets an `int` value, not
negative for an array length. -/
theorem Fits.denote_eq {i : Nat} (fits : bound.Fits graph valueOf) (some_ : bound.instruction = some i) :
    bound.denote valueOf = valueOf i + bound.constant.toInt ∧ -2 ^ 31 ≤ valueOf i ∧ valueOf i < 2 ^ 31 ∧
      (isRelatedToArrayLength graph bound = true → 0 ≤ valueOf i) := by
  refine ⟨by rw [denote, some_]; rfl, (fits.int32 i some_).1, (fits.int32 i some_).2,
    fun related => fits.nonneg related i some_⟩

/-- A constant bound denotes its constant. -/
theorem denote_of_isConstant (constant : bound.isConstant = true) : bound.denote valueOf = bound.constant.toInt := by
  rcases bound with ⟨_ | i, k⟩
  · simp [denote]
  · simp [isConstant] at constant

/-- A bound related to an array length has an instruction. -/
theorem exists_instruction_of_related (related : isRelatedToArrayLength graph bound = true) :
    ∃ i, bound.instruction = some i := by
  rcases bound with ⟨_ | i, k⟩
  · simp [isRelatedToArrayLength] at related
  · exact ⟨i, rfl⟩

/-- `Add` of a positive constant that reports no overflow stays below `2 ^ 31`. -/
theorem denote_add_lt (fits : bound.Fits graph valueOf) (positive : 0 < c.toInt)
    (noOverflow : (bound.add graph c).2.1 = false) : (bound.add graph c).1.denote valueOf < 2 ^ 31 := by
  have nonzero : c ≠ 0 := by rintro rfl; simp at positive
  obtain ⟨result, _, kind⟩ := add_of_not_flags graph nonzero noOverflow (add_underflow_of_pos graph bound positive)
  have upperSum := BitVec.toInt_lt (x := bound.constant + c)
  rw [result]
  rcases kind with constant | ⟨related, nonpositive⟩
  · rw [denote_of_isConstant (show isConstant ⟨bound.instruction, bound.constant + c⟩ = true from constant)]
    exact upperSum
  · -- an array length plus a constant that is not positive
    obtain ⟨i, some_⟩ := exists_instruction_of_related related
    obtain ⟨_, _, below, _⟩ := fits.denote_eq some_
    rw [denote, some_]
    have := nonpositive positive
    simp only [Option.elim_some]
    omega

/-- `Add` of a negative constant that reports no underflow stays at `-2 ^ 31` or
above. -/
theorem le_denote_add (fits : bound.Fits graph valueOf) (negative : c.toInt < 0)
    (noUnderflow : (bound.add graph c).2.2 = false) : -2 ^ 31 ≤ (bound.add graph c).1.denote valueOf := by
  have nonzero : c ≠ 0 := by rintro rfl; simp at negative
  obtain ⟨result, _, kind⟩ :=
    add_of_not_flags graph nonzero (add_overflow_of_nonpos graph bound negative.le) noUnderflow
  have lowerSum := BitVec.le_toInt (bound.constant + c)
  rw [result]
  rcases kind with constant | ⟨related, _⟩
  · rw [denote_of_isConstant (show isConstant ⟨bound.instruction, bound.constant + c⟩ = true from constant)]
    exact lowerSum
  · -- an array length is not negative
    obtain ⟨i, some_⟩ := exists_instruction_of_related related
    obtain ⟨_, _, _, nonneg⟩ := fits.denote_eq some_
    rw [denote, some_]
    have := nonneg related
    simp only [Option.elim_some]
    omega

/-- `Add` that reports nothing keeps a bound that denotes an `int` value inside the
`int` range. -/
theorem denote_add_mem (fits : bound.Fits graph valueOf) (lower : -2 ^ 31 ≤ bound.denote valueOf)
    (upper : bound.denote valueOf < 2 ^ 31) (noOverflow : (bound.add graph c).2.1 = false)
    (noUnderflow : (bound.add graph c).2.2 = false) :
    -2 ^ 31 ≤ (bound.add graph c).1.denote valueOf ∧ (bound.add graph c).1.denote valueOf < 2 ^ 31 := by
  have exact : (bound.add graph c).1.denote valueOf = bound.denote valueOf + c.toInt :=
    denote_add noOverflow noUnderflow
  rcases lt_trichotomy c.toInt 0 with negative | zero | positive
  · -- a negative constant only lowers the bound
    exact ⟨le_denote_add fits negative noUnderflow, by omega⟩
  · omega
  · exact ⟨by omega, denote_add_lt fits positive noOverflow⟩

variable (graph)

/-- `NarrowLowerBound` returns one of its two bounds. -/
theorem narrowLowerBound_eq_or (bound1 bound2 : ValueBound) :
    narrowLowerBound graph bound1 bound2 = bound1 ∨ narrowLowerBound graph bound1 bound2 = bound2 := by
  unfold narrowLowerBound
  split_ifs <;> simp

/-- `NarrowUpperBound` returns one of its two bounds. -/
theorem narrowUpperBound_eq_or (bound1 bound2 : ValueBound) :
    narrowUpperBound graph bound1 bound2 = bound1 ∨ narrowUpperBound graph bound1 bound2 = bound2 := by
  unfold narrowUpperBound
  split_ifs <;> simp

variable {graph}

/-- A value at or above two lower bounds is at or above the one `NarrowLowerBound`
keeps. -/
theorem denote_narrowLowerBound_le {bound1 bound2 : ValueBound} {x : Int} (first : bound1.denote valueOf ≤ x)
    (second : bound2.denote valueOf ≤ x) : (narrowLowerBound graph bound1 bound2).denote valueOf ≤ x := by
  rcases narrowLowerBound_eq_or graph bound1 bound2 with kept | kept <;> rw [kept] <;> assumption

/-- A value at or below two upper bounds is at or below the one `NarrowUpperBound`
keeps. -/
theorem le_denote_narrowUpperBound {bound1 bound2 : ValueBound} {x : Int} (first : x ≤ bound1.denote valueOf)
    (second : x ≤ bound2.denote valueOf) : x ≤ (narrowUpperBound graph bound1 bound2).denote valueOf := by
  rcases narrowUpperBound_eq_or graph bound1 bound2 with kept | kept <;> rw [kept] <;> assumption

end ValueBound

/-! ## Shifting and narrowing a range -/

namespace ValueRange

variable {graph : HGraph} {valueOf : Nat → Int}

/-- What `ValueRange::Add` returns, when it returns a range: the two bounds shifted,
the lower one reporting no underflow and the upper one no overflow. -/
theorem add_eq_some {range shifted : ValueRange} {k : BitVec 32} (added : range.add graph k = some shifted) :
    shifted = ⟨(range.lower.add graph k).1, (range.upper.add graph k).1⟩ ∧
      (range.lower.add graph k).2.2 = false ∧ (range.upper.add graph k).2.1 = false := by
  unfold add at added
  dsimp only at added
  split_ifs at added with underflow overflow
  rw [Bool.not_eq_true] at underflow overflow
  exact ⟨(Option.some.inj added).symm, underflow, overflow⟩

/-- **Shifting a range.** When `ValueRange::Add` returns a range and neither bound
reported an overflow or an underflow, every value of the range plus the constant
does not wrap, and lies in the returned range. -/
theorem contains_add {range shifted : ValueRange} {k : BitVec 32} (added : range.add graph k = some shifted)
    (lowerExact : (range.lower.add graph k).2.1 = false) (upperExact : (range.upper.add graph k).2.2 = false)
    (lowerFits : range.lower.Fits graph valueOf) (upperFits : range.upper.Fits graph valueOf)
    {v : BitVec 32} (contains : range.Contains valueOf v.toInt) :
    (v + k).toInt = v.toInt + k.toInt ∧ shifted.Contains valueOf (v + k).toInt := by
  obtain ⟨rfl, lowerUnderflow, upperOverflow⟩ := add_eq_some added
  have lowerShifted : (range.lower.add graph k).1.denote valueOf = range.lower.denote valueOf + k.toInt :=
    ValueBound.denote_add lowerExact lowerUnderflow
  have upperShifted : (range.upper.add graph k).1.denote valueOf = range.upper.denote valueOf + k.toInt :=
    ValueBound.denote_add upperOverflow upperExact
  have vLower := BitVec.le_toInt v
  have vUpper := BitVec.toInt_lt (x := v)
  obtain ⟨above, below⟩ := contains
  -- the sum stays in the `int` range: under the shifted upper bound for a positive
  -- constant, over the shifted lower bound for a negative one
  have sum : (v + k).toInt = v.toInt + k.toInt := by
    rcases lt_trichotomy k.toInt 0 with negative | zero | positive
    · have := ValueBound.le_denote_add lowerFits negative lowerUnderflow
      exact toInt_add_of_mem (by omega) (by omega)
    · exact toInt_add_of_mem (by omega) (by omega)
    · have := ValueBound.denote_add_lt upperFits positive upperOverflow
      exact toInt_add_of_mem (by omega) (by omega)
  refine ⟨sum, ?_⟩
  rw [Contains, sum]
  dsimp only
  omega

/-- **Narrowing a range.** A value in a range and in the other range is in the
range `ValueRange::Narrow` returns. -/
theorem contains_narrow (range : ValueRange) (other : Option Range) {x : Int} (inRange : range.Contains valueOf x)
    (inOther : ∀ o, other = some o → o.Contains valueOf x) : (range.narrow graph other).Contains valueOf x := by
  obtain ⟨above, below⟩ := inRange
  match other, inOther with
  | none, _ => exact ⟨above, below⟩
  | some (.monotonic _), _ => exact ⟨above, below⟩
  | some (.plain o), inOther =>
      obtain ⟨aboveOther, belowOther⟩ := inOther (.plain o) rfl
      exact ⟨ValueBound.denote_narrowLowerBound_le above aboveOther,
        ValueBound.le_denote_narrowUpperBound below belowOther⟩

end ValueRange

/-- **`Add` and `Narrow` on bounds and ranges.** For every assignment, an `Add` of a
bound that reports neither overflow nor underflow denotes exactly the bound plus
the constant, inside the `int` range when the bound's value is; a range shifted by
`ValueRange::Add`, when neither of its bounds reports either flag, holds every
value of the range plus the constant, which does not wrap; and `NarrowLowerBound`,
`NarrowUpperBound` and `ValueRange::Narrow` keep every value within both inputs. -/
theorem valueRange_add_sound (graph : HGraph) (valueOf : Nat → Int) :
    (∀ (bound : ValueBound) (c : BitVec 32), bound.Fits graph valueOf →
      (bound.add graph c).2.1 = false → (bound.add graph c).2.2 = false →
      (bound.add graph c).1.denote valueOf = bound.denote valueOf + c.toInt ∧
        (-2 ^ 31 ≤ bound.denote valueOf → bound.denote valueOf < 2 ^ 31 →
          -2 ^ 31 ≤ (bound.add graph c).1.denote valueOf ∧ (bound.add graph c).1.denote valueOf < 2 ^ 31)) ∧
    (∀ (range shifted : ValueRange) (k : BitVec 32), range.add graph k = some shifted →
      (range.lower.add graph k).2.1 = false → (range.upper.add graph k).2.2 = false →
      range.lower.Fits graph valueOf → range.upper.Fits graph valueOf →
      ∀ v : BitVec 32, range.Contains valueOf v.toInt →
        (v + k).toInt = v.toInt + k.toInt ∧ shifted.Contains valueOf (v + k).toInt) ∧
    (∀ (bound1 bound2 : ValueBound) (x : Int),
      (bound1.denote valueOf ≤ x → bound2.denote valueOf ≤ x →
        (ValueBound.narrowLowerBound graph bound1 bound2).denote valueOf ≤ x) ∧
      (x ≤ bound1.denote valueOf → x ≤ bound2.denote valueOf →
        x ≤ (ValueBound.narrowUpperBound graph bound1 bound2).denote valueOf)) ∧
    (∀ (range : ValueRange) (other : Option Range) (x : Int), range.Contains valueOf x →
      (∀ o, other = some o → o.Contains valueOf x) → (range.narrow graph other).Contains valueOf x) := by
  refine ⟨?bound, ?range, ?bounds, ?narrow⟩
  case bound =>
    intro bound c fits noOverflow noUnderflow
    exact ⟨ValueBound.denote_add noOverflow noUnderflow,
      fun lower upper => ValueBound.denote_add_mem fits lower upper noOverflow noUnderflow⟩
  case range =>
    intro range shifted k added lowerExact upperExact lowerFits upperFits v contains
    exact ValueRange.contains_add added lowerExact upperExact lowerFits upperFits contains
  case bounds =>
    intro bound1 bound2 x
    exact ⟨ValueBound.denote_narrowLowerBound_le, ValueBound.le_denote_narrowUpperBound⟩
  case narrow =>
    intro range other x inRange inOther
    exact ValueRange.contains_narrow range other inRange inOther

/-- A range shifted by `ValueRange::Add` need not hold the shifted values when the
two flags of `ValueBound::Add` are not read, nor does a bound that `ValueBound::Add`
returns without a flag denote a value in `int32`. For a parameter `p` with the value `5`, the range `[p, 100]` holds `50`; shifted by one,
the lower bound `p + 1` is not known to stay in range and becomes `Max()`, flagged
as an overflow, and `ValueRange::Add` returns `[Max(), 101]`, which misses `51`.
And `Add(0)` returns the bound `p + 1` as it is, with no flag, for `p = Max()`,
where it denotes `2 ^ 31`. -/
theorem valueRange_add_counterexample :
    ValueRange.add [.parameterValue .primInt] ⟨⟨some 0, 0⟩, ⟨none, 100⟩⟩ 1 =
        some ⟨ValueBound.max, ⟨none, 101⟩⟩ ∧
      ValueBound.Fits [.parameterValue .primInt] (fun _ => 5) ⟨some 0, 0⟩ ∧
      ValueRange.Contains (fun _ => 5) ⟨⟨some 0, 0⟩, ⟨none, 100⟩⟩ (50 : BitVec 32).toInt ∧
      ¬ValueRange.Contains (fun _ => 5) ⟨ValueBound.max, ⟨none, 101⟩⟩ ((50 : BitVec 32) + 1).toInt ∧
      ValueBound.add [.parameterValue .primInt] ⟨some 0, 1⟩ 0 = (⟨some 0, 1⟩, false, false) ∧
      ValueBound.denote (fun _ => 2 ^ 31 - 1) ⟨some 0, 1⟩ = 2 ^ 31 := by
  refine ⟨by decide, ⟨fun _ _ => by norm_num, fun related => absurd related (by decide)⟩, by decide, by decide,
    ValueBound.add_zero _ _, by decide⟩

/-- `[0, 100]` shifted by one holds `50 + 1`; `Add(3)` of the constant bound `4`
denotes `7`. -/
theorem valueRange_add_sound_fiftyPlusOne :
    (((50 : BitVec 32) + 1).toInt = (50 : BitVec 32).toInt + (1 : BitVec 32).toInt ∧
      ValueRange.Contains (fun _ => 0) ⟨⟨none, 1⟩, ⟨none, 101⟩⟩ ((50 : BitVec 32) + 1).toInt) ∧
      (ValueBound.add [] ⟨none, 4⟩ 3).1.denote (fun _ => 0) = ValueBound.denote (fun _ => 0) ⟨none, 4⟩ + (3 : BitVec 32).toInt :=
  ⟨((valueRange_add_sound [] (fun _ => 0)).2.1 ⟨⟨none, 0⟩, ⟨none, 100⟩⟩ ⟨⟨none, 1⟩, ⟨none, 101⟩⟩ 1 (by decide) rfl rfl
      ⟨fun _ absent => (nomatch absent), fun related => absurd related (by decide)⟩
      ⟨fun _ absent => (nomatch absent), fun related => absurd related (by decide)⟩ 50 (by decide)),
    ((valueRange_add_sound [] (fun _ => 0)).1 ⟨none, 4⟩ 3
      ⟨fun _ absent => (nomatch absent), fun related => absurd related (by decide)⟩ rfl rfl).1⟩

/-! ## Comparing bounds -/

/-- An assignment is consistent with `Equal` when instructions that
`HuntForDeclaration` takes to one have one value: an array length, the length of
the new array it reads, and that new array are read alike. -/
def Consistent (graph : HGraph) (valueOf : Nat → Int) : Prop :=
  ∀ a b, InductionVarRange.huntForDeclaration graph a = InductionVarRange.huntForDeclaration graph b →
    valueOf a = valueOf b

namespace ValueBound

variable {graph : HGraph} {valueOf : Nat → Int}

/-- Instructions that `Equal` relates have one value. -/
theorem elim_eq_of_equal (consistent : Consistent graph valueOf) {instruction1 instruction2 : Option Nat}
    (same : equal graph instruction1 instruction2 = true) :
    instruction1.elim 0 valueOf = instruction2.elim 0 valueOf := by
  unfold equal at same
  split_ifs at same with identical
  · rw [identical]
  · match instruction1, instruction2, same with
    | some first, some second, same => exact consistent first second (beq_iff_eq.1 same)

/-- A comparison that is certain relates what the bounds denote. -/
theorem denote_of_compareWith (consistent : Consistent graph valueOf) {relation : Int → Int → Prop}
    [DecidableRel relation] {bound other : ValueBound} (compares : compareWith graph relation bound other = true) :
    bound.instruction.elim 0 valueOf = other.instruction.elim 0 valueOf ∧
      relation bound.constant.toInt other.constant.toInt := by
  unfold compareWith at compares
  split_ifs at compares with same
  exact ⟨elim_eq_of_equal consistent same, of_decide_eq_true compares⟩

/-- `GreaterThanOrEqualTo` is certain only of a bound at or above the other. -/
theorem denote_le_of_greaterThanOrEqualTo (consistent : Consistent graph valueOf) {bound other : ValueBound}
    (compares : greaterThanOrEqualTo graph bound other = true) : other.denote valueOf ≤ bound.denote valueOf := by
  obtain ⟨same, le⟩ := denote_of_compareWith consistent compares
  simp only [denote, same]
  omega

/-- `LessThanOrEqualTo` is certain only of a bound at or below the other. -/
theorem denote_le_of_lessThanOrEqualTo (consistent : Consistent graph valueOf) {bound other : ValueBound}
    (compares : lessThanOrEqualTo graph bound other = true) : bound.denote valueOf ≤ other.denote valueOf := by
  obtain ⟨same, le⟩ := denote_of_compareWith consistent compares
  simp only [denote, same]
  omega

end ValueBound

namespace Range

variable {graph : HGraph} {valueOf : Nat → Int}

/-- **`FitsIn` is sound.** For an assignment consistent with `Equal`, a range that
`FitsIn` finds within another holds only values of the other. -/
theorem contains_of_fitsIn (consistent : Consistent graph valueOf) {range other : Range}
    (fits : range.fitsIn graph (some other) = true) {x : Int} (contains : range.Contains valueOf x) :
    other.Contains valueOf x := by
  cases range with
  | plain range =>
      simp only [fitsIn, ValueRange.fitsIn, Bool.and_eq_true] at fits
      have lower := ValueBound.denote_le_of_greaterThanOrEqualTo consistent fits.1
      have upper := ValueBound.denote_le_of_lessThanOrEqualTo consistent fits.2
      exact ⟨by have := contains.1; simp only [Range.lower] at this; omega,
        by have := contains.2; simp only [Range.upper] at this; omega⟩
  | monotonic range => simp [fitsIn, MonotonicValueRange.fitsIn] at fits

end Range

/-! ## The range of a loop-header phi -/

namespace MonotonicValueRange

variable {graph : HGraph} {valueOf : Nat → Int}

/-- A value at or below an upper bound is at or below `upper` of `Narrow`. -/
theorem le_upperLimit {upperBound : ValueBound} (fits : upperBound.Fits graph valueOf) {x : BitVec 32}
    (below : x.toInt ≤ upperBound.denote valueOf) : x.toInt ≤ (upperLimit graph upperBound).toInt := by
  have xUpper := BitVec.toInt_lt (x := x)
  unfold upperLimit
  dsimp only
  split_ifs with constant related
  · rwa [ValueBound.denote_of_isConstant constant] at below
  · -- an array length is at most `Max()`
    simp only [Bool.and_eq_true, decide_eq_true_eq] at related
    obtain ⟨i, some_⟩ := ValueBound.exists_instruction_of_related related.1
    obtain ⟨denotes, _, lengthBelow, _⟩ := fits.denote_eq some_
    have lower := BitVec.le_toInt upperBound.constant
    rw [toInt_add_of_mem (by simp only [toInt_int32Max]; omega) (by simp only [toInt_int32Max]; omega),
      toInt_int32Max]
    omega
  · simp only [toInt_int32Max]
    omega

/-- A value of an increasing sequence at or below `upper` is at or below
`last_num_in_sequence`. -/
theorem le_lastNumInSequence {range : MonotonicValueRange} (increasing : 0 < range.increment.toInt)
    {initialValue : BitVec 32}
    (initialConstant : ∀ c, graph.instructionAt range.initial = .intConstant c → initialValue = c)
    {upper x : BitVec 32} {m : Nat} (onSequence : x.toInt = initialValue.toInt + m * range.increment.toInt)
    (below : x.toInt ≤ upper.toInt) : x.toInt ≤ (lastNumInSequence graph range upper).toInt := by
  unfold lastNumInSequence
  split
  · rename_i constant found
    obtain rfl := initialConstant constant found
    split_ifs with reached
    · exact below
    · -- the sequence ends at the last multiple of the increment within `upper - initial`
      have upperBelow := BitVec.toInt_lt (x := upper)
      have initialAbove := BitVec.le_toInt initialValue
      have quotient := Int.tdiv_eq_ediv_of_nonneg (a := upper.toInt - initialValue.toInt) (b := range.increment.toInt)
        (by omega)
      have steps : (m : Int) ≤ (upper.toInt - initialValue.toInt) / range.increment.toInt :=
        Int.le_ediv_of_mul_le increasing (by omega)
      have last := Int.ediv_mul_le (upper.toInt - initialValue.toInt) (b := range.increment.toInt) (by omega)
      have reachedBelow := Int.mul_le_mul_of_nonneg_right steps increasing.le
      have lastNonneg : 0 ≤ (upper.toInt - initialValue.toInt) / range.increment.toInt * range.increment.toInt :=
        Int.mul_nonneg (Int.ediv_nonneg (by omega) increasing.le) increasing.le
      rw [quotient, BitVec.toInt_ofInt_eq_self (by norm_num) (by omega) (by omega)]
      omega
  · exact below

/-- **The phi's value is exact while the test passes.** When every value of the
sequence that passes the test leaves room for one more increment, the `n`-th value
of the phi is `initial + n * increment` once the `n` values before it passed. -/
theorem toInt_phiValue {passes : Int → Prop} {initialValue increment : BitVec 32}
    (room : ∀ (x : BitVec 32) (m : Nat), x.toInt = initialValue.toInt + m * increment.toInt → passes x.toInt →
      -2 ^ 31 ≤ x.toInt + increment.toInt ∧ x.toInt + increment.toInt < 2 ^ 31) (n : Nat)
    (passed : ∀ m < n, passes (phiValue initialValue increment m).toInt) :
    (phiValue initialValue increment n).toInt = initialValue.toInt + n * increment.toInt := by
  induction n with
  | zero => simp [phiValue]
  | succ n ih =>
      -- the value before passed the test, so the increment did not wrap
      have previous := ih (fun m below => passed m (by omega))
      obtain ⟨lower, upper⟩ := room _ n previous (passed n (by omega))
      rw [phiValue, toInt_add_of_mem lower upper, previous]
      push_cast
      ring

/-- **Narrowing the range of a loop-header phi.** When `MonotonicValueRange::Narrow`
turns the range of a phi into a plain range with the range of the loop test, then on
every run of the loop from an initial value that the phi's bound admits, every value
of the phi that passes the test lies in the plain range, and adding the increment
to it in `int` arithmetic does not wrap. -/
theorem narrow_sound {range : MonotonicValueRange} {other narrowed : ValueRange}
    (narrows : range.narrow graph (some (.plain other)) = .plain narrowed)
    (upperFits : other.upper.Fits graph valueOf) {initialValue : BitVec 32}
    (initialConstant : ∀ c, graph.instructionAt range.initial = .intConstant c → initialValue = c)
    (admitted : if 0 < range.increment.toInt then range.bound.denote valueOf ≤ initialValue.toInt
      else initialValue.toInt ≤ range.bound.denote valueOf)
    (n : Nat) (passed : ∀ m < n, other.Contains valueOf (phiValue initialValue range.increment m).toInt)
    (passes : other.Contains valueOf (phiValue initialValue range.increment n).toInt) :
    narrowed.Contains valueOf (phiValue initialValue range.increment n).toInt ∧
      (phiValue initialValue range.increment n + range.increment).toInt =
        (phiValue initialValue range.increment n).toInt + range.increment.toInt := by
  have xLower := BitVec.le_toInt (phiValue initialValue range.increment n)
  have xUpper := BitVec.toInt_lt (x := phiValue initialValue range.increment n)
  unfold narrow at narrows
  by_cases increasing : 0 < range.increment.toInt
  · rw [if_pos increasing] at admitted
    dsimp only at narrows
    rw [if_pos increasing] at narrows
    -- the ways to give up return the monotonic range
    revert narrows
    split_ifs with useless fits <;> intro narrows <;> cases narrows
    simp only [Range.lower, Range.upper] at fits ⊢
    rw [toInt_int32Max_sub increasing.le] at fits
    -- a value that passes is at most the last of the sequence, which leaves room
    have room : ∀ (y : BitVec 32) (m : Nat), y.toInt = initialValue.toInt + m * range.increment.toInt →
        other.Contains valueOf y.toInt →
        -2 ^ 31 ≤ y.toInt + range.increment.toInt ∧ y.toInt + range.increment.toInt < 2 ^ 31 := by
      intro y m onSequence passesY
      have last := le_lastNumInSequence increasing initialConstant onSequence (le_upperLimit upperFits passesY.2)
      have := BitVec.le_toInt y
      omega
    have exact := toInt_phiValue room n passed
    obtain ⟨lower, upper⟩ := room _ n exact passes
    have above : initialValue.toInt ≤ (phiValue initialValue range.increment n).toInt := by
      rw [exact]
      have := Int.mul_nonneg (Int.natCast_nonneg n) increasing.le
      omega
    refine ⟨⟨ValueBound.denote_narrowLowerBound_le (by omega) passes.1, passes.2⟩, toInt_add_of_mem lower upper⟩
  · rw [if_neg increasing] at admitted
    dsimp only at narrows
    rw [if_neg increasing] at narrows
    -- the ways to give up return the monotonic range
    revert narrows
    split_ifs with useless fits <;> intro narrows <;> cases narrows
    simp only [Range.lower, Range.upper] at fits ⊢
    have notPositive : range.increment.toInt ≤ 0 := by omega
    rw [toInt_int32Min_sub notPositive] at fits
    obtain ⟨lowerConstant, lowerRoom⟩ := fits
    -- a value that passes is at least the constant lower bound, which leaves room
    have room : ∀ (y : BitVec 32) (m : Nat), y.toInt = initialValue.toInt + m * range.increment.toInt →
        other.Contains valueOf y.toInt →
        -2 ^ 31 ≤ y.toInt + range.increment.toInt ∧ y.toInt + range.increment.toInt < 2 ^ 31 := by
      intro y _ _ passesY
      have atLeast := passesY.1
      rw [ValueBound.denote_of_isConstant lowerConstant] at atLeast
      have := BitVec.toInt_lt (x := y)
      omega
    have exact := toInt_phiValue room n passed
    obtain ⟨lower, upper⟩ := room _ n exact passes
    have below : (phiValue initialValue range.increment n).toInt ≤ initialValue.toInt := by
      rw [exact]
      have := Int.mul_nonpos_of_nonneg_of_nonpos (Int.natCast_nonneg n) notPositive
      omega
    exact ⟨⟨passes.1, ValueBound.le_denote_narrowUpperBound (by omega) passes.2⟩, toInt_add_of_mem lower upper⟩

/-- `for (int i = 0; i <= 9; i++)`: narrowed with the test `i <= 9`, the phi's range
is `[0, 9]`, and its fourth value `3` lies in it with room for the increment. -/
theorem narrow_sound_zeroToNine :
    ValueRange.Contains (fun _ => 0) ⟨⟨none, 0⟩, ⟨none, 9⟩⟩ (phiValue 0 1 3).toInt ∧
      (phiValue 0 1 3 + 1).toInt = (phiValue 0 1 3).toInt + (1 : BitVec 32).toInt :=
  narrow_sound
    (show narrow [.intConstant 0] ⟨1, 0, 1, ⟨none, 0⟩⟩ (some (.plain ⟨⟨none, 0⟩, ⟨none, 9⟩⟩)) =
      .plain ⟨⟨none, 0⟩, ⟨none, 9⟩⟩ by decide)
    ⟨fun _ absent => (nomatch absent), fun related => absurd related (by decide)⟩
    (fun c found => by simpa [HGraph.instructionAt] using found) (by decide) 3 (by decide) (by decide)

end MonotonicValueRange

end BoundsCheckElimination

end Art.Compiler.Optimizing
