import Mathlib
import Art.Compiler.Optimizing.Nodes
import Art.Machine.Rotate

/-!
# Rotations found by the instruction simplifier

`InstructionSimplifierVisitor::TryReplaceWithRotate` looks at an `HAdd`, `HXor`
or `HOr` of an `HUShr` and an `HShl` of the same value and replaces it by an
`HRor` of that value by the distance of the `HUShr`, when the two distances add
up to a multiple of the width: both constant (`TryReplaceWithRotateConstantPattern`),
one of them the width minus the other (`TryReplaceWithRotateRegisterSubPattern`),
or one of them the negation of the other (`TryReplaceWithRotateRegisterNegPattern`).

The two shifts of a rotation by a masked distance `k` are a shift right by `k`
and a shift left by `(w - k) % w`. For `0 < k` they share no bit, and any of the
three operations combines them into the rotation (`add_shifts_eq_ror`,
`xor_shifts_eq_ror`); for `k = 0` both are the value itself (`shifts_of_multiple`),
and only the or gives it back (`or_shifts_eq_ror`). The
register patterns match whatever the distance is at run time, so an `HAdd` or an
`HXor` is replaced even when the distance turns out to be a multiple of the
width, and then the `HRor` computes `x` where the original computed `x + x` or
`0` (`tryReplaceWithRotate_add_changes_value`). For an `HOr`, and for every
distance that is not a multiple of the width, the replacement keeps the value
(`tryReplaceWithRotate_keeps_value`).

The model replaces the instruction by the `HRor` at its index. The code also
removes the shifts and distances left without uses; no value depends on them.
-/

set_option autoImplicit false

namespace Art.Compiler.Optimizing

namespace InstructionSimplifier

open HInstruction HGraph

/-- The operands of an `HUShr` or `HShl` the patterns read. -/
structure ShiftOperands where
  type : Primitive.Type
  value : Nat
  distance : Nat
  deriving DecidableEq, Repr

/-- `IsSubRegBitsMinusOther(sub, reg_bits, other)`: `sub` is a constant, a
multiple of the width, minus `other`. -/
def isSubRegBitsMinusOther (graph : HGraph) (sub : Nat) (regBits : Nat) (other : Nat) : Bool :=
  match instructionAt graph sub with
  | .sub _ left right =>
      right == other && (instructionAt graph left).isConstant &&
        (int64FromConstant (instructionAt graph left) &&& BitVec.ofNat 64 (regBits - 1)) == 0
  | _ => false

/-- `ReplaceRotateWithRor(op, ushr, shl)`: put an `HRor` of the value by the
distance of the `HUShr` in the place of `op`. -/
def replaceRotateWithRor (graph : HGraph) (op : Nat) (ushr : ShiftOperands) : Bool × HGraph :=
  (true, graph.set op (.ror ushr.type ushr.value ushr.distance))

/-- The width of the shifted type, `Primitive::ComponentSize(type) * kBitsPerByte`. -/
def regBits (ushr : ShiftOperands) : Nat := Primitive.componentSize ushr.type * 8

/-- `TryReplaceWithRotateConstantPattern`. The distances are read as `size_t`. -/
def tryReplaceWithRotateConstantPattern (graph : HGraph) (op : Nat) (ushr shl : ShiftOperands) :
    Bool × HGraph :=
  let rdist := int64FromConstant (instructionAt graph ushr.distance)
  let ldist := int64FromConstant (instructionAt graph shl.distance)
  if (ldist + rdist) &&& BitVec.ofNat 64 (regBits ushr - 1) = 0 then replaceRotateWithRor graph op ushr
  else (false, graph)

/-- `TryReplaceWithRotateRegisterNegPattern`. It answers false even when it has
replaced the instruction. -/
def tryReplaceWithRotateRegisterNegPattern (graph : HGraph) (op : Nat) (ushr shl : ShiftOperands) :
    Bool × HGraph :=
  let negIsLeft := (instructionAt graph shl.distance).isNeg
  let neg := if negIsLeft then shl.distance else ushr.distance
  if (instructionAt graph neg).inputAt0 = some (if negIsLeft then ushr.distance else shl.distance) then
    (false, (replaceRotateWithRor graph op ushr).2)
  else (false, graph)

/-- `TryReplaceWithRotateRegisterSubPattern`. -/
def tryReplaceWithRotateRegisterSubPattern (graph : HGraph) (op : Nat) (ushr shl : ShiftOperands) :
    Bool × HGraph :=
  if ((instructionAt graph shl.distance).isSub &&
        isSubRegBitsMinusOther graph shl.distance (regBits ushr) ushr.distance) ||
      ((instructionAt graph ushr.distance).isSub &&
        isSubRegBitsMinusOther graph ushr.distance (regBits ushr) shl.distance) then
    replaceRotateWithRor graph op ushr
  else (false, graph)

/-- The part of `TryReplaceWithRotate` after the `HUShr` and the `HShl` are found:
the same type and the same value, then the pattern the distances call for. -/
def tryReplaceShifts (graph : HGraph) (op : Nat) (ushr shl : ShiftOperands) : Bool × HGraph :=
  if ushr.type = shl.type && ushr.value = shl.value then
    if (instructionAt graph ushr.distance).isConstant && (instructionAt graph shl.distance).isConstant then
      tryReplaceWithRotateConstantPattern graph op ushr shl
    else if (instructionAt graph ushr.distance).isSub || (instructionAt graph shl.distance).isSub then
      tryReplaceWithRotateRegisterSubPattern graph op ushr shl
    else if (instructionAt graph ushr.distance).isNeg || (instructionAt graph shl.distance).isNeg then
      tryReplaceWithRotateRegisterNegPattern graph op ushr shl
    else (false, graph)
  else (false, graph)

/-- `TryReplaceWithRotate(op)` on an `HAdd`, `HXor` or `HOr`: its answer and the
graph after it. -/
def tryReplaceWithRotate (graph : HGraph) (op : Nat) : Bool × HGraph :=
  match instructionAt graph op with
  | .add _ left right | .xor _ left right | .or _ left right =>
      match instructionAt graph left, instructionAt graph right with
      | .ushr rightType rightValue rightDistance, .shl leftType leftValue leftDistance
      | .shl leftType leftValue leftDistance, .ushr rightType rightValue rightDistance =>
          tryReplaceShifts graph op ⟨rightType, rightValue, rightDistance⟩ ⟨leftType, leftValue, leftDistance⟩
      | _, _ => (false, graph)
  | _ => (false, graph)

/-! ## The two shifts of a rotation -/

/-- Two shift distances whose masked values add up to a multiple of the width. -/
def Complementary (w : Nat) (rightDistance leftDistance : BitVec 32) : Prop :=
  leftDistance.toNat % w = (w - rightDistance.toNat % w) % w

section Words

variable {w : Nat} {maxShift : BitVec 32}
  (masked : ∀ distance : BitVec 32, (distance &&& maxShift).toNat = distance.toNat % w)
  (positive : 0 < w) {rightDistance leftDistance : BitVec 32}
  (complementary : Complementary w rightDistance leftDistance)

include masked positive complementary

/-- The or of the two shifts is the rotation, whatever the distance. -/
theorem or_shifts_eq_ror (x : BitVec w) :
    HOr.compute (HUShr.compute x rightDistance maxShift) (HShl.compute x leftDistance maxShift) =
      HRor.compute x rightDistance maxShift := by
  rw [HUShr.compute_eq masked, HShl.compute_eq masked, HRor.compute_eq_rotateRight masked,
    complementary, Art.Machine.rotateRight_eq_or_mod x (Nat.mod_lt _ positive)]
  rfl

/-- The sum of the two shifts is the rotation when the distance is not a multiple
of the width. -/
theorem add_shifts_eq_ror (turning : rightDistance.toNat % w ≠ 0) (x : BitVec w) :
    HAdd.compute (HUShr.compute x rightDistance maxShift) (HShl.compute x leftDistance maxShift) =
      HRor.compute x rightDistance maxShift := by
  rw [HUShr.compute_eq masked, HShl.compute_eq masked, HRor.compute_eq_rotateRight masked,
    complementary, Art.Machine.rotateRight_eq_add_mod x (Nat.pos_of_ne_zero turning) (Nat.mod_lt _ positive)]
  rfl

/-- The exclusive or of the two shifts is the rotation when the distance is not a
multiple of the width. -/
theorem xor_shifts_eq_ror (turning : rightDistance.toNat % w ≠ 0) (x : BitVec w) :
    HXor.compute (HUShr.compute x rightDistance maxShift) (HShl.compute x leftDistance maxShift) =
      HRor.compute x rightDistance maxShift := by
  rw [HUShr.compute_eq masked, HShl.compute_eq masked, HRor.compute_eq_rotateRight masked,
    complementary, Art.Machine.rotateRight_eq_xor_mod x (Nat.pos_of_ne_zero turning) (Nat.mod_lt _ positive)]
  rfl

omit positive in
/-- For a distance that is a multiple of the width both shifts are the value
itself, and so is the rotation. -/
theorem shifts_of_multiple (multiple : rightDistance.toNat % w = 0) (x : BitVec w) :
    HUShr.compute x rightDistance maxShift = x ∧ HShl.compute x leftDistance maxShift = x ∧
      HRor.compute x rightDistance maxShift = x := by
  have left : leftDistance.toNat % w = 0 := by
    rw [complementary, multiple, Nat.sub_zero, Nat.mod_self]
  refine ⟨?_, ?_, ?_⟩
  · rw [HUShr.compute_eq masked, multiple, BitVec.ushiftRight_zero]
  · rw [HShl.compute_eq masked, left, BitVec.shiftLeft_zero]
  · rw [HRor.compute_eq_rotateRight masked, multiple]
    simp [BitVec.rotateRight_def]

end Words

/-! ## What a replacement has checked -/

/-- The two distances are constants that add up to a multiple of the width. -/
def ConstantDistances (graph : HGraph) (ushr shl : ShiftOperands) : Prop :=
  (instructionAt graph ushr.distance).isConstant ∧ (instructionAt graph shl.distance).isConstant ∧
    (int64FromConstant (instructionAt graph shl.distance) + int64FromConstant (instructionAt graph ushr.distance)) &&&
      BitVec.ofNat 64 (regBits ushr - 1) = 0

/-- One distance is a constant multiple of the width minus the other. -/
def SubDistances (graph : HGraph) (ushr shl : ShiftOperands) : Prop :=
  isSubRegBitsMinusOther graph shl.distance (regBits ushr) ushr.distance ∨
    isSubRegBitsMinusOther graph ushr.distance (regBits ushr) shl.distance

/-- One distance is the negation of the other. -/
def NegDistances (graph : HGraph) (ushr shl : ShiftOperands) : Prop :=
  (∃ type, instructionAt graph shl.distance = .neg type ushr.distance) ∨
    ∃ type, instructionAt graph ushr.distance = .neg type shl.distance

/-- What `TryReplaceWithRotate` has checked when it replaces `op`: `op` is an
`HAdd`, `HXor` or `HOr` of an `HUShr` and an `HShl` of one value and one type,
whose distances match one of the three patterns. -/
structure Matched (graph : HGraph) (op : Nat) (ushr shl : ShiftOperands) : Prop where
  operands : ∃ type left right,
    (instructionAt graph op = .add type left right ∨ instructionAt graph op = .xor type left right ∨
      instructionAt graph op = .or type left right) ∧
    ((instructionAt graph left = .ushr ushr.type ushr.value ushr.distance ∧
        instructionAt graph right = .shl shl.type shl.value shl.distance) ∨
      (instructionAt graph left = .shl shl.type shl.value shl.distance ∧
        instructionAt graph right = .ushr ushr.type ushr.value ushr.distance))
  sameType : ushr.type = shl.type
  sameValue : ushr.value = shl.value
  distances : ConstantDistances graph ushr shl ∨ SubDistances graph ushr shl ∨ NegDistances graph ushr shl

/-- Each pattern leaves the graph as it was or replaces `op` by the `HRor`. -/
theorem tryReplaceWithRotateConstantPattern_cases (graph : HGraph) (op : Nat) (ushr shl : ShiftOperands) :
    (tryReplaceWithRotateConstantPattern graph op ushr shl).2 = graph ∨
      ((int64FromConstant (instructionAt graph shl.distance) + int64FromConstant (instructionAt graph ushr.distance)) &&&
          BitVec.ofNat 64 (regBits ushr - 1) = 0 ∧
        (tryReplaceWithRotateConstantPattern graph op ushr shl).2 = graph.set op (.ror ushr.type ushr.value ushr.distance)) := by
  unfold tryReplaceWithRotateConstantPattern
  dsimp only
  split_ifs with multiple
  · exact Or.inr ⟨multiple, rfl⟩
  · exact Or.inl rfl

theorem tryReplaceWithRotateRegisterSubPattern_cases (graph : HGraph) (op : Nat) (ushr shl : ShiftOperands) :
    (tryReplaceWithRotateRegisterSubPattern graph op ushr shl).2 = graph ∨
      (SubDistances graph ushr shl ∧
        (tryReplaceWithRotateRegisterSubPattern graph op ushr shl).2 = graph.set op (.ror ushr.type ushr.value ushr.distance)) := by
  unfold tryReplaceWithRotateRegisterSubPattern
  split_ifs with matched
  · refine Or.inr ⟨?_, rfl⟩
    simp only [Bool.or_eq_true, Bool.and_eq_true] at matched
    rcases matched with ⟨_, shlSide⟩ | ⟨_, ushrSide⟩
    · exact Or.inl shlSide
    · exact Or.inr ushrSide
  · exact Or.inl rfl

/-- The negation pattern is only tried when one of the distances is an `HNeg`. -/
theorem tryReplaceWithRotateRegisterNegPattern_cases (graph : HGraph) (op : Nat) (ushr shl : ShiftOperands)
    (someNeg : (instructionAt graph ushr.distance).isNeg ∨ (instructionAt graph shl.distance).isNeg) :
    (tryReplaceWithRotateRegisterNegPattern graph op ushr shl).2 = graph ∨
      (NegDistances graph ushr shl ∧
        (tryReplaceWithRotateRegisterNegPattern graph op ushr shl).2 = graph.set op (.ror ushr.type ushr.value ushr.distance)) := by
  unfold tryReplaceWithRotateRegisterNegPattern
  dsimp only
  by_cases negIsLeft : (instructionAt graph shl.distance).isNeg = true
  · simp only [negIsLeft, if_true]
    split_ifs with matched
    · refine Or.inr ⟨Or.inl ?_, rfl⟩
      cases found : instructionAt graph shl.distance <;> simp_all [isNeg, inputAt0]
    · exact Or.inl rfl
  · simp only [negIsLeft, if_false, Bool.false_eq_true]
    split_ifs with matched
    · refine Or.inr ⟨Or.inr ?_, rfl⟩
      -- The dispatch tried this pattern, so the other distance is the `HNeg`.
      have ushrNeg : (instructionAt graph ushr.distance).isNeg = true := someNeg.resolve_right negIsLeft
      cases found : instructionAt graph ushr.distance <;> simp_all [isNeg, inputAt0]
    · exact Or.inl rfl

/-- With the shifts found, the graph is kept or `op` replaced after the checks of
one pattern. -/
theorem tryReplaceShifts_cases (graph : HGraph) (op : Nat) (ushr shl : ShiftOperands) :
    (tryReplaceShifts graph op ushr shl).2 = graph ∨
      (ushr.type = shl.type ∧ ushr.value = shl.value ∧
        (ConstantDistances graph ushr shl ∨ SubDistances graph ushr shl ∨ NegDistances graph ushr shl) ∧
        (tryReplaceShifts graph op ushr shl).2 = graph.set op (.ror ushr.type ushr.value ushr.distance)) := by
  unfold tryReplaceShifts
  split_ifs with same constants subs negs
  · simp only [Bool.and_eq_true, decide_eq_true_eq] at same constants
    rcases tryReplaceWithRotateConstantPattern_cases graph op ushr shl with kept | ⟨multiple, replaced⟩
    · exact Or.inl kept
    · exact Or.inr ⟨same.1, same.2, Or.inl ⟨constants.1, constants.2, multiple⟩, replaced⟩
  · simp only [Bool.and_eq_true, decide_eq_true_eq] at same
    rcases tryReplaceWithRotateRegisterSubPattern_cases graph op ushr shl with kept | ⟨matched, replaced⟩
    · exact Or.inl kept
    · exact Or.inr ⟨same.1, same.2, Or.inr (Or.inl matched), replaced⟩
  · simp only [Bool.and_eq_true, decide_eq_true_eq] at same
    simp only [Bool.or_eq_true] at negs
    rcases tryReplaceWithRotateRegisterNegPattern_cases graph op ushr shl negs with kept | ⟨matched, replaced⟩
    · exact Or.inl kept
    · exact Or.inr ⟨same.1, same.2, Or.inr (Or.inr matched), replaced⟩
  · exact Or.inl rfl
  · exact Or.inl rfl

/-- The shifts found as the operands of `op`, in either order, and the checks of
a pattern make a match. -/
theorem tryReplaceShifts_matched {graph : HGraph} {op left right : Nat} {ushr shl : ShiftOperands}
    (operation : ∃ type, instructionAt graph op = .add type left right ∨
      instructionAt graph op = .xor type left right ∨ instructionAt graph op = .or type left right)
    (order : (instructionAt graph left = .ushr ushr.type ushr.value ushr.distance ∧
        instructionAt graph right = .shl shl.type shl.value shl.distance) ∨
      (instructionAt graph left = .shl shl.type shl.value shl.distance ∧
        instructionAt graph right = .ushr ushr.type ushr.value ushr.distance)) :
    (tryReplaceShifts graph op ushr shl).2 = graph ∨
      Matched graph op ushr shl ∧
        (tryReplaceShifts graph op ushr shl).2 = graph.set op (.ror ushr.type ushr.value ushr.distance) := by
  obtain ⟨type, operation⟩ := operation
  rcases tryReplaceShifts_cases graph op ushr shl with kept | ⟨sameType, sameValue, distances, replaced⟩
  · exact Or.inl kept
  · exact Or.inr ⟨⟨⟨type, left, right, operation, order⟩, sameType, sameValue, distances⟩, replaced⟩

/-- **What `TryReplaceWithRotate` does.** It keeps the graph, or it replaces `op`
by the `HRor` of a match. -/
theorem tryReplaceWithRotate_cases (graph : HGraph) (op : Nat) :
    (tryReplaceWithRotate graph op).2 = graph ∨
      ∃ ushr shl, Matched graph op ushr shl ∧
        (tryReplaceWithRotate graph op).2 = graph.set op (.ror ushr.type ushr.value ushr.distance) := by
  unfold tryReplaceWithRotate
  -- The three operations and the two orders of the shifts: six matches, and the rest.
  split
  all_goals first
    | exact Or.inl rfl
    | split
      all_goals first
        | exact Or.inl rfl
        | exact (@tryReplaceShifts_matched _ _ _ _ ⟨_, _, _⟩ ⟨_, _, _⟩
            ⟨_, by first | exact Or.inl ‹_› | exact Or.inr (Or.inl ‹_›) | exact Or.inr (Or.inr ‹_›)⟩
            (by first | exact Or.inl ⟨‹_›, ‹_›⟩ | exact Or.inr ⟨‹_›, ‹_›⟩)).imp_right
              fun replaced => ⟨_, _, replaced⟩

/-! ## The values of the shifts -/

/-- The low bits of a sign-extended distance are those of the distance. -/
theorem toNat_signExtend_mod_width (x : BitVec 32) (value : HValue) :
    (x.signExtend 64).toNat % value.width = x.toNat % value.width := by
  have bound := x.isLt
  rw [BitVec.toNat_signExtend, BitVec.toNat_setWidth]
  cases value <;> split <;> simp only [HValue.width] <;> omega

/-- The mask `regBits - 1` of a type keeps a 64-bit word modulo the width of a
value of that type. -/
theorem toNat_and_regBits_mask (x : BitVec 64) {ushr : ShiftOperands} {value : HValue}
    (ofType : value.type = ushr.type) :
    (x &&& BitVec.ofNat 64 (regBits ushr - 1)).toNat = x.toNat % value.width := by
  cases value with
  | int _ =>
      have bits : regBits ushr = 32 := by
        simp only [HValue.type] at ofType
        simp [regBits, ← ofType, Primitive.componentSize]
      rw [bits, BitVec.toNat_and, show BitVec.ofNat 64 (32 - 1) = BitVec.ofNat 64 (2 ^ 5 - 1) from rfl,
        BitVec.toNat_ofNat, show (2 ^ 5 - 1) % 2 ^ 64 = 2 ^ 5 - 1 from rfl, Nat.and_two_pow_sub_one_eq_mod]
      rfl
  | long _ =>
      have bits : regBits ushr = 64 := by
        simp only [HValue.type] at ofType
        simp [regBits, ← ofType, Primitive.componentSize]
      rw [bits, BitVec.toNat_and, show BitVec.ofNat 64 (64 - 1) = BitVec.ofNat 64 (2 ^ 6 - 1) from rfl,
        BitVec.toNat_ofNat, show (2 ^ 6 - 1) % 2 ^ 64 = 2 ^ 6 - 1 from rfl, Nat.and_two_pow_sub_one_eq_mod]
      rfl

/-- A distance that is a constant multiple of the width minus another distance,
as `IsSubRegBitsMinusOther` checks it, leaves the same rest as the negation of
the other distance. -/
theorem isSubRegBitsMinusOther_value {graph : HGraph} {arguments : Nat → HValue} {sub other : Nat}
    {ushr : ShiftOperands} {value : HValue} {subtracted remaining : BitVec 32} (ofType : value.type = ushr.type)
    (matched : isSubRegBitsMinusOther graph sub (regBits ushr) other = true)
    (subValue : graph.evaluate arguments sub = some (.int remaining))
    (otherValue : graph.evaluate arguments other = some (.int subtracted)) :
    remaining.toNat % value.width = (value.width - subtracted.toNat % value.width) % value.width := by
  unfold isSubRegBitsMinusOther at matched
  split at matched
  · rename_i type left right found
    simp only [Bool.and_eq_true, beq_iff_eq] at matched
    obtain ⟨⟨rfl, constant⟩, multiple⟩ := matched
    obtain ⟨-, -, first, second, firstValue, secondValue, difference⟩ :=
      evaluate_of_binary (fun _ _ => by rw [found]; rfl) (by rw [found]; exact nofun) subValue
    rw [otherValue, Option.some.injEq] at secondValue
    subst secondValue
    cases first with
    | long _ => cases difference
    | int constantValue =>
        simp only [HValue.binary, HSub.compute, Option.some.injEq, HValue.int.injEq] at difference
        subst difference
        rw [int64FromConstant_of_evaluate constant firstValue] at multiple
        have rest := congrArg BitVec.toNat multiple
        rw [toNat_and_regBits_mask _ ofType, toNat_signExtend_mod_width] at rest
        have bound := subtracted.isLt
        have bound' := constantValue.isLt
        rw [BitVec.toNat_sub]
        cases value <;> simp only [HValue.width, BitVec.ofNat_eq_ofNat, BitVec.toNat_ofNat, Nat.zero_mod, Nat.reducePow] at rest ⊢ <;> omega
  · cases matched

/-- **The distances of a match.** For a value of the type of the shifts, the
distances of a match are complementary: their masked values add up to a
multiple of the width. -/
theorem Matched.complementary {graph : HGraph} {op : Nat} {ushr shl : ShiftOperands}
    (matched : Matched graph op ushr shl) {arguments : Nat → HValue} {value : HValue}
    {rightDistance leftDistance : BitVec 32} (ofType : value.type = ushr.type)
    (right : graph.evaluate arguments ushr.distance = some (.int rightDistance))
    (left : graph.evaluate arguments shl.distance = some (.int leftDistance)) :
    Complementary value.width rightDistance leftDistance := by
  unfold Complementary
  have rightBound := rightDistance.isLt
  have leftBound := leftDistance.isLt
  rcases matched.distances with ⟨rightConstant, leftConstant, multiple⟩ | (shlSide | ushrSide) | negation
  · -- Both constants: their sum, as 64-bit words, is a multiple of the width.
    rw [int64FromConstant_of_evaluate rightConstant right, int64FromConstant_of_evaluate leftConstant left] at multiple
    have rest := congrArg BitVec.toNat multiple
    rw [toNat_and_regBits_mask _ ofType, BitVec.toNat_add] at rest
    have leftRest := toNat_signExtend_mod_width leftDistance value
    have rightRest := toNat_signExtend_mod_width rightDistance value
    cases value <;> simp only [HValue.width, BitVec.ofNat_eq_ofNat, BitVec.toNat_ofNat, Nat.zero_mod, Nat.reducePow] at rest leftRest rightRest ⊢ <;> omega
  · exact isSubRegBitsMinusOther_value ofType shlSide left right
  · have rest := isSubRegBitsMinusOther_value ofType ushrSide right left
    cases value <;> simp only [HValue.width] at rest ⊢ <;> omega
  · rcases negation with ⟨type, found⟩ | ⟨type, found⟩
    · obtain ⟨-, operand, operandValue, negated⟩ := evaluate_of_neg found left
      rw [right, Option.some.injEq] at operandValue
      subst operandValue
      simp only [HNeg.compute, HValue.int.injEq] at negated
      rw [negated, BitVec.toNat_neg]
      cases value <;> simp only [HValue.width] <;> omega
    · obtain ⟨-, operand, operandValue, negated⟩ := evaluate_of_neg found right
      rw [left, Option.some.injEq] at operandValue
      subst operandValue
      simp only [HNeg.compute, HValue.int.injEq] at negated
      rw [negated, BitVec.toNat_neg]
      cases value <;> simp only [HValue.width] <;> omega

/-! ## A run of a matched instruction -/

/-- `op` combines the values of the two shifts by its own operation. -/
def Combines (graph : HGraph) (op : Nat) (ushrValue shlValue result : HValue) : Prop :=
  ((∃ type left right, instructionAt graph op = .add type left right) ∧
      HValue.binary HAdd.compute ushrValue shlValue = some result) ∨
    ((∃ type left right, instructionAt graph op = .xor type left right) ∧
      HValue.binary HXor.compute ushrValue shlValue = some result) ∨
    ((∃ type left right, instructionAt graph op = .or type left right) ∧
      HValue.binary HOr.compute ushrValue shlValue = some result)

/-- The value of one of the two shifts: its inputs have values and come before it. -/
theorem shift_value {graph : HGraph} {arguments : Nat → HValue} {id : Nat} {operands : ShiftOperands}
    {operation : ∀ {w : Nat}, BitVec w → BitVec 32 → BitVec 32 → BitVec w} {result : HValue}
    (computes : ∀ input argument, (instructionAt graph id).compute input argument =
      do HValue.shift operation (← input operands.value) (← input operands.distance))
    (notNull : instructionAt graph id ≠ .nullConstant) (evaluated : graph.evaluate arguments id = some result) :
    operands.value < id ∧ operands.distance < id ∧ ∃ shifted distance,
      graph.evaluate arguments operands.value = some shifted ∧
        graph.evaluate arguments operands.distance = some (.int distance) ∧
        HValue.shift operation shifted (.int distance) = some result := by
  obtain ⟨valueBefore, distanceBefore, shifted, amount, shiftedValue, amountValue, computed⟩ :=
    evaluate_of_shift computes notNull evaluated
  cases amount with
  | long _ => cases shifted <;> cases computed
  | int distance => exact ⟨valueBefore, distanceBefore, shifted, distance, shiftedValue, amountValue, computed⟩

/-- **A run of a match.** When `op` has a value, the shifted value and the
distances have values, come before `op`, and `op` combines the two shifts. -/
theorem Matched.run {graph : HGraph} {op : Nat} {ushr shl : ShiftOperands}
    (matched : Matched graph op ushr shl) {arguments : Nat → HValue} {result : HValue}
    (original : graph.evaluate arguments op = some result) :
    ushr.value < op ∧ ushr.distance < op ∧
      ∃ value rightDistance leftDistance ushrValue shlValue,
        graph.evaluate arguments ushr.value = some value ∧
        graph.evaluate arguments ushr.distance = some (.int rightDistance) ∧
        graph.evaluate arguments shl.distance = some (.int leftDistance) ∧
        HValue.shift HUShr.compute value (.int rightDistance) = some ushrValue ∧
        HValue.shift HShl.compute value (.int leftDistance) = some shlValue ∧
        Combines graph op ushrValue shlValue result := by
  obtain ⟨type, left, right, operation, order⟩ := matched.operands
  -- Both operands of `op` have values, whichever operation it is.
  have operands : left < op ∧ right < op ∧ ∃ first second, graph.evaluate arguments left = some first ∧
      graph.evaluate arguments right = some second ∧
      (((∃ type left right, instructionAt graph op = .add type left right) ∧
          HValue.binary HAdd.compute first second = some result) ∨
        ((∃ type left right, instructionAt graph op = .xor type left right) ∧
          HValue.binary HXor.compute first second = some result) ∨
        ((∃ type left right, instructionAt graph op = .or type left right) ∧
          HValue.binary HOr.compute first second = some result)) := by
    rcases operation with found | found | found
    · obtain ⟨leftBefore, rightBefore, first, second, firstValue, secondValue, combined⟩ :=
        evaluate_of_binary (fun _ _ => by rw [found]; rfl) (by rw [found]; exact nofun) original
      exact ⟨leftBefore, rightBefore, first, second, firstValue, secondValue, Or.inl ⟨⟨_, _, _, found⟩, combined⟩⟩
    · obtain ⟨leftBefore, rightBefore, first, second, firstValue, secondValue, combined⟩ :=
        evaluate_of_binary (fun _ _ => by rw [found]; rfl) (by rw [found]; exact nofun) original
      exact ⟨leftBefore, rightBefore, first, second, firstValue, secondValue,
        Or.inr (Or.inl ⟨⟨_, _, _, found⟩, combined⟩)⟩
    · obtain ⟨leftBefore, rightBefore, first, second, firstValue, secondValue, combined⟩ :=
        evaluate_of_binary (fun _ _ => by rw [found]; rfl) (by rw [found]; exact nofun) original
      exact ⟨leftBefore, rightBefore, first, second, firstValue, secondValue,
        Or.inr (Or.inr ⟨⟨_, _, _, found⟩, combined⟩)⟩
  obtain ⟨leftBefore, rightBefore, first, second, firstValue, secondValue, combined⟩ := operands
  -- Whichever order the shifts come in, `op` combines the `HUShr` with the `HShl`.
  obtain ⟨ushrId, shlId, ushrValue, shlValue, ushrFound, shlFound, ushrBefore, -, ushrEvaluated,
      shlEvaluated, combines⟩ :
      ∃ ushrId shlId ushrValue shlValue,
        instructionAt graph ushrId = .ushr ushr.type ushr.value ushr.distance ∧
        instructionAt graph shlId = .shl shl.type shl.value shl.distance ∧ ushrId < op ∧ shlId < op ∧
        graph.evaluate arguments ushrId = some ushrValue ∧ graph.evaluate arguments shlId = some shlValue ∧
        Combines graph op ushrValue shlValue result := by
    rcases order with ⟨ushrFound, shlFound⟩ | ⟨shlFound, ushrFound⟩
    · exact ⟨left, right, first, second, ushrFound, shlFound, leftBefore, rightBefore, firstValue, secondValue,
        combined⟩
    · refine ⟨right, left, second, first, ushrFound, shlFound, rightBefore, leftBefore, secondValue, firstValue, ?_⟩
      -- The three operations are commutative.
      have addComm := @HValue.binary_comm HAdd.compute (fun x y => BitVec.add_comm x y) first second
      have xorComm := @HValue.binary_comm HXor.compute (fun x y => BitVec.xor_comm x y) first second
      have orComm := @HValue.binary_comm HOr.compute (fun x y => BitVec.or_comm x y) first second
      unfold Combines
      rwa [← addComm, ← xorComm, ← orComm]
  obtain ⟨valueBefore, distanceBefore, value, rightDistance, valueEvaluated, rightEvaluated, ushrComputed⟩ :=
    shift_value (fun _ _ => by rw [ushrFound]; rfl) (by rw [ushrFound]; exact nofun) ushrEvaluated
  obtain ⟨-, -, value', leftDistance, valueEvaluated', leftEvaluated, shlComputed⟩ :=
    shift_value (fun _ _ => by rw [shlFound]; rfl) (by rw [shlFound]; exact nofun) shlEvaluated
  -- The two shifts shift the same value.
  rw [← matched.sameValue, valueEvaluated, Option.some.injEq] at valueEvaluated'
  subst valueEvaluated'
  exact ⟨by omega, by omega, value, rightDistance, leftDistance, ushrValue, shlValue, valueEvaluated,
    rightEvaluated, leftEvaluated, ushrComputed, shlComputed, combines⟩

/-- After the replacement, `op` is the `HRor` of the shifted value by the
distance of the `HUShr`, which the replacement does not change. -/
theorem Matched.rotated {graph : HGraph} {op : Nat} {ushr shl : ShiftOperands}
    (matched : Matched graph op ushr shl) {arguments : Nat → HValue} {result value : HValue}
    {rightDistance : BitVec 32} (original : graph.evaluate arguments op = some result)
    (valueEvaluated : graph.evaluate arguments ushr.value = some value)
    (rightEvaluated : graph.evaluate arguments ushr.distance = some (.int rightDistance)) :
    HGraph.evaluate (graph.set op (.ror ushr.type ushr.value ushr.distance)) arguments op =
      HValue.shift HRor.compute value (.int rightDistance) := by
  obtain ⟨valueBefore, distanceBefore, -⟩ := matched.run original
  have present : op < graph.length := by
    by_contra outside
    rw [evaluate_eq, List.getElem?_eq_none (by omega)] at original
    cases original
  -- Below `op` the two graphs are the same.
  have below : ∀ id < op, (graph.set op (.ror ushr.type ushr.value ushr.distance))[id]? = graph[id]? :=
    fun id before => List.getElem?_set_ne (by omega)
  have found : instructionAt (graph.set op (.ror ushr.type ushr.value ushr.distance)) op =
      .ror ushr.type ushr.value ushr.distance := by
    simp [instructionAt, List.getElem?_set_self present]
  exact evaluate_shift (fun _ _ => by rw [found]; rfl) (by rw [found]; exact nofun) valueBefore distanceBefore
    ((evaluate_congr graph arguments below _ valueBefore).trans valueEvaluated)
    ((evaluate_congr graph arguments below _ distanceBefore).trans rightEvaluated)

/-- The operation of a match, applied to the two shifts, gives the rotation for an
`HOr`, and for every distance that is not a multiple of the width. -/
theorem Combines.eq_ror {graph : HGraph} {op : Nat} {value ushrValue shlValue result : HValue}
    {rightDistance leftDistance : BitVec 32} (combines : Combines graph op ushrValue shlValue result)
    (complementary : Complementary value.width rightDistance leftDistance)
    (ushrComputed : HValue.shift HUShr.compute value (.int rightDistance) = some ushrValue)
    (shlComputed : HValue.shift HShl.compute value (.int leftDistance) = some shlValue)
    (keeps : (∃ type left right, instructionAt graph op = .or type left right) ∨
      rightDistance.toNat % value.width ≠ 0) :
    HValue.shift HRor.compute value (.int rightDistance) = some result := by
  -- An `HAdd` or an `HXor` is not an `HOr`, so its distance is not a multiple of the width.
  have notOr : ∀ {other : HInstruction}, instructionAt graph op = other →
      (∀ type left right, other ≠ .or type left right) → rightDistance.toNat % value.width ≠ 0 :=
    fun found different => keeps.resolve_left fun ⟨type, left, right, isOr⟩ =>
      different type left right (found.symm.trans isOr)
  cases value with
  | int x =>
      simp only [HValue.shift, Option.some.injEq] at ushrComputed shlComputed ⊢
      subst ushrComputed shlComputed
      rcases combines with ⟨⟨type, left, right, found⟩, combined⟩ | ⟨⟨type, left, right, found⟩, combined⟩ |
          ⟨-, combined⟩
      · simp only [HValue.binary, Option.some.injEq] at combined
        rw [← combined, add_shifts_eq_ror toNat_and_kMaxIntShiftDistance (by decide) complementary
          (notOr found fun _ _ _ same => by cases same)]
      · simp only [HValue.binary, Option.some.injEq] at combined
        rw [← combined, xor_shifts_eq_ror toNat_and_kMaxIntShiftDistance (by decide) complementary
          (notOr found fun _ _ _ same => by cases same)]
      · simp only [HValue.binary, Option.some.injEq] at combined
        rw [← combined, or_shifts_eq_ror toNat_and_kMaxIntShiftDistance (by decide) complementary]
  | long x =>
      simp only [HValue.shift, Option.some.injEq] at ushrComputed shlComputed ⊢
      subst ushrComputed shlComputed
      rcases combines with ⟨⟨type, left, right, found⟩, combined⟩ | ⟨⟨type, left, right, found⟩, combined⟩ |
          ⟨-, combined⟩
      · simp only [HValue.binary, Option.some.injEq] at combined
        rw [← combined, add_shifts_eq_ror toNat_and_kMaxLongShiftDistance (by decide) complementary
          (notOr found fun _ _ _ same => by cases same)]
      · simp only [HValue.binary, Option.some.injEq] at combined
        rw [← combined, xor_shifts_eq_ror toNat_and_kMaxLongShiftDistance (by decide) complementary
          (notOr found fun _ _ _ same => by cases same)]
      · simp only [HValue.binary, Option.some.injEq] at combined
        rw [← combined, or_shifts_eq_ror toNat_and_kMaxLongShiftDistance (by decide) complementary]

/-! ## What the replacement computes -/

/-- The `HRor` a replacement puts at `op` reads the value and the distance of the
`HUShr` of the match. -/
theorem ror_of_replaced {graph : HGraph} {op x distance : Nat} {type : Primitive.Type}
    {ushr : ShiftOperands} (present : op < graph.length)
    (replaced : instructionAt (graph.set op (.ror ushr.type ushr.value ushr.distance)) op = .ror type x distance) :
    type = ushr.type ∧ x = ushr.value ∧ distance = ushr.distance := by
  simp only [instructionAt, List.getElem?_set_self present, Option.getD_some, HInstruction.ror.injEq] at replaced
  exact ⟨replaced.1.symm, replaced.2.1.symm, replaced.2.2.symm⟩

/-- An instruction with a value is in the graph. -/
theorem lt_length_of_evaluate {graph : HGraph} {arguments : Nat → HValue} {id : Nat} {result : HValue}
    (evaluated : graph.evaluate arguments id = some result) : id < graph.length := by
  by_contra outside
  rw [evaluate_eq, List.getElem?_eq_none (by omega)] at evaluated
  cases evaluated

/-- **The rotation keeps the value of an `HOr`, and of an `HAdd` or `HXor` whose
distance is not a multiple of the width.** Whenever `TryReplaceWithRotate` has put
an `HRor` of `x` by `distance` at `op`, `x` has a value of the type of the
`HRor`, and `op` had a value, the `HRor` computes that value, for an `HOr`
always and for the other two when the distance is not a multiple of the width. -/
theorem tryReplaceWithRotate_keeps_value {graph : HGraph} {op x distance : Nat} {type : Primitive.Type}
    {arguments : Nat → HValue} {result value : HValue} {rotation : BitVec 32}
    (replaced : instructionAt (tryReplaceWithRotate graph op).2 op = .ror type x distance)
    (original : graph.evaluate arguments op = some result)
    (shifted : graph.evaluate arguments x = some value) (ofType : value.type = type)
    (rotated : graph.evaluate arguments distance = some (.int rotation))
    (keeps : (∃ orType left right, instructionAt graph op = .or orType left right) ∨
      rotation.toNat % value.width ≠ 0) :
    (tryReplaceWithRotate graph op).2.evaluate arguments op = some result := by
  rcases tryReplaceWithRotate_cases graph op with kept | ⟨ushr, shl, matched, replacedGraph⟩
  · rw [kept]
    exact original
  · rw [replacedGraph] at replaced ⊢
    obtain ⟨rfl, rfl, rfl⟩ := ror_of_replaced (lt_length_of_evaluate original) replaced
    obtain ⟨-, -, computed, rightDistance, leftDistance, ushrValue, shlValue, valueEvaluated, rightEvaluated,
      leftEvaluated, ushrComputed, shlComputed, combines⟩ := matched.run original
    rw [valueEvaluated, Option.some.injEq] at shifted
    rw [rightEvaluated, Option.some.injEq, HValue.int.injEq] at rotated
    subst computed rightDistance
    rw [matched.rotated original valueEvaluated rightEvaluated]
    exact combines.eq_ror (matched.complementary ofType rightEvaluated leftEvaluated) ushrComputed shlComputed
      keeps

/-- **An `HAdd` rotated by a multiple of the width.** Whenever `TryReplaceWithRotate`
has put an `HRor` of `x` by `distance` in the place of an `HAdd`, and a run
gives the distance a multiple of the width of `x`, the `HRor` computes `x`
where the `HAdd` computed `x + x`. The register patterns replace without knowing
the distance, so this happens for every value of `x` but zero. -/
theorem tryReplaceWithRotate_add_changes_value {graph : HGraph} {op x distance : Nat} {type : Primitive.Type}
    {arguments : Nat → HValue} {result value : HValue} {rotation : BitVec 32}
    (isAdd : ∃ addType left right, instructionAt graph op = .add addType left right)
    (replaced : instructionAt (tryReplaceWithRotate graph op).2 op = .ror type x distance)
    (original : graph.evaluate arguments op = some result)
    (shifted : graph.evaluate arguments x = some value) (ofType : value.type = type)
    (rotated : graph.evaluate arguments distance = some (.int rotation))
    (multiple : rotation.toNat % value.width = 0) :
    (tryReplaceWithRotate graph op).2.evaluate arguments op = some value ∧
      HValue.binary HAdd.compute value value = some result := by
  obtain ⟨addType, left, right, found⟩ := isAdd
  rcases tryReplaceWithRotate_cases graph op with kept | ⟨ushr, shl, matched, replacedGraph⟩
  · rw [kept, found] at replaced
    cases replaced
  · rw [replacedGraph] at replaced ⊢
    obtain ⟨rfl, rfl, rfl⟩ := ror_of_replaced (lt_length_of_evaluate original) replaced
    obtain ⟨-, -, computed, rightDistance, leftDistance, ushrValue, shlValue, valueEvaluated, rightEvaluated,
      leftEvaluated, ushrComputed, shlComputed, combines⟩ := matched.run original
    rw [valueEvaluated, Option.some.injEq] at shifted
    rw [rightEvaluated, Option.some.injEq, HValue.int.injEq] at rotated
    subst computed rightDistance
    have complementary := matched.complementary ofType rightEvaluated leftEvaluated
    rw [matched.rotated original valueEvaluated rightEvaluated]
    -- Both shifts, and the rotation, leave the value as it is.
    rcases combines with ⟨-, combined⟩ | ⟨⟨_, _, _, isXor⟩, -⟩ | ⟨⟨_, _, _, isOr⟩, -⟩
    · cases value with
      | int v =>
          obtain ⟨ushrSame, shlSame, rorSame⟩ :=
            shifts_of_multiple toNat_and_kMaxIntShiftDistance complementary multiple v
          simp only [HValue.shift, Option.some.injEq] at ushrComputed shlComputed ⊢
          rw [← ushrComputed, ← shlComputed, ushrSame, shlSame] at combined
          exact ⟨by rw [rorSame], combined⟩
      | long v =>
          obtain ⟨ushrSame, shlSame, rorSame⟩ :=
            shifts_of_multiple toNat_and_kMaxLongShiftDistance complementary multiple v
          simp only [HValue.shift, Option.some.injEq] at ushrComputed shlComputed ⊢
          rw [← ushrComputed, ← shlComputed, ushrSame, shlSame] at combined
          exact ⟨by rw [rorSame], combined⟩
    · rw [found] at isXor
      cases isXor
    · rw [found] at isOr
      cases isOr

/-- `rol_long_reg_v_negv_add(long value, int distance)` of the checker test, as
the builder makes it: `(value << distance) + (value >>> -distance)`. -/
def rolLongRegVNegvAdd : HGraph :=
  [.parameterValue .primLong, .parameterValue .primInt, .neg .primInt 1,
    .ushr .primLong 0 2, .shl .primLong 0 1, .add .primLong 4 3]

/-- The call `rol_long_reg_v_negv_add(1L, 0)`. -/
def rolLongRegVNegvAddArguments : Nat → HValue := fun id => if id = 0 then .long 1 else .int 0

/-- Called with `1L` and `0`, the method returns `2L` as compiled before the
simplifier and `1L` after it. -/
theorem rolLongRegVNegvAdd_changes_value :
    (tryReplaceWithRotate rolLongRegVNegvAdd 5).2.evaluate rolLongRegVNegvAddArguments 5 = some (.long 1) ∧
      rolLongRegVNegvAdd.evaluate rolLongRegVNegvAddArguments 5 = some (.long 2) := by
  have original : rolLongRegVNegvAdd.evaluate rolLongRegVNegvAddArguments 5 = some (.long 2) := by decide
  obtain ⟨after, -⟩ := tryReplaceWithRotate_add_changes_value ⟨.primLong, 4, 3, by decide⟩
    (by decide : instructionAt (tryReplaceWithRotate rolLongRegVNegvAdd 5).2 5 = .ror .primLong 0 2)
    original (by decide : rolLongRegVNegvAdd.evaluate rolLongRegVNegvAddArguments 0 = some (.long 1)) rfl
    (by decide : rolLongRegVNegvAdd.evaluate rolLongRegVNegvAddArguments 2 = some (.int 0)) (by decide)
  exact ⟨after, original⟩

end InstructionSimplifier

end Art.Compiler.Optimizing
