import Mathlib.Data.BitVec

/-!
# Rotations as two shifts

A rotation of a `w`-bit word right by `k < w` places is the word shifted right
by `k` combined with the word shifted left by `w - k`. The two shifted words
share no bit (`ushiftRight_and_shiftLeft_eq_zero`), so they may be combined by a
bitwise or, a bitwise exclusive or or an addition alike (`rotateRight_eq_or`,
`rotateRight_eq_xor`, `rotateRight_eq_add`). For `k = 0` this needs the left
shift by the full width, which clears the word. When the left distance is taken
modulo the width, as machine shifts take it, the left shift by `0` leaves the
word as it is: the or still gives the rotation (`rotateRight_eq_or_mod`), while
the sum and the exclusive or give it only for `0 < k` (`rotateRight_eq_add_mod`,
`rotateRight_eq_xor_mod`).
-/

set_option autoImplicit false

namespace Art.Machine

variable {w : Nat}

/-- The two halves of a rotation share no bit: the right shift by `k` clears the
top `k` bits, which are the only ones the left shift by `w - k` fills. -/
theorem ushiftRight_and_shiftLeft_eq_zero (x : BitVec w) (k : Nat) :
    x >>> k &&& x <<< (w - k) = 0#w := by
  apply BitVec.eq_of_getLsbD_eq
  intro i inRange
  simp only [BitVec.getLsbD_and, BitVec.getLsbD_ushiftRight, BitVec.getLsbD_shiftLeft,
    BitVec.getLsbD_zero]
  by_cases low : i < w - k
  · simp [low]
  · have outside : w ≤ k + i := by omega
    simp [BitVec.getLsbD_of_ge x (k + i) outside]

/-- Words with no bit in common have the same exclusive or as or. -/
theorem xor_eq_or_of_and_eq_zero (x y : BitVec w) (disjoint : x &&& y = 0#w) :
    x ^^^ y = x ||| y := by
  apply BitVec.eq_of_getLsbD_eq
  intro i _
  have bit : (x &&& y).getLsbD i = false := by simp [disjoint]
  simp only [BitVec.getLsbD_and, Bool.and_eq_false_iff] at bit
  simp only [BitVec.getLsbD_xor, BitVec.getLsbD_or]
  rcases bit with clear | clear <;> simp [clear]

/-- A rotation by less than the width is the or of its two shifts. -/
theorem rotateRight_eq_or (x : BitVec w) {k : Nat} (below : k < w) :
    x.rotateRight k = x >>> k ||| x <<< (w - k) := by
  rw [BitVec.rotateRight_def, Nat.mod_eq_of_lt below]

/-- A rotation by less than the width is the exclusive or of its two shifts. -/
theorem rotateRight_eq_xor (x : BitVec w) {k : Nat} (below : k < w) :
    x.rotateRight k = x >>> k ^^^ x <<< (w - k) := by
  rw [rotateRight_eq_or x below, xor_eq_or_of_and_eq_zero _ _ (ushiftRight_and_shiftLeft_eq_zero x k)]

/-- A rotation by less than the width is the sum of its two shifts. -/
theorem rotateRight_eq_add (x : BitVec w) {k : Nat} (below : k < w) :
    x.rotateRight k = x >>> k + x <<< (w - k) := by
  rw [rotateRight_eq_or x below,
    BitVec.add_eq_or_of_and_eq_zero _ _ (ushiftRight_and_shiftLeft_eq_zero x k)]

/-- With the left distance taken modulo the width, the or of the two shifts is
the rotation for every `k < w`, `0` included. -/
theorem rotateRight_eq_or_mod (x : BitVec w) {k : Nat} (below : k < w) :
    x.rotateRight k = x >>> k ||| x <<< ((w - k) % w) := by
  rcases Nat.eq_zero_or_pos k with rfl | positive
  · simp [BitVec.rotateRight_def]
  · rw [Nat.mod_eq_of_lt (by omega : w - k < w), rotateRight_eq_or x below]

/-- With the left distance taken modulo the width, the sum of the two shifts is
the rotation by `0 < k < w`. -/
theorem rotateRight_eq_add_mod (x : BitVec w) {k : Nat} (positive : 0 < k) (below : k < w) :
    x.rotateRight k = x >>> k + x <<< ((w - k) % w) := by
  rw [Nat.mod_eq_of_lt (by omega : w - k < w), rotateRight_eq_add x below]

/-- With the left distance taken modulo the width, the exclusive or of the two
shifts is the rotation by `0 < k < w`. -/
theorem rotateRight_eq_xor_mod (x : BitVec w) {k : Nat} (positive : 0 < k) (below : k < w) :
    x.rotateRight k = x >>> k ^^^ x <<< ((w - k) % w) := by
  rw [Nat.mod_eq_of_lt (by omega : w - k < w), rotateRight_eq_xor x below]

end Art.Machine
