import Mathlib.Data.BitVec
import Mathlib.Data.Nat.Bitwise

/-!
# Bit fields of words

Encoders and decoders build a word from fields with `|||` and `<<<` and take
fields apart with `&&&` and `>>>`. When the fields do not overlap, these are
arithmetic on `toNat`: a mask of the `k` low bits is `% 2 ^ k`
(`toNat_and_of_mask`), the or of a value below `2 ^ k` with a multiple of
`2 ^ k` is their sum (`toNat_or_of_lt_of_dvd`), and the test of bit `k` is a
test of `x / 2 ^ k % 2` (`and_eq_zero_iff_of_bit`). A field lemma then goes
through `toNat` to `omega`.
-/

set_option autoImplicit false

namespace Art.Machine

variable {w : Nat} {x y : BitVec w} {k : Nat}

/-- A mask of the `k` low bits keeps the value modulo `2 ^ k`. -/
theorem toNat_and_of_mask (mask : y.toNat = 2 ^ k - 1) : (x &&& y).toNat = x.toNat % 2 ^ k := by
  rw [BitVec.toNat_and, mask, Nat.and_two_pow_sub_one_eq_mod]

/-- The or of a value below `2 ^ k` with a multiple of `2 ^ k` is their sum. -/
theorem toNat_or_of_lt_of_dvd (low : x.toNat < 2 ^ k) (high : 2 ^ k ∣ y.toNat) :
    (x ||| y).toNat = x.toNat + y.toNat := by
  obtain ⟨c, multiple⟩ := high
  rw [BitVec.toNat_or, multiple, Nat.or_comm, ← Nat.two_pow_add_eq_or_of_lt low, Nat.add_comm]

/-- The same with the multiple on the left. -/
theorem toNat_or_of_dvd_of_lt (high : 2 ^ k ∣ x.toNat) (low : y.toNat < 2 ^ k) :
    (x ||| y).toNat = x.toNat + y.toNat := by
  rw [BitVec.or_comm, toNat_or_of_lt_of_dvd low high, Nat.add_comm]

/-- `BitVec.ofNat` of a power is the power of `BitVec.ofNat`. -/
theorem ofNat_pow_eq_pow (x n : Nat) : BitVec.ofNat w (x ^ n) = BitVec.ofNat w x ^ n := by
  induction n with
  | zero => rfl
  | succ n ih => rw [Nat.pow_succ, BitVec.ofNat_mul, ih, pow_succ]

/-- The test of one bit. -/
theorem and_eq_zero_iff_of_bit (bit : y.toNat = 2 ^ k) : x &&& y = 0 ↔ x.toNat / 2 ^ k % 2 = 0 := by
  have zero : (0 : BitVec w).toNat = 0 := by simp
  rw [← BitVec.toNat_inj, BitVec.toNat_and, bit, Nat.and_two_pow, zero, Nat.testBit_eq_decide_div_mod_eq]
  have positive := Nat.two_pow_pos k
  by_cases one : x.toNat / 2 ^ k % 2 = 1
  · simp only [one, decide_true, Bool.toNat_true, Nat.one_mul]
    exact iff_of_false (by omega) (by omega)
  · simp only [one, decide_false, Bool.toNat_false, Nat.zero_mul]
    exact iff_of_true trivial (by omega)

end Art.Machine
