import Art.Arithmetic.DivisionByInvariant
import Mathlib.Data.BitVec

/-!
# Signed words

Facts about `BitVec w` read as two's-complement integers that division sequences
rely on. The high word of a signed product (`smulHigh`, what `SMULH` and the `EDX`
half of a one-operand `IMUL` hold) is the floor of the product over `2 ^ w`
(`toInt_smulHigh`). A multiplier `m` of up to `w + 1` bits does not fit in a word,
and its word is `m - 2 ^ w` or `m + 2 ^ w`; adding or subtracting the other factor
once corrects the high word (`toInt_smulHigh_corrected`). An arithmetic shift
right is a floor division (`toInt_sshiftRight_eq_ediv`), and the two idioms that
add one to a negative word, subtracting its arithmetic shift by `w - 1` and adding
its logical shift by `w - 1`, compute `incrementIfNegative`
(`sub_sshiftRight_sign`, `add_ushiftRight_sign`). Signed division and remainder
are the integer ones rounded to zero, taken modulo `2 ^ w` (`sdiv_eq_ofInt_tdiv`,
`srem_eq_ofInt_tmod`), so that a magic multiplier divides words
(`sdiv_of_magicMultiplier`). A sum or a difference whose value stays in the range
of the word reads as that value (`toInt_add_of_mem`, `toInt_sub_of_mem`), and a
number of up to `w + 1` bits reads as itself shifted by `2 ^ w` back into the
range (`toInt_ofInt_of_lt`).

A divisor `2 ^ k` with `k < w` needs no multiplier: a negative word biased by the
mask `2 ^ k - 1` and shifted right arithmetically by `k` is the quotient rounded
to zero (`toInt_sshiftRight_biased`), and the low `k` bits of the biased word less
the bias are the remainder (`toInt_remainder_biased`), the bias being the sign
shifted right logically by `w - k` (`toNat_sign_ushiftRight`). For `k ≥ 1` the
quotient is less than half the range in absolute value, so that negating it for a
divisor `-2 ^ k` does not overflow (`natAbs_tdiv_two_pow_lt`,
`toInt_neg_of_natAbs_lt`).
-/

set_option autoImplicit false

namespace Art.Machine

open Art.Arithmetic

variable {w : Nat}

/-- The high word of the signed product of two words: the product of their values
rounded down over `2 ^ w`. -/
def smulHigh (x y : BitVec w) : BitVec w := BitVec.ofInt w (x.toInt * y.toInt / 2 ^ w)

/-- `2 ^ w` is twice the bound of the values of a word. -/
theorem two_pow_eq_mul_two (hw : 0 < w) : (2 : Int) ^ w = 2 ^ (w - 1) * 2 := by
  rw [← pow_succ, Nat.sub_add_cancel hw]

/-- The high word of a signed product loses nothing: its value is the floor itself. -/
theorem toInt_smulHigh (hw : 0 < w) (x y : BitVec w) :
    (smulHigh x y).toInt = x.toInt * y.toInt / 2 ^ w := by
  have positive : (0 : Int) < 2 ^ (w - 1) := by positivity
  have xlo := BitVec.le_toInt x
  have xhi := BitVec.toInt_lt (x := x)
  have ylo := BitVec.le_toInt y
  have yhi := BitVec.toInt_lt (x := y)
  -- both factors lie in `[-2 ^ (w - 1), 2 ^ (w - 1))`
  have lower : -(2 ^ (w - 1) * 2 ^ (w - 1)) ≤ x.toInt * y.toInt := by nlinarith
  have upper : x.toInt * y.toInt ≤ 2 ^ (w - 1) * 2 ^ (w - 1) := by nlinarith
  apply BitVec.toInt_ofInt_eq_self hw
  · rw [Int.le_ediv_iff_mul_le (by positivity), two_pow_eq_mul_two hw]
    nlinarith
  · rw [Int.ediv_lt_iff_lt_mul (by positivity), two_pow_eq_mul_two hw]
    nlinarith

/-- The value of the word of a number of up to `w + 1` bits: the number itself in
the range of a word, and otherwise the number less or plus `2 ^ w`. -/
theorem toInt_ofInt_of_lt (hw : 0 < w) {m : Int} (lower : -2 ^ w < m) (upper : m < 2 ^ w) :
    (BitVec.ofInt w m).toInt =
      if m < -2 ^ (w - 1) then m + 2 ^ w else if 2 ^ (w - 1) ≤ m then m - 2 ^ w else m := by
  have full : ((2 ^ w : Nat) : Int) = 2 ^ (w - 1) * 2 := by
    push_cast
    exact two_pow_eq_mul_two hw
  have positive : (0 : Int) < 2 ^ (w - 1) := by positivity
  rw [BitVec.toInt_ofInt, Int.bmod_eq_iff (Nat.two_pow_pos w), full]
  rw [two_pow_eq_mul_two hw] at lower upper ⊢
  split_ifs
  · exact ⟨by omega, by omega, ⟨1, by omega⟩⟩
  · exact ⟨by omega, by omega, ⟨-1, by omega⟩⟩
  · exact ⟨by omega, by omega, ⟨0, by omega⟩⟩

/-- The high word of `x * m` for a multiplier `m` of up to `w + 1` bits, of which
the word `y` keeps `m` modulo `2 ^ w`: the word is `m - 2 ^ w` when a positive `m`
reads as negative, and adding `x` once corrects the high word; it is `m + 2 ^ w`
when a negative `m` reads as positive, and subtracting `x` corrects it. -/
theorem toInt_smulHigh_corrected (hw : 0 < w) (x y : BitVec w) {m : Int} (word : y = BitVec.ofInt w m)
    (lower : -2 ^ w < m) (upper : m < 2 ^ w) :
    (if 0 < m ∧ y.toInt < 0 then smulHigh x y + x
      else if m < 0 ∧ 0 < y.toInt then smulHigh x y - x
      else smulHigh x y).toInt = x.toInt * m / 2 ^ w := by
  have positive : (0 : Int) < 2 ^ (w - 1) := by positivity
  have full := two_pow_eq_mul_two hw
  have xlo := BitVec.le_toInt x
  have xhi := BitVec.toInt_lt (x := x)
  have value := toInt_ofInt_of_lt hw lower upper
  rw [← word] at value
  -- the floor of `x * m / 2 ^ w` is itself the value of a word
  have fits : -2 ^ (w - 1) ≤ x.toInt * m / 2 ^ w ∧ x.toInt * m / 2 ^ w < 2 ^ (w - 1) := by
    constructor
    · rw [Int.le_ediv_iff_mul_le (by positivity), full]
      nlinarith
    · rw [Int.ediv_lt_iff_lt_mul (by positivity), full]
      nlinarith
  -- a multiplier `k * 2 ^ w` away moves the floor by `x * k`
  have shifted : ∀ k : Int,
      x.toInt * (m + k * 2 ^ w) / 2 ^ w = x.toInt * m / 2 ^ w + x.toInt * k := by
    intro k
    rw [show x.toInt * (m + k * 2 ^ w) = x.toInt * m + (x.toInt * k) * 2 ^ w by ring,
      Int.add_mul_ediv_right _ _ (by positivity)]
  have exact : ∀ z : BitVec w, z = BitVec.ofInt w (x.toInt * m / 2 ^ w) →
      z.toInt = x.toInt * m / 2 ^ w := by
    rintro z rfl
    exact BitVec.toInt_ofInt_eq_self hw fits.1 fits.2
  split
  case isTrue wraps =>
    -- a positive multiplier read as `m - 2 ^ w`
    have word' : y.toInt = m + (-1) * 2 ^ w := by
      rw [value] at wraps ⊢
      split_ifs at wraps ⊢ <;> omega
    have target : x.toInt * m / 2 ^ w = x.toInt * y.toInt / 2 ^ w + x.toInt := by
      rw [word', shifted]
      ring
    apply exact
    rw [target, BitVec.ofInt_add, BitVec.ofInt_toInt, smulHigh]
  case isFalse notWrapped =>
    split
    case isTrue wraps =>
      -- a negative multiplier read as `m + 2 ^ w`
      have word' : y.toInt = m + 1 * 2 ^ w := by
        rw [value] at wraps ⊢
        split_ifs at wraps ⊢ <;> omega
      have target : x.toInt * m / 2 ^ w = x.toInt * y.toInt / 2 ^ w + -x.toInt := by
        rw [word', shifted]
        ring
      apply exact
      rw [target, BitVec.ofInt_add, BitVec.ofInt_neg, BitVec.ofInt_toInt, smulHigh, BitVec.sub_eq_add_neg]
    case isFalse notWrapped' =>
      have word' : y.toInt = m := by
        rw [value] at notWrapped notWrapped' ⊢
        split_ifs at notWrapped notWrapped' ⊢ <;> omega
      rw [toInt_smulHigh hw, word']

/-- An arithmetic shift right is a division rounded down. -/
theorem toInt_sshiftRight_eq_ediv (x : BitVec w) (k : Nat) :
    (x.sshiftRight k).toInt = x.toInt / 2 ^ k := by
  rw [BitVec.toInt_sshiftRight, Int.shiftRight_eq_div_pow]
  norm_cast

/-- An arithmetic shift right by `w - 1` leaves the sign: `-1` for a negative word
and `0` otherwise. -/
theorem toInt_sshiftRight_pred (x : BitVec w) :
    (x.sshiftRight (w - 1)).toInt = if x.toInt < 0 then -1 else 0 := by
  have positive : (0 : Int) < 2 ^ (w - 1) := by positivity
  have lower := BitVec.le_toInt x
  have upper := BitVec.toInt_lt (x := x)
  rw [toInt_sshiftRight_eq_ediv, Int.ediv_eq_iff_of_pos positive]
  split <;> omega

/-- Subtracting the sign, `x - (x >>ₛ (w - 1))`, adds one to a negative word. -/
theorem sub_sshiftRight_sign (x : BitVec w) :
    x - x.sshiftRight (w - 1) = BitVec.ofInt w (incrementIfNegative x.toInt) := by
  apply BitVec.eq_of_toInt_eq
  rw [BitVec.toInt_sub, BitVec.toInt_ofInt, toInt_sshiftRight_pred, incrementIfNegative]
  split <;> simp

/-- Adding the sign bit, `x + (x >>> (w - 1))`, adds one to a negative word. -/
theorem add_ushiftRight_sign (hw : 1 < w) (x : BitVec w) :
    x + x >>> (w - 1) = BitVec.ofInt w (incrementIfNegative x.toInt) := by
  have full : 2 ^ w = 2 ^ (w - 1) * 2 := (Nat.two_pow_pred_mul_two (by omega)).symm
  have big : 2 ≤ 2 ^ (w - 1) := by
    calc 2 = 2 ^ 1 := rfl
      _ ≤ 2 ^ (w - 1) := Nat.pow_le_pow_right (by omega) (by omega)
  have bound := x.isLt
  have sign : (x >>> (w - 1)).toNat = if x.toInt < 0 then 1 else 0 := by
    rw [BitVec.toNat_ushiftRight, Nat.shiftRight_eq_div_pow]
    by_cases negative : x.toInt < 0
    · have := BitVec.toInt_neg_iff.1 negative
      rw [if_pos negative]
      exact Nat.div_eq_of_lt_le (by omega) (by omega)
    · have := mt BitVec.toInt_neg_iff.2 negative
      rw [if_neg negative]
      exact Nat.div_eq_of_lt (by omega)
  apply BitVec.eq_of_toInt_eq
  rw [BitVec.toInt_add, BitVec.toInt_ofInt, incrementIfNegative]
  have small : (x >>> (w - 1)).toInt = ((x >>> (w - 1)).toNat : Int) := by
    rw [BitVec.toInt_eq_toNat_cond, if_pos (by rw [sign]; split <;> omega)]
  rw [small, sign]
  split <;> simp

theorem ofInt_sub (a b : Int) : BitVec.ofInt w (a - b) = BitVec.ofInt w a - BitVec.ofInt w b := by
  rw [Int.sub_eq_add_neg, BitVec.ofInt_add, BitVec.ofInt_neg, BitVec.sub_eq_add_neg]

/-- Sign-extending and truncating back gives the word again. -/
theorem setWidth_signExtend_of_le {v : Nat} (h : w ≤ v) (x : BitVec w) : (x.signExtend v).setWidth w = x := by
  apply BitVec.eq_of_getLsbD_eq
  intro i lt
  simp only [BitVec.getLsbD_setWidth, BitVec.getLsbD_signExtend, lt, decide_true, Bool.true_and,
    show i < v by omega, if_true]

/-- `BitVec.sdiv` is the quotient rounded to zero, modulo `2 ^ w`. -/
theorem sdiv_eq_ofInt_tdiv (x y : BitVec w) : x.sdiv y = BitVec.ofInt w (x.toInt.tdiv y.toInt) := by
  apply BitVec.eq_of_toInt_eq
  rw [BitVec.toInt_sdiv, BitVec.toInt_ofInt]

/-- `BitVec.srem` is the remainder of the quotient rounded to zero. -/
theorem srem_eq_ofInt_tmod (x y : BitVec w) : x.srem y = BitVec.ofInt w (x.toInt.tmod y.toInt) := by
  rw [← BitVec.toInt_srem, BitVec.ofInt_toInt]

/-- The remainder is the dividend less the quotient times the divisor, also
modulo `2 ^ w`. -/
theorem sub_sdiv_mul (x y : BitVec w) : x - x.sdiv y * y = x.srem y := by
  rw [sdiv_eq_ofInt_tdiv, srem_eq_ofInt_tmod, Int.tmod_def, ofInt_sub, BitVec.ofInt_mul,
    BitVec.ofInt_toInt, BitVec.ofInt_toInt, BitVec.mul_comm]

/-- The high part of `n * m` for a magic multiplier `m`, shifted right by its shift
and made one larger when negative, is the signed quotient of the words. -/
theorem sdiv_of_magicMultiplier {k : Nat} {d : BitVec w} {m : Int}
    (multiplier : MagicMultiplier w d.toInt m k) (n : BitVec w) {t : BitVec w}
    (high : t.toInt = n.toInt * m / 2 ^ w) :
    BitVec.ofInt w (incrementIfNegative (t.sshiftRight k).toInt) = n.sdiv d := by
  have shifted : (t.sshiftRight k).toInt = n.toInt * m / 2 ^ (w + k) := by
    rw [toInt_sshiftRight_eq_ediv, high, Int.ediv_ediv_of_nonneg (by positivity), ← pow_add]
  rw [shifted, multiplier.quotient n.toInt (BitVec.le_toInt n) BitVec.toInt_lt, sdiv_eq_ofInt_tdiv]

/-- The high word of a signed product does not depend on the order of the factors. -/
theorem smulHigh_comm (x y : BitVec w) : smulHigh x y = smulHigh y x := by
  rw [smulHigh, smulHigh, Int.mul_comm]

/-! ## Sums and differences that do not wrap -/

/-- A sum of two words whose values add up to a value of the range reads as that
sum. -/
theorem toInt_add_of_mem {x y : BitVec w} (lower : -2 ^ (w - 1) ≤ x.toInt + y.toInt)
    (upper : x.toInt + y.toInt < 2 ^ (w - 1)) : (x + y).toInt = x.toInt + y.toInt := by
  refine BitVec.toInt_add_of_not_saddOverflow ?_
  simp only [BitVec.saddOverflow, Bool.or_eq_true, decide_eq_true_eq, not_or, not_le, not_lt]
  exact ⟨upper, lower⟩

/-- A difference of two words whose values differ by a value of the range reads as
that difference. -/
theorem toInt_sub_of_mem {x y : BitVec w} (lower : -2 ^ (w - 1) ≤ x.toInt - y.toInt)
    (upper : x.toInt - y.toInt < 2 ^ (w - 1)) : (x - y).toInt = x.toInt - y.toInt := by
  refine BitVec.toInt_sub_of_not_ssubOverflow ?_
  simp only [BitVec.ssubOverflow, Bool.or_eq_true, decide_eq_true_eq, not_or, not_le, not_lt]
  exact ⟨upper, lower⟩

/-! ## Division by a power of two -/

section PowerOfTwo

variable {k : Nat}

/-- The mask `2 ^ k - 1`, for `k < w`, reads as itself. -/
theorem toInt_ofNat_two_pow_pred (below : k < w) :
    (BitVec.ofNat w (2 ^ k - 1)).toInt = 2 ^ k - 1 := by
  have le : 2 ^ k ≤ 2 ^ (w - 1) := Nat.pow_le_pow_right (by omega) (by omega)
  have full : 2 ^ w = 2 ^ (w - 1) * 2 := (Nat.two_pow_pred_mul_two (by omega)).symm
  have one : 1 ≤ 2 ^ k := Nat.one_le_two_pow
  have small : 2 ^ k - 1 < 2 ^ w := by omega
  rw [BitVec.toInt_eq_toNat_of_lt (by rw [BitVec.toNat_ofNat, Nat.mod_eq_of_lt small]; omega),
    BitVec.toNat_ofNat, Nat.mod_eq_of_lt small, Nat.cast_sub one, Nat.cast_pow, Nat.cast_ofNat, Nat.cast_one]

/-- Adding the mask to a negative word does not overflow. -/
theorem toInt_add_two_pow_pred (below : k < w) {x : BitVec w} (negative : x.toInt < 0) :
    (x + BitVec.ofNat w (2 ^ k - 1)).toInt = x.toInt + (2 ^ k - 1) := by
  have le : (2 : Int) ^ k ≤ 2 ^ (w - 1) := pow_le_pow_right₀ (by norm_num) (by omega)
  have one : (1 : Int) ≤ 2 ^ k := one_le_pow₀ (by norm_num)
  have lower := BitVec.le_toInt x
  have mask := toInt_ofNat_two_pow_pred below
  rw [← mask]
  refine BitVec.toInt_add_of_not_saddOverflow ?_
  simp only [BitVec.saddOverflow, mask, Bool.or_eq_true, decide_eq_true_eq, not_or, not_le, not_lt]
  constructor <;> omega

/-- **Division by `2 ^ k` with a shift.** A negative word biased by the mask, and
any other word as it is, shifted right arithmetically by `k`, is the word divided
by `2 ^ k` and rounded to zero. -/
theorem toInt_sshiftRight_biased (below : k < w) (x : BitVec w) :
    ((if x.toInt < 0 then x + BitVec.ofNat w (2 ^ k - 1) else x).sshiftRight k).toInt = x.toInt.tdiv (2 ^ k) := by
  have power : (0 : Int) < 2 ^ k := by positivity
  rw [toInt_sshiftRight_eq_ediv]
  split
  · rename_i negative
    rw [toInt_add_two_pow_pred below negative, tdiv_eq_ediv_add_pred negative power]
  · rename_i nonnegative
    rw [Int.tdiv_eq_ediv_of_nonneg (Int.not_lt.1 nonnegative)]

/-- The logical shift right by `w - k` of the sign, `x >>ₛ (w - 1)`, is the mask
for a negative word and zero otherwise. -/
theorem toNat_sign_ushiftRight (le : k ≤ w) (x : BitVec w) :
    ((x.sshiftRight (w - 1)) >>> (w - k)).toNat = if x.toInt < 0 then 2 ^ k - 1 else 0 := by
  have sign := toInt_sshiftRight_pred x
  rw [BitVec.toNat_ushiftRight, Nat.shiftRight_eq_div_pow]
  split
  · rename_i negative
    rw [if_pos negative] at sign
    have allOnes : (x.sshiftRight (w - 1)).toNat = 2 ^ w - 1 := by
      have := (x.sshiftRight (w - 1)).isLt
      rw [BitVec.toInt_eq_toNat_cond] at sign
      split at sign <;> omega
    have split : 2 ^ w = 2 ^ k * 2 ^ (w - k) := by rw [← Nat.pow_add, Nat.add_sub_cancel' le]
    have one : 1 ≤ 2 ^ (w - k) := Nat.one_le_two_pow
    rw [allOnes]
    refine Nat.div_eq_of_lt_le ?_ ?_
    · rw [split, Nat.sub_mul, Nat.one_mul]
      omega
    · rw [split, Nat.sub_add_cancel (Nat.one_le_two_pow)]
      omega
  · rename_i nonnegative
    rw [if_neg nonnegative] at sign
    have zero : (x.sshiftRight (w - 1)).toNat = 0 := by
      have := (x.sshiftRight (w - 1)).isLt
      rw [BitVec.toInt_eq_toNat_cond] at sign
      split at sign <;> omega
    rw [zero, Nat.zero_div]

/-- The low `k` bits of a word plus `c` are its value plus `c` modulo `2 ^ k`,
signed or not. -/
theorem toNat_add_mod_two_pow (le : k ≤ w) (x : BitVec w) (c : Nat) :
    (((x.toNat + c) % 2 ^ k : Nat) : Int) = (x.toInt + c) % 2 ^ k := by
  have divides : (2 : Int) ^ k ∣ 2 ^ w := pow_dvd_pow 2 le
  rw [BitVec.toInt_eq_toNat_cond]
  push_cast
  split
  · rfl
  · rw [show (x.toNat : Int) - 2 ^ w + c = (x.toNat + c) - 2 ^ w by ring, Int.sub_emod,
      Int.emod_eq_zero_of_dvd divides, Int.sub_zero, Int.emod_emod_of_dvd _ (dvd_refl _)]

/-- **The remainder by `2 ^ k` with masks.** Adding the mask to a negative word,
keeping its low `k` bits and taking the mask away again is the remainder of the
division rounded to zero. -/
theorem toInt_remainder_biased (below : k < w) (x : BitVec w) :
    (((x + (x.sshiftRight (w - 1)) >>> (w - k)) &&& BitVec.ofNat w (2 ^ k - 1)) -
      (x.sshiftRight (w - 1)) >>> (w - k)).toInt = x.toInt.tmod (2 ^ k) := by
  set t := (x.sshiftRight (w - 1)) >>> (w - k) with tDef
  have bias := toNat_sign_ushiftRight (Nat.le_of_lt below) x
  rw [← tDef] at bias
  have le : 2 ^ k ≤ 2 ^ (w - 1) := Nat.pow_le_pow_right (by omega) (by omega)
  have full : 2 ^ w = 2 ^ (w - 1) * 2 := (Nat.two_pow_pred_mul_two (by omega)).symm
  have one : 1 ≤ 2 ^ k := Nat.one_le_two_pow
  have divides : 2 ^ k ∣ 2 ^ w := Nat.pow_dvd_pow 2 (Nat.le_of_lt below)
  -- the masked sum keeps the low `k` bits of `x` plus the bias
  have masked : ((x + t) &&& BitVec.ofNat w (2 ^ k - 1)).toNat = (x.toNat + t.toNat) % 2 ^ k := by
    rw [BitVec.toNat_and, BitVec.toNat_ofNat, Nat.mod_eq_of_lt (by omega), Nat.and_two_pow_sub_one_eq_mod,
      BitVec.toNat_add, Nat.mod_mod_of_dvd _ divides]
  have maskedBound : ((x + t) &&& BitVec.ofNat w (2 ^ k - 1)).toNat < 2 ^ k := by
    rw [masked]
    exact Nat.mod_lt _ (by omega)
  -- the difference of two numbers below `2 ^ k` is read exactly
  have difference : (((x + t) &&& BitVec.ofNat w (2 ^ k - 1)) - t).toInt =
      (((x + t) &&& BitVec.ofNat w (2 ^ k - 1)).toNat : Int) - t.toNat := by
    have tBound : t.toNat < 2 ^ k := by rw [bias]; split <;> omega
    have tSmall : 2 * t.toNat < 2 ^ w := by omega
    have aHalf : (((x + t) &&& BitVec.ofNat w (2 ^ k - 1)).toNat : Int) < 2 ^ (w - 1) := by
      exact_mod_cast (show ((x + t) &&& BitVec.ofNat w (2 ^ k - 1)).toNat < 2 ^ (w - 1) by omega)
    have tHalf : (t.toNat : Int) < 2 ^ (w - 1) := by exact_mod_cast (show t.toNat < 2 ^ (w - 1) by omega)
    rw [BitVec.toInt_sub_of_not_ssubOverflow, BitVec.toInt_eq_toNat_of_lt tSmall,
      BitVec.toInt_eq_toNat_of_lt (by omega)]
    simp only [BitVec.ssubOverflow, BitVec.toInt_eq_toNat_of_lt tSmall,
      BitVec.toInt_eq_toNat_of_lt (x := (x + t) &&& BitVec.ofNat w (2 ^ k - 1)) (by omega),
      Bool.or_eq_true, decide_eq_true_eq, not_or, not_le, not_lt]
    constructor <;> omega
  rw [difference, masked, toNat_add_mod_two_pow (Nat.le_of_lt below), bias]
  have powerPositive : (0 : Int) < 2 ^ k := by positivity
  split
  · rename_i negative
    rw [tmod_eq_emod_add_pred negative powerPositive]
    push_cast [Nat.cast_sub one]
    rfl
  · rename_i nonnegative
    rw [Int.tmod_eq_emod_of_nonneg (Int.not_lt.1 nonnegative)]
    simp

/-- Negating a word off the most negative value negates the number it reads as. -/
theorem toInt_neg_of_natAbs_lt (x : BitVec w) (small : x.toInt.natAbs < 2 ^ (w - 1)) : (-x).toInt = -x.toInt := by
  rcases Nat.eq_zero_or_pos w with rfl | positive
  · simp [BitVec.of_length_zero]
  · refine BitVec.toInt_neg_of_ne_intMin ?_
    rintro rfl
    rw [BitVec.toInt_intMin, Nat.mod_eq_of_lt (Nat.pow_lt_pow_right (by omega) (by omega))] at small
    omega

/-- The quotient by `2 ^ k`, for `k ≥ 1`, of a word is no larger than half the range. -/
theorem natAbs_tdiv_two_pow_lt (positive : 0 < k) (x : BitVec w) :
    (x.toInt.tdiv (2 ^ k)).natAbs < 2 ^ (w - 1) := by
  have lower := BitVec.le_toInt x
  have upper := BitVec.toInt_lt (x := x)
  have half : x.toInt.natAbs ≤ 2 ^ (w - 1) := by
    have cast : ((2 ^ (w - 1) : Nat) : Int) = 2 ^ (w - 1) := by push_cast; rfl
    omega
  have two : 2 ≤ 2 ^ k := Nat.le_self_pow (by omega) 2
  have one : 1 ≤ 2 ^ (w - 1) := Nat.one_le_two_pow
  rw [Int.natAbs_tdiv, Int.natAbs_pow, show Int.natAbs 2 = 2 from rfl]
  calc x.toInt.natAbs.div (2 ^ k) ≤ x.toInt.natAbs / 2 := Nat.div_le_div_left two (by omega)
    _ < 2 ^ (w - 1) := by omega

end PowerOfTwo

end Art.Machine
