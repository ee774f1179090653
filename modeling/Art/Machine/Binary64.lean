import Mathlib

/-!
# Binary64 arithmetic

A finite IEEE 754 binary64 number is `m * 2 ^ e` for integers `m` and `e` with
`|m| ≤ 2 ^ 53` and `-1074 ≤ e`. An arithmetic operation returns its exact result
rounded to the nearest such number, a tie going to the one whose `m` is even
(`round`). A number here is the rational it denotes. Results past the largest
finite number, and NaN, are not modelled; a division by zero is `0`.

Converting a nonnegative binary64 number to an unsigned integer drops its
fraction (`toSize`).

One rounding moves a number by at most half a unit in its last place
(`abs_round_sub_le`): the leading bit that `floorLog2` finds is at most the number
(`two_zpow_floorLog2_le`), and the nearest integer is at most a half away
(`abs_roundHalfEven_sub_le`).
-/

set_option autoImplicit false

namespace Art.Machine.Binary64

/-- `⌊log₂ q⌋` for `0 < q`. The bit lengths of the numerator and the denominator
fix it up to one. -/
def floorLog2 (q : ℚ) : Int :=
  let k : Int := (q.num.natAbs.log2 : Int) - (q.den.log2 : Int)
  if (2 : ℚ) ^ k ≤ q then k else k - 1

/-- The nearest integer, a tie going to the even one. -/
def roundHalfEven (x : ℚ) : Int :=
  let n := ⌊x⌋
  if x - n < 1 / 2 then n
  else if 1 / 2 < x - n then n + 1
  else if n % 2 = 0 then n else n + 1

/-- The binary64 number nearest to `q`. Its last bit weighs `2 ^ e`, 52 bits below
the leading bit of `q` and at least `2 ^ -1074`. -/
def round (q : ℚ) : ℚ :=
  if q = 0 then 0
  else
    let e := max (floorLog2 |q| - 52) (-1074)
    (roundHalfEven (q / 2 ^ e) : ℚ) * 2 ^ e

/-- The conversion of an integer. -/
def ofNat (n : Nat) : ℚ := round n

/-- `a + b`. -/
def add (a b : ℚ) : ℚ := round (a + b)

/-- `a * b`. -/
def mul (a b : ℚ) : ℚ := round (a * b)

/-- `a / b`. -/
def div (a b : ℚ) : ℚ := round (a / b)

/-- The conversion of a nonnegative number to an unsigned integer, which drops the
fraction. -/
def toSize (x : ℚ) : Nat := ⌊x⌋₊

/-! ## The error of one rounding -/

/-- `floorLog2` is at most the binary logarithm: the numerator is at least the power of two of
its bit length less one, and the denominator below that of its bit length. -/
theorem two_zpow_floorLog2_le {q : ℚ} (positive : 0 < q) : (2 : ℚ) ^ floorLog2 q ≤ q := by
  unfold floorLog2
  dsimp only
  split_ifs with below
  · exact below
  · have numPos : 0 < q.num := Rat.num_pos.mpr positive
    set a := q.num.natAbs
    set b := q.den
    have aPos : a ≠ 0 := Int.natAbs_ne_zero.mpr numPos.ne'
    have bPos : b ≠ 0 := q.den_nz
    have lower : ((2 ^ a.log2 : ℕ) : ℚ) ≤ a := by exact_mod_cast Nat.log2_self_le aPos
    have upper : (b : ℚ) < ((2 ^ (b.log2 + 1) : ℕ) : ℚ) := by exact_mod_cast Nat.lt_log2_self
    have value : q = (a : ℚ) / b := by
      rw [← Rat.num_div_den q]
      congr 1
      simp [a, abs_of_pos numPos]
    rw [value, show ((a.log2 : ℤ) - (b.log2 : ℤ) - 1) = (a.log2 : ℤ) - ((b.log2 + 1 : ℕ) : ℤ) by push_cast; ring,
      zpow_sub₀ (by norm_num), zpow_natCast, zpow_natCast]
    push_cast at lower upper
    rw [div_le_div_iff₀ (by positivity) (by positivity)]
    have : (0 : ℚ) ≤ a := by positivity
    nlinarith [pow_pos (show (0 : ℚ) < 2 by norm_num) a.log2]

/-- The nearest integer is at most a half away. -/
theorem abs_roundHalfEven_sub_le (x : ℚ) : |(roundHalfEven x : ℚ) - x| ≤ 1 / 2 := by
  have floor_le : (⌊x⌋ : ℚ) ≤ x := Int.floor_le x
  have lt_floor : x < ⌊x⌋ + 1 := Int.lt_floor_add_one x
  unfold roundHalfEven
  dsimp only
  rw [abs_le]
  split_ifs <;> push_cast <;> constructor <;> linarith

/-- **One rounding** moves a number by at most half a unit in its last place: a `2 ^ -53` part
of its magnitude, or half the least subnormal below the normal range. -/
theorem abs_round_sub_le (q : ℚ) : |round q - q| ≤ |q| / 2 ^ 53 + 2 ^ (-1075 : ℤ) := by
  unfold round
  split_ifs with zero
  · simp [zero]
  dsimp only
  set e := max (floorLog2 |q| - 52) (-1074)
  have scaled : (roundHalfEven (q / 2 ^ e) : ℚ) * 2 ^ e - q = ((roundHalfEven (q / 2 ^ e) : ℚ) - q / 2 ^ e) * 2 ^ e := by
    field_simp
  have unit : (2 : ℚ) ^ e ≤ 2 ^ (floorLog2 |q| - 52) + 2 ^ (-1074 : ℤ) := by
    rcases max_choice (floorLog2 |q| - 52) (-1074) with same | same <;> simp only [e, same] <;>
      linarith [zpow_pos (show (0 : ℚ) < 2 by norm_num) (floorLog2 |q| - 52),
        zpow_pos (show (0 : ℚ) < 2 by norm_num) (-1074 : ℤ)]
  have normal : (2 : ℚ) ^ (floorLog2 |q| - 52) = 2 ^ floorLog2 |q| / 2 ^ 52 := by
    rw [zpow_sub₀ (by norm_num)]
    norm_cast
  have leading := two_zpow_floorLog2_le (abs_pos.mpr zero)
  rw [scaled, abs_mul, abs_of_pos (zpow_pos (by norm_num : (0 : ℚ) < 2) e)]
  calc |(roundHalfEven (q / 2 ^ e) : ℚ) - q / 2 ^ e| * 2 ^ e
      ≤ 1 / 2 * (2 ^ (floorLog2 |q| - 52) + 2 ^ (-1074 : ℤ)) :=
        mul_le_mul (abs_roundHalfEven_sub_le _) unit (by positivity) (by norm_num)
    _ = 2 ^ floorLog2 |q| / 2 ^ 53 + 2 ^ (-1075 : ℤ) := by
        rw [normal, show (-1074 : ℤ) = -1075 + 1 by norm_num, zpow_add_one₀ (by norm_num)]
        ring
    _ ≤ |q| / 2 ^ 53 + 2 ^ (-1075 : ℤ) := by
        gcongr

/-- Half the least subnormal is far below a two-thousandth. -/
theorem half_subnormal_le : (2 : ℚ) ^ (-1075 : ℤ) ≤ 1 / 2000 :=
  calc (2 : ℚ) ^ (-1075 : ℤ) ≤ 2 ^ (-11 : ℤ) := zpow_le_zpow_right₀ (by norm_num) (by norm_num)
    _ ≤ 1 / 2000 := by norm_num

/-- A nonnegative number rounds to at most a two-thousandth more, and a two-thousandth. -/
theorem round_le {q : ℚ} (nonneg : 0 ≤ q) : round q ≤ q * (2001 / 2000) + 1 / 2000 := by
  have error := (abs_le.mp (abs_round_sub_le q)).2
  have tiny := half_subnormal_le
  rw [abs_of_nonneg nonneg] at error
  have scaled : q / 2 ^ 53 ≤ q / 2000 := div_le_div_of_nonneg_left nonneg (by norm_num) (by norm_num)
  linarith

/-- A nonnegative number rounds to at least a two-thousandth less, less a two-thousandth. -/
theorem le_round {q : ℚ} (nonneg : 0 ≤ q) : q * (1999 / 2000) - 1 / 2000 ≤ round q := by
  have error := (abs_le.mp (abs_round_sub_le q)).1
  have tiny := half_subnormal_le
  rw [abs_of_nonneg nonneg] at error
  have scaled : q / 2 ^ 53 ≤ q / 2000 := div_le_div_of_nonneg_left nonneg (by norm_num) (by norm_num)
  linarith

end Art.Machine.Binary64
