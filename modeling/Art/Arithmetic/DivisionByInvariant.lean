import Mathlib.Data.Nat.Prime.Basic
import Mathlib.Tactic.Linarith
import Mathlib.Tactic.Ring

/-!
# Division by an invariant integer through multiplication

Dividing by a constant `d` is multiplying by a magic number `M` close to
`2 ^ p / d` and keeping the high part of the product. This module proves when
that is exact, in the form the search of Hacker's Delight (chapter 10) and of
Granlund and Montgomery finds it: `M * d = P + e` with `P` the power of two and
`0 < e ≤ d` the excess of `M * d` over it.

The dividends are bounded by `L`, and `largestBelow d L` is the largest number
up to `L` that is one less than a multiple of `d`. If its product with the excess
stays below `P`, then `m * M / P = m / d` for every `m ≤ L` (`mul_magic_div`),
and with the product at most `P`, rounding up is exact as well:
`(m * M - 1) / P = m / d` for `0 < m ≤ L` (`pred_mul_magic_div`). Both rest on
one bound on the products `m * e` (`mul_le_of_largestBelow`).

For signed dividends in `[-N, N)` the floor of `n * M / P`, plus one when it is
negative, is the quotient rounded to zero (`tdiv_of_magic_pos`), and with the
magic number negated the same holds for the divisor `-d` (`tdiv_of_magic_neg`).

The search finds `P` by doubling with the shift-and-subtract steps of long
division (`two_mul_div`, `two_mul_mod`), and two facts bound it: the excess of a
power of two is at most that power when `N` is one less than a multiple of `d`
(`mul_excess_le_pow`), and a product of `largestBelow` and `d` is no power of
two but in the degenerate case (`eq_one_of_mul_eq_pow`).

A divisor `±2 ^ k` needs no multiplier: the floor of `(n + 2 ^ k - 1) / 2 ^ k` for a
negative `n`, and of `n / 2 ^ k` otherwise, is the quotient rounded to zero
(`tdiv_eq_ediv_add_pred`), and the remainder is read off the same biased
dividend (`tmod_eq_emod_add_pred`).
-/

set_option autoImplicit false

namespace Art.Arithmetic

/-! ## Long division by doubling -/

/-- Doubling the dividend doubles the quotient, plus one when twice the
remainder reaches the divisor. -/
theorem two_mul_div {x d : Nat} (hd : 0 < d) :
    2 * x / d = 2 * (x / d) + if d ≤ 2 * (x % d) then 1 else 0 := by
  have split : 2 * x = 2 * (x % d) + d * (2 * (x / d)) := by
    have := Nat.mod_add_div x d
    rw [Nat.mul_left_comm d 2]
    omega
  have small : 2 * (x % d) < 2 * d := by
    have := Nat.mod_lt x hd
    omega
  rw [split, Nat.add_mul_div_left _ _ hd]
  split
  case isTrue reaches =>
    have : 2 * (x % d) / d = 1 := by
      rw [Nat.div_eq_iff hd]
      omega
    omega
  case isFalse below =>
    have : 2 * (x % d) / d = 0 := Nat.div_eq_of_lt (by omega)
    omega

/-- Doubling the dividend doubles the remainder, less the divisor when twice the
remainder reaches it. -/
theorem two_mul_mod {x d : Nat} (hd : 0 < d) :
    2 * x % d = if d ≤ 2 * (x % d) then 2 * (x % d) - d else 2 * (x % d) := by
  have small : x % d < d := Nat.mod_lt x hd
  rw [Nat.mul_mod]
  have two : 2 % d * (x % d) % d = 2 * (x % d) % d := by
    rcases Nat.lt_or_ge 2 d with big | le
    · rw [Nat.mod_eq_of_lt big]
    · have : d = 1 ∨ d = 2 := by omega
      rcases this with rfl | rfl <;> omega
  rw [two]
  split
  case isTrue reaches =>
    rw [Nat.mod_eq_sub_mod reaches, Nat.mod_eq_of_lt (by omega)]
  case isFalse below => exact Nat.mod_eq_of_lt (by omega)

/-! ## The largest number below a bound that is one less than a multiple -/

/-- The largest number up to `bound` that is one less than a multiple of
`divisor`. -/
def largestBelow (divisor bound : Nat) : Nat := bound - (bound + 1) % divisor

section LargestBelow

variable {d L : Nat}

theorem largestBelow_le : largestBelow d L ≤ L := Nat.sub_le _ _

/-- One more than `largestBelow d L` is the largest multiple of `d` up to `L + 1`. -/
theorem largestBelow_add_one (hd : 0 < d) (hL : d ≤ L + 1) :
    largestBelow d L + 1 = d * ((L + 1) / d) := by
  have := Nat.mod_add_div (L + 1) d
  have := Nat.mod_lt (L + 1) hd
  have : d ≤ d * ((L + 1) / d) := Nat.le_mul_of_pos_right d (Nat.div_pos hL hd)
  unfold largestBelow
  omega

theorem largestBelow_mod (hd : 0 < d) (hL : d ≤ L + 1) : largestBelow d L % d = d - 1 := by
  have whole := largestBelow_add_one hd hL
  have positive : 0 < (L + 1) / d := Nat.div_pos hL hd
  have split : largestBelow d L = d - 1 + d * ((L + 1) / d - 1) := by
    have : d * ((L + 1) / d - 1) = d * ((L + 1) / d) - d := by
      rw [Nat.mul_sub_one]
    have : d ≤ d * ((L + 1) / d) := Nat.le_mul_of_pos_right d positive
    omega
  rw [split, Nat.add_mul_mod_self_left, Nat.mod_eq_of_lt (by omega)]

theorem lt_largestBelow_add (hd : 0 < d) : L < largestBelow d L + d := by
  have := Nat.mod_lt (L + 1) hd
  unfold largestBelow
  omega

theorem le_largestBelow (hd : 0 < d) {m : Nat} (hm : m ≤ L) (hmod : m % d = d - 1) :
    m ≤ largestBelow d L := by
  have hL : d ≤ L + 1 := by
    have := Nat.mod_le m d
    omega
  have multiple : m + 1 = d * (m / d + 1) := by
    have := Nat.mod_add_div m d
    rw [Nat.mul_add_one]
    omega
  have fewer : m / d + 1 ≤ (L + 1) / d := by
    rw [Nat.le_div_iff_mul_le hd, Nat.mul_comm]
    omega
  have := Nat.mul_le_mul_left d fewer
  have := largestBelow_add_one hd hL
  omega

theorem ge_largestBelow (hd : 0 < d) : L + 1 - d ≤ largestBelow d L := by
  have := Nat.mod_lt (L + 1) hd
  unfold largestBelow
  omega

theorem largestBelow_mono {L' : Nat} (hL : L ≤ L') : largestBelow d L ≤ largestBelow d L' := by
  rcases Nat.eq_zero_or_pos d with rfl | hd
  · simp only [largestBelow, Nat.mod_zero]
    omega
  by_cases fits : d ≤ L + 1
  · exact le_largestBelow hd (Nat.le_trans largestBelow_le hL) (largestBelow_mod hd fits)
  · unfold largestBelow
    rw [Nat.mod_eq_of_lt (by omega : L + 1 < d)]
    omega

/-- Half the bound is at most `largestBelow`: the multiples of `d` up to `L + 1`
leave less than half of it above the largest. -/
theorem le_two_mul_largestBelow (hd : 0 < d) (hL : d ≤ L + 1) : L ≤ 2 * largestBelow d L := by
  unfold largestBelow
  by_cases twice : 2 * d ≤ L + 1
  · have := Nat.mod_lt (L + 1) hd
    omega
  · have : (L + 1) % d = L + 1 - d := by
      rw [Nat.mod_eq_sub_mod hL, Nat.mod_eq_of_lt (by omega)]
    omega

/-- Raising the bound by one either reaches a new number one less than a multiple
of `d`, the bound itself, or leaves `largestBelow` where it was. -/
theorem largestBelow_succ (hd : 0 < d) :
    largestBelow d (L + 1) = L + 1 ∨ largestBelow d (L + 1) = largestBelow d L := by
  unfold largestBelow
  have split := Nat.mod_add_div (L + 1) d
  have small := Nat.mod_lt (L + 1) hd
  by_cases last : (L + 1) % d + 1 = d
  · left
    have : L + 1 + 1 = d * ((L + 1) / d + 1) := by rw [Nat.mul_add_one]; omega
    rw [this, Nat.mul_mod_right]
    omega
  · right
    have : L + 1 + 1 = ((L + 1) % d + 1) + d * ((L + 1) / d) := by omega
    rw [this, Nat.add_mul_mod_self_left, Nat.mod_eq_of_lt (by omega)]
    omega

end LargestBelow

/-! ## Exactness of the magic number -/

section Magic

variable {d L P M e : Nat}

/-- The key bound: with `c = largestBelow d L` and `c * e ≤ P`, every `m ≤ L` has
`m * e` below `c * e` plus `P` once for each step `m % d` still has to go to reach
`d - 1`. Up to `c` this is the monotonicity of the product; above `c` the
dividend is `c + i` with `0 < i < d` and `i ≤ c`. -/
theorem mul_le_of_largestBelow (hd : 0 < d) (hL : d ≤ L + 1) (bounded : largestBelow d L * e ≤ P)
    {m : Nat} (hm : m ≤ L) : m * e ≤ largestBelow d L * e + (d - 1 - m % d) * P := by
  set c := largestBelow d L with hc
  by_cases below : m ≤ c
  · exact Nat.le_add_right_of_le (Nat.mul_le_mul_right e below)
  obtain ⟨i, rfl⟩ : ∃ i, m = c + i := ⟨m - c, by omega⟩
  have within : c + i < c + d := Nat.lt_of_le_of_lt hm (lt_largestBelow_add hd)
  have half : c + i ≤ 2 * c := Nat.le_trans hm (le_two_mul_largestBelow hd hL)
  have remainder : (c + i) % d = i - 1 := by
    have cmod : c % d = d - 1 := largestBelow_mod hd hL
    have split : c + i = (i - 1) + d * (c / d + 1) := by
      have := Nat.mod_add_div c d
      rw [Nat.mul_add_one]
      omega
    rw [split, Nat.add_mul_mod_self_left, Nat.mod_eq_of_lt (by omega)]
  -- `c * (i * e) = i * (c * e) ≤ i * P ≤ c * ((d - i) * P)`, then cancel `c`
  have scaled : c * (i * e) ≤ c * ((d - i) * P) := by
    calc c * (i * e) = i * (c * e) := Nat.mul_left_comm c i e
      _ ≤ i * P := Nat.mul_le_mul_left i bounded
      _ ≤ (c * (d - i)) * P := Nat.mul_le_mul_right P (by
          have : c ≤ c * (d - i) := Nat.le_mul_of_pos_right c (by omega)
          omega)
      _ = c * ((d - i) * P) := Nat.mul_assoc c (d - i) P
  have cancelled : i * e ≤ (d - i) * P := Nat.le_of_mul_le_mul_left scaled (by omega)
  rw [remainder, Nat.add_mul, show d - 1 - (i - 1) = d - i by omega]
  omega

/-- Rounding down is exact: `m * M / P = m / d` for every `m ≤ L`, when the
excess times `largestBelow d L` stays below `P`. -/
theorem mul_magic_div (hd : 0 < d) (hL : d ≤ L + 1) (magic : M * d = P + e)
    (bounded : largestBelow d L * e < P) {m : Nat} (hm : m ≤ L) : m * M / P = m / d := by
  have key := mul_le_of_largestBelow hd hL (Nat.le_of_lt bounded) hm
  have split := Nat.mod_add_div m d
  have rlt := Nat.mod_lt m hd
  -- both bounds are shown after multiplying through by `d`
  have product : m * M * d = m * P + m * e := by
    rw [Nat.mul_assoc, magic, Nat.mul_add]
  apply Nat.div_eq_of_lt_le
  · apply Nat.le_of_mul_le_mul_right _ hd
    calc m / d * P * d = (d * (m / d)) * P := by ring
      _ ≤ m * P := Nat.mul_le_mul_right P (by omega)
      _ ≤ m * M * d := by omega
  · apply Nat.lt_of_mul_lt_mul_right (a := d)
    calc m * M * d = m * P + m * e := product
      _ < m * P + P + (d - 1 - m % d) * P := by omega
      _ = (m + d - m % d) * P := by
          rw [← Nat.add_one_mul, ← Nat.add_mul]
          congr 1
          omega
      _ = (m / d + 1) * P * d := by
          rw [show m + d - m % d = d * (m / d + 1) by rw [Nat.mul_add_one]; omega]
          ring

/-- Rounding up is exact: for `0 < m ≤ L`, when the excess times
`largestBelow d L` is at most `P`, `m * M` lies in `(q * P, (q + 1) * P]` for the
quotient `q = m / d`, so its ceiling over `P` is `q + 1`. -/
theorem mul_magic_ceil (hd : 0 < d) (hL : d ≤ L + 1) (magic : M * d = P + e) (he : 0 < e)
    (bounded : largestBelow d L * e ≤ P) {m : Nat} (positive : 0 < m) (hm : m ≤ L) :
    m / d * P < m * M ∧ m * M ≤ (m / d + 1) * P := by
  have key := mul_le_of_largestBelow hd hL bounded hm
  have split := Nat.mod_add_div m d
  have rlt := Nat.mod_lt m hd
  have product : m * M * d = m * P + m * e := by
    rw [Nat.mul_assoc, magic, Nat.mul_add]
  have excess : 0 < m * e := Nat.mul_pos positive he
  constructor
  · apply Nat.lt_of_mul_lt_mul_right (a := d)
    calc m / d * P * d = (d * (m / d)) * P := by ring
      _ ≤ m * P := Nat.mul_le_mul_right P (by omega)
      _ < m * M * d := by omega
  · apply Nat.le_of_mul_le_mul_right _ hd
    calc m * M * d = m * P + m * e := product
      _ ≤ m * P + P + (d - 1 - m % d) * P := by omega
      _ = (m + d - m % d) * P := by
          rw [← Nat.add_one_mul, ← Nat.add_mul]
          congr 1
          omega
      _ = (m / d + 1) * P * d := by
          rw [show m + d - m % d = d * (m / d + 1) by rw [Nat.mul_add_one]; omega]
          ring

/-- When `N` is one less than a multiple of `d`, the excess of `d` over the
remainder of `2 ^ a * N` is at most `2 ^ a`: it is `d` when `d` divides `2 ^ a`
and the remainder of `2 ^ a` otherwise. -/
theorem mul_excess_le_pow {N : Nat} (hd : 0 < d) (hN : N % d = d - 1) (a : Nat) :
    N * (d - 2 ^ a * N % d) ≤ 2 ^ a * N := by
  set t := 2 ^ a % d with ht
  have remainder : 2 ^ a * N % d = t * (d - 1) % d := by rw [Nat.mul_mod, hN]
  rw [remainder, Nat.mul_comm (2 ^ a) N]
  rcases Nat.eq_zero_or_pos t with zero | positive
  · -- `d` divides `2 ^ a`
    have : d ≤ 2 ^ a := Nat.le_of_dvd (Nat.two_pow_pos a) (Nat.dvd_of_mod_eq_zero zero)
    rw [zero, Nat.zero_mul, Nat.zero_mod, Nat.sub_zero]
    exact Nat.mul_le_mul_left N this
  · have wrapped : t * (d - 1) % d = d - t := by
      have lt : t < d := Nat.mod_lt _ hd
      have : t * (d - 1) = (d - t) + d * (t - 1) := by
        have h1 : t * (d - 1) = t * d - t := Nat.mul_sub_one t d
        have h2 : d * (t - 1) = d * t - d := Nat.mul_sub_one d t
        have h3 : d * t = t * d := Nat.mul_comm d t
        have h4 : t ≤ t * d := Nat.le_mul_of_pos_right t hd
        have h5 : d ≤ d * t := Nat.le_mul_of_pos_right d positive
        omega
      rw [this, Nat.add_mul_mod_self_left, Nat.mod_eq_of_lt (by omega)]
    rw [wrapped, show d - (d - t) = t by have := Nat.mod_lt (2 ^ a) hd; omega]
    exact Nat.mul_le_mul_left N (Nat.mod_le _ _)

/-- Raising the bound from `N - 1` to `N` keeps the product at most `P = 2 ^ a * N`:
either `largestBelow` does not move, or it becomes `N` itself, which
`mul_excess_le_pow` bounds. -/
theorem largestBelow_top_mul_excess_le {N : Nat} (hd : 0 < d) (hdN : d ≤ N) (a : Nat)
    (stops : largestBelow d (N - 1) * (d - 2 ^ a * N % d) < 2 ^ a * N) :
    largestBelow d N * (d - 2 ^ a * N % d) ≤ 2 ^ a * N := by
  have succ : N - 1 + 1 = N := by omega
  rcases largestBelow_succ (d := d) (L := N - 1) hd with top | same
  · rw [succ] at top
    have hN : N % d = d - 1 := top ▸ largestBelow_mod hd (by omega)
    rw [top]
    exact mul_excess_le_pow hd hN a
  · rw [succ] at same
    rw [same]
    exact Nat.le_of_lt stops

end Magic

/-- A number one less than a multiple of `d ≥ 2` whose product with `d` is a power
of two is `1`: both factors are powers of two, so `d` is even and the other, odd,
is `2 ^ 0`. -/
theorem eq_one_of_mul_eq_pow {c d k : Nat} (hd : 2 ≤ d) (hc : c % d = d - 1) (power : c * d = 2 ^ k) :
    c = 1 := by
  obtain ⟨i, -, rfl⟩ := (Nat.dvd_prime_pow Nat.prime_two).1 (Dvd.intro_left c power)
  obtain ⟨j, -, rfl⟩ := (Nat.dvd_prime_pow Nat.prime_two).1 (Dvd.intro _ power)
  have even : 2 ∣ 2 ^ i := dvd_pow_self 2 (by rintro rfl; simp at hd)
  have odd : 2 ^ j % 2 = 1 := by
    rw [← Nat.mod_mod_of_dvd _ even, hc]
    obtain ⟨q, hq⟩ := even
    omega
  cases j with
  | zero => rfl
  | succ j => simp [Nat.pow_succ] at odd

/-- An even number one less than a multiple of `d ≥ 2` rules out `d` dividing a
power of two: such a `d` is even, and the number would be odd. -/
theorem not_dvd_pow_of_mod {N d : Nat} (even : 2 ∣ N) (hd : 2 ≤ d) (hN : N % d = d - 1) (k : Nat) :
    ¬d ∣ 2 ^ k := by
  intro divides
  obtain ⟨i, -, rfl⟩ := (Nat.dvd_prime_pow Nat.prime_two).1 divides
  have evenD : 2 ∣ 2 ^ i := dvd_pow_self 2 (by rintro rfl; simp at hd)
  have parity : N % 2 ^ i % 2 = N % 2 := Nat.mod_mod_of_dvd N evenD
  rw [hN] at parity
  obtain ⟨q, hq⟩ := evenD
  omega

/-- The excess of `2 ^ q` over the multiples of `d` times `largestBelow d L`, for
`L ≤ N` with `N` even, is at most `(N - 1) * d`: either `largestBelow` is below `N`,
or it is `N`, and then `d` does not divide `2 ^ q`. -/
theorem largestBelow_mul_excess_le {N d L : Nat} (even : 2 ∣ N) (hd : 2 ≤ d) (hdN : d ≤ N) (hL : L ≤ N)
    (q : Nat) : largestBelow d L * (d - 2 ^ q % d) ≤ (N - 1) * d := by
  rcases Nat.lt_or_ge (largestBelow d L) N with below | reaches
  · exact Nat.mul_le_mul (by omega) (Nat.sub_le _ _)
  · have top : largestBelow d L = N := Nat.le_antisymm (Nat.le_trans largestBelow_le hL) reaches
    have hN : N % d = d - 1 := top ▸ largestBelow_mod (by omega) (by have := @largestBelow_le d L; omega)
    have positive : 0 < 2 ^ q % d := Nat.pos_of_ne_zero fun zero =>
      not_dvd_pow_of_mod even hd hN q (Nat.dvd_of_mod_eq_zero zero)
    have h1 : N * (d - 1) = N * d - N := Nat.mul_sub_one N d
    have h2 : (N - 1) * d = N * d - d := Nat.sub_one_mul N d
    have h3 : N ≤ N * d := Nat.le_mul_of_pos_right N (by omega)
    rw [top]
    calc N * (d - 2 ^ q % d) ≤ N * (d - 1) := Nat.mul_le_mul_left N (by omega)
      _ ≤ (N - 1) * d := by omega

/-- The test of the search: with `x = c * q + r`, `q < e`, or `q = e` with no
remainder, says exactly that `x ≤ c * e`. -/
theorem div_lt_or_eq_iff_le_mul {x c e : Nat} (hc : 0 < c) :
    (x / c < e ∨ (x / c = e ∧ x % c = 0)) ↔ x ≤ c * e := by
  have split := Nat.div_add_mod x c
  have small := Nat.mod_lt x hc
  constructor
  · rintro (below | ⟨rfl, exact⟩)
    · have : c * (x / c + 1) ≤ c * e := Nat.mul_le_mul_left c below
      rw [Nat.mul_add_one] at this
      omega
    · omega
  · intro le
    rcases Nat.lt_trichotomy (x / c) e with below | same | above
    · exact Or.inl below
    · subst same
      exact Or.inr ⟨rfl, by omega⟩
    · have : c * (e + 1) ≤ c * (x / c) := Nat.mul_le_mul_left c above
      rw [Nat.mul_add_one] at this
      omega

/-! ## Signed division -/

/-- The last step of the quotient: the floor of a negative quotient is one below
its truncation. -/
def incrementIfNegative (t : Int) : Int := if t < 0 then t + 1 else t

section Signed

variable {N d P M e : Nat}

/-- The floor of `-(m * M) / P` is `-(m / d) - 1` where `m * M` has the bounds of
`mul_magic_ceil`. -/
theorem neg_mul_magic_ediv {m : Nat} (hP : 0 < P) (lower : m / d * P < m * M)
    (upper : m * M ≤ (m / d + 1) * P) :
    -((m * M : Nat) : Int) / (P : Int) = -((m / d : Nat) : Int) - 1 := by
  rw [Int.ediv_eq_iff_of_pos (by exact_mod_cast hP)]
  have lower' : ((m / d : Nat) : Int) * P < (m * M : Nat) := by exact_mod_cast lower
  have upper' : ((m * M : Nat) : Int) ≤ ((m / d : Nat) + 1) * P := by exact_mod_cast upper
  constructor <;> linarith

/-- Positive divisors: for `-N ≤ n < N`, the floor of `n * M / P` made one larger
when negative is `n` divided by `d` rounded to zero. Nonnegative dividends round
down (`mul_magic_div` up to `N - 1`), negative ones up (`mul_magic_ceil` up to
`N`). -/
theorem tdiv_of_magic_pos (hd : 0 < d) (hdN : d ≤ N) (magic : M * d = P + e) (he : 0 < e)
    (strict : largestBelow d (N - 1) * e < P) (bounded : largestBelow d N * e ≤ P)
    {n : Int} (lower : -(N : Int) ≤ n) (upper : n < N) :
    incrementIfNegative (n * M / P) = n.tdiv d := by
  have hP : 0 < P := Nat.lt_of_le_of_lt (Nat.zero_le _) strict
  rcases le_or_gt 0 n with nonneg | negative
  · lift n to Nat using nonneg
    have floor : n * M / P = n / d := mul_magic_div hd (by omega) magic strict (by omega)
    have cast : (n : Int) * M / P = ((n * M / P : Nat) : Int) := by push_cast; rfl
    have nonneg : ¬((n / d : Nat) : Int) < 0 := Int.not_lt.2 (Int.natCast_nonneg _)
    rw [cast, floor, incrementIfNegative, if_neg nonneg, Int.natCast_tdiv_eq_ediv]
    rfl
  · obtain ⟨m, rfl⟩ : ∃ m : Nat, n = -(m : Int) := ⟨n.natAbs, by omega⟩
    obtain ⟨below, above⟩ :=
      mul_magic_ceil (m := m) hd (by omega) magic he bounded (by omega) (by omega)
    have cast : -(m : Int) * M = -((m * M : Nat) : Int) := by push_cast; ring
    have rounded : -((m / d : Nat) : Int) - 1 < 0 := by
      have := Int.natCast_nonneg (m / d)
      omega
    rw [cast, neg_mul_magic_ediv hP below above, incrementIfNegative, if_pos rounded,
      Int.neg_tdiv, ← Int.ofNat_tdiv]
    ring

/-- Negative divisors: with the magic number negated, the same sequence divides
by `-d`, for `d` up to `N`. Dividends up to `0` now round down (`mul_magic_div`
up to `N`) and positive ones up (`mul_magic_ceil` up to `N - 1`). -/
theorem tdiv_of_magic_neg (hd : 0 < d) (hdN : d ≤ N) (magic : M * d = P + e) (he : 0 < e)
    (strict : largestBelow d N * e < P) {n : Int} (lower : -(N : Int) ≤ n) (upper : n < N) :
    incrementIfNegative (n * -(M : Int) / P) = n.tdiv (-(d : Int)) := by
  have hP : 0 < P := Nat.lt_of_le_of_lt (Nat.zero_le _) strict
  have bounded : largestBelow d (N - 1) * e ≤ P :=
    Nat.le_trans (Nat.mul_le_mul_right e (largestBelow_mono (Nat.sub_le N 1))) (Nat.le_of_lt strict)
  rcases le_or_gt n 0 with nonpos | positive
  · obtain ⟨m, rfl⟩ : ∃ m : Nat, n = -(m : Int) := ⟨n.natAbs, by omega⟩
    have floor : m * M / P = m / d := mul_magic_div hd (by omega) magic strict (by omega)
    have cast : -(m : Int) * -(M : Int) / P = ((m * M / P : Nat) : Int) := by push_cast; ring_nf
    have nonneg : ¬((m / d : Nat) : Int) < 0 := Int.not_lt.2 (Int.natCast_nonneg _)
    rw [cast, floor, incrementIfNegative, if_neg nonneg, Int.neg_tdiv_neg, ← Int.ofNat_tdiv]
  · lift n to Nat using Int.le_of_lt positive
    obtain ⟨below, above⟩ :=
      mul_magic_ceil (m := n) hd (by omega) magic he bounded (by omega) (by omega)
    have cast : (n : Int) * -(M : Int) = -((n * M : Nat) : Int) := by push_cast; ring
    have rounded : -((n / d : Nat) : Int) - 1 < 0 := by
      have := Int.natCast_nonneg (n / d)
      omega
    rw [cast, neg_mul_magic_ediv hP below above, incrementIfNegative, if_pos rounded,
      Int.tdiv_neg, ← Int.ofNat_tdiv]
    ring

end Signed

/-! ## Magic multipliers -/

/-- A magic number `m` and a shift `k` for dividing the values of words of `W` bits
by `d`: `m` has at most `W + 1` bits and the sign of `d`, and the floor of `n * m`
over `2 ^ (W + k)`, made one larger when negative, is `n` divided by `d` rounded to
zero for every value `n` of a word. -/
structure MagicMultiplier (W : Nat) (d m : Int) (k : Nat) : Prop where
  shift_lt : k < W
  lower : -2 ^ W < m
  upper : m < 2 ^ W
  pos_iff : 0 < m ↔ 0 < d
  neg_iff : m < 0 ↔ d < 0
  quotient : ∀ n : Int, -2 ^ (W - 1) ≤ n → n < 2 ^ (W - 1) →
    incrementIfNegative (n * m / 2 ^ (W + k)) = n.tdiv d

section Multiplier

variable {W k M d e : Nat}

/-- The magic multiplier of a positive divisor, from the bounds of `tdiv_of_magic_pos`. -/
theorem MagicMultiplier.of_pos (hk : k < W) (hd : 0 < d) (hdN : d ≤ 2 ^ (W - 1))
    (magic : M * d = 2 ^ (W + k) + e) (he : 0 < e)
    (strict : largestBelow d (2 ^ (W - 1) - 1) * e < 2 ^ (W + k))
    (bounded : largestBelow d (2 ^ (W - 1)) * e ≤ 2 ^ (W + k)) (hM : M < 2 ^ W) :
    MagicMultiplier W d M k where
  shift_lt := hk
  lower := by
    have : (0 : Int) < 2 ^ W := by positivity
    omega
  upper := by exact_mod_cast hM
  pos_iff := by
    have : 0 < M := Nat.pos_of_ne_zero (by rintro rfl; simp at magic; omega)
    omega
  neg_iff := by omega
  quotient n lower upper := by
    have := tdiv_of_magic_pos hd hdN magic he strict bounded (n := n) (by push_cast; exact lower)
      (by push_cast; exact upper)
    exact_mod_cast this

/-- The magic multiplier of a negative divisor, from the bounds of `tdiv_of_magic_neg`. -/
theorem MagicMultiplier.of_neg (hk : k < W) (hd : 0 < d) (hdN : d ≤ 2 ^ (W - 1))
    (magic : M * d = 2 ^ (W + k) + e) (he : 0 < e)
    (strict : largestBelow d (2 ^ (W - 1)) * e < 2 ^ (W + k)) (hM : M < 2 ^ W) :
    MagicMultiplier W (-d) (-M) k where
  shift_lt := hk
  lower := by
    have : (M : Int) < 2 ^ W := by exact_mod_cast hM
    omega
  upper := by
    have : (0 : Int) < 2 ^ W := by positivity
    omega
  pos_iff := by omega
  neg_iff := by
    have : 0 < M := Nat.pos_of_ne_zero (by rintro rfl; simp at magic; omega)
    omega
  quotient n lower upper := by
    have := tdiv_of_magic_neg hd hdN magic he strict (n := n) (by push_cast; exact lower)
      (by push_cast; exact upper)
    exact_mod_cast this

end Multiplier

/-! ## Division by a power of two -/

section PowerOfTwo

variable {x m : Int}

/-- A negative dividend rounded to zero is its floor once `m - 1` is added. -/
theorem tdiv_eq_ediv_add_pred (negative : x < 0) (positive : 0 < m) : x.tdiv m = (x + (m - 1)) / m := by
  have split := Int.mul_ediv_add_emod (-x) m
  have remainder := Int.emod_nonneg (-x) (Int.ne_of_gt positive)
  have below := Int.emod_lt_of_pos (-x) positive
  -- `-x = m * q + r` gives `x + (m - 1) = m * (-q) + (m - 1 - r)`
  have quotient : (x + (m - 1)) / m = -((-x) / m) := by
    refine ((Int.ediv_emod_unique (r := m - 1 - (-x) % m) positive).2 ⟨?_, ?_, ?_⟩).1
    · rw [Int.mul_neg]
      omega
    · omega
    · omega
  rw [quotient, ← Int.tdiv_eq_ediv_of_nonneg (by omega), ← Int.neg_tdiv, Int.neg_neg]

/-- The remainder of a negative dividend, from the same biased dividend. -/
theorem tmod_eq_emod_add_pred (negative : x < 0) (positive : 0 < m) :
    x.tmod m = (x + (m - 1)) % m - (m - 1) := by
  rw [Int.tmod_def, tdiv_eq_ediv_add_pred negative positive, Int.emod_def]
  omega

end PowerOfTwo

end Art.Arithmetic
