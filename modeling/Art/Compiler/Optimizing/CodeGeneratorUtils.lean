import Art.Arithmetic.DivisionByInvariant
import Art.Compiler.Optimizing.Nodes
import Art.Machine.Loop
import Art.Machine.Word

/-!
# Magic numbers for division by a constant

`CalculateMagicAndShiftForDivRem` finds, for a divisor `d` with `|d| ≥ 2` of an
`int` or a `long` of `W` bits, the magic number and the shift with which the code
generators divide by multiplying. It follows Hacker's Delight: with
`exp = 2 ^ (W - 1)`, `abs_nc` is the largest number up to `exp - 1`, or `exp` for a
negative divisor, that is one less than a multiple of `|d|`, and the loop doubles
`2 ^ p` until `2 ^ p > abs_nc * (|d| - 2 ^ p % |d|)`, keeping the quotients and
remainders of `2 ^ p` by `abs_nc` and by `|d|` in `uint64_t`s.

Those four values are exact on every run of the body up to the exit: doubling them
is long division one bit further (`MagicSearch.exact_step`), and no quotient
reaches `2 ^ 64` while the loop goes on, because `2 ^ p < abs_nc * |d|` there. The
loop's test is then the test of Hacker's Delight on `p`
(`MagicSearch.condition_eq`), which fails at the latest for `p = 2 W - 2`, so the
loop exits after at most `W - 1` runs of its body (`magicSearch_exits`). The magic
number and shift it gives are a `MagicMultiplier` for the divisor
(`calculateMagicAndShiftForDivRem_spec`): the statement on which the code
generators' division sequences rest.

A divisor `±2 ^ k` needs no magic number. `AbsOrMin` less one is then the mask of
the low `k` bits and `CTZ` of it, or of the divisor, is `k` (`absOrMin_sub_one`,
`ctz_absOrMin`, `ctz_of_natAbs`); Java's division by it is the bias-and-shift the
code generators emit, negated for a negative divisor (`HDiv.computeIntegral_two_pow`,
`HDiv.computeIntegral_neg_two_pow`), and the remainder keeps the low `k` bits of
the biased dividend (`HRem.computeIntegral_of_natAbs_eq_two_pow`).
-/

set_option autoImplicit false

namespace Art.Compiler.Optimizing

open Art.Arithmetic Art.Machine

/-- The width of an `int` and of a `long`. -/
def bitWidth : Bool → Nat
  | true => 64
  | false => 32

/-- The values the do-while loop of `CalculateMagicAndShiftForDivRem` updates. -/
structure MagicSearch where
  p : Nat
  quotient1 : BitVec 64
  remainder1 : BitVec 64
  quotient2 : BitVec 64
  remainder2 : BitVec 64
  deriving DecidableEq, Repr

namespace MagicSearch

/-- The body of the loop: `p` one larger, and the quotients and remainders of
`2 ^ p` by `abs_nc` and by `abs_d` one bit further. -/
def step (absNc absD : BitVec 64) (search : MagicSearch) : MagicSearch :=
  let quotient1 := 2 * search.quotient1
  let remainder1 := 2 * search.remainder1
  let quotient2 := 2 * search.quotient2
  let remainder2 := 2 * search.remainder2
  { p := search.p + 1
    quotient1 := if remainder1 ≥ absNc then quotient1 + 1 else quotient1
    remainder1 := if remainder1 ≥ absNc then remainder1 - absNc else remainder1
    quotient2 := if remainder2 ≥ absD then quotient2 + 1 else quotient2
    remainder2 := if remainder2 ≥ absD then remainder2 - absD else remainder2 }

/-- `delta = abs_d - remainder2`. -/
def delta (absD : BitVec 64) (search : MagicSearch) : BitVec 64 := absD - search.remainder2

/-- The condition of the loop. -/
def condition (absD : BitVec 64) (search : MagicSearch) : Bool :=
  decide (search.quotient1 < delta absD search) ||
    (search.quotient1 == delta absD search && search.remainder1 == 0)

end MagicSearch

/-- `exp`, `2 ^ 31` or `2 ^ 63`. -/
def magicExp (isLong : Bool) : BitVec 64 :=
  if isLong then 1 <<< 63 else ((1 : BitVec 32) <<< 31).setWidth 64

/-- `abs_d`, the magnitude of the divisor. -/
def magicAbsD (divisor : BitVec 64) : BitVec 64 :=
  if 0 ≤ divisor.toInt then divisor else -divisor

/-- `abs_nc`: with `tmp = exp + sign_bit`, `tmp - 1 - tmp % abs_d`. -/
def magicAbsNc (divisor : BitVec 64) (isLong : Bool) : BitVec 64 :=
  let signBit : BitVec 64 :=
    if isLong then divisor >>> 63 else (divisor.setWidth 32 >>> 31).setWidth 64
  let tmp := magicExp isLong + signBit
  tmp - 1 - tmp % magicAbsD divisor

/-- The values before the loop: `p = W - 1`, and the quotients and remainders of
`exp` by `abs_nc` and by `abs_d`. -/
def MagicSearch.start (divisor : BitVec 64) (isLong : Bool) : MagicSearch :=
  let exp := magicExp isLong
  let absNc := magicAbsNc divisor isLong
  let absD := magicAbsD divisor
  ⟨if isLong then 63 else 31, exp / absNc, exp % absNc, exp / absD, exp % absD⟩

/-- The do-while loop, given 64 runs of its body; it exits after at most 63
(`magicSearch_exits`). -/
def MagicSearch.run (divisor : BitVec 64) (isLong : Bool) : MagicSearch :=
  doWhile (step (magicAbsNc divisor isLong) (magicAbsD divisor)) (condition (magicAbsD divisor)) 64
    (start divisor isLong)

/-- `CalculateMagicAndShiftForDivRem`: the magic number and the shift for dividing
an `int` (`isLong` clear) or a `long` by `divisor`. -/
def calculateMagicAndShiftForDivRem (divisor : BitVec 64) (isLong : Bool) : BitVec 64 × Int :=
  let search := MagicSearch.run divisor isLong
  let magic : BitVec 64 := if 0 < divisor.toInt then search.quotient2 + 1 else -search.quotient2 - 1
  let magic : BitVec 64 := if isLong then magic else (magic.setWidth 32).signExtend 64
  (magic, if isLong then (search.p : Int) - 64 else (search.p : Int) - 32)

example : calculateMagicAndShiftForDivRem 7 false = (0xffffffff92492493, 2) := by decide

/-! ## One run of the body -/

namespace MagicSearch

/-- The values of the loop at `p`: the quotients and remainders of `2 ^ p` by
`abs_nc` and by `abs_d`. -/
structure Exact (anc ad : Nat) (search : MagicSearch) : Prop where
  quotient1 : search.quotient1.toNat = 2 ^ search.p / anc
  remainder1 : search.remainder1.toNat = 2 ^ search.p % anc
  quotient2 : search.quotient2.toNat = 2 ^ search.p / ad
  remainder2 : search.remainder2.toNat = 2 ^ search.p % ad

/-- One half of the body: doubling the quotient and the remainder of `x` by a
divisor of at most `2 ^ 63`, and carrying the remainder over, gives those of
`2 * x`, when the new quotient fits in 64 bits. -/
theorem doubled {q r divisor : BitVec 64} {x : Nat} (hq : q.toNat = x / divisor.toNat)
    (hr : r.toNat = x % divisor.toNat) (positive : 0 < divisor.toNat) (small : divisor.toNat ≤ 2 ^ 63)
    (fits : 2 * x / divisor.toNat < 2 ^ 64) :
    (if 2 * r ≥ divisor then 2 * q + 1 else 2 * q).toNat = 2 * x / divisor.toNat ∧
      (if 2 * r ≥ divisor then 2 * r - divisor else 2 * r).toNat = 2 * x % divisor.toNat := by
  have rlt : r.toNat < divisor.toNat := hr ▸ Nat.mod_lt _ positive
  have quotient := two_mul_div (x := x) positive
  have remainder := two_mul_mod (x := x) positive
  have twoR : (2 * r).toNat = 2 * r.toNat := by
    rw [BitVec.toNat_mul, show (2 : BitVec 64).toNat = 2 from rfl, Nat.mod_eq_of_lt (by omega)]
  have twoQ : (2 * q).toNat = 2 * q.toNat := by
    rw [BitVec.toNat_mul, show (2 : BitVec 64).toNat = 2 from rfl, Nat.mod_eq_of_lt (by split at quotient <;> omega)]
  by_cases reaches : 2 * r ≥ divisor
  · have reaches' : divisor.toNat ≤ 2 * (x % divisor.toNat) := by
      rw [← hr, ← twoR]
      exact reaches
    rw [if_pos reaches'] at quotient
    rw [if_pos reaches'] at remainder
    simp only [if_pos reaches]
    refine ⟨?_, ?_⟩
    · rw [BitVec.toNat_add, twoQ, hq, show (1 : BitVec 64).toNat = 1 from rfl, Nat.mod_eq_of_lt (by omega)]
      omega
    · rw [BitVec.toNat_sub_of_le reaches, twoR, hr, remainder]
  · have below : ¬divisor.toNat ≤ 2 * (x % divisor.toNat) := by
      rw [← hr, ← twoR]
      exact reaches
    rw [if_neg below] at quotient remainder
    simp only [if_neg reaches]
    exact ⟨by rw [twoQ, hq, quotient]; omega, by rw [twoR, hr, remainder]⟩

section Step

variable {anc ad : Nat} {absNc absD : BitVec 64}

/-- **Step lemma.** A run of the body keeps the values exact, as long as the new
quotients fit in 64 bits. -/
theorem exact_step {search : MagicSearch} (hNc : absNc.toNat = anc) (hD : absD.toNat = ad)
    (ancPos : 0 < anc) (ancSmall : anc ≤ 2 ^ 63) (adPos : 0 < ad) (adSmall : ad ≤ 2 ^ 63)
    (exact : search.Exact anc ad) (fits1 : 2 ^ (search.p + 1) / anc < 2 ^ 64)
    (fits2 : 2 ^ (search.p + 1) / ad < 2 ^ 64) :
    (step absNc absD search).Exact anc ad := by
  subst hNc hD
  rw [Nat.pow_succ'] at fits1 fits2
  obtain ⟨q1, r1⟩ := doubled exact.quotient1 exact.remainder1 ancPos ancSmall fits1
  obtain ⟨q2, r2⟩ := doubled exact.quotient2 exact.remainder2 adPos adSmall fits2
  exact ⟨by rw [step, Nat.pow_succ']; exact q1, by rw [step, Nat.pow_succ']; exact r1,
    by rw [step, Nat.pow_succ']; exact q2, by rw [step, Nat.pow_succ']; exact r2⟩

/-- With exact values, the loop's test is the test of Hacker's Delight: go on while
`2 ^ p ≤ abs_nc * (abs_d - 2 ^ p % abs_d)`. -/
theorem condition_eq {search : MagicSearch} (hD : absD.toNat = ad)
    (ancPos : 0 < anc) (adPos : 0 < ad) (exact : search.Exact anc ad) :
    condition absD search = decide (2 ^ search.p ≤ anc * (ad - 2 ^ search.p % ad)) := by
  have small : search.remainder2 ≤ absD := by
    rw [BitVec.le_def, exact.remainder2, hD]
    exact Nat.le_of_lt (Nat.mod_lt _ adPos)
  have excess : (delta absD search).toNat = ad - 2 ^ search.p % ad := by
    rw [delta, BitVec.toNat_sub_of_le small, exact.remainder2, hD]
  have zero : (0 : BitVec 64).toNat = 0 := rfl
  rw [Bool.eq_iff_iff, condition, decide_eq_true_iff, ← div_lt_or_eq_iff_le_mul ancPos]
  simp only [Bool.or_eq_true, decide_eq_true_eq, Bool.and_eq_true, beq_iff_eq, BitVec.lt_def,
    ← BitVec.toNat_inj, excess, exact.quotient1, exact.remainder1, zero]

end Step

/-! ## The loop -/

/-- The numbers the loop runs on for words of `W` bits: `abs_d` between `2` and
`2 ^ (W - 1)`, and `abs_nc = largestBelow abs_d L` for a bound `L` that is
`2 ^ (W - 1) - 1` or `2 ^ (W - 1)`, with `abs_d ≤ L + 1`. -/
structure Setting (W ad L : Nat) : Prop where
  three_le : 3 ≤ W
  le_sixtyFour : W ≤ 64
  two_le : 2 ≤ ad
  le_half : ad ≤ 2 ^ (W - 1)
  le_bound : ad ≤ L + 1
  bound_ge : 2 ^ (W - 1) - 1 ≤ L
  bound_le : L ≤ 2 ^ (W - 1)

namespace Setting

variable {W ad L : Nat} (setting : Setting W ad L)
include setting

theorem four_le_half : 4 ≤ 2 ^ (W - 1) :=
  calc 4 = 2 ^ 2 := rfl
    _ ≤ 2 ^ (W - 1) := Nat.pow_le_pow_right (by omega) (by have := setting.three_le; omega)

theorem half_even : 2 ∣ 2 ^ (W - 1) :=
  dvd_pow_self 2 (by have := setting.three_le; omega)

theorem width_eq : 2 ^ W = 2 ^ (W - 1) * 2 :=
  (Nat.two_pow_pred_mul_two (by have := setting.three_le; omega)).symm

theorem anc_mod : largestBelow ad L % ad = ad - 1 :=
  largestBelow_mod (by have := setting.two_le; omega) setting.le_bound

theorem anc_le_half : largestBelow ad L ≤ 2 ^ (W - 1) :=
  Nat.le_trans largestBelow_le setting.bound_le

/-- `abs_nc` is at least `2`: at least `abs_d - 1`, and near `L` for `abs_d = 2`. -/
theorem two_le_anc : 2 ≤ largestBelow ad L := by
  have mod := setting.anc_mod
  have atLeast := Nat.mod_le (largestBelow ad L) ad
  have near : L + 1 - ad ≤ largestBelow ad L := ge_largestBelow (by have := setting.two_le; omega)
  have := setting.four_le_half
  have := setting.bound_ge
  have := setting.two_le
  omega

/-- The product the test compares with `2 ^ p` is at most `(2 ^ (W - 1) - 1) * abs_d`. -/
theorem excess_le (p : Nat) :
    largestBelow ad L * (ad - 2 ^ p % ad) ≤ (2 ^ (W - 1) - 1) * ad :=
  largestBelow_mul_excess_le setting.half_even setting.two_le setting.le_half setting.bound_le p

/-- The test fails at the latest for `p = 2 W - 2`. -/
theorem stops_at_end :
    largestBelow ad L * (ad - 2 ^ (2 * W - 2) % ad) < 2 ^ (2 * W - 2) := by
  have square : 2 ^ (2 * W - 2) = 2 ^ (W - 1) * 2 ^ (W - 1) := by
    rw [← Nat.pow_add]
    congr 1
    omega
  have := setting.four_le_half
  calc largestBelow ad L * (ad - 2 ^ (2 * W - 2) % ad) ≤ (2 ^ (W - 1) - 1) * ad := setting.excess_le _
    _ < 2 ^ (W - 1) * 2 ^ (W - 1) :=
        Nat.mul_lt_mul_of_lt_of_le (by omega) setting.le_half (by have := setting.two_le; omega)
    _ = 2 ^ (2 * W - 2) := square.symm

/-- While the loop goes on, `2 ^ p` stays below `abs_nc * abs_d`: equality would make
both powers of two, and `abs_nc`, odd or not a multiple of `abs_d`, would be `1`. -/
theorem lt_of_goes_on {p : Nat} (goesOn : 2 ^ p ≤ largestBelow ad L * (ad - 2 ^ p % ad)) :
    2 ^ p < largestBelow ad L * ad := by
  have le : 2 ^ p ≤ largestBelow ad L * ad :=
    Nat.le_trans goesOn (Nat.mul_le_mul_left _ (Nat.sub_le _ _))
  rcases Nat.lt_or_eq_of_le le with lt | eq
  · exact lt
  · have := eq_one_of_mul_eq_pow setting.two_le setting.anc_mod eq.symm
    have := setting.two_le_anc
    omega

/-- While the loop goes on, the quotients of the next run fit in 64 bits. -/
theorem fits_of_goes_on {p : Nat} (goesOn : 2 ^ p ≤ largestBelow ad L * (ad - 2 ^ p % ad)) :
    2 ^ (p + 1) / largestBelow ad L < 2 ^ 64 ∧ 2 ^ (p + 1) / ad < 2 ^ 64 := by
  have lt := setting.lt_of_goes_on goesOn
  have wide : 2 * 2 ^ (W - 1) ≤ 2 ^ 64 := by
    rw [Nat.mul_comm, ← setting.width_eq]
    exact Nat.pow_le_pow_right (by omega) setting.le_sixtyFour
  have ancPos := setting.two_le_anc
  have adPos := setting.two_le
  rw [Nat.pow_succ]
  constructor
  · rw [Nat.div_lt_iff_lt_mul (by omega)]
    calc 2 ^ p * 2 < largestBelow ad L * ad * 2 := by omega
      _ ≤ largestBelow ad L * (2 * 2 ^ (W - 1)) := by
          rw [Nat.mul_assoc]
          exact Nat.mul_le_mul_left _ (by have := setting.le_half; omega)
      _ ≤ 2 ^ 64 * largestBelow ad L := by rw [Nat.mul_comm]; exact Nat.mul_le_mul_right _ wide
  · rw [Nat.div_lt_iff_lt_mul (by omega)]
    calc 2 ^ p * 2 < largestBelow ad L * ad * 2 := by omega
      _ = ad * (2 * largestBelow ad L) := by ring
      _ ≤ ad * (2 * 2 ^ (W - 1)) := Nat.mul_le_mul_left _ (by have := setting.anc_le_half; omega)
      _ ≤ 2 ^ 64 * ad := by rw [Nat.mul_comm]; exact Nat.mul_le_mul_right _ wide

/-- The quotients of the first run, from `p = W - 1`, fit in 64 bits. -/
theorem fits_first :
    2 ^ (W - 1 + 1) / largestBelow ad L < 2 ^ 64 ∧ 2 ^ (W - 1 + 1) / ad < 2 ^ 64 := by
  have wide : 2 ^ W ≤ 2 ^ 64 := Nat.pow_le_pow_right (by omega) setting.le_sixtyFour
  rw [Nat.sub_add_cancel (by have := setting.three_le; omega)]
  have ancPos := setting.two_le_anc
  have adPos := setting.two_le
  constructor
  · exact Nat.lt_of_lt_of_le (Nat.div_lt_self (Nat.two_pow_pos W) (by omega)) wide
  · exact Nat.lt_of_lt_of_le (Nat.div_lt_self (Nat.two_pow_pos W) (by omega)) wide

end Setting

section Run

variable {W ad L : Nat} {absNc absD : BitVec 64} {start : MagicSearch}

/-- **Run lemma.** From exact values at `p = W - 1`, the values after `j` runs of the
body are exact, at `p = W - 1 + j`, when the loop went on after each run but the
last. -/
theorem iterate_exact (setting : Setting W ad L) (hNc : absNc.toNat = largestBelow ad L)
    (hD : absD.toNat = ad) (startExact : start.Exact (largestBelow ad L) ad) (startP : start.p = W - 1) :
    ∀ j, (∀ i, i + 1 < j → 2 ^ (W + i) ≤ largestBelow ad L * (ad - 2 ^ (W + i) % ad)) →
      ((step absNc absD)^[j] start).Exact (largestBelow ad L) ad ∧
        ((step absNc absD)^[j] start).p = W - 1 + j
  | 0, _ => ⟨startExact, startP⟩
  | j + 1, before => by
      obtain ⟨exact, atP⟩ :=
        iterate_exact setting hNc hD startExact startP j fun i lt => before i (by omega)
      -- the first run starts from `p = W - 1`; every later one from a `p` where the loop went on
      have fits : 2 ^ (((step absNc absD)^[j] start).p + 1) / largestBelow ad L < 2 ^ 64 ∧
          2 ^ (((step absNc absD)^[j] start).p + 1) / ad < 2 ^ 64 := by
        rw [atP]
        rcases j with _ | j
        · exact setting.fits_first
        · rw [show W - 1 + (j + 1) = W + j by have := setting.three_le; omega]
          exact setting.fits_of_goes_on (before j (by omega))
      have half : 2 ^ (W - 1) ≤ 2 ^ 63 := Nat.pow_le_pow_right (by omega) (by have := setting.le_sixtyFour; omega)
      have := setting.anc_le_half
      have := setting.two_le_anc
      have := setting.le_half
      have := setting.two_le
      rw [Function.iterate_succ_apply']
      refine ⟨exact_step hNc hD (by omega) (by omega) (by omega) (by omega) exact fits.1 fits.2, ?_⟩
      dsimp only [step]
      rw [atP]
      omega

/-- How the loop ends from exact values at `p = W - 1`: the condition fails first
after `runs` runs of the body, at most `W - 1`, where the values are exact and
`p = W - 1 + runs` is the least `p ≥ W` at which `2 ^ p` exceeds
`abs_nc * (abs_d - 2 ^ p % abs_d)`. -/
structure Exit (W ad L : Nat) (absNc absD : BitVec 64) (start : MagicSearch) (runs : Nat) : Prop where
  positive : 0 < runs
  le_width : runs ≤ W - 1
  exact : ((step absNc absD)^[runs] start).Exact (largestBelow ad L) ad
  p_eq : ((step absNc absD)^[runs] start).p = W - 1 + runs
  stops : largestBelow ad L * (ad - 2 ^ (W - 1 + runs) % ad) < 2 ^ (W - 1 + runs)
  goes_on : ∀ i, i + 1 < runs → 2 ^ (W + i) ≤ largestBelow ad L * (ad - 2 ^ (W + i) % ad)
  condition_false : condition absD ((step absNc absD)^[runs] start) = false
  condition_true : ∀ j, 0 < j → j < runs → condition absD ((step absNc absD)^[j] start) = true
  doWhile_eq : doWhile (step absNc absD) (condition absD) 64 start = (step absNc absD)^[runs] start

/-- **The loop exits**, at the least `p ≥ W` where the test fails, which is at most
`2 W - 2`. -/
theorem exit (setting : Setting W ad L) (hNc : absNc.toNat = largestBelow ad L)
    (hD : absD.toNat = ad) (startExact : start.Exact (largestBelow ad L) ad) (startP : start.p = W - 1) :
    ∃ runs, Exit W ad L absNc absD start runs := by
  have wide := setting.three_le
  have narrow := setting.le_sixtyFour
  have ancPos : 0 < largestBelow ad L := by have := setting.two_le_anc; omega
  have adPos : 0 < ad := by have := setting.two_le; omega
  have someStop : ∃ i, largestBelow ad L * (ad - 2 ^ (W + i) % ad) < 2 ^ (W + i) :=
    ⟨W - 2, by rw [show W + (W - 2) = 2 * W - 2 by omega]; exact setting.stops_at_end⟩
  have stops := Nat.find_spec someStop
  have goesOn : ∀ i, i < Nat.find someStop →
      2 ^ (W + i) ≤ largestBelow ad L * (ad - 2 ^ (W + i) % ad) :=
    fun i lt => Nat.le_of_not_lt (Nat.find_min someStop lt)
  have bound : Nat.find someStop ≤ W - 2 :=
    Nat.find_min' someStop (by rw [show W + (W - 2) = 2 * W - 2 by omega]; exact setting.stops_at_end)
  have exactAt := iterate_exact setting hNc hD startExact startP
  -- after `j ≤ runs` runs, the test is the one of `p = W - 1 + j`
  have conditionAt : ∀ j, j ≤ Nat.find someStop + 1 →
      condition absD ((step absNc absD)^[j] start) =
        decide (2 ^ (W - 1 + j) ≤ largestBelow ad L * (ad - 2 ^ (W - 1 + j) % ad)) := by
    intro j le
    obtain ⟨exact, atP⟩ := exactAt j fun i lt => goesOn i (by omega)
    rw [condition_eq hD ancPos adPos exact, atP]
  have stopsAt : condition absD ((step absNc absD)^[Nat.find someStop + 1] start) = false := by
    rw [conditionAt _ le_rfl, show W - 1 + (Nat.find someStop + 1) = W + Nat.find someStop by omega]
    exact decide_eq_false (Nat.not_le_of_lt stops)
  have goesOnAt : ∀ j, 0 < j → j < Nat.find someStop + 1 →
      condition absD ((step absNc absD)^[j] start) = true := by
    intro j positive lt
    rw [conditionAt j (by omega), show W - 1 + j = W + (j - 1) by omega]
    exact decide_eq_true (goesOn (j - 1) (by omega))
  obtain ⟨exact, atP⟩ := exactAt (Nat.find someStop + 1) fun i lt => goesOn i (by omega)
  refine ⟨Nat.find someStop + 1, ⟨by omega, by omega, exact, atP, ?_, fun i lt => goesOn i (by omega),
    stopsAt, goesOnAt, doWhile_eq_iterate _ _ (by omega) stopsAt goesOnAt (by omega)⟩⟩
  rw [show W - 1 + (Nat.find someStop + 1) = W + Nat.find someStop by omega]
  exact stops

/-- The magic number `2 ^ p / abs_d + 1` at the exit fits in `W` bits: either the
loop stopped at `p = W`, or it went on at `p - 1`, where the test bounds
`2 ^ (p - 1)` by `(2 ^ (W - 1) - 1) * abs_d`. -/
theorem Exit.magic_lt {runs : Nat} (setting : Setting W ad L) (exit : Exit W ad L absNc absD start runs) :
    2 ^ (W - 1 + runs) / ad + 1 < 2 ^ W := by
  have adPos := setting.two_le
  have half := setting.four_le_half
  have full := setting.width_eq
  rcases Nat.lt_or_ge runs 2 with one | more
  · rw [show W - 1 + runs = W by have := exit.positive; have := setting.three_le; omega]
    have : 2 ^ W / ad ≤ 2 ^ W / 2 := Nat.div_le_div_left (by omega) (by omega)
    omega
  · have previous := Nat.le_trans (exit.goes_on (runs - 2) (by omega)) (setting.excess_le _)
    have doubled : 2 ^ (W - 1 + runs) = 2 ^ (W + (runs - 2)) * 2 := by
      rw [← Nat.pow_succ]
      congr 1
      have := setting.three_le
      omega
    have : 2 ^ (W - 1 + runs) / ad ≤ (2 ^ (W - 1) - 1) * 2 := by
      rw [Nat.div_le_iff_le_mul_add_pred (by omega)]
      calc 2 ^ (W - 1 + runs) ≤ (2 ^ (W - 1) - 1) * ad * 2 := by omega
        _ ≤ ad * ((2 ^ (W - 1) - 1) * 2) + (ad - 1) := by
            rw [Nat.mul_comm ((2 ^ (W - 1) - 1)) ad, Nat.mul_assoc]
            omega
    omega

end Run

end MagicSearch

/-! ## The magic number and the shift -/

section Divisor

variable (isLong : Bool) {d : Int}

theorem three_le_bitWidth : 3 ≤ bitWidth isLong := by cases isLong <;> decide

theorem bitWidth_le : bitWidth isLong ≤ 64 := by cases isLong <;> decide

theorem toNat_magicExp : (magicExp isLong).toNat = 2 ^ (bitWidth isLong - 1) := by
  cases isLong <;> rfl

theorem start_p (divisor : BitVec 64) :
    (MagicSearch.start divisor isLong).p = bitWidth isLong - 1 := by
  cases isLong <;> rfl

/-- Bits 31..0 of a number taken modulo `2 ^ 64` are the number modulo `2 ^ 32`. -/
theorem setWidth_ofInt_sixtyFour (z : Int) : (BitVec.ofInt 64 z).setWidth 32 = BitVec.ofInt 32 z := by
  apply BitVec.eq_of_toNat_eq
  simp only [BitVec.toNat_setWidth, BitVec.toNat_ofInt]
  omega

variable {isLong} (lower : -2 ^ (bitWidth isLong - 1) ≤ d) (upper : d < 2 ^ (bitWidth isLong - 1))
include lower upper

/-- The divisor lies in `[-2 ^ 63, 2 ^ 63)`. -/
theorem divisor_range : -2 ^ 63 ≤ d ∧ d < 2 ^ 63 := by
  have : (2 : Int) ^ (bitWidth isLong - 1) ≤ 2 ^ 63 :=
    pow_le_pow_right₀ (by norm_num) (by have := bitWidth_le isLong; omega)
  omega

theorem toInt_ofInt_divisor : (BitVec.ofInt 64 d).toInt = d := by
  obtain ⟨low, high⟩ := divisor_range lower upper
  exact BitVec.toInt_ofInt_eq_self (by norm_num) low high

/-- `abs_d` is `|d|`, `INT64_MIN` included. -/
theorem toNat_magicAbsD : (magicAbsD (BitVec.ofInt 64 d)).toNat = d.natAbs := by
  obtain ⟨low, high⟩ := divisor_range lower upper
  rw [magicAbsD, toInt_ofInt_divisor lower upper]
  split
  · rw [BitVec.toNat_ofInt]
    omega
  · rw [BitVec.toNat_neg, BitVec.toNat_ofInt]
    omega

/-- `|d|` is at most `2 ^ (W - 1)`. -/
theorem natAbs_le_half : d.natAbs ≤ 2 ^ (bitWidth isLong - 1) := by
  have : ((2 ^ (bitWidth isLong - 1) : Nat) : Int) = 2 ^ (bitWidth isLong - 1) := by push_cast; rfl
  omega

/-- `|d|` is at most one more than the bound of `abs_nc`. -/
theorem natAbs_le_bound :
    d.natAbs ≤ 2 ^ (bitWidth isLong - 1) - 1 + (if d < 0 then 1 else 0) + 1 := by
  have : ((2 ^ (bitWidth isLong - 1) : Nat) : Int) = 2 ^ (bitWidth isLong - 1) := by push_cast; rfl
  split <;> omega

/-- `abs_nc` is the largest number up to `2 ^ (W - 1) - 1`, or `2 ^ (W - 1)` for a
negative divisor, that is one less than a multiple of `|d|`. -/
theorem toNat_magicAbsNc (two_le : 2 ≤ d.natAbs) :
    (magicAbsNc (BitVec.ofInt 64 d) isLong).toNat =
      largestBelow d.natAbs (2 ^ (bitWidth isLong - 1) - 1 + if d < 0 then 1 else 0) := by
  obtain ⟨low, high⟩ := divisor_range lower upper
  have half : 4 ≤ 2 ^ (bitWidth isLong - 1) :=
    calc 4 = 2 ^ 2 := rfl
      _ ≤ 2 ^ (bitWidth isLong - 1) :=
          Nat.pow_le_pow_right (by omega) (by have := three_le_bitWidth isLong; omega)
  have magnitude := natAbs_le_bound lower upper
  -- `sign_bit` is the sign of the divisor at the width of the type
  have sign : (if isLong then BitVec.ofInt 64 d >>> 63
      else ((BitVec.ofInt 64 d).setWidth 32 >>> 31).setWidth 64).toNat = if d < 0 then 1 else 0 := by
    cases isLong
    · simp only [bitWidth] at lower upper
      simp only [Bool.false_eq_true, if_false, BitVec.toNat_setWidth, BitVec.toNat_ushiftRight,
        BitVec.toNat_ofInt, Nat.shiftRight_eq_div_pow]
      split <;> omega
    · simp only [bitWidth] at lower upper
      simp only [if_true, BitVec.toNat_ushiftRight, BitVec.toNat_ofInt, Nat.shiftRight_eq_div_pow]
      split <;> omega
  have exp := toNat_magicExp isLong
  have absD := toNat_magicAbsD lower upper
  have wide : 2 ^ (bitWidth isLong - 1) ≤ 2 ^ 63 :=
    Nat.pow_le_pow_right (by omega) (by have := bitWidth_le isLong; omega)
  have one : (1 : BitVec 64).toNat = 1 := rfl
  generalize hs : (if d < 0 then 1 else 0) = s at sign magnitude ⊢
  have small : s ≤ 1 := by rw [← hs]; split <;> omega
  simp only [magicAbsNc]
  set tmp := magicExp isLong + (if isLong then BitVec.ofInt 64 d >>> 63
      else ((BitVec.ofInt 64 d).setWidth 32 >>> 31).setWidth 64) with tmpDef
  have tmpValue : tmp.toNat = 2 ^ (bitWidth isLong - 1) + s := by
    rw [tmpDef, BitVec.toNat_add, exp, sign, Nat.mod_eq_of_lt (by omega)]
  have remainder := Nat.mod_lt (2 ^ (bitWidth isLong - 1) + s) (show 0 < d.natAbs by omega)
  have positive : 1 ≤ tmp := by
    rw [BitVec.le_def, tmpValue, one]
    omega
  have below : tmp % magicAbsD (BitVec.ofInt 64 d) ≤ tmp - 1 := by
    rw [BitVec.le_def, BitVec.toNat_umod, BitVec.toNat_sub_of_le positive, tmpValue, absD, one]
    omega
  rw [BitVec.toNat_sub_of_le below, BitVec.toNat_sub_of_le positive, BitVec.toNat_umod, tmpValue,
    absD, one, largestBelow, show 2 ^ (bitWidth isLong - 1) - 1 + s + 1 = 2 ^ (bitWidth isLong - 1) + s by omega]
  omega

/-- The search runs on the numbers of `Setting`. -/
theorem magicSetting (two_le : 2 ≤ d.natAbs) :
    MagicSearch.Setting (bitWidth isLong) d.natAbs
      (2 ^ (bitWidth isLong - 1) - 1 + if d < 0 then 1 else 0) where
  three_le := three_le_bitWidth isLong
  le_sixtyFour := bitWidth_le isLong
  two_le := two_le
  le_half := natAbs_le_half lower upper
  le_bound := natAbs_le_bound lower upper
  bound_ge := Nat.le_add_right _ _
  bound_le := by
    have := Nat.two_pow_pos (bitWidth isLong - 1)
    split <;> omega

/-- The loop starts from exact values at `p = W - 1`. -/
theorem start_exact (two_le : 2 ≤ d.natAbs) :
    (MagicSearch.start (BitVec.ofInt 64 d) isLong).Exact
      (largestBelow d.natAbs (2 ^ (bitWidth isLong - 1) - 1 + if d < 0 then 1 else 0)) d.natAbs := by
  have values := And.intro (toNat_magicAbsNc lower upper two_le) (toNat_magicAbsD lower upper)
  constructor <;> rw [start_p] <;>
    simp only [MagicSearch.start, BitVec.toNat_udiv, BitVec.toNat_umod, toNat_magicExp, values.1, values.2]

/-- **The do-while loop exits** after `runs ≤ W - 1` runs of its body: its condition
holds after every earlier run and fails after that one, so the 64 runs `MagicSearch.run`
allows are never what ends it. -/
theorem magicSearch_exits (two_le : 2 ≤ d.natAbs) :
    let body := MagicSearch.step (magicAbsNc (BitVec.ofInt 64 d) isLong) (magicAbsD (BitVec.ofInt 64 d))
    let start := MagicSearch.start (BitVec.ofInt 64 d) isLong
    ∃ runs, 0 < runs ∧ runs ≤ bitWidth isLong - 1 ∧
      MagicSearch.condition (magicAbsD (BitVec.ofInt 64 d)) (body^[runs] start) = false ∧
      (∀ j, 0 < j → j < runs → MagicSearch.condition (magicAbsD (BitVec.ofInt 64 d)) (body^[j] start) = true) ∧
      MagicSearch.run (BitVec.ofInt 64 d) isLong = body^[runs] start := by
  obtain ⟨runs, exit⟩ := MagicSearch.exit (magicSetting lower upper two_le) (toNat_magicAbsNc lower upper two_le)
    (toNat_magicAbsD lower upper) (start_exact lower upper two_le) (start_p isLong _)
  exact ⟨runs, exit.positive, exit.le_width, exit.condition_false, exit.condition_true, exit.doWhile_eq⟩

/-- **`CalculateMagicAndShiftForDivRem` is correct.** For every divisor `d` of an
`int` or a `long` with `|d| ≥ 2`, the shift is some `k < W` and the magic number is
the word of an `m` that is a magic multiplier with `k` for `d`, sign-extended to 64
bits when the type is an `int`. -/
theorem calculateMagicAndShiftForDivRem_spec (two_le : 2 ≤ d.natAbs) :
    ∃ m : Int, ∃ k : Nat,
      calculateMagicAndShiftForDivRem (BitVec.ofInt 64 d) isLong =
        ((BitVec.ofInt (bitWidth isLong) m).signExtend 64, (k : Int)) ∧
      MagicMultiplier (bitWidth isLong) d m k := by
  have setting := magicSetting lower upper two_le
  obtain ⟨runs, exit⟩ := MagicSearch.exit setting (toNat_magicAbsNc lower upper two_le)
    (toNat_magicAbsD lower upper) (start_exact lower upper two_le) (start_p isLong _)
  have wide := three_le_bitWidth isLong
  have positive := exit.positive
  set ad := d.natAbs with adDef
  set p := bitWidth isLong - 1 + runs with pDef
  have quotient2 := exit.exact.quotient2
  rw [exit.p_eq] at quotient2
  -- `M * |d| = 2 ^ p + e` with the excess `e = |d| - 2 ^ p % |d|`
  have magic : (2 ^ p / ad + 1) * ad = 2 ^ (bitWidth isLong + (runs - 1)) + (ad - 2 ^ p % ad) := by
    have := Nat.div_add_mod (2 ^ p) ad
    have := Nat.mod_lt (2 ^ p) (show 0 < ad by omega)
    rw [show bitWidth isLong + (runs - 1) = p by omega, Nat.add_mul, Nat.mul_comm (2 ^ p / ad)]
    omega
  have excess : 0 < ad - 2 ^ p % ad := Nat.sub_pos_of_lt (Nat.mod_lt _ (by omega))
  have fits := exit.magic_lt setting
  have shift : runs - 1 < bitWidth isLong := by have := exit.le_width; omega
  refine ⟨if 0 < d then ((2 ^ p / ad + 1 : Nat) : Int) else -((2 ^ p / ad + 1 : Nat) : Int), runs - 1,
    ?_, ?_⟩
  · -- the pair the model returns
    have word : (if 0 < d then ((MagicSearch.run (BitVec.ofInt 64 d) isLong).quotient2 + 1)
        else -(MagicSearch.run (BitVec.ofInt 64 d) isLong).quotient2 - 1) =
          BitVec.ofInt 64 (if 0 < d then ((2 ^ p / ad + 1 : Nat) : Int) else -((2 ^ p / ad + 1 : Nat) : Int)) := by
      have small : 2 ^ p / ad + 1 < 2 ^ 64 :=
        Nat.lt_of_lt_of_le fits (Nat.pow_le_pow_right (by omega) (bitWidth_le isLong))
      have plus : (MagicSearch.run (BitVec.ofInt 64 d) isLong).quotient2 + 1 =
          BitVec.ofInt 64 ((2 ^ p / ad + 1 : Nat) : Int) := by
        rw [BitVec.ofInt_natCast]
        apply BitVec.eq_of_toNat_eq
        rw [MagicSearch.run, exit.doWhile_eq, BitVec.toNat_add, quotient2, BitVec.toNat_ofNat,
          show (1 : BitVec 64).toNat = 1 from rfl]
      split
      · exact plus
      · rw [BitVec.ofInt_neg, ← plus]
        ring
    rw [calculateMagicAndShiftForDivRem, toInt_ofInt_divisor lower upper, word]
    have run_p : (MagicSearch.run (BitVec.ofInt 64 d) isLong).p = p := by
      rw [MagicSearch.run, exit.doWhile_eq, exit.p_eq]
    cases isLong
    · simp only [Bool.false_eq_true, if_false, setWidth_ofInt_sixtyFour, run_p, bitWidth] at pDef ⊢
      refine Prod.ext rfl ?_
      simp only
      omega
    · simp only [if_true, BitVec.signExtend_eq, run_p, bitWidth] at pDef ⊢
      refine Prod.ext rfl ?_
      simp only
      omega
  · have stops := exit.stops
    rw [← pDef] at stops
    have split : 2 ^ p = 2 ^ runs * 2 ^ (bitWidth isLong - 1) := by
      rw [pDef, Nat.pow_add, Nat.mul_comm]
    by_cases positive : 0 < d
    · -- `abs_nc` is bounded by `2 ^ (W - 1) - 1`
      have sign : ¬d < 0 := by omega
      simp only [sign, if_false, Nat.add_zero] at stops
      have bounded := largestBelow_top_mul_excess_le (d := ad) (by omega) (natAbs_le_half lower upper) runs
        (by rw [← split]; exact stops)
      rw [← split] at bounded
      have multiplier := MagicMultiplier.of_pos shift (by omega) (natAbs_le_half lower upper) magic excess
        (by rw [show bitWidth isLong + (runs - 1) = p by omega]; exact stops)
        (by rw [show bitWidth isLong + (runs - 1) = p by omega]; exact bounded) fits
      rw [if_pos positive]
      rwa [show (ad : Int) = d by omega] at multiplier
    · -- `abs_nc` is bounded by `2 ^ (W - 1)`
      have sign : d < 0 := by omega
      simp only [sign, if_true, show 2 ^ (bitWidth isLong - 1) - 1 + 1 = 2 ^ (bitWidth isLong - 1) by
        have := Nat.two_pow_pos (bitWidth isLong - 1); omega] at stops
      have multiplier := MagicMultiplier.of_neg shift (by omega) (natAbs_le_half lower upper) magic excess
        (by rw [show bitWidth isLong + (runs - 1) = p by omega]; exact stops) fits
      rw [if_neg positive]
      rwa [show -(ad : Int) = d by omega] at multiplier

end Divisor

/-! ## `AbsOrMin` and `CTZ` -/

section BitUtils

variable {w : Nat}

/-- `AbsOrMin`: the absolute value, the most negative value left as it is. -/
def absOrMin (value : BitVec w) : BitVec w :=
  if value = BitVec.intMin w then value else if value.toInt < 0 then -value else value

/-- The trailing zero bits of a number, of its `fuel` lowest bits at most. -/
def ctzFrom : Nat → Nat → Nat
  | 0, _ => 0
  | fuel + 1, x => if x % 2 = 0 then ctzFrom fuel (x / 2) + 1 else 0

/-- `CTZ` of `base/bit_utils.h`, the trailing zero bits of a word (`__builtin_ctz`,
`__builtin_ctzll`); the code never asks it of zero. -/
def ctz (x : BitVec w) : Nat := ctzFrom w x.toNat

/-- A word whose absolute value is `2 ^ k` has more than `k` bits. -/
theorem lt_of_natAbs_eq_two_pow {k : Nat} {d : BitVec w} (power : d.toInt.natAbs = 2 ^ k) : k < w := by
  have lower := BitVec.le_toInt d
  have upper := BitVec.toInt_lt (x := d)
  have cast : ((2 ^ (w - 1) : Nat) : Int) = 2 ^ (w - 1) := by push_cast; rfl
  have one : 1 ≤ 2 ^ k := Nat.one_le_two_pow
  have positive : 0 < w := by
    rcases Nat.eq_zero_or_pos w with rfl | positive
    · simp [BitVec.of_length_zero] at power
      omega
    · exact positive
  have le : 2 ^ k ≤ 2 ^ (w - 1) := by omega
  have := (Nat.pow_le_pow_iff_right (by omega)).1 le
  omega

/-- The bits of `AbsOrMin` are the absolute value, the most negative value included. -/
theorem toNat_absOrMin (value : BitVec w) : (absOrMin value).toNat = value.toInt.natAbs := by
  unfold absOrMin
  split_ifs with most negative
  · subst most
    rcases Nat.eq_zero_or_pos w with rfl | positive
    · rfl
    · rw [BitVec.toNat_intMin, BitVec.toInt_intMin, Nat.mod_eq_of_lt (Nat.pow_lt_pow_right (by omega) (by omega))]
      simp
  · have negated := BitVec.toInt_neg_of_ne_intMin most
    have read := BitVec.toInt_eq_toNat_cond (-value)
    have bound := (-value).isLt
    split at read <;> omega
  · have read := BitVec.toInt_eq_toNat_cond value
    have bound := value.isLt
    split at read <;> omega

/-- A number `2 ^ k` times an odd one has `k` trailing zero bits. -/
theorem ctzFrom_two_pow_mul {o : Nat} (odd : o % 2 = 1) {k fuel : Nat} (below : k < fuel) :
    ctzFrom fuel (2 ^ k * o) = k := by
  induction k generalizing fuel with
  | zero =>
      obtain ⟨fuel, rfl⟩ : ∃ f, fuel = f + 1 := ⟨fuel - 1, by omega⟩
      simp [ctzFrom, odd]
  | succ k ih =>
      obtain ⟨fuel, rfl⟩ : ∃ f, fuel = f + 1 := ⟨fuel - 1, by omega⟩
      have even : 2 ^ (k + 1) * o % 2 = 0 := by rw [Nat.pow_succ, Nat.mul_right_comm]; simp
      have half : 2 ^ (k + 1) * o / 2 = 2 ^ k * o := by rw [Nat.pow_succ, Nat.mul_right_comm]; simp
      rw [ctzFrom, if_pos even, half, ih (by omega)]

/-- `CTZ` of a word whose absolute value is `2 ^ k`, positive or negative, is `k`. -/
theorem ctz_of_natAbs {value : BitVec w} {k : Nat} (abs : value.toInt.natAbs = 2 ^ k) : ctz value = k := by
  have below := lt_of_natAbs_eq_two_pow abs
  have read := BitVec.toInt_eq_toNat_cond value
  have bound := value.isLt
  unfold ctz
  split at read
  · rw [show value.toNat = 2 ^ k * 1 by omega]
    exact ctzFrom_two_pow_mul rfl below
  · -- a negative word holds `2 ^ w - 2 ^ k`, which is `2 ^ k` times an odd number
    have negative : value.toNat = 2 ^ w - 2 ^ k := by omega
    have whole : 2 ^ w = 2 ^ k * 2 ^ (w - k) := by rw [← Nat.pow_add, Nat.add_sub_cancel' below.le]
    have even : 2 ^ (w - k) = 2 * 2 ^ (w - k - 1) := by
      rw [← Nat.pow_succ']
      congr 1
      omega
    have one : 1 ≤ 2 ^ (w - k - 1) := Nat.one_le_two_pow
    have odd : (2 ^ (w - k) - 1) % 2 = 1 := by omega
    rw [negative, whole, ← Nat.mul_one (2 ^ k), Nat.mul_assoc, Nat.one_mul, ← Nat.mul_sub]
    exact ctzFrom_two_pow_mul odd below

/-- `CTZ` of `AbsOrMin` of a word whose absolute value is `2 ^ k` is `k`. -/
theorem ctz_absOrMin {value : BitVec w} {k : Nat} (abs : value.toInt.natAbs = 2 ^ k) : ctz (absOrMin value) = k := by
  have below := lt_of_natAbs_eq_two_pow abs
  unfold ctz
  rw [toNat_absOrMin, abs, ← Nat.mul_one (2 ^ k)]
  exact ctzFrom_two_pow_mul rfl below

/-- `AbsOrMin` less one, of a word whose absolute value is `2 ^ k`, is the mask of the
low `k` bits. -/
theorem absOrMin_sub_one {value : BitVec w} {k : Nat} (abs : value.toInt.natAbs = 2 ^ k) :
    absOrMin value - 1 = BitVec.ofNat w (2 ^ k - 1) := by
  have below := lt_of_natAbs_eq_two_pow abs
  have bits := toNat_absOrMin value
  rw [abs] at bits
  have one : 1 ≤ 2 ^ k := Nat.one_le_two_pow
  have small : 2 ^ k < 2 ^ w := Nat.pow_lt_pow_right (by omega) below
  have oneBits : (1 : BitVec w).toNat = 1 := BitVec.toNat_one (by omega)
  apply BitVec.eq_of_toNat_eq
  rw [BitVec.toNat_sub_of_le (by rw [BitVec.le_def, bits, oneBits]; exact one), bits, oneBits, BitVec.toNat_ofNat,
    Nat.mod_eq_of_lt (by omega)]

end BitUtils

/-! ## Division by a power of two -/

section PowerOfTwo

variable {w k : Nat}

/-- A positive word whose absolute value is `2 ^ k` is `2 ^ k`. -/
theorem toInt_eq_two_pow_of_pos {d : BitVec w} (power : d.toInt.natAbs = 2 ^ k) (positive : 0 < d.toInt) :
    d.toInt = 2 ^ k := by
  have abs := Int.natAbs_of_nonneg positive.le
  rw [power] at abs
  push_cast at abs
  exact abs.symm

/-- A word whose absolute value is `2 ^ k` and that is not positive is `-2 ^ k`. -/
theorem toInt_eq_neg_two_pow_of_not_pos {d : BitVec w} (power : d.toInt.natAbs = 2 ^ k)
    (notPositive : ¬0 < d.toInt) : d.toInt = -2 ^ k := by
  have abs := Int.ofNat_natAbs_of_nonpos (Int.not_lt.1 notPositive)
  rw [power] at abs
  push_cast at abs
  omega
/-- `2 ^ k` is not `-1`. -/
theorem ne_neg_one_of_toInt_eq_two_pow {d : BitVec w} (positive : d.toInt = 2 ^ k) : d ≠ -1 := by
  rintro rfl
  have below := lt_of_natAbs_eq_two_pow (d := (-1 : BitVec w)) (by rw [positive, Int.natAbs_pow]; rfl)
  rw [show (-1 : BitVec w) = BitVec.allOnes w from BitVec.neg_one_eq_allOnes, BitVec.toInt_allOnes, if_pos (by omega)] at positive
  have : (0 : Int) < 2 ^ k := by positivity
  omega

/-- **Java's division by `2 ^ k`** is the bias-and-shift: a negative dividend
biased by the mask `2 ^ k - 1`, shifted right arithmetically by `k`. -/
theorem HDiv.computeIntegral_two_pow {d : BitVec w} (positive : d.toInt = 2 ^ k) (x : BitVec w) :
    HDiv.computeIntegral x d = (if x.toInt < 0 then x + BitVec.ofNat w (2 ^ k - 1) else x).sshiftRight k := by
  have below := lt_of_natAbs_eq_two_pow (d := d) (by rw [positive, Int.natAbs_pow]; rfl)
  have notMinusOne := ne_neg_one_of_toInt_eq_two_pow positive
  apply BitVec.eq_of_toInt_eq
  rw [HDiv.computeIntegral, if_neg notMinusOne, BitVec.toInt_sdiv_of_ne_or_ne x d (Or.inr notMinusOne), positive,
    toInt_sshiftRight_biased below]

/-- **Java's division by `-2 ^ k`** is the negated bias-and-shift; for `k = 0` it is
the negation `HDiv::ComputeIntegral` takes for `-1`, which wraps for the most
negative dividend. -/
theorem HDiv.computeIntegral_neg_two_pow {d : BitVec w} (negative : d.toInt = -2 ^ k) (x : BitVec w) :
    HDiv.computeIntegral x d = -(if x.toInt < 0 then x + BitVec.ofNat w (2 ^ k - 1) else x).sshiftRight k := by
  have below := lt_of_natAbs_eq_two_pow (d := d) (by rw [negative, Int.natAbs_neg, Int.natAbs_pow]; rfl)
  rcases Nat.eq_zero_or_pos k with rfl | positive
  · have minusOne : d = -1 := by
      apply BitVec.eq_of_toInt_eq
      rw [negative, show (-1 : BitVec w) = BitVec.allOnes w from BitVec.neg_one_eq_allOnes, BitVec.toInt_allOnes,
        if_pos (by omega)]
      rfl
    simp [HDiv.computeIntegral, minusOne]
  · have two_le : 2 ≤ d.toInt.natAbs := by
      rw [negative, Int.natAbs_neg, Int.natAbs_pow]
      exact Nat.le_self_pow (by omega) 2
    have quotient := toInt_sshiftRight_biased below x
    apply BitVec.eq_of_toInt_eq
    rw [HDiv.toInt_computeIntegral x d two_le, toInt_neg_of_natAbs_lt _ (by rw [quotient]; exact natAbs_tdiv_two_pow_lt positive x),
      quotient, negative, Int.tdiv_neg]

/-- **Java's remainder by `±2 ^ k`** keeps the low `k` bits of the dividend biased by
its sign shifted right logically by `w - k`, less that bias. -/
theorem HRem.computeIntegral_of_natAbs_eq_two_pow {d : BitVec w} (power : d.toInt.natAbs = 2 ^ k) (x : BitVec w) :
    HRem.computeIntegral x d =
      ((x + (x.sshiftRight (w - 1)) >>> (w - k)) &&& BitVec.ofNat w (2 ^ k - 1)) - (x.sshiftRight (w - 1)) >>> (w - k) := by
  have below := lt_of_natAbs_eq_two_pow power
  apply BitVec.eq_of_toInt_eq
  rw [HRem.toInt_computeIntegral, toInt_remainder_biased below]
  rcases Int.natAbs_eq d.toInt with plus | minus
  · rw [plus, power]
    push_cast
    rfl
  · rw [minus, Int.tmod_neg, power]
    push_cast
    rfl

end PowerOfTwo

end Art.Compiler.Optimizing
