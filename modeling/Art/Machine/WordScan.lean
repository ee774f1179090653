import Mathlib.Data.Nat.Bitwise
import Mathlib.Data.List.Range

/-!
# Scanning the set bits of words

A bit array kept in words of `w` bits holds bit `j` in bit `j % w` of word `j / w`
(`bitAt`). The loop `do { s = CTZ(x); visit(s); x ^= 1 << s; } while (x != 0)`, entered
with a word that is not zero, visits the set bits of a word from the lowest (`scanBits`):
exactly the set bits, each once, in increasing order (`scanBits_eq_filter`). A word masked
to its bits from `low`, or below `high` (`getLsbD_lowBits`), visits the set bits of that
part, and the words of a range visited one after another give the set bits of the range
in order (`map_filter_range_word`, `flatten_map_words`).
-/

set_option autoImplicit false

namespace Art.Machine

variable {w : Nat}

/-- `1 << shift` has bit `shift` alone, when it is one of the word's. -/
theorem getLsbD_one_shiftLeft (shift i : Nat) :
    ((1#w) <<< shift).getLsbD i = (decide (i = shift) && decide (i < w)) := by
  rw [BitVec.getLsbD_shiftLeft, BitVec.getLsbD_one]
  by_cases same : i = shift
  · subst same
    by_cases inside : i < w <;> simp [inside]; omega
  · by_cases below : i < shift
    · simp [below, same]
    · simp [below, same]; omega

/-- Masking a word with `1 << s` tests bit `s`. -/
theorem and_one_shiftLeft_ne_zero (word : BitVec w) {s : Nat} (inside : s < w) :
    ((word &&& 1#w <<< s) != 0) = word.getLsbD s := by
  by_cases set : word.getLsbD s = true
  · have kept : (word &&& 1#w <<< s).getLsbD s = true := by
      rw [BitVec.getLsbD_and, getLsbD_one_shiftLeft, set]
      simp [inside]
    have nonzero : (word &&& 1#w <<< s) ≠ 0 := fun zero => by
      rw [zero] at kept
      simp at kept
    simp only [set, bne_iff_ne, ne_eq]
    exact nonzero
  · have cleared : (word &&& 1#w <<< s) = 0 := by
      apply BitVec.eq_of_getLsbD_eq
      intro i _
      rw [BitVec.getLsbD_and, getLsbD_one_shiftLeft]
      by_cases same : i = s
      · subst same
        simp [set]
      · simp [same]
    simp [cleared, set]

/-- Clearing the lowest set bit makes the word smaller. -/
theorem toNat_xor_ctz_lt {word : BitVec w} (nonzero : word ≠ 0) :
    (word ^^^ (1#w <<< word.ctz.toNat)).toNat < word.toNat := by
  have set := BitVec.getLsbD_true_ctz_of_ne_zero nonzero
  have inside : word.ctz.toNat < w := BitVec.lt_of_getLsbD set
  apply Nat.lt_of_testBit word.ctz.toNat
  · rw [← BitVec.getLsbD, BitVec.getLsbD_xor, getLsbD_one_shiftLeft, set]
    simp [inside]
  · rw [← BitVec.getLsbD]; exact set
  · intro j above
    rw [← BitVec.getLsbD, ← BitVec.getLsbD, BitVec.getLsbD_xor, getLsbD_one_shiftLeft]
    simp [show j ≠ word.ctz.toNat by omega]

/-- The loop over the set bits of a word: the lowest set bit (`CTZ`), then the loop on
the word with that bit cleared. -/
def scanBits (word : BitVec w) : List Nat :=
  if _ : word = 0 then []
  else word.ctz.toNat :: scanBits (word ^^^ (1#w <<< word.ctz.toNat))
termination_by word.toNat
decreasing_by exact toNat_xor_ctz_lt (by assumption)

/-- The indices below `n` where `p` holds are `s`, the lowest, followed by those where `q`
holds, when `q` is `p` with `s` cleared. -/
theorem filter_range_eq_cons {p q : Nat → Bool} {s : Nat} (set : p s = true)
    (noneBelow : ∀ i, i < s → p i = false) (clearedBelow : ∀ i, i ≤ s → q i = false)
    (above : ∀ i, s < i → q i = p i) :
    ∀ n, s < n → (List.range n).filter p = s :: (List.range n).filter q := by
  intro n
  induction n with
  | zero => intro h; omega
  | succ n ih =>
    intro bound
    rw [List.range_succ, List.filter_append, List.filter_append]
    by_cases last : n = s
    · subst last
      have pNil : (List.range n).filter p = [] :=
        List.filter_eq_nil_iff.2 fun i mem => by simp [noneBelow i (List.mem_range.1 mem)]
      have qNil : (List.range n).filter q = [] :=
        List.filter_eq_nil_iff.2 fun i mem => by simp [clearedBelow i (Nat.le_of_lt (List.mem_range.1 mem))]
      simp [pNil, qNil, set, clearedBelow n (Nat.le_refl n)]
    · rw [ih (by omega), List.filter_singleton, List.filter_singleton, above n (by omega)]
      rfl

/-- **The set bits, lowest first.** The loop visits exactly the set bits of the word, in
increasing order. The induction follows the loop: each run visits the lowest set bit and
goes on with it cleared. -/
theorem scanBits_eq_filter (word : BitVec w) : scanBits word = (List.range w).filter word.getLsbD := by
  induction word using scanBits.induct with
  | case1 =>
    rw [scanBits, dif_pos rfl]
    exact (List.filter_eq_nil_iff.2 fun i _ => by simp).symm
  | case2 word nonzero ih =>
    have set := BitVec.getLsbD_true_ctz_of_ne_zero nonzero
    have inside : word.ctz.toNat < w := BitVec.lt_of_getLsbD set
    rw [scanBits, dif_neg nonzero, ih]
    refine (filter_range_eq_cons set (fun i below => BitVec.getLsbD_false_of_lt_ctz below) ?_ ?_ w inside).symm
    · intro i atMost
      rw [BitVec.getLsbD_xor, getLsbD_one_shiftLeft]
      rcases Nat.lt_or_eq_of_le atMost with below | same
      · simp [BitVec.getLsbD_false_of_lt_ctz below, show i ≠ word.ctz.toNat by omega]
      · subst same; simp [set, inside]
    · intro i above
      rw [BitVec.getLsbD_xor, getLsbD_one_shiftLeft]
      simp [show i ≠ word.ctz.toNat by omega]

/-- `(1 << k) - 1` holds the bits below `k`. -/
theorem getLsbD_lowBits {k : Nat} (i : Nat) (small : k < w) :
    ((1#w <<< k) - 1).getLsbD i = decide (i < k) := by
  rw [show (1 : BitVec w) = 1#w from rfl]
  have below : 2 ^ k < 2 ^ w := Nat.pow_lt_pow_right (by decide) small
  have one : 1 < 2 ^ w := Nat.one_lt_two_pow (by omega)
  have power : (1#w <<< k).toNat = 2 ^ k := by
    rw [BitVec.toNat_shiftLeft, BitVec.toNat_one (by omega), Nat.one_shiftLeft, Nat.mod_eq_of_lt below]
  have positive : 1 ≤ 2 ^ k := Nat.one_le_two_pow
  have lowBits : ((1#w <<< k) - 1#w).toNat = 2 ^ k - 1 := by
    rw [BitVec.toNat_sub, power, BitVec.toNat_one (by omega)]
    rw [show 2 ^ w - 1 + 2 ^ k = (2 ^ k - 1) + 2 ^ w by omega, Nat.add_mod_right, Nat.mod_eq_of_lt (by omega)]
  rw [BitVec.getLsbD, lowBits, Nat.testBit_two_pow_sub_one]

/-- The bits of a bit array kept in words of `w` bits, bit `j` in word `j / w`. -/
def bitAt (words : List (BitVec w)) (j : Nat) : Bool := (words.getD (j / w) 0).getLsbD (j % w)

/-- A filter that keeps nothing outside `[low, high)` of `[0, n)` filters `[low, high)`. -/
theorem filter_range_eq_filter_range' {keep : Nat → Bool} {low high n : Nat} (ordered : low ≤ high)
    (fits : high ≤ n) (outside : ∀ s, s < n → (s < low ∨ high ≤ s) → keep s = false) :
    (List.range n).filter keep = (List.range' low (high - low)).filter keep := by
  have split : List.range n = List.range' 0 low ++ List.range' low (high - low) ++ List.range' high (n - high) := by
    have first := @List.range'_append_1 0 low (high - low)
    have second := @List.range'_append_1 0 high (n - high)
    rw [Nat.zero_add, show low + (high - low) = high by omega] at first
    rw [Nat.zero_add, show high + (n - high) = n by omega] at second
    rw [first, second, List.range_eq_range']
  have lowNil : (List.range' 0 low).filter keep = [] :=
    List.filter_eq_nil_iff.2 fun s mem => by
      rw [List.mem_range'_1] at mem
      simp [outside s (by omega) (.inl (by omega))]
  have highNil : (List.range' high (n - high)).filter keep = [] :=
    List.filter_eq_nil_iff.2 fun s mem => by
      rw [List.mem_range'_1] at mem
      simp [outside s (by omega) (.inr (by omega))]
  rw [split, List.filter_append, List.filter_append, lowNil, highNil, List.nil_append, List.append_nil]

/-- The set bits of word `i`, from `low` below `high`, numbered across the array. -/
theorem map_filter_range_word (words : List (BitVec w)) (i : Nat) {low high : Nat} (ordered : low ≤ high)
    (fits : high ≤ w) {keep : Nat → Bool}
    (kept : ∀ s, s < w → keep s = (decide (low ≤ s) && decide (s < high) && (words.getD i 0).getLsbD s)) :
    ((List.range w).filter keep).map (w * i + ·) = (List.range' (w * i + low) (high - low)).filter (bitAt words) := by
  have restricted : (List.range w).filter keep = (List.range' low (high - low)).filter keep :=
    filter_range_eq_filter_range' ordered fits fun s below outside => by
      rw [kept s below]
      rcases outside with belowLow | atHigh
      · simp [belowLow, Nat.not_le_of_gt]
      · simp [Nat.not_lt_of_ge atHigh]
  rw [restricted, ← List.map_add_range', List.filter_map]
  congr 1
  apply List.filter_congr
  intro s mem
  rw [List.mem_range'_1] at mem
  have wordOf : (w * i + s) / w = i := by
    rw [Nat.mul_add_div (by omega), Nat.div_eq_of_lt (by omega), Nat.add_zero]
  have bitOf : (w * i + s) % w = s := by
    rw [Nat.mul_add_mod, Nat.mod_eq_of_lt (by omega)]
  simp [kept s (by omega), bitAt, wordOf, bitOf, show low ≤ s by omega, show s < high by omega]

/-- Two adjacent ranges make one. -/
theorem range'_append_of_le {a b c : Nat} (first : a ≤ b) (second : b ≤ c) :
    List.range' a (b - a) ++ List.range' b (c - b) = List.range' a (c - a) := by
  have joined := @List.range'_append_1 a (b - a) (c - b)
  rw [show a + (b - a) = b by omega, show b - a + (c - b) = c - a by omega] at joined
  exact joined

/-- The positions of consecutive words of `k`, one word after another. -/
theorem flatMap_range'_words (k first : Nat) :
    ∀ n, (List.range' first n).flatMap (fun word => List.range' (k * word) k) = List.range' (k * first) (k * n)
  | 0 => rfl
  | n + 1 => by
    rw [List.range'_concat, List.flatMap_append, flatMap_range'_words k first n, List.flatMap_cons, List.flatMap_nil,
      List.append_nil, Nat.one_mul, Nat.mul_add, List.range'_append_1, Nat.mul_succ]

/-- The set bits of the whole words `i` to `i + count - 1`, word after word. -/
theorem flatten_map_words (words : List (BitVec w)) (count : Nat) :
    ∀ i, ((List.range' i count).map fun i => ((List.range w).filter (words.getD i 0).getLsbD).map (w * i + ·)).flatten =
      (List.range' (w * i) (w * count)).filter (bitAt words) := by
  induction count with
  | zero => intro i; simp
  | succ count ih =>
    intro i
    have whole := @map_filter_range_word w words i 0 w (Nat.zero_le w) (Nat.le_refl w)
      (words.getD i 0).getLsbD fun s below => by simp [below]
    rw [Nat.add_zero, Nat.sub_zero] at whole
    rw [List.range'_succ, List.map_cons, List.flatten_cons, ih (i + 1), whole, ← List.filter_append,
      Nat.mul_succ, List.range'_append_1, Nat.add_comm w, ← Nat.mul_succ]

end Art.Machine
