import Mathlib.Tactic.Ring

/-!
# Base-128 digits with continuation bits

A variable-length format stores an integer seven bits a byte, low bits first, and sets the
top bit of every byte but the last. The `i`-th of the `n` bytes of `x` is `byte x n i`; the
digits are those of `x` in base 128 with floor division, so for a negative `x` they are the
low bits of its two's complement. The bytes of `x` begin with its low seven bits and go on
with the bytes of `x / 128` (`bytes_succ`).

A reader that puts the low seven bits of each byte in place (`value`) holds after `k` bytes
the value `x % 2 ^ (7 * k)` (`value_of_bytes`). That is `x` itself when `x` is a natural number
below `2 ^ (7 * k)`; a reader of a signed value recovers `x` from those bits by the sign
extension of a pair of shifts in a word, when `x` fits in `7 * k` bits of two's complement
(`toInt_sshiftRight_shiftLeft_of_emod`).

How many bytes a writer emits depends on how many bits the last one may take: seven for an
unsigned value, six and a sign bit for a signed one. `digitCount k u` is that count for a
last byte of `k` bits: the least `n + 1` with `u < 2 ^ (k + 7 * n)` (`digitCount_eq`). For a
value of `B` bits it is `(B + 13 - k) / 7` (`digitCount_of_bitLength`). A signed value counts
the bits of its `magnitude`, which drops seven bits with each byte (`magnitude_ediv`).
-/

set_option autoImplicit false

namespace Art.Machine.Base128

/-! ## Bytes -/

/-- The `i`-th of the `n` bytes of `x`: seven bits of `x`, and the top bit when a byte follows. -/
def byte (x : Int) (n i : Nat) : Nat := (x / 2 ^ (7 * i) % 128).toNat + if i + 1 < n then 128 else 0

/-- The `n` bytes of `x`. -/
def bytes (x : Int) (n : Nat) : List UInt8 := (List.range n).map fun i => UInt8.ofNat (byte x n i)

variable {x : Int} {n i : Nat}

/-- The seven bits of a byte: a digit of `x` in base 128. -/
theorem digit_lt (x : Int) (i : Nat) : (x / 2 ^ (7 * i) % 128).toNat < 128 := by
  have := Int.emod_lt_of_pos (x / 2 ^ (7 * i)) (show (0 : Int) < 128 by decide)
  omega

theorem byte_lt : byte x n i < 256 := by
  have := digit_lt x i
  unfold byte
  split <;> omega

@[simp] theorem byte_mod : byte x n i % 128 = (x / 2 ^ (7 * i) % 128).toNat := by
  have := digit_lt x i
  unfold byte
  split <;> omega

/-- A byte has its top bit exactly when a byte follows it. -/
theorem byte_continues_iff : 127 < byte x n i ↔ i + 1 < n := by
  have := digit_lt x i
  unfold byte
  split <;> omega

/-- A byte that a byte follows stays as it is when the run grows. -/
theorem byte_succ_of_lt (early : i + 1 < n) : byte x (n + 1) i = byte x n i := by
  simp only [byte, if_pos early, if_pos (Nat.lt_succ_of_lt early)]

/-- The last byte gains its top bit when a byte is put after it. -/
theorem byte_last_succ : byte x (i + 2) i = byte x (i + 1) i + 128 := by
  simp [byte]

/-- The bytes past the bits of `x` are zero. -/
theorem byte_eq_zero_of_lt (nonneg : 0 ≤ x) (fits : x < 2 ^ (7 * i)) : byte x (i + 1) i = 0 := by
  simp [byte, Int.ediv_eq_zero_of_lt nonneg fits]

theorem toNat_ofNat_byte : (UInt8.ofNat (byte x n i)).toNat = byte x n i :=
  Nat.mod_eq_of_lt byte_lt

@[simp] theorem length_bytes : (bytes x n).length = n := by
  simp [bytes]

theorem getElem_bytes (inside : i < (bytes x n).length) :
    (bytes x n)[i] = UInt8.ofNat (byte x n i) := by
  simp [bytes]

/-- The bytes after the first are those of `x / 128`. -/
theorem byte_succ_succ : byte x (n + 1) (i + 1) = byte (x / 128) n i := by
  have shift : x / 2 ^ (7 * (i + 1)) = x / 128 / 2 ^ (7 * i) := by
    rw [Int.ediv_ediv_of_nonneg (by decide), show 7 * (i + 1) = 7 + 7 * i by ring, pow_add]
    rfl
  simp only [byte, shift, Nat.add_lt_add_iff_right]

theorem bytes_succ : bytes x (n + 1) = UInt8.ofNat (byte x (n + 1) 0) :: bytes (x / 128) n := by
  simp only [bytes, List.range_succ_eq_map, List.map_cons, List.map_map]
  congr 1
  exact List.map_congr_left fun i _ => by simp only [Function.comp_apply, byte_succ_succ]

/-- The first byte: the low seven bits, and the top bit when more bytes follow. -/
theorem byte_zero : byte x n 0 = (x % 128).toNat + if 1 < n then 128 else 0 := by
  simp [byte]

/-! ## Reading the digits back -/

/-- `x % (a * b)` in two digits, the low one in base `a`. -/
theorem emod_mul_eq (x a b : Int) (pos : 0 < a) : x % (a * b) = x % a + a * (x / a % b) := by
  rw [Int.emod_def x (a * b), Int.emod_def x a, Int.emod_def (x / a) b,
    ← Int.ediv_ediv_of_nonneg (Int.le_of_lt pos)]
  ring

/-- **One digit more**: the digits of `x` up to `k` are worth those below `k` and digit `k` in
its place. -/
theorem toNat_emod_two_pow_succ (x : Int) (k : Nat) :
    (x % 2 ^ (7 * (k + 1))).toNat = (x % 2 ^ (7 * k)).toNat + (x / 2 ^ (7 * k) % 128).toNat * 2 ^ (7 * k) := by
  have power : (0 : Int) < 2 ^ (7 * k) := Int.pow_pos (by decide)
  have cast : ((2 ^ (7 * k) : Nat) : Int) = 2 ^ (7 * k) := by norm_cast
  have low : 0 ≤ x % 2 ^ (7 * k) := Int.emod_nonneg _ (Int.ne_of_gt power)
  have high : 0 ≤ x / 2 ^ (7 * k) % 128 := Int.emod_nonneg _ (by decide)
  rw [show 7 * (k + 1) = 7 * k + 7 by ring, pow_add, show (2 : Int) ^ 7 = 128 by rfl, emod_mul_eq x _ 128 power,
    Int.toNat_add low (Int.mul_nonneg (Int.le_of_lt power) high), Int.toNat_mul (Int.le_of_lt power) high,
    ← cast, Int.toNat_natCast, Nat.mul_comm (2 ^ (7 * k))]

/-- The value of the low seven bits of the first `k` bytes, each in its place. -/
def value (byteAt : Nat → Nat) : Nat → Nat
  | 0 => 0
  | k + 1 => value byteAt k + byteAt k % 128 * 2 ^ (7 * k)

@[simp] theorem value_zero (byteAt : Nat → Nat) : value byteAt 0 = 0 := rfl

theorem value_one (byteAt : Nat → Nat) : value byteAt 1 = byteAt 0 % 128 := by
  simp [value]

theorem value_lt (byteAt : Nat → Nat) : ∀ k, value byteAt k < 2 ^ (7 * k)
  | 0 => by simp [value]
  | k + 1 => by
      have low := value_lt byteAt k
      have digit := Nat.mod_lt (byteAt k) (show 0 < 128 by decide)
      -- the new digit lies above the value of the bytes before it
      calc value byteAt k + byteAt k % 128 * 2 ^ (7 * k)
          < 2 ^ (7 * k) + byteAt k % 128 * 2 ^ (7 * k) := Nat.add_lt_add_right low _
        _ = (byteAt k % 128 + 1) * 2 ^ (7 * k) := by ring
        _ ≤ 128 * 2 ^ (7 * k) := Nat.mul_le_mul_right _ digit
        _ = 2 ^ (7 * (k + 1)) := by rw [show 7 * (k + 1) = 7 + 7 * k by ring, pow_add]; rfl

/-- A reader that ors each digit into place computes `value`: the digit lies above the bits
before it. -/
theorem value_succ_eq_or (byteAt : Nat → Nat) (k : Nat) :
    value byteAt (k + 1) = value byteAt k ||| (byteAt k &&& 0x7f) <<< (7 * k) := by
  have mask : byteAt k &&& 0x7f = byteAt k % 2 ^ 7 := Nat.and_two_pow_sub_one_eq_mod _ 7
  rw [value, mask, Nat.shiftLeft_eq, Nat.or_comm, Nat.mul_comm (byteAt k % 2 ^ 7),
    ← Nat.two_pow_add_eq_or_of_lt (value_lt byteAt k), Nat.add_comm, Nat.mul_comm]
  rfl

/-- **Reading the digits back**: the first `k` of the `n` bytes of `x` are worth `x` modulo
`2 ^ (7 * k)`. -/
theorem value_of_bytes {byteAt : Nat → Nat} (holds : ∀ i < n, byteAt i = byte x n i) :
    ∀ k ≤ n, value byteAt k = (x % 2 ^ (7 * k)).toNat
  | 0, _ => by simp [value]
  | k + 1, inside => by
      rw [value, value_of_bytes holds k (by omega), holds k (by omega), byte_mod, toNat_emod_two_pow_succ]

/-! ## Sign extension -/

section SignExtension

variable {w : Nat} {r : BitVec w} {x : Int}

/-- A word that holds the bits of `x` modulo `2 ^ w` reads as `x` in two's complement, when `x`
fits in `w` bits. -/
theorem toInt_of_toNat_eq_emod (bits : (r.toNat : Int) = x % 2 ^ w) (fits : -2 ^ w ≤ 2 * x ∧ 2 * x < 2 ^ w) :
    r.toInt = x := by
  have cast : ((2 ^ w : Nat) : Int) = 2 ^ w := by norm_cast
  rw [BitVec.toInt_eq_toNat_bmod, bits, ← cast, Int.emod_bmod]
  apply Int.bmod_eq_of_le <;> omega

/-- **Sign extension by a pair of shifts**: when the low `t` bits of a word are those of `x` and
`x` fits in `t` bits of two's complement, shifting them to the top and back with the sign gives
`x`. -/
theorem toInt_sshiftRight_shiftLeft_of_emod {t s : Nat} (width : w = t + s) (bits : (r.toNat : Int) = x % 2 ^ t)
    (fits : -2 ^ t ≤ 2 * x ∧ 2 * x < 2 ^ t) : ((r <<< s).sshiftRight s).toInt = x := by
  have power : (0 : Int) < 2 ^ s := Int.pow_pos (by decide)
  -- shifted to the top, the bits are those of `x * 2 ^ s`, which fits in the word
  have shifted : (r <<< s).toInt = x * 2 ^ s := by
    apply toInt_of_toNat_eq_emod
    · rw [BitVec.toNat_shiftLeft, Nat.shiftLeft_eq]
      push_cast
      rw [bits, width, pow_add, Int.mul_comm (x % 2 ^ t), Int.mul_comm x, Int.mul_comm (2 ^ t),
        Int.mul_emod_mul_of_pos _ _ power, Int.mul_emod_mul_of_pos _ _ power, Int.emod_emod]
    · rw [width, pow_add]
      constructor
      · have := Int.mul_le_mul_of_nonneg_right fits.1 (Int.le_of_lt power)
        rw [Int.neg_mul] at this
        rw [← Int.mul_assoc]
        exact this
      · rw [← Int.mul_assoc]
        exact Int.mul_lt_mul_of_pos_right fits.2 power
  have cast : ((2 ^ s : Nat) : Int) = 2 ^ s := by norm_cast
  rw [BitVec.toInt_sshiftRight, shifted, Int.shiftRight_eq_div_pow, cast, Int.mul_ediv_cancel _ (Int.ne_of_gt power)]

/-- The same with the sign taken from bit `t - 1` of the word: a shift pair is `Int.bmod`. -/
theorem toInt_sshiftRight_shiftLeft {t s : Nat} (width : w = t + s) (wide : 1 ≤ t) (small : r.toNat < 2 ^ t) :
    ((r <<< s).sshiftRight s).toInt = (r.toNat : Int).bmod (2 ^ t) := by
  have cast : ((2 ^ t : Nat) : Int) = 2 ^ t := by norm_cast
  have half : ((2 ^ t : Nat) : Int) = 2 * 2 ^ (t - 1) := by
    rw [cast, ← Int.pow_succ', Nat.sub_add_cancel wide]
  have low := Int.le_bmod (x := r.toNat) (Nat.two_pow_pos t)
  have high := Int.bmod_lt (x := r.toNat) (Nat.two_pow_pos t)
  apply toInt_sshiftRight_shiftLeft_of_emod width
  · rw [← cast, Int.bmod_emod, Int.emod_eq_of_lt (Int.natCast_nonneg _) (by omega)]
  · constructor <;> omega

end SignExtension

/-! ## How many bytes -/

/-- The number of bytes of `u` when the last may take `k` bits and every other seven. -/
def digitCount (k u : Nat) : Nat :=
  if small : u < 2 ^ k then 1 else digitCount k (u / 128) + 1
termination_by u
decreasing_by
  have : 0 < u := Nat.lt_of_lt_of_le (Nat.two_pow_pos k) (Nat.not_lt.1 small)
  omega

variable {k u : Nat}

theorem digitCount_of_lt (small : u < 2 ^ k) : digitCount k u = 1 := by
  rw [digitCount, dif_pos small]

theorem digitCount_of_le (big : 2 ^ k ≤ u) : digitCount k u = digitCount k (u / 128) + 1 := by
  rw [digitCount, dif_neg (Nat.not_lt.2 big)]

theorem one_le_digitCount : 1 ≤ digitCount k u := by
  rw [digitCount]
  split <;> omega

theorem two_pow_add_seven_mul_succ (k n : Nat) : 2 ^ (k + 7 * (n + 1)) = 2 ^ (k + 7 * n) * 128 := by
  rw [show k + 7 * (n + 1) = k + 7 * n + 7 by ring, pow_add]
  rfl

/-- **The count of bytes** is the least `n + 1` with `u < 2 ^ (k + 7 * n)`. -/
theorem digitCount_eq : ∀ {n u : Nat}, u < 2 ^ (k + 7 * n) → (n = 0 ∨ 2 ^ (k + 7 * (n - 1)) ≤ u) →
    digitCount k u = n + 1
  | 0, u, fits, _ => digitCount_of_lt (by simpa using fits)
  | n + 1, u, fits, needs => by
      have big : 2 ^ (k + 7 * n) ≤ u := by simpa using needs
      have large : 2 ^ k ≤ u := le_trans (Nat.pow_le_pow_right (by decide) (by omega)) big
      rw [digitCount_of_le large, digitCount_eq (n := n)]
      · rw [Nat.div_lt_iff_lt_mul (by decide), ← two_pow_add_seven_mul_succ]
        exact fits
      · rcases n with _ | n
        · exact Or.inl rfl
        · right
          rw [Nat.le_div_iff_mul_le (by decide), ← two_pow_add_seven_mul_succ]
          simpa using big

/-- A value below `2 ^ (k + 7 * m)` takes at most `m + 1` bytes. -/
theorem digitCount_le_of_lt : ∀ {m u : Nat}, u < 2 ^ (k + 7 * m) → digitCount k u ≤ m + 1
  | 0, u, fits => by rw [digitCount_of_lt (by simpa using fits)]
  | m + 1, u, fits => by
      by_cases small : u < 2 ^ k
      · rw [digitCount_of_lt small]
        omega
      · have rest : u / 128 < 2 ^ (k + 7 * m) := by
          rw [Nat.div_lt_iff_lt_mul (by decide), ← two_pow_add_seven_mul_succ]
          exact fits
        rw [digitCount_of_le (Nat.not_lt.1 small)]
        have := digitCount_le_of_lt rest
        omega

/-- `u` fits in its bytes. -/
theorem lt_two_pow_digitCount (k u : Nat) : u < 2 ^ (k + 7 * (digitCount k u - 1)) := by
  induction u using Nat.strong_induction_on with
  | _ u ih =>
    by_cases small : u < 2 ^ k
    · rw [digitCount_of_lt small]
      simpa using small
    · have big := Nat.not_lt.1 small
      have pos : 0 < u := Nat.lt_of_lt_of_le (Nat.two_pow_pos k) big
      have rest := ih (u / 128) (by omega)
      obtain ⟨d, count⟩ : ∃ d, digitCount k (u / 128) = d + 1 := ⟨_, (Nat.sub_add_cancel one_le_digitCount).symm⟩
      rw [count, Nat.add_sub_cancel, Nat.div_lt_iff_lt_mul (by decide), ← two_pow_add_seven_mul_succ] at rest
      rw [digitCount_of_le big, count, Nat.add_sub_cancel]
      exact rest

/-- **The count of bytes of a value of `B` bits**, for a last byte of `k` bits. -/
theorem digitCount_of_bitLength {B : Nat} (wide : 1 ≤ k) (narrow : k ≤ 7) (bits : 1 ≤ B) (below : u < 2 ^ B)
    (above : 2 ≤ B → 2 ^ (B - 1) ≤ u) : digitCount k u = (B + 13 - k) / 7 := by
  obtain ⟨n, count⟩ : ∃ n, (B + 13 - k) / 7 = n + 1 := ⟨(B + 13 - k) / 7 - 1, by omega⟩
  rw [count]
  apply digitCount_eq
  · exact lt_of_lt_of_le below (Nat.pow_le_pow_right (by decide) (by omega))
  · rcases n with _ | n
    · exact Or.inl rfl
    · exact Or.inr (le_trans (Nat.pow_le_pow_right (by decide) (by omega)) (above (by omega)))

/-- The bits that a signed value needs below its sign: those of `x`, or of `-x - 1` for a
negative `x`. -/
def magnitude (x : Int) : Nat := if 0 ≤ x then x.toNat else (-x - 1).toNat

/-- The next byte's magnitude is the magnitude without its low seven bits. -/
theorem magnitude_ediv (x : Int) : magnitude (x / 128) = magnitude x / 128 := by
  unfold magnitude
  split <;> split <;> omega

/-- A value whose magnitude takes `m` bits fits in `m + 1` bits of two's complement. -/
theorem fits_of_magnitude_lt {m : Nat} (lt : magnitude x < 2 ^ m) : -2 ^ (m + 1) ≤ 2 * x ∧ 2 * x < 2 ^ (m + 1) := by
  have cast : ((2 ^ m : Nat) : Int) = 2 ^ m := by norm_cast
  rw [pow_succ]
  unfold magnitude at lt
  split at lt <;> omega

end Art.Machine.Base128
