import Mathlib.Data.BitVec

/-!
# Bits of a memory of bytes

A memory of bytes is also a memory of bits: the bit at bit address `a` is bit
`a % 8` of byte `a / 8`, the least significant bit first (`memoryBit`). A write of
bits changes the bits from an address on and no others (`BitsWritten`). The store
of a byte that keeps its bits outside a field is a write of the field
(`bitsWritten_update`), and two writes, the second where the first ends, are one
write (`BitsWritten.append`).

`n` bits read into a value of `w` bits are the sum of each bit shifted to its
place (`sumBits`). Since the shifted bits do not overlap, bit `k` of the sum is
bit `k` for `k < n` and zero above (`getLsbD_sumBits`), and a value is the sum of
its own bits below `n` when it has no bits above (`eq_sumBits_of_getLsbD`).
-/

set_option autoImplicit false

namespace Art.Machine

variable {w : Nat}

/-! ## Values from bits -/

/-- The value of the first `n` of a sequence of bits: the sum of each bit shifted to
its place, as a loop over the bits builds it. -/
def sumBits (w : Nat) (bits : Nat → Bool) (n : Nat) : BitVec w :=
  (List.range n).foldl (fun value k => value + (BitVec.ofBool (bits k)).setWidth w <<< k) 0

theorem sumBits_succ (bits : Nat → Bool) (n : Nat) :
    sumBits w bits (n + 1) = sumBits w bits n + (BitVec.ofBool (bits n)).setWidth w <<< n := by
  rw [sumBits, sumBits, List.range_succ, List.foldl_append, List.foldl_cons, List.foldl_nil]

/-- The shifted bit `n` is bit `n` and nothing else. -/
theorem getLsbD_shiftLeft_ofBool (bit : Bool) (n k : Nat) :
    ((BitVec.ofBool bit).setWidth w <<< n).getLsbD k = (decide (k < w) && decide (k = n) && bit) := by
  simp only [BitVec.getLsbD_shiftLeft, BitVec.getLsbD_setWidth, BitVec.getLsbD_ofBool]
  by_cases inside : k < w
  · by_cases same : k = n
    · subst same
      simp [inside, Nat.lt_of_le_of_lt (Nat.zero_le k) inside]
    · by_cases below : k < n
      · simp [below, same]
      · have : k - n ≠ 0 := by omega
        simp [this, same]
  · simp [inside]

/-- Bit `k` of the sum of `n` bits is bit `k` below `n`, and zero above. The
induction is on `n`: the bit added at `n` does not meet the bits below it, so the
sum is their disjunction. -/
theorem getLsbD_sumBits (bits : Nat → Bool) {n : Nat} (fits : n ≤ w) (k : Nat) :
    (sumBits w bits n).getLsbD k = (decide (k < n) && bits k) := by
  induction n generalizing k with
  | zero => simp [sumBits]
  | succ n ih =>
    have disjoint : sumBits w bits n &&& (BitVec.ofBool (bits n)).setWidth w <<< n = 0 := by
      apply BitVec.eq_of_getLsbD_eq
      intro j _
      rw [BitVec.getLsbD_and, ih (by omega), getLsbD_shiftLeft_ofBool]
      by_cases same : j = n <;> simp [same]
    rw [sumBits_succ, BitVec.add_eq_or_of_and_eq_zero _ _ disjoint, BitVec.getLsbD_or, ih (by omega),
      getLsbD_shiftLeft_ofBool]
    by_cases same : k = n
    · subst same
      simp [Nat.lt_of_lt_of_le (Nat.lt_succ_self k) fits]
    · by_cases below : k < n
      · simp [below, same, Nat.lt_succ_of_lt below]
      · have : ¬k < n + 1 := by omega
        simp [below, same, this]

/-- A value whose bits below `n` are the given bits and with no bits above is their
sum. -/
theorem eq_sumBits_of_getLsbD {value : BitVec w} {bits : Nat → Bool} {n : Nat} (fits : n ≤ w)
    (same : ∀ k < n, value.getLsbD k = bits k) (above : ∀ k, n ≤ k → value.getLsbD k = false) :
    value = sumBits w bits n := by
  apply BitVec.eq_of_getLsbD_eq
  intro k _
  rw [getLsbD_sumBits bits fits]
  by_cases below : k < n
  · simp [below, same k below]
  · simp [below, above k (by omega)]

/-- A value below `2^n` has no bits from `n` on. -/
theorem getLsbD_eq_false_of_toNat_lt {value : BitVec w} {n : Nat} (small : value.toNat < 2 ^ n) {k : Nat}
    (above : n ≤ k) : value.getLsbD k = false := by
  rw [← BitVec.testBit_toNat]
  exact Nat.testBit_lt_two_pow (lt_of_lt_of_le small (Nat.pow_le_pow_right (by decide) above))

/-- `(1 << n) - 1` has the bits below `n`. -/
theorem getLsbD_shiftLeft_one_sub_one {n : Nat} (small : n < w) (j : Nat) :
    ((1 : BitVec w) <<< n - 1).getLsbD j = decide (j < n) := by
  have pow_lt : 2 ^ n < 2 ^ w := Nat.pow_lt_pow_right (by decide) small
  have positive : 1 ≤ 2 ^ n := Nat.one_le_two_pow
  have one : (1 : BitVec w).toNat = 1 := BitVec.toNat_one (by omega)
  have shifted : ((1 : BitVec w) <<< n).toNat = 2 ^ n := by
    rw [BitVec.toNat_shiftLeft, one, Nat.one_shiftLeft, Nat.mod_eq_of_lt pow_lt]
  have value : ((1 : BitVec w) <<< n - 1).toNat = 2 ^ n - 1 := by
    rw [BitVec.toNat_sub, shifted, one, show 2 ^ w - 1 + 2 ^ n = 2 ^ n - 1 + 2 ^ w by omega, Nat.add_mod_right,
      Nat.mod_eq_of_lt (by omega)]
  rw [← BitVec.testBit_toNat, value, Nat.testBit_two_pow_sub_one]

/-- `1 << j`, taken to another width, is the mask of bit `j`. -/
theorem setWidth_shiftLeft_one {v j : Nat} (small : j < v) : ((1 : BitVec v) <<< j).setWidth w = BitVec.twoPow w j := by
  apply BitVec.eq_of_getLsbD_eq
  intro i below
  rw [BitVec.getLsbD_setWidth, BitVec.getLsbD_shiftLeft, BitVec.getLsbD_twoPow]
  by_cases same : i = j
  · subst same
    simp [small, below, Nat.lt_of_le_of_lt (Nat.zero_le i) small]
  · by_cases lower : i < j
    · simp [lower, Ne.symm same]
    · have : i - j ≠ 0 := by omega
      simp [lower, this, Ne.symm same]

/-- The mask of bit `j` picks bit `j`. -/
theorem and_twoPow_ne_zero (value : BitVec w) {j : Nat} (small : j < w) :
    (value &&& BitVec.twoPow w j != 0#w) = value.getLsbD j := by
  have nonzero : BitVec.twoPow w j ≠ 0#w := by
    intro zero
    have bit := BitVec.getLsbD_twoPow (w := w) j j
    rw [zero, BitVec.getLsbD_zero] at bit
    simp [small] at bit
  rw [BitVec.and_twoPow]
  cases value.getLsbD j <;> simp [nonzero]

/-! ## Bits in memory -/

section Memory

variable {memory middle written : Nat → BitVec 8} {base first second : Nat} {bits : Nat → Bool}

/-- The bit at bit address `address`: bit `address % 8` of byte `address / 8`. -/
def memoryBit (memory : Nat → BitVec 8) (address : Nat) : Bool := (memory (address / 8)).getLsbD (address % 8)

/-- Bit `j` from the start of byte `address`. -/
theorem memoryBit_eq (memory : Nat → BitVec 8) (address j : Nat) :
    memoryBit memory (8 * address + j) = (memory (address + j / 8)).getLsbD (j % 8) := by
  rw [memoryBit, show (8 * address + j) / 8 = address + j / 8 by omega, show (8 * address + j) % 8 = j % 8 by omega]

/-- `written` is `memory` with `n` bits written from bit address `base` on. -/
def BitsWritten (written memory : Nat → BitVec 8) (base n : Nat) (bits : Nat → Bool) : Prop :=
  ∀ address, memoryBit written address =
    if base ≤ address ∧ address < base + n then bits (address - base) else memoryBit memory address

theorem BitsWritten.nil : BitsWritten memory memory base 0 bits := by
  intro address
  rw [if_neg (by omega)]

theorem BitsWritten.bit {n : Nat} (write : BitsWritten written memory base n bits) {k : Nat} (below : k < n) :
    memoryBit written (base + k) = bits k := by
  rw [write, if_pos (by omega), Nat.add_sub_cancel_left]

theorem BitsWritten.frame {n : Nat} (write : BitsWritten written memory base n bits) {address : Nat}
    (outside : address < base ∨ base + n ≤ address) : memoryBit written address = memoryBit memory address := by
  rw [write, if_neg (by omega)]

/-- A write of `first` bits, then of `second` bits where the first end, is a write
of both. -/
theorem BitsWritten.append (before : BitsWritten middle memory base first bits)
    (after : BitsWritten written middle (base + first) second fun k => bits (first + k)) :
    BitsWritten written memory base (first + second) bits := by
  intro address
  rw [after address]
  by_cases late : base + first ≤ address ∧ address < base + first + second
  · rw [if_pos late, if_pos (by omega)]
    exact congrArg bits (by omega)
  · rw [if_neg late, before address]
    by_cases early : base ≤ address ∧ address < base + first
    · rw [if_pos early, if_pos (by omega)]
    · rw [if_neg early, if_neg (by omega)]

/-- A store of a byte that holds `n` bits from bit `low` on, and the bits of the old
byte elsewhere, is a write of the `n` bits. -/
theorem bitsWritten_update {address low n : Nat} (fits : low + n ≤ 8) {byte : BitVec 8}
    (same : ∀ j < 8, byte.getLsbD j = if low ≤ j ∧ j < low + n then bits (j - low) else (memory address).getLsbD j) :
    BitsWritten (Function.update memory address byte) memory (8 * address + low) n bits := by
  intro bitAddress
  unfold memoryBit
  by_cases inByte : bitAddress / 8 = address
  · -- the stored byte: its bit `bitAddress % 8` is in the field or kept
    rw [inByte, Function.update_self, same (bitAddress % 8) (Nat.mod_lt _ (by decide))]
    by_cases field : low ≤ bitAddress % 8 ∧ bitAddress % 8 < low + n
    · rw [if_pos field, if_pos (by omega), show bitAddress % 8 - low = bitAddress - (8 * address + low) by omega]
    · rw [if_neg field, if_neg (by omega)]
  · rw [Function.update_of_ne inByte, if_neg (by omega)]

end Memory

end Art.Machine
