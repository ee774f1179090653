import Art.Machine.Loop
import Mathlib.Data.BitVec
import Mathlib.Data.Nat.Digits.Defs

/-!
# Little-endian bytes

A value of `n` bytes is stored byte by byte from the least significant, byte `i`
being `(value >> (i * 8)) & 0xff`, and read back as the sum of the bytes, each
shifted to its place. Reading the bytes of a value gives the value
(`sumLittleEndian_littleEndianByte`): the sum of the first `k` bytes is the value
modulo `2^(8k)`, and no sum overflows. The other way round, where the bytes fit the sum
is the number whose digits in base `2^8` they are (`toNat_sumLittleEndian`), so reading
the bytes of a sum gives the bytes (`littleEndianByte_sumLittleEndian`), and the sum is
zero exactly when every byte is (`sumLittleEndian_eq_zero_iff`).

A memory of bytes holds a list of bytes from an address on (`HoldsAt`); a write of
a list changes the memory there and nowhere else (`WrittenAt`). Two writes one
after the other are a write of the two lists (`WrittenAt.append`).
-/

set_option autoImplicit false

namespace Art.Machine

variable {w : Nat}

/-- Byte `i` of a value, from the least significant: `(value >> (i * 8)) & 0xff`. -/
def littleEndianByte (value : BitVec w) (i : Nat) : BitVec 8 := ((value >>> (i * 8)) &&& 0xff).setWidth 8

/-- The value of the first `n` of a sequence of bytes, read little-endian: the sum of
each byte shifted to its place, as a loop over the bytes builds it. -/
def sumLittleEndian (w : Nat) (bytes : Nat → BitVec 8) (n : Nat) : BitVec w :=
  (List.range n).foldl (fun value i => value + (bytes i).setWidth w <<< (i * 8)) 0

theorem toNat_littleEndianByte (wide : 8 ≤ w) (value : BitVec w) (i : Nat) :
    (littleEndianByte value i).toNat = value.toNat / 2 ^ (i * 8) % 2 ^ 8 := by
  have mask : (0xff : BitVec w).toNat = 2 ^ 8 - 1 := by
    show (BitVec.ofNat w 255).toNat = _
    rw [BitVec.toNat_ofNat, Nat.mod_eq_of_lt (lt_of_lt_of_le (by decide) (Nat.pow_le_pow_right (by omega) wide))]
    rfl
  simp only [littleEndianByte, BitVec.toNat_setWidth, BitVec.toNat_and, BitVec.toNat_ushiftRight, mask,
    Nat.and_two_pow_sub_one_eq_mod, Nat.mod_mod, Nat.shiftRight_eq_div_pow]

/-- The bytes of a value, read back, give the value. The loop invariant: after `k`
bytes the sum is the value modulo `2^(8k)`. -/
theorem sumLittleEndian_littleEndianByte {n : Nat} (value : BitVec (8 * n)) :
    sumLittleEndian (8 * n) (littleEndianByte value) n = value := by
  rcases Nat.eq_zero_or_pos n with rfl | positive
  · apply BitVec.eq_of_toNat_eq
    have sum := (sumLittleEndian (8 * 0) (littleEndianByte value) 0).isLt
    have bound := value.isLt
    simp only [Nat.mul_zero, Nat.pow_zero] at sum bound
    omega
  apply BitVec.eq_of_toNat_eq
  have done := foldl_range_invariant (fun sum i => sum + (littleEndianByte value i).setWidth (8 * n) <<< (i * 8))
    (fun k sum => sum.toNat = value.toNat % 2 ^ (k * 8)) n 0 (by simp [Nat.mod_one])
    (fun i sum below holds => by
      -- the byte fills the bits from `8i`, above the sum so far and below `8n`
      have byte := toNat_littleEndianByte (by omega) value i
      have byteBound : (littleEndianByte value i).toNat < 2 ^ 8 := (littleEndianByte value i).isLt
      have fits : 2 ^ ((i + 1) * 8) ≤ 2 ^ (8 * n) := Nat.pow_le_pow_right (by omega) (by omega)
      have split : 2 ^ ((i + 1) * 8) = 2 ^ (i * 8) * 2 ^ 8 := by rw [Nat.add_mul, Nat.one_mul, Nat.pow_add]
      have scaled : (littleEndianByte value i).toNat * 2 ^ (i * 8) ≤ (2 ^ 8 - 1) * 2 ^ (i * 8) :=
        Nat.mul_le_mul_right _ (by omega)
      have lower : value.toNat % 2 ^ (i * 8) < 2 ^ (i * 8) := Nat.mod_lt _ (Nat.two_pow_pos _)
      simp only [BitVec.toNat_add, BitVec.toNat_shiftLeft, BitVec.toNat_setWidth, holds, Nat.shiftLeft_eq]
      rw [Nat.mod_eq_of_lt (a := (littleEndianByte value i).toNat) (by omega),
        Nat.mod_eq_of_lt (a := (littleEndianByte value i).toNat * 2 ^ (i * 8)) (by omega), split, Nat.mod_mul, byte]
      rw [byte] at scaled
      rw [Nat.mod_eq_of_lt (by omega), Nat.mul_comm (2 ^ (i * 8))])
  have whole : value.toNat % 2 ^ (n * 8) = value.toNat :=
    Nat.mod_eq_of_lt (lt_of_lt_of_eq value.isLt (by rw [Nat.mul_comm]))
  rw [← whole]
  exact done

/-- Only the first `n` bytes count. -/
theorem sumLittleEndian_congr {bytes bytes' : Nat → BitVec 8} {n : Nat} (same : ∀ i < n, bytes i = bytes' i) :
    sumLittleEndian w bytes n = sumLittleEndian w bytes' n :=
  List.foldl_ext _ _ _ fun value i mem => by rw [same i (List.mem_range.1 mem)]

theorem sumLittleEndian_succ (bytes : Nat → BitVec 8) (n : Nat) :
    sumLittleEndian w bytes (n + 1) = sumLittleEndian w bytes n + (bytes n).setWidth w <<< (n * 8) := by
  rw [sumLittleEndian, sumLittleEndian, List.range_succ, List.foldl_append, List.foldl_cons, List.foldl_nil]

/-- Where the bytes fit, their sum is the number whose digits in base `2^8` they are. -/
theorem toNat_sumLittleEndian (bytes : Nat → BitVec 8) {n : Nat} (fits : 8 * n ≤ w) :
    (sumLittleEndian w bytes n).toNat = Nat.ofDigits (2 ^ 8) ((List.range n).map fun i => (bytes i).toNat) := by
  induction n with
  | zero => simp [sumLittleEndian]
  | succ n ih =>
      have digits : ∀ x ∈ (List.range n).map fun i => (bytes i).toNat, x < 2 ^ 8 := by
        intro x mem
        obtain ⟨i, -, rfl⟩ := List.mem_map.1 mem
        exact (bytes i).isLt
      have lower := Nat.ofDigits_lt_base_pow_length (by decide) digits
      have byte := (bytes n).isLt
      have place : (2 ^ 8) ^ n = 2 ^ (n * 8) := by rw [← Nat.pow_mul, Nat.mul_comm]
      have room : 2 ^ (n * 8) * 2 ^ 8 ≤ 2 ^ w := by
        rw [← Nat.pow_add]
        exact Nat.pow_le_pow_right (by decide) (by omega)
      have small : (bytes n).toNat < 2 ^ w := lt_of_lt_of_le byte (Nat.pow_le_pow_right (by decide) (by omega))
      have scaled : (bytes n).toNat * 2 ^ (n * 8) ≤ (2 ^ 8 - 1) * 2 ^ (n * 8) := Nat.mul_le_mul_right _ (by omega)
      rw [List.length_map, List.length_range, place] at lower
      rw [sumLittleEndian_succ, BitVec.toNat_add, BitVec.toNat_shiftLeft, BitVec.toNat_setWidth, ih (by omega),
        Nat.mod_eq_of_lt small, Nat.shiftLeft_eq, List.range_succ, List.map_append, Nat.ofDigits_append,
        List.map_singleton, Nat.ofDigits_singleton, List.length_map, List.length_range, place, Nat.mul_comm (2 ^ _)]
      rw [Nat.sub_mul, Nat.one_mul] at scaled
      have total : Nat.ofDigits (2 ^ 8) ((List.range n).map fun i => (bytes i).toNat) + (bytes n).toNat * 2 ^ (n * 8) <
          2 ^ w := by
        rw [Nat.mul_comm (2 ^ 8)] at scaled
        omega
      rw [Nat.mod_eq_of_lt (lt_of_le_of_lt (Nat.le_add_left _ _) total), Nat.mod_eq_of_lt total]

/-- The bytes of a sum of bytes that fit are the bytes. -/
theorem littleEndianByte_sumLittleEndian (bytes : Nat → BitVec 8) {n i : Nat} (fits : 8 * n ≤ w) (inside : i < n) :
    littleEndianByte (sumLittleEndian w bytes n) i = bytes i := by
  have digits : ∀ x ∈ (List.range n).map fun i => (bytes i).toNat, x < 2 ^ 8 := by
    intro x mem
    obtain ⟨i, -, rfl⟩ := List.mem_map.1 mem
    exact (bytes i).isLt
  have place : 2 ^ (i * 8) = (2 ^ 8) ^ i := by rw [← Nat.pow_mul, Nat.mul_comm]
  apply BitVec.eq_of_toNat_eq
  rw [toNat_littleEndianByte (by omega), toNat_sumLittleEndian bytes fits, place,
    Nat.ofDigits_div_pow_eq_ofDigits_drop i (by decide) _ digits, List.drop_eq_getElem_cons (by simpa using inside),
    Nat.ofDigits_cons, Nat.add_mul_mod_self_left, List.getElem_map, List.getElem_range]
  exact Nat.mod_eq_of_lt (bytes i).isLt

/-- A sum of bytes that fit is zero exactly when every byte is. -/
theorem sumLittleEndian_eq_zero_iff (bytes : Nat → BitVec 8) {n : Nat} (fits : 8 * n ≤ w) :
    sumLittleEndian w bytes n = 0 ↔ ∀ i < n, bytes i = 0 := by
  constructor
  · intro zero i inside
    rw [← littleEndianByte_sumLittleEndian bytes fits inside, zero]
    simp [littleEndianByte]
  · intro zeros
    apply BitVec.eq_of_toNat_eq
    have digits : ((List.range n).map fun i => (bytes i).toNat) = (List.range n).map fun _ => 0 :=
      List.map_congr_left fun i mem => by rw [zeros i (List.mem_range.1 mem)]; rfl
    rw [toNat_sumLittleEndian bytes fits, digits, List.map_const', Nat.ofDigits_replicate_zero]
    rfl

/-! ## Bytes in memory -/

section Memory

variable {memory middle written : Nat → BitVec 8} {base : Nat} {bytes first second : List (BitVec 8)}

/-- `memory` holds `bytes` from `base` on. -/
def HoldsAt (memory : Nat → BitVec 8) (base : Nat) (bytes : List (BitVec 8)) : Prop :=
  ∀ t < bytes.length, bytes[t]? = some (memory (base + t))

/-- `written` is `memory` with `bytes` written from `base` on. -/
structure WrittenAt (written memory : Nat → BitVec 8) (base : Nat) (bytes : List (BitVec 8)) : Prop where
  holds : HoldsAt written base bytes
  frame : ∀ address, address < base ∨ base + bytes.length ≤ address → written address = memory address

theorem WrittenAt.nil : WrittenAt memory memory base [] :=
  ⟨fun t below => absurd below (Nat.not_lt_zero t), fun _ _ => rfl⟩

theorem HoldsAt.left (holds : HoldsAt memory base (first ++ second)) : HoldsAt memory base first := by
  intro t below
  rw [← List.getElem?_append_left below]
  exact holds t (by rw [List.length_append]; omega)

theorem HoldsAt.right (holds : HoldsAt memory base (first ++ second)) :
    HoldsAt memory (base + first.length) second := by
  intro t below
  have := holds (first.length + t) (by rw [List.length_append]; omega)
  rw [List.getElem?_append_right (by omega), Nat.add_sub_cancel_left] at this
  rw [this, Nat.add_assoc]

/-- A store of one byte is a write of it. -/
theorem writtenAt_update (memory : Nat → BitVec 8) (address : Nat) (byte : BitVec 8) :
    WrittenAt (Function.update memory address byte) memory address [byte] := by
  refine ⟨fun t below => ?_, fun other outside => Function.update_of_ne ?_ _ _⟩
  swap
  · rw [List.length_singleton] at outside
    omega
  obtain rfl : t = 0 := by simpa using below
  rw [Nat.add_zero, Function.update_self]
  rfl

/-- A write of `first` and then of `second` where `first` ends is a write of both. -/
theorem WrittenAt.append (before : WrittenAt middle memory base first)
    (after : WrittenAt written middle (base + first.length) second) :
    WrittenAt written memory base (first ++ second) := by
  refine ⟨fun t below => ?_, fun address outside => ?_⟩
  · rw [List.length_append] at below
    by_cases early : t < first.length
    · -- a byte of `first`, which the second write leaves alone
      rw [List.getElem?_append_left early, before.holds t early, after.frame (base + t) (Or.inl (by omega))]
    · have := after.holds (t - first.length) (by omega)
      rw [List.getElem?_append_right (by omega), this, show base + first.length + (t - first.length) = base + t by omega]
  · rw [List.length_append] at outside
    rw [after.frame address (by omega), before.frame address (by omega)]

end Memory

end Art.Machine
