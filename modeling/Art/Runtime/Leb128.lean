import Mathlib.Data.Nat.Bitwise
import Art.Machine.Base128

/-!
# LEB128 decoding

Dex files store many sizes and indices as LEB128: seven bits of the value in each byte, low
bits first, with the top bit set on every byte but the last. A 32-bit value takes at most five
bytes, and the decoders keep whatever the fifth byte holds above bit 31 out of the result only
by the final cast to 32 bits. The signed decoder sign-extends the bits it has read by a pair of
shifts.

Memory is a function from addresses to bytes and a pointer is an address. A LEB128 ends at its
first byte below `0x80`, or at its fifth (`leb128Length`). A checked decoder stops with no
result, and so writes neither `*data` nor `*out`, exactly when that end is not before `end`;
otherwise it returns what the unchecked decoder returns (`decodeLeb128Checked_eq_if`). What the
decoders return is the value of the low seven bits of the bytes read (`decodeUnsignedLeb128_eq`,
`decodeSignedLeb128_eq`), so they read back the bytes `Base128.bytes` of a value that fits
(`decodeUnsignedLeb128_of_bytes`, `decodeSignedLeb128_of_bytes`).
-/

set_option autoImplicit false

namespace Art.Runtime

open Art.Machine

/-- `DecodeUnsignedLeb128`: the value and the pointer just past it. -/
def decodeUnsignedLeb128 (memory : Nat → UInt8) (data : Nat) : UInt32 × Nat :=
  let result := (memory data).toNat
  if result > 0x7f then
    let cur := (memory (data + 1)).toNat
    let result := (result &&& 0x7f) ||| ((cur &&& 0x7f) <<< 7)
    if cur > 0x7f then
      let cur := (memory (data + 2)).toNat
      let result := result ||| ((cur &&& 0x7f) <<< 14)
      if cur > 0x7f then
        let cur := (memory (data + 3)).toNat
        let result := result ||| ((cur &&& 0x7f) <<< 21)
        if cur > 0x7f then
          -- The four high-order bits of the fifth byte are not checked.
          let cur := (memory (data + 4)).toNat
          (UInt32.ofNat (result ||| (cur <<< 28)), data + 5)
        else (UInt32.ofNat result, data + 4)
      else (UInt32.ofNat result, data + 3)
    else (UInt32.ofNat result, data + 2)
  else (UInt32.ofNat result, data + 1)

/-- `DecodeUnsignedLeb128Checked`: as `DecodeUnsignedLeb128`, but no byte at or
past `endPtr` is read; the decoding fails instead. -/
def decodeUnsignedLeb128Checked (memory : Nat → UInt8) (data endPtr : Nat) : Option (UInt32 × Nat) :=
  if data ≥ endPtr then none
  else
    let result := (memory data).toNat
    if result > 0x7f then
      if data + 1 ≥ endPtr then none
      else
        let cur := (memory (data + 1)).toNat
        let result := (result &&& 0x7f) ||| ((cur &&& 0x7f) <<< 7)
        if cur > 0x7f then
          if data + 2 ≥ endPtr then none
          else
            let cur := (memory (data + 2)).toNat
            let result := result ||| ((cur &&& 0x7f) <<< 14)
            if cur > 0x7f then
              if data + 3 ≥ endPtr then none
              else
                let cur := (memory (data + 3)).toNat
                let result := result ||| ((cur &&& 0x7f) <<< 21)
                if cur > 0x7f then
                  if data + 4 ≥ endPtr then none
                  else
                    let cur := (memory (data + 4)).toNat
                    some (UInt32.ofNat (result ||| (cur <<< 28)), data + 5)
                else some (UInt32.ofNat result, data + 4)
            else some (UInt32.ofNat result, data + 3)
        else some (UInt32.ofNat result, data + 2)
    else some (UInt32.ofNat result, data + 1)

/-- `DecodeSignedLeb128`: the value, sign-extended from the bits read, and the pointer just
past it. -/
def decodeSignedLeb128 (memory : Nat → UInt8) (data : Nat) : Int32 × Nat :=
  let result : Int32 := (memory data).toUInt32.toInt32
  if result ≤ 0x7f then ((result <<< 25) >>> 25, data + 1)
  else
    let cur : Int32 := (memory (data + 1)).toUInt32.toInt32
    let result : Int32 := (result &&& 0x7f) ||| ((cur &&& 0x7f) <<< (7 : Int32))
    if cur ≤ 0x7f then ((result <<< 18) >>> 18, data + 2)
    else
      let cur : Int32 := (memory (data + 2)).toUInt32.toInt32
      let result : Int32 := result ||| ((cur &&& 0x7f) <<< 14)
      if cur ≤ 0x7f then ((result <<< 11) >>> 11, data + 3)
      else
        let cur : Int32 := (memory (data + 3)).toUInt32.toInt32
        let result : Int32 := result ||| ((cur &&& 0x7f) <<< 21)
        if cur ≤ 0x7f then ((result <<< 4) >>> 4, data + 4)
        else
          -- The four high-order bits of the fifth byte are not checked.
          let cur : Int32 := (memory (data + 4)).toUInt32.toInt32
          (result ||| (cur <<< 28), data + 5)

/-- `DecodeSignedLeb128Checked`: as `DecodeSignedLeb128`, but no byte at or past `endPtr` is
read; the decoding fails instead. -/
def decodeSignedLeb128Checked (memory : Nat → UInt8) (data endPtr : Nat) : Option (Int32 × Nat) :=
  if data ≥ endPtr then none
  else
    let result : Int32 := (memory data).toUInt32.toInt32
    if result ≤ 0x7f then some ((result <<< 25) >>> 25, data + 1)
    else if data + 1 ≥ endPtr then none
    else
      let cur : Int32 := (memory (data + 1)).toUInt32.toInt32
      let result : Int32 := (result &&& 0x7f) ||| ((cur &&& 0x7f) <<< (7 : Int32))
      if cur ≤ 0x7f then some ((result <<< 18) >>> 18, data + 2)
      else if data + 2 ≥ endPtr then none
      else
        let cur : Int32 := (memory (data + 2)).toUInt32.toInt32
        let result : Int32 := result ||| ((cur &&& 0x7f) <<< 14)
        if cur ≤ 0x7f then some ((result <<< 11) >>> 11, data + 3)
        else if data + 3 ≥ endPtr then none
        else
          let cur : Int32 := (memory (data + 3)).toUInt32.toInt32
          let result : Int32 := result ||| ((cur &&& 0x7f) <<< 21)
          if cur ≤ 0x7f then some ((result <<< 4) >>> 4, data + 4)
          else if data + 4 ≥ endPtr then none
          else
            let cur : Int32 := (memory (data + 4)).toUInt32.toInt32
            some (result ||| (cur <<< 28), data + 5)

/-- A byte below `0x80` before `endPtr` is a whole ULEB128 by itself. -/
theorem decodeUnsignedLeb128Checked_of_small {memory : Nat → UInt8} {data endPtr : Nat} (inside : data < endPtr)
    (small : (memory data).toNat ≤ 0x7f) :
    decodeUnsignedLeb128Checked memory data endPtr = some (UInt32.ofNat (memory data).toNat, data + 1) := by
  simp only [decodeUnsignedLeb128Checked, if_neg (Nat.not_le.2 inside), if_neg (Nat.not_lt.2 small)]

/-- A successful checked decoding moves forward by one to five bytes and stops at
or before `endPtr`, so every byte it read lies before `endPtr`. -/
theorem decodeUnsignedLeb128Checked_lt_end {memory : Nat → UInt8} {data endPtr : Nat}
    {value : UInt32} {next : Nat} (decoded : decodeUnsignedLeb128Checked memory data endPtr = some (value, next)) :
    data < next ∧ next ≤ data + 5 ∧ next ≤ endPtr := by
  simp only [decodeUnsignedLeb128Checked, ge_iff_le, gt_iff_lt] at decoded
  split_ifs at decoded <;> simp only [Option.some.injEq, Prod.mk.injEq] at decoded <;> omega

/-! ## Where a LEB128 ends -/

/-- How many bytes the LEB128 at `data` spans: up to and with the first byte below `0x80` among
the first four, and five otherwise. -/
def leb128Length (memory : Nat → UInt8) (data : Nat) : Nat :=
  match (List.range 4).find? fun i => (memory (data + i)).toNat ≤ 0x7f with
  | some i => i + 1
  | none => 5

/-- The five ways a LEB128 ends. -/
theorem leb128Length_cases (memory : Nat → UInt8) (data : Nat) :
    (memory data).toNat ≤ 0x7f ∧ leb128Length memory data = 1 ∨
    ¬(memory data).toNat ≤ 0x7f ∧ (memory (data + 1)).toNat ≤ 0x7f ∧ leb128Length memory data = 2 ∨
    ¬(memory data).toNat ≤ 0x7f ∧ ¬(memory (data + 1)).toNat ≤ 0x7f ∧ (memory (data + 2)).toNat ≤ 0x7f ∧
      leb128Length memory data = 3 ∨
    ¬(memory data).toNat ≤ 0x7f ∧ ¬(memory (data + 1)).toNat ≤ 0x7f ∧ ¬(memory (data + 2)).toNat ≤ 0x7f ∧
      (memory (data + 3)).toNat ≤ 0x7f ∧ leb128Length memory data = 4 ∨
    ¬(memory data).toNat ≤ 0x7f ∧ ¬(memory (data + 1)).toNat ≤ 0x7f ∧ ¬(memory (data + 2)).toNat ≤ 0x7f ∧
      ¬(memory (data + 3)).toNat ≤ 0x7f ∧ leb128Length memory data = 5 := by
  simp only [leb128Length, show List.range 4 = [0, 1, 2, 3] from rfl, List.find?_cons, Nat.add_zero]
  by_cases b0 : (memory data).toNat ≤ 0x7f
  · simp [b0]
  by_cases b1 : (memory (data + 1)).toNat ≤ 0x7f
  · simp [b0, b1]
  by_cases b2 : (memory (data + 2)).toNat ≤ 0x7f
  · simp [b0, b1, b2]
  by_cases b3 : (memory (data + 3)).toNat ≤ 0x7f
  · simp [b0, b1, b2, b3]
  · simp [b0, b1, b2, b3]

/-- The test of `DecodeSignedLeb128` on a byte read into an `int32_t`. -/
@[simp] theorem toInt32_toUInt32_le (b : UInt8) : b.toUInt32.toInt32 ≤ 0x7f ↔ b.toNat ≤ 0x7f := by
  rw [Int32.le_iff_toInt_le]
  have := b.toNat_lt
  simp [Int32.toInt, BitVec.toInt]
  omega

/-- `DecodeUnsignedLeb128Checked` reads the bytes `DecodeUnsignedLeb128` reads, or fails at the
first of them at or past `endPtr`. -/
theorem decodeUnsignedLeb128Checked_eq (memory : Nat → UInt8) (data endPtr : Nat) :
    decodeUnsignedLeb128Checked memory data endPtr =
      if data + leb128Length memory data ≤ endPtr then some (decodeUnsignedLeb128 memory data) else none := by
  unfold decodeUnsignedLeb128Checked decodeUnsignedLeb128
  rcases leb128Length_cases memory data with ⟨b0, len⟩ | ⟨b0, b1, len⟩ | ⟨b0, b1, b2, len⟩ | ⟨b0, b1, b2, b3, len⟩ |
      ⟨b0, b1, b2, b3, len⟩ <;>
    simp only [gt_iff_lt, ← Nat.not_le, *, if_true, if_false, not_true, not_false_eq_true] <;>
    split_ifs <;> first | rfl | omega

/-- `DecodeSignedLeb128Checked` reads the bytes `DecodeSignedLeb128` reads, or fails at the first
of them at or past `endPtr`. -/
theorem decodeSignedLeb128Checked_eq (memory : Nat → UInt8) (data endPtr : Nat) :
    decodeSignedLeb128Checked memory data endPtr =
      if data + leb128Length memory data ≤ endPtr then some (decodeSignedLeb128 memory data) else none := by
  unfold decodeSignedLeb128Checked decodeSignedLeb128
  rcases leb128Length_cases memory data with ⟨b0, len⟩ | ⟨b0, b1, len⟩ | ⟨b0, b1, b2, len⟩ | ⟨b0, b1, b2, b3, len⟩ |
      ⟨b0, b1, b2, b3, len⟩ <;>
    simp only [toInt32_toUInt32_le, *, if_true, if_false] <;>
    split_ifs <;> first | rfl | omega

/-! ## What a LEB128 is worth

The unsigned decoder returns the value of the low seven bits of the bytes it reads, cut to 32
bits (`decodeUnsignedLeb128_eq`); the signed one sign-extends that value from its `7 * k` bits
(`decodeSignedLeb128_eq`). -/

/-- Cut to 32 bits, a fifth byte shifted into bits 28 to 34 keeps only its low four bits, which
its low seven hold. -/
theorem shiftLeft_28_mod (b : Nat) : (b <<< 28) % 2 ^ 32 = ((b &&& 0x7f) <<< 28) % 2 ^ 32 := by
  rw [Nat.shiftLeft_eq, Nat.shiftLeft_eq, show 0x7f = 2 ^ 7 - 1 from rfl, Nat.and_two_pow_sub_one_eq_mod]
  omega

theorem ofNat_or_shiftLeft_28 (a b : Nat) : UInt32.ofNat (a ||| b <<< 28) = UInt32.ofNat (a ||| (b &&& 0x7f) <<< 28) := by
  rw [← UInt32.ofNat_mod_size, Nat.or_mod_two_pow, shiftLeft_28_mod, ← Nat.or_mod_two_pow, UInt32.ofNat_mod_size]

theorem decodeUnsignedLeb128_eq (memory : Nat → UInt8) (data : Nat) :
    decodeUnsignedLeb128 memory data =
      (UInt32.ofNat (Base128.value (fun i => (memory (data + i)).toNat) (leb128Length memory data)),
        data + leb128Length memory data) := by
  unfold decodeUnsignedLeb128
  rcases leb128Length_cases memory data with ⟨b0, len⟩ | ⟨b0, b1, len⟩ | ⟨b0, b1, b2, len⟩ | ⟨b0, b1, b2, b3, len⟩ |
      ⟨b0, b1, b2, b3, len⟩ <;>
    simp only [*, gt_iff_lt, ← Nat.not_le, if_true, if_false, not_true, not_false_eq_true, Base128.value_succ_eq_or,
      Base128.value_zero, Nat.add_zero, Nat.zero_or, Nat.mul_zero, Nat.mul_one, Nat.reduceMul, Nat.shiftLeft_zero]
  · rw [show 0x7f = 2 ^ 7 - 1 from rfl, Nat.and_two_pow_sub_one_eq_mod, Nat.mod_eq_of_lt (by omega)]
  · rw [ofNat_or_shiftLeft_28]

theorem toInt_shiftRight_shiftLeft (a S : Int32) {t s : Nat} (amount : (S.toBitVec.smod 32).toNat = s)
    (width : 32 = t + s) (wide : 1 ≤ t) (small : a.toBitVec.toNat < 2 ^ t) :
    ((a <<< S) >>> S).toInt = (a.toBitVec.toNat : Int).bmod (2 ^ t) := by
  rw [← Int32.toInt_toBitVec, Int32.toBitVec_shiftRight, Int32.toBitVec_shiftLeft, BitVec.sshiftRight_eq',
    BitVec.shiftLeft_eq', amount]
  exact Base128.toInt_sshiftRight_shiftLeft width wide small

theorem toNat_toInt32 (b : UInt8) : b.toUInt32.toInt32.toBitVec.toNat = b.toNat := by
  simp

/-- The first byte without its top bit holds the value of one byte. -/
theorem toNat_first_digit {f : Nat → Nat} {b : UInt8} (digit : f 0 = b.toNat) :
    (b.toUInt32.toInt32 &&& 0x7f).toBitVec.toNat = Base128.value f 1 := by
  rw [Base128.value_one, digit, Int32.toBitVec_and, BitVec.toNat_and, toNat_toInt32]
  exact Nat.and_two_pow_sub_one_eq_mod _ 7

/-- Or-ing the next byte's low seven bits into place adds a byte to the value. -/
theorem toNat_next_digit {f : Nat → Nat} {a S : Int32} {b : UInt8} {k : Nat}
    (before : a.toBitVec.toNat = Base128.value f k) (digit : f k = b.toNat) (amount : (S.toBitVec.smod 32).toNat = 7 * k)
    (early : k ≤ 3) : (a ||| (b.toUInt32.toInt32 &&& 0x7f) <<< S).toBitVec.toNat = Base128.value f (k + 1) := by
  have low : b.toNat &&& 0x7f < 2 ^ 7 := by
    rw [show 0x7f = 2 ^ 7 - 1 from rfl, Nat.and_two_pow_sub_one_eq_mod]
    exact Nat.mod_lt _ (by decide)
  have fits : (b.toNat &&& 0x7f) <<< (7 * k) < 2 ^ 32 := by
    rw [Nat.shiftLeft_eq]
    calc (b.toNat &&& 0x7f) * 2 ^ (7 * k) < 2 ^ 7 * 2 ^ (7 * k) := Nat.mul_lt_mul_of_pos_right low (Nat.two_pow_pos _)
      _ = 2 ^ (7 + 7 * k) := (pow_add 2 7 (7 * k)).symm
      _ ≤ 2 ^ 32 := Nat.pow_le_pow_right (by decide) (by omega)
  rw [Int32.toBitVec_or, BitVec.toNat_or, Int32.toBitVec_shiftLeft, BitVec.shiftLeft_eq', BitVec.toNat_shiftLeft,
    amount, Int32.toBitVec_and, BitVec.toNat_and, toNat_toInt32, before]
  rw [show (0x7f : Int32).toBitVec.toNat = 0x7f from rfl, Nat.mod_eq_of_lt fits, Base128.value_succ_eq_or, digit]

example : ((7 : Int32).toBitVec.smod 32).toNat = 7 * 1 := rfl

/-- **The sign extension of `DecodeSignedLeb128`** after `k` bytes: the value of the bytes read,
as `k * 7` bits of two's complement. -/
theorem shiftRight_shiftLeft_eq {f : Nat → Nat} {a S : Int32} {k : Nat} (holds : a.toBitVec.toNat = Base128.value f k)
    (amount : (S.toBitVec.smod 32).toNat = 32 - 7 * k) (pos : 1 ≤ k) (early : k ≤ 4) :
    (a <<< S) >>> S = Int32.ofInt ((Base128.value f k : Int).bmod (2 ^ (7 * k))) := by
  have small : a.toBitVec.toNat < 2 ^ (7 * k) := holds ▸ Base128.value_lt f k
  have word : 2 ^ (7 * k) ≤ 2 ^ 28 := Nat.pow_le_pow_right (by decide) (by omega)
  have low := Int.le_bmod (x := Base128.value f k) (Nat.two_pow_pos (7 * k))
  have high := Int.bmod_lt (x := Base128.value f k) (Nat.two_pow_pos (7 * k))
  apply Int32.toInt_inj.1
  rw [toInt_shiftRight_shiftLeft a S amount (by omega) (by omega) small, holds, Int32.toInt_ofInt_of_le] <;>
    omega

/-- **The fifth byte of `DecodeSignedLeb128`**: or-ed in without a mask, it fills the word. -/
theorem or_shiftLeft_28_eq {f : Nat → Nat} {a : Int32} {b : UInt8} (holds : a.toBitVec.toNat = Base128.value f 4)
    (digit : f 4 = b.toNat) : a ||| b.toUInt32.toInt32 <<< 28 = Int32.ofInt ((Base128.value f 5 : Int).bmod (2 ^ 35)) := by
  have small : Base128.value f 4 < 2 ^ 32 := lt_of_lt_of_le (Base128.value_lt f 4) (by decide)
  have wrapped : (Base128.value f 5 : Int).bmod (2 ^ 35) % ((2 ^ 32 : Nat) : Int) =
      ((Base128.value f 5 % 2 ^ 32 : Nat) : Int) := by
    have cast : ((2 ^ 35 : Nat) : Int) = 2 ^ 35 := by norm_cast
    rw [show ((2 ^ 32 : Nat) : Int) = 2 ^ 32 by norm_cast, ← Int.emod_emod_of_dvd _ (show (2 : Int) ^ 32 ∣ 2 ^ 35 by decide), ← cast, Int.bmod_emod, cast,
      Int.emod_emod_of_dvd _ (show (2 : Int) ^ 32 ∣ 2 ^ 35 by decide)]
    norm_cast
  apply Int32.toBitVec_inj.1
  apply BitVec.eq_of_toNat_eq
  rw [Int32.toBitVec_ofInt, BitVec.toNat_ofInt, Int32.toBitVec_or, BitVec.toNat_or, Int32.toBitVec_shiftLeft,
    BitVec.shiftLeft_eq', BitVec.toNat_shiftLeft, toNat_toInt32, holds,
    show ((28 : Int32).toBitVec.smod 32).toNat = 28 from rfl, wrapped, Int.toNat_natCast,
    Base128.value_succ_eq_or f 4, digit, show 7 * 4 = 28 from rfl, Nat.or_mod_two_pow, Nat.mod_eq_of_lt small,
    ← shiftLeft_28_mod]

theorem decodeSignedLeb128_eq (memory : Nat → UInt8) (data : Nat) :
    decodeSignedLeb128 memory data =
      (Int32.ofInt ((Base128.value (fun i => (memory (data + i)).toNat) (leb128Length memory data) : Int).bmod
        (2 ^ (7 * leb128Length memory data))), data + leb128Length memory data) := by
  -- what the decoder has read after each byte
  have one := toNat_first_digit (f := fun i => (memory (data + i)).toNat) (b := memory data) rfl
  have two := toNat_next_digit one (b := memory (data + 1)) (S := 7) rfl rfl (by decide)
  have three := toNat_next_digit two (b := memory (data + 2)) (S := 14) rfl rfl (by decide)
  have four := toNat_next_digit three (b := memory (data + 3)) (S := 21) rfl rfl (by decide)
  unfold decodeSignedLeb128
  rcases leb128Length_cases memory data with ⟨b0, len⟩ | ⟨b0, b1, len⟩ | ⟨b0, b1, b2, len⟩ | ⟨b0, b1, b2, b3, len⟩ |
      ⟨b0, b1, b2, b3, len⟩ <;>
    simp only [*, toInt32_toUInt32_le, if_true, if_false]
  · have holds : (memory data).toUInt32.toInt32.toBitVec.toNat = Base128.value (fun i => (memory (data + i)).toNat) 1 := by
      rw [toNat_toInt32, Base128.value_one, Nat.add_zero, Nat.mod_eq_of_lt (by omega)]
    exact congrArg (·, data + 1) (shiftRight_shiftLeft_eq holds rfl le_rfl (by decide))
  · exact congrArg (·, data + 2) (shiftRight_shiftLeft_eq two rfl (by decide) (by decide))
  · exact congrArg (·, data + 3) (shiftRight_shiftLeft_eq three rfl (by decide) (by decide))
  · exact congrArg (·, data + 4) (shiftRight_shiftLeft_eq four rfl (by decide) (by decide))
  · exact congrArg (·, data + 5) (or_shiftLeft_28_eq four rfl)

/-- **A checked decoder fails exactly on a LEB128 that does not end before `endPtr`**, and
otherwise returns what the unchecked decoder returns; both move the pointer past the bytes
of the LEB128. -/
theorem decodeLeb128Checked_eq_if (memory : Nat → UInt8) (data endPtr : Nat) :
    decodeUnsignedLeb128Checked memory data endPtr =
        (if data + leb128Length memory data ≤ endPtr then some (decodeUnsignedLeb128 memory data) else none) ∧
      decodeSignedLeb128Checked memory data endPtr =
        (if data + leb128Length memory data ≤ endPtr then some (decodeSignedLeb128 memory data) else none) ∧
      (decodeUnsignedLeb128 memory data).2 = data + leb128Length memory data ∧
      (decodeSignedLeb128 memory data).2 = data + leb128Length memory data := by
  refine ⟨decodeUnsignedLeb128Checked_eq memory data endPtr, decodeSignedLeb128Checked_eq memory data endPtr, ?_, ?_⟩
  · rw [decodeUnsignedLeb128_eq]
  · rw [decodeSignedLeb128_eq]

/-! ## Reading the bytes of a value -/

section Bytes

variable {memory : Nat → UInt8} {data n : Nat}

/-- The LEB128 of the `n` bytes of a value ends after them. -/
theorem leb128Length_of_bytes {x : Int} (holds : ∀ i < n, (memory (data + i)).toNat = Base128.byte x n i)
    (pos : 1 ≤ n) (most : n ≤ 5) : leb128Length memory data = n := by
  have continues : ∀ i < n, (127 < (memory (data + i)).toNat ↔ i + 1 < n) := fun i inside => by
    rw [holds i inside]
    exact Base128.byte_continues_iff
  -- each byte before the last has its top bit, and the last, if one of the first four, has not
  have c0 := continues 0 (by omega)
  rcases leb128Length_cases memory data with ⟨b0, len⟩ | ⟨b0, b1, len⟩ | ⟨b0, b1, b2, len⟩ | ⟨b0, b1, b2, b3, len⟩ |
      ⟨b0, b1, b2, b3, len⟩ <;> rw [len] <;> simp only [Nat.add_zero] at c0
  · omega
  · have c1 := continues 1 (by omega)
    omega
  · have c1 := continues 1 (by omega)
    have c2 := continues 2 (by omega)
    omega
  · have c1 := continues 1 (by omega)
    have c2 := continues 2 (by omega)
    have c3 := continues 3 (by omega)
    omega
  · have c1 := continues 1 (by omega)
    have c2 := continues 2 (by omega)
    have c3 := continues 3 (by omega)
    omega

/-- **`DecodeUnsignedLeb128` reads back the bytes of a value** that fits in them. -/
theorem decodeUnsignedLeb128_of_bytes {v : Nat} (holds : ∀ i < n, (memory (data + i)).toNat = Base128.byte v n i)
    (pos : 1 ≤ n) (most : n ≤ 5) (fits : v < 2 ^ (7 * n)) :
    decodeUnsignedLeb128 memory data = (UInt32.ofNat v, data + n) := by
  have cast : ((v : Int) % 2 ^ (7 * n)) = ((v % 2 ^ (7 * n) : Nat) : Int) := by norm_cast
  rw [decodeUnsignedLeb128_eq, leb128Length_of_bytes holds pos most, Base128.value_of_bytes holds n le_rfl, cast,
    Int.toNat_natCast, Nat.mod_eq_of_lt fits]

/-- **`DecodeSignedLeb128` reads back the bytes of a value** that fits in them as two's
complement. -/
theorem decodeSignedLeb128_of_bytes {x : Int} (holds : ∀ i < n, (memory (data + i)).toNat = Base128.byte x n i)
    (pos : 1 ≤ n) (most : n ≤ 5) (fits : -2 ^ (7 * n) ≤ 2 * x ∧ 2 * x < 2 ^ (7 * n)) :
    decodeSignedLeb128 memory data = (Int32.ofInt x, data + n) := by
  have power : (0 : Int) < 2 ^ (7 * n) := Int.pow_pos (by decide)
  have cast : ((2 ^ (7 * n) : Nat) : Int) = 2 ^ (7 * n) := by norm_cast
  have low := Int.emod_nonneg x (Int.ne_of_gt power)
  rw [decodeSignedLeb128_eq, leb128Length_of_bytes holds pos most, Base128.value_of_bytes holds n le_rfl,
    Int.toNat_of_nonneg low, ← cast, Int.emod_bmod, Int.bmod_eq_of_le] <;> omega

end Bytes

end Art.Runtime
