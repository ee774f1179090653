import Art.Runtime.Leb128
import Art.Machine.Store

/-!
# LEB128 encoding

`EncodeUnsignedLeb128` writes seven bits of the value a byte, with the top bit set while bits
remain; `EncodeSignedLeb128` goes on while the bits left differ from the sign, which it counts
in `extra_bits`. Each has an overload that writes through a pointer and one that pushes onto a
vector; both are the same loop over a sink that takes a byte (`encodeUnsignedLeb128Loop`,
`encodeSignedLeb128Loop`), so both emit the bytes `Base128.bytes` of the value, as many as
`Base128.digitCount` counts (`encodeUnsignedLeb128Loop_eq_foldl`,
`encodeSignedLeb128Loop_eq_foldl`). `UnsignedLeb128Size` and `SignedLeb128Size` compute that
count from the leading zeros of the value (`toNat_unsignedLeb128Size`, `toNat_signedLeb128Size`).

**Round trip.** What an encoder writes, the decoder of its kind reads back, and it ends after
exactly the bytes written, one to five of them (`encodeLeb128_decode`).

`UpdateUnsignedLeb128` writes a value no larger than the one stored over it, and pads the new
encoding with `0x80` bytes and a last `0` up to the old end. A buffer that an encoder or an
update has written holds a padded encoding (`HoldsLeb128`), which an update keeps at its length
(`HoldsLeb128.update`); so the value written reads back and ends where the old one ended, and
nothing past that end changes (`updateUnsignedLeb128_keeps_end`).
-/

set_option autoImplicit false

namespace Art.Runtime

open Art.Machine

/-! ## Sizes -/

/-- `UnsignedLeb128Size(data)`: `(6 + bits) / 7` for the `bits = 32 - CLZ(data | 1)` that `data`
takes, the division by 7 done as `(x * 37) >> 8`. -/
def unsignedLeb128Size (data : UInt32) : UInt32 :=
  let x : UInt32 := 6 + 32 - UInt32.ofNat (data ||| 1).toBitVec.clz.toNat
  (x * 37) >>> 8

/-- `SignedLeb128Size(data)`: one bit more than the bits that differ from the sign. -/
def signedLeb128Size (data : Int32) : UInt32 :=
  let data := data ^^^ (data >>> 31)
  let x : UInt32 := 1 + 6 + 32 - UInt32.ofNat (data.toUInt32 ||| 1).toBitVec.clz.toNat
  (x * 37) >>> 8

/-- The multiply and shift of `UnsignedLeb128Size` divide by 7 for every count of leading zeros. -/
theorem unsignedLeb128Size_table :
    ∀ c < 32, (((6 + 32 - UInt32.ofNat c : UInt32) * 37) >>> 8).toNat = (38 - c) / 7 := by
  decide

theorem signedLeb128Size_table :
    ∀ c < 32, (((1 + 6 + 32 - UInt32.ofNat c : UInt32) * 37) >>> 8).toNat = (39 - c) / 7 := by
  decide

/-- A nonzero word with `c` leading zeros takes `32 - c` bits, the top one set. -/
theorem bits_of_clz {y : BitVec 32} (nonzero : y ≠ 0#32) :
    y.clz.toNat < 32 ∧ y.toNat < 2 ^ (32 - y.clz.toNat) ∧ 2 ^ (32 - 1 - y.clz.toNat) ≤ y.toNat := by
  have leading := BitVec.clz_lt_iff_ne_zero.2 nonzero
  rw [BitVec.lt_def] at leading
  exact ⟨Nat.lt_of_lt_of_le leading (by decide), BitVec.toNat_lt_two_pow_sub_clz,
    BitVec.two_pow_sub_clz_le_toNat_of_ne_zero (by decide) nonzero⟩

/-- `data | 1` is odd, so not zero. -/
theorem or_one_ne_zero (data : UInt32) : (data ||| 1).toBitVec ≠ 0#32 := by
  intro zero
  have := congrArg BitVec.toNat zero
  rw [UInt32.toNat_toBitVec, UInt32.toNat_or, BitVec.toNat_zero] at this
  exact absurd this (Nat.ne_of_gt (Nat.lt_of_lt_of_le (by decide) Nat.right_le_or))

theorem clz_or_one_lt (data : UInt32) : (data ||| 1).toBitVec.clz.toNat < 32 :=
  (bits_of_clz (or_one_ne_zero data)).1

/-- **The count of bytes from the leading zeros**: a word whose `data | 1` has `c` leading zeros
takes `(32 - c + 13 - k) / 7` bytes when the last takes `k` bits. -/
theorem digitCount_eq_clz (data : UInt32) {k : Nat} (wide : 1 ≤ k) (narrow : k ≤ 7) :
    Base128.digitCount k data.toNat = (32 - (data ||| 1).toBitVec.clz.toNat + 13 - k) / 7 := by
  have word : (data ||| 1).toBitVec.toNat = data.toNat ||| 1 := by
    rw [UInt32.toNat_toBitVec, UInt32.toNat_or]
    rfl
  obtain ⟨leading, below, above⟩ := bits_of_clz (or_one_ne_zero data)
  generalize (data ||| 1).toBitVec.clz.toNat = c at leading below above ⊢
  rw [word] at below above
  -- `data | 1` and `data` differ in bit 0 only, so they take the same bits
  have half : (data.toNat ||| 1) / 2 = data.toNat / 2 := by
    rw [Nat.or_div_two]
    simp
  apply Base128.digitCount_of_bitLength wide narrow (by omega) (Nat.lt_of_le_of_lt Nat.left_le_or below)
  intro two
  have double : 2 ^ (32 - 1 - c) = 2 * 2 ^ (32 - c - 2) := by
    rw [← Nat.pow_succ']
    congr 1
    omega
  rw [show 32 - c - 1 = 32 - 1 - c by omega, double]
  rw [double] at above
  omega

/-- The word `SignedLeb128Size` and `EncodeSignedLeb128` take the bits of: `data ^ (data >> 31)`
is `data` for a nonnegative `data` and its complement otherwise. -/
theorem toNat_xor_shiftRight (data : Int32) :
    (data ^^^ (data >>> 31)).toUInt32.toNat = Base128.magnitude data.toInt := by
  rw [← Int32.toNat_toBitVec, Int32.toBitVec_xor, Int32.toBitVec_shiftRight, BitVec.sshiftRight_eq',
    show ((31 : Int32).toBitVec.smod 32).toNat = 31 from rfl, ← Int32.toInt_toBitVec]
  generalize data.toBitVec = x
  have sign := BitVec.msb_eq_decide x
  have int := BitVec.toInt_eq_msb_cond x
  have bound := x.isLt
  unfold Base128.magnitude
  cases msb : x.msb
  · -- a nonnegative word: the shift of its sign is zero
    have low : x.toNat < 2 ^ 31 := by rw [msb] at sign; simp at sign; omega
    have zero : x.sshiftRight 31 = 0#32 := by
      rw [BitVec.sshiftRight_eq_of_msb_false msb]
      apply BitVec.eq_of_toNat_eq
      rw [BitVec.toNat_ushiftRight, Nat.shiftRight_eq_div_pow, Nat.div_eq_of_lt low]
      rfl
    rw [zero, BitVec.xor_zero]
    rw [msb] at int
    simp only [Bool.false_eq_true, if_false] at int
    rw [int, if_pos (Int.natCast_nonneg _), Int.toNat_natCast]
  · -- a negative word: the shift of its sign is all ones, and the xor its complement
    have high : 2 ^ 31 ≤ x.toNat := by rw [msb] at sign; simp at sign; omega
    have ones : x.sshiftRight 31 = BitVec.allOnes 32 := by
      rw [BitVec.sshiftRight_eq_of_msb_true msb]
      apply BitVec.eq_of_toNat_eq
      rw [BitVec.toNat_not, BitVec.toNat_ushiftRight, BitVec.toNat_not, Nat.shiftRight_eq_div_pow, Nat.div_eq_of_lt (by omega)]
      rfl
    rw [ones, BitVec.xor_allOnes, BitVec.toNat_not]
    rw [msb] at int
    simp only [if_true] at int
    rw [int, if_neg (by omega)]
    omega

/-- **`UnsignedLeb128Size` counts the bytes of the value.** -/
theorem toNat_unsignedLeb128Size (data : UInt32) :
    (unsignedLeb128Size data).toNat = Base128.digitCount 7 data.toNat := by
  have leading := clz_or_one_lt data
  rw [digitCount_eq_clz data (by decide) le_rfl, unsignedLeb128Size, unsignedLeb128Size_table _ leading]
  omega

/-- **`SignedLeb128Size` counts the bytes of the value**, with room for its sign. -/
theorem toNat_signedLeb128Size (data : Int32) :
    (signedLeb128Size data).toNat = Base128.digitCount 6 (Base128.magnitude data.toInt) := by
  have leading := clz_or_one_lt (data ^^^ (data >>> 31)).toUInt32
  rw [← toNat_xor_shiftRight data, digitCount_eq_clz _ (by decide) (by decide), signedLeb128Size,
    signedLeb128Size_table _ leading]
  omega

/-! ## Encoders -/

/-- The loop of `EncodeUnsignedLeb128`, over a sink `put` that takes a byte: `*dest++ = out` or
`dest->push_back(out)`. -/
def encodeUnsignedLeb128Loop {σ : Type} (put : σ → UInt8 → σ) (dest : σ) (out : UInt8) (value : UInt32) : σ :=
  if value ≠ 0 then
    encodeUnsignedLeb128Loop put (put dest (out ||| 0x80)) (value &&& 0x7f).toUInt8 (value >>> 7)
  else put dest out
termination_by value.toNat
decreasing_by
  have : value.toNat ≠ 0 := fun zero => ‹value ≠ 0› (UInt32.toNat_inj.1 zero)
  rw [UInt32.toNat_shiftRight]
  simp only [UInt32.reduceToNat, Nat.reduceMod, Nat.shiftRight_eq_div_pow]
  omega

/-- The loop of `EncodeSignedLeb128`, over a sink that takes a byte. -/
def encodeSignedLeb128Loop {σ : Type} (put : σ → UInt8 → σ) (dest : σ) (value : Int32) (out : UInt8)
    (extraBits : UInt32) : σ :=
  if extraBits ≠ 0 then
    let value := value >>> 7
    encodeSignedLeb128Loop put (put dest (out ||| 0x80)) value (value &&& 0x7f).toUInt32.toUInt8 (extraBits >>> 7)
  else put dest out
termination_by extraBits.toNat
decreasing_by
  have : extraBits.toNat ≠ 0 := fun zero => ‹extraBits ≠ 0› (UInt32.toNat_inj.1 zero)
  rw [UInt32.toNat_shiftRight]
  simp only [UInt32.reduceToNat, Nat.reduceMod, Nat.shiftRight_eq_div_pow]
  omega

/-- `*dest++ = b` on a memory and a pointer. -/
def storeByte (sink : (Nat → UInt8) × Nat) (b : UInt8) : (Nat → UInt8) × Nat :=
  (Function.update sink.1 sink.2 b, sink.2 + 1)

/-- `EncodeUnsignedLeb128(uint8_t* dest, value)`: the memory, and the pointer past the bytes. -/
def encodeUnsignedLeb128 (memory : Nat → UInt8) (dest : Nat) (value : UInt32) : (Nat → UInt8) × Nat :=
  encodeUnsignedLeb128Loop storeByte (memory, dest) (value &&& 0x7f).toUInt8 (value >>> 7)

/-- `EncodeUnsignedLeb128(Vector* dest, value)`. -/
def encodeUnsignedLeb128Vector (dest : List UInt8) (value : UInt32) : List UInt8 :=
  encodeUnsignedLeb128Loop (fun dest b => dest ++ [b]) dest (value &&& 0x7f).toUInt8 (value >>> 7)

/-- `EncodeSignedLeb128(uint8_t* dest, value)`. -/
def encodeSignedLeb128 (memory : Nat → UInt8) (dest : Nat) (value : Int32) : (Nat → UInt8) × Nat :=
  encodeSignedLeb128Loop storeByte (memory, dest) value (value &&& 0x7f).toUInt32.toUInt8
    ((value ^^^ (value >>> 31)).toUInt32 >>> 6)

/-- `EncodeSignedLeb128(Vector* dest, value)`. -/
def encodeSignedLeb128Vector (dest : List UInt8) (value : Int32) : List UInt8 :=
  encodeSignedLeb128Loop (fun dest b => dest ++ [b]) dest value (value &&& 0x7f).toUInt32.toUInt8
    ((value ^^^ (value >>> 31)).toUInt32 >>> 6)

/-! ## What the encoders emit -/

theorem toNat_or_0x80 {b : UInt8} (low : b.toNat < 128) : (b ||| 0x80).toNat = b.toNat + 128 := by
  rw [UInt8.toNat_or, show (0x80 : UInt8).toNat = 2 ^ 7 * 1 from rfl, Nat.or_comm, ← Nat.two_pow_add_eq_or_of_lt low]
  omega

theorem encodeUnsignedLeb128Loop_eq_foldl {σ : Type} (put : σ → UInt8 → σ) (dest : σ) (out : UInt8) (value : UInt32) :
    ∀ V : Nat, out.toNat = V % 128 → value.toNat = V / 128 →
      encodeUnsignedLeb128Loop put dest out value = (Base128.bytes V (Base128.digitCount 7 V)).foldl put dest := by
  fun_induction encodeUnsignedLeb128Loop put dest out value with
  | case1 dest out value continues ih =>
      intro V low high
      have big : 2 ^ 7 ≤ V := by
        have : value.toNat ≠ 0 := fun zero => continues (UInt32.toNat_inj.1 zero)
        simp only [Nat.reducePow]
        omega
      obtain ⟨d, count⟩ : ∃ d, Base128.digitCount 7 (V / 128) = d + 1 :=
        ⟨_, (Nat.sub_add_cancel Base128.one_le_digitCount).symm⟩
      have first : out ||| 0x80 = UInt8.ofNat (Base128.byte V (d + 1 + 1) 0) := by
        apply UInt8.toNat_inj.1
        rw [toNat_or_0x80 (by omega), Base128.toNat_ofNat_byte, Base128.byte_zero, if_pos (by omega), low]
        norm_cast
      have rest := ih (V / 128) ?_ ?_
      · rw [Base128.digitCount_of_le big, count, Base128.bytes_succ, List.foldl_cons, ← first, rest, count]
        norm_cast
      · rw [UInt32.toNat_toUInt8, UInt32.toNat_and, show (0x7f : UInt32).toNat = 2 ^ 7 - 1 from rfl,
          Nat.and_two_pow_sub_one_eq_mod, high]
        omega
      · rw [UInt32.toNat_shiftRight, high]
        simp only [UInt32.reduceToNat, Nat.reduceMod, Nat.shiftRight_eq_div_pow]
  | case2 dest out value stops =>
      intro V low high
      have small : V < 2 ^ 7 := by
        have : value.toNat = 0 := by simp at stops; simp [stops]
        simp only [Nat.reducePow]
        omega
      have only : out = UInt8.ofNat (Base128.byte V 1 0) := by
        apply UInt8.toNat_inj.1
        rw [Base128.toNat_ofNat_byte, Base128.byte_zero, if_neg (by omega), low]
        norm_cast
      rw [Base128.digitCount_of_lt small, show Base128.bytes V 1 = [UInt8.ofNat (Base128.byte V 1 0)] from rfl, ← only]
      rfl

/-- `value >>= 7` on an `int32_t` is the floor division by 128. -/
theorem toInt_shiftRight_seven (value : Int32) : (value >>> 7).toInt = value.toInt / 128 := by
  rw [← Int32.toInt_toBitVec, Int32.toBitVec_shiftRight, BitVec.sshiftRight_eq',
    show ((7 : Int32).toBitVec.smod 32).toNat = 7 from rfl, BitVec.toInt_sshiftRight, Int.shiftRight_eq_div_pow,
    Int32.toInt_toBitVec]
  rfl

/-- `value & 0x7f` narrowed to a byte: the low seven bits of the value, also of a negative one. -/
theorem toNat_and_0x7f (value : Int32) : (value &&& 0x7f).toUInt32.toUInt8.toNat = (value.toInt % 128).toNat := by
  rw [UInt32.toNat_toUInt8, ← Int32.toNat_toBitVec, Int32.toBitVec_and, BitVec.toNat_and,
    show (0x7f : Int32).toBitVec.toNat = 2 ^ 7 - 1 from rfl, Nat.and_two_pow_sub_one_eq_mod, ← Int32.toInt_toBitVec]
  have int := BitVec.toInt_eq_msb_cond value.toBitVec
  split at int <;> omega

theorem encodeSignedLeb128Loop_eq_foldl {σ : Type} (put : σ → UInt8 → σ) (dest : σ) (value : Int32) (out : UInt8)
    (extraBits : UInt32) : out.toNat = (value.toInt % 128).toNat →
      extraBits.toNat = Base128.magnitude value.toInt / 64 →
      encodeSignedLeb128Loop put dest value out extraBits =
        (Base128.bytes value.toInt (Base128.digitCount 6 (Base128.magnitude value.toInt))).foldl put dest := by
  fun_induction encodeSignedLeb128Loop put dest value out extraBits with
  | case1 dest value out extraBits continues shifted ih =>
      intro low high
      have big : 2 ^ 6 ≤ Base128.magnitude value.toInt := by
        have : extraBits.toNat ≠ 0 := fun zero => continues (UInt32.toNat_inj.1 zero)
        simp only [Nat.reducePow]
        omega
      obtain ⟨d, count⟩ : ∃ d, Base128.digitCount 6 (Base128.magnitude (value.toInt / 128)) = d + 1 :=
        ⟨_, (Nat.sub_add_cancel Base128.one_le_digitCount).symm⟩
      have digit := Base128.digit_lt value.toInt 0
      have first : out ||| 0x80 = UInt8.ofNat (Base128.byte value.toInt (d + 1 + 1) 0) := by
        apply UInt8.toNat_inj.1
        simp only [Nat.mul_zero, pow_zero, Int.ediv_one] at digit
        rw [toNat_or_0x80 (by omega), Base128.toNat_ofNat_byte, Base128.byte_zero, if_pos (by omega), low]
      -- the loop goes on with the value shifted by seven bits, and its count of bytes one less
      have rest := ih (toNat_and_0x7f _) ?_
      · rw [Base128.digitCount_of_le big, ← Base128.magnitude_ediv, count, Base128.bytes_succ, List.foldl_cons, ← first,
          rest, toInt_shiftRight_seven, count]
      · rw [UInt32.toNat_shiftRight, high, toInt_shiftRight_seven, Base128.magnitude_ediv]
        simp only [UInt32.reduceToNat, Nat.reduceMod, Nat.shiftRight_eq_div_pow, Nat.reducePow]
        omega
  | case2 dest value out extraBits stops =>
      intro low high
      have small : Base128.magnitude value.toInt < 2 ^ 6 := by
        have : extraBits.toNat = 0 := by simp at stops; simp [stops]
        simp only [Nat.reducePow]
        omega
      have only : out = UInt8.ofNat (Base128.byte value.toInt 1 0) := by
        apply UInt8.toNat_inj.1
        have digit := Base128.digit_lt value.toInt 0
        simp only [Nat.mul_zero, pow_zero, Int.ediv_one] at digit
        rw [Base128.toNat_ofNat_byte, Base128.byte_zero, if_neg (by omega), low, Nat.add_zero]
      rw [Base128.digitCount_of_lt small, show Base128.bytes value.toInt 1 = [UInt8.ofNat (Base128.byte value.toInt 1 0)]
        from rfl, ← only]
      rfl

theorem toNat_low_seven (value : UInt32) : (value &&& 0x7f).toUInt8.toNat = value.toNat % 128 := by
  rw [UInt32.toNat_toUInt8, UInt32.toNat_and, show (0x7f : UInt32).toNat = 2 ^ 7 - 1 from rfl,
    Nat.and_two_pow_sub_one_eq_mod]
  omega

theorem toNat_shiftRight_seven (value : UInt32) : (value >>> 7).toNat = value.toNat / 128 := by
  rw [UInt32.toNat_shiftRight]
  simp only [UInt32.reduceToNat, Nat.reduceMod, Nat.shiftRight_eq_div_pow, Nat.reducePow]

/-- `extra_bits` of `EncodeSignedLeb128`: the magnitude of the value without its six low bits. -/
theorem toNat_extraBits (value : Int32) :
    ((value ^^^ (value >>> 31)).toUInt32 >>> 6).toNat = Base128.magnitude value.toInt / 64 := by
  rw [UInt32.toNat_shiftRight, toNat_xor_shiftRight]
  simp only [UInt32.reduceToNat, Nat.reduceMod, Nat.shiftRight_eq_div_pow, Nat.reducePow]

/-- Storing bytes one after another writes them to the cells from the pointer on. -/
theorem foldl_storeByte (bytes : List UInt8) (memory : Nat → UInt8) (dest : Nat) :
    bytes.foldl storeByte (memory, dest) = (writeCells memory (List.range' dest bytes.length) bytes, dest + bytes.length) := by
  induction bytes generalizing memory dest with
  | nil => rfl
  | cons b bytes ih =>
      rw [List.foldl_cons, storeByte, ih, List.length_cons, List.range'_succ, writeCells_cons_cons, Nat.add_assoc,
        Nat.add_comm 1]

/-- Pushing bytes one after another appends them. -/
theorem foldl_push_back (bytes dest : List UInt8) : bytes.foldl (fun dest b => dest ++ [b]) dest = dest ++ bytes := by
  induction bytes generalizing dest with
  | nil => rw [List.foldl_nil, List.append_nil]
  | cons b bytes ih => rw [List.foldl_cons, ih, List.append_assoc, List.singleton_append]

/-- **What `EncodeUnsignedLeb128` writes through a pointer**: the bytes of the value. -/
theorem encodeUnsignedLeb128_eq (memory : Nat → UInt8) (dest : Nat) (value : UInt32) :
    encodeUnsignedLeb128 memory dest value =
      (Base128.bytes value.toNat (Base128.digitCount 7 value.toNat)).foldl storeByte (memory, dest) :=
  encodeUnsignedLeb128Loop_eq_foldl _ _ _ _ value.toNat (toNat_low_seven value) (toNat_shiftRight_seven value)

/-- **What `EncodeUnsignedLeb128` pushes onto a vector**: the same bytes. -/
theorem encodeUnsignedLeb128Vector_eq (dest : List UInt8) (value : UInt32) :
    encodeUnsignedLeb128Vector dest value = dest ++ Base128.bytes value.toNat (Base128.digitCount 7 value.toNat) := by
  rw [encodeUnsignedLeb128Vector,
    encodeUnsignedLeb128Loop_eq_foldl _ _ _ _ value.toNat (toNat_low_seven value) (toNat_shiftRight_seven value),
    foldl_push_back]

/-- **What `EncodeSignedLeb128` writes through a pointer**: the bytes of the value. -/
theorem encodeSignedLeb128_eq (memory : Nat → UInt8) (dest : Nat) (value : Int32) :
    encodeSignedLeb128 memory dest value =
      (Base128.bytes value.toInt (Base128.digitCount 6 (Base128.magnitude value.toInt))).foldl storeByte (memory, dest) :=
  encodeSignedLeb128Loop_eq_foldl _ _ _ _ _ (toNat_and_0x7f value) (toNat_extraBits value)

/-- **What `EncodeSignedLeb128` pushes onto a vector**: the same bytes. -/
theorem encodeSignedLeb128Vector_eq (dest : List UInt8) (value : Int32) :
    encodeSignedLeb128Vector dest value =
      dest ++ Base128.bytes value.toInt (Base128.digitCount 6 (Base128.magnitude value.toInt)) := by
  rw [encodeSignedLeb128Vector, encodeSignedLeb128Loop_eq_foldl _ _ _ _ _ (toNat_and_0x7f value) (toNat_extraBits value),
    foldl_push_back]

/-! ## Round trip -/

/-- Memory written with the bytes of `x` from `dest` holds them there. -/
theorem writeCells_bytes_apply (memory : Nat → UInt8) (dest : Nat) (x : Int) (n : Nat) :
    ∀ i < n, (writeCells memory (List.range' dest n) (Base128.bytes x n) (dest + i)).toNat = Base128.byte x n i := by
  intro i inside
  have written := writeCells_apply_getElem memory (List.nodup_range' (s := dest) (n := n)) i
    (by rw [List.length_range']; exact inside) (show i < (Base128.bytes x n).length by rw [Base128.length_bytes]; exact inside)
  rw [List.getElem_range', Nat.one_mul] at written
  rw [written, Base128.getElem_bytes, Base128.toNat_ofNat_byte]

/-- A word takes one to five bytes, when the last takes `k` bits of six or seven. -/
theorem digitCount_le_five (data : UInt32) {k : Nat} (wide : 6 ≤ k) (narrow : k ≤ 7) :
    1 ≤ Base128.digitCount k data.toNat ∧ Base128.digitCount k data.toNat ≤ 5 := by
  have leading := clz_or_one_lt data
  rw [digitCount_eq_clz data (by omega) narrow]
  omega

/-- `EncodeUnsignedLeb128` writes `UnsignedLeb128Size` bytes, which `DecodeUnsignedLeb128` reads back. -/
theorem encodeUnsignedLeb128_decode (memory : Nat → UInt8) (dest : Nat) (vector : List UInt8) (value : UInt32) :
    ∃ bytes : List UInt8, bytes.length = (unsignedLeb128Size value).toNat ∧ 1 ≤ bytes.length ∧ bytes.length ≤ 5 ∧
      encodeUnsignedLeb128 memory dest value =
        (writeCells memory (List.range' dest bytes.length) bytes, dest + bytes.length) ∧
      encodeUnsignedLeb128Vector vector value = vector ++ bytes ∧
      decodeUnsignedLeb128 (writeCells memory (List.range' dest bytes.length) bytes) dest = (value, dest + bytes.length) := by
  obtain ⟨pos, most⟩ := digitCount_le_five value (by decide) le_rfl
  have fits := Base128.lt_two_pow_digitCount 7 value.toNat
  rw [show 7 + 7 * (Base128.digitCount 7 value.toNat - 1) = 7 * Base128.digitCount 7 value.toNat by omega] at fits
  refine ⟨Base128.bytes value.toNat (Base128.digitCount 7 value.toNat), ?_, ?_, ?_, ?_, ?_, ?_⟩
  · rw [Base128.length_bytes, toNat_unsignedLeb128Size]
  · rwa [Base128.length_bytes]
  · rwa [Base128.length_bytes]
  · rw [encodeUnsignedLeb128_eq, foldl_storeByte]
  · exact encodeUnsignedLeb128Vector_eq vector value
  · rw [Base128.length_bytes, decodeUnsignedLeb128_of_bytes (writeCells_bytes_apply _ _ _ _) pos most fits,
      UInt32.ofNat_toNat]

/-- `EncodeSignedLeb128` writes `SignedLeb128Size` bytes, which `DecodeSignedLeb128` reads back. -/
theorem encodeSignedLeb128_decode (memory : Nat → UInt8) (dest : Nat) (vector : List UInt8) (value : Int32) :
    ∃ bytes : List UInt8, bytes.length = (signedLeb128Size value).toNat ∧ 1 ≤ bytes.length ∧ bytes.length ≤ 5 ∧
      encodeSignedLeb128 memory dest value =
        (writeCells memory (List.range' dest bytes.length) bytes, dest + bytes.length) ∧
      encodeSignedLeb128Vector vector value = vector ++ bytes ∧
      decodeSignedLeb128 (writeCells memory (List.range' dest bytes.length) bytes) dest = (value, dest + bytes.length) := by
  have count := toNat_xor_shiftRight value
  obtain ⟨pos, most⟩ := digitCount_le_five (value ^^^ (value >>> 31)).toUInt32 (le_refl 6) (by decide)
  rw [count] at pos most
  have fits := Base128.fits_of_magnitude_lt (Base128.lt_two_pow_digitCount 6 (Base128.magnitude value.toInt))
  rw [show 6 + 7 * (Base128.digitCount 6 (Base128.magnitude value.toInt) - 1) + 1 =
    7 * Base128.digitCount 6 (Base128.magnitude value.toInt) by omega] at fits
  refine ⟨Base128.bytes value.toInt (Base128.digitCount 6 (Base128.magnitude value.toInt)), ?_, ?_, ?_, ?_, ?_, ?_⟩
  · rw [Base128.length_bytes, toNat_signedLeb128Size]
  · rwa [Base128.length_bytes]
  · rwa [Base128.length_bytes]
  · rw [encodeSignedLeb128_eq, foldl_storeByte]
  · exact encodeSignedLeb128Vector_eq vector value
  · rw [Base128.length_bytes, decodeSignedLeb128_of_bytes (writeCells_bytes_apply _ _ _ _) pos most fits,
      Int32.ofInt_toInt]

/-- **Round trip**: each encoder writes through a pointer the bytes it pushes onto a vector, as
many as the size function of its kind counts, one to five; the decoder of its kind reads the
value back from them and ends after them. -/
theorem encodeLeb128_decode (memory : Nat → UInt8) (dest : Nat) (vector : List UInt8) (u : UInt32) (s : Int32) :
    (∃ bytes : List UInt8, bytes.length = (unsignedLeb128Size u).toNat ∧ 1 ≤ bytes.length ∧ bytes.length ≤ 5 ∧
      encodeUnsignedLeb128 memory dest u = (writeCells memory (List.range' dest bytes.length) bytes, dest + bytes.length) ∧
      encodeUnsignedLeb128Vector vector u = vector ++ bytes ∧
      decodeUnsignedLeb128 (writeCells memory (List.range' dest bytes.length) bytes) dest = (u, dest + bytes.length)) ∧
    (∃ bytes : List UInt8, bytes.length = (signedLeb128Size s).toNat ∧ 1 ≤ bytes.length ∧ bytes.length ≤ 5 ∧
      encodeSignedLeb128 memory dest s = (writeCells memory (List.range' dest bytes.length) bytes, dest + bytes.length) ∧
      encodeSignedLeb128Vector vector s = vector ++ bytes ∧
      decodeSignedLeb128 (writeCells memory (List.range' dest bytes.length) bytes) dest = (s, dest + bytes.length)) :=
  ⟨encodeUnsignedLeb128_decode memory dest vector u, encodeSignedLeb128_decode memory dest vector s⟩

/-! ## Updates -/

/-- The loop of `UpdateUnsignedLeb128` from `end` to `old_end`: the byte before `end` gets its
top bit, and the byte at `end` becomes 0. -/
def updateUnsignedLeb128Loop (memory : Nat → UInt8) (endPtr oldEnd : Nat) : Nat → UInt8 :=
  if endPtr < oldEnd then
    let memory := Function.update memory (endPtr - 1) (memory (endPtr - 1) ||| 0x80)
    updateUnsignedLeb128Loop (Function.update memory endPtr 0) (endPtr + 1) oldEnd
  else memory
termination_by oldEnd - endPtr

/-- `UpdateUnsignedLeb128(dest, value)`; a failed `DCHECK_LE(value, old_value)` is `none`. -/
def updateUnsignedLeb128 (memory : Nat → UInt8) (dest : Nat) (value : UInt32) : Option (Nat → UInt8) :=
  let (oldValue, oldEnd) := decodeUnsignedLeb128 memory dest
  if value ≤ oldValue then
    let (memory, endPtr) := encodeUnsignedLeb128 memory dest value
    some (updateUnsignedLeb128Loop memory endPtr oldEnd)
  else none

/-- `memory` holds from `dest` on an unsigned LEB128 of `value` in `length` bytes: the bytes of
`value`, with as many bytes of continuation after them as `length` asks. -/
structure HoldsLeb128 (memory : Nat → UInt8) (dest : Nat) (value : UInt32) (length : Nat) : Prop where
  pos : 1 ≤ length
  most : length ≤ 5
  fits : value.toNat < 2 ^ (7 * length)
  bytes : ∀ i < length, (memory (dest + i)).toNat = Base128.byte value.toNat length i

namespace HoldsLeb128

variable {memory : Nat → UInt8} {dest length : Nat} {value : UInt32}

theorem decode (holds : HoldsLeb128 memory dest value length) :
    decodeUnsignedLeb128 memory dest = (value, dest + length) := by
  rw [decodeUnsignedLeb128_of_bytes holds.bytes holds.pos holds.most holds.fits, UInt32.ofNat_toNat]

end HoldsLeb128

/-- `EncodeUnsignedLeb128` writes an unsigned LEB128 of the value in its count of bytes. -/
theorem holdsLeb128_encode (memory : Nat → UInt8) (dest : Nat) (value : UInt32) :
    HoldsLeb128 (encodeUnsignedLeb128 memory dest value).1 dest value (Base128.digitCount 7 value.toNat) ∧
      (encodeUnsignedLeb128 memory dest value).2 = dest + Base128.digitCount 7 value.toNat := by
  obtain ⟨pos, most⟩ := digitCount_le_five value (by decide) le_rfl
  have fits := Base128.lt_two_pow_digitCount 7 value.toNat
  rw [show 7 + 7 * (Base128.digitCount 7 value.toNat - 1) = 7 * Base128.digitCount 7 value.toNat by omega] at fits
  rw [encodeUnsignedLeb128_eq, foldl_storeByte, Base128.length_bytes]
  exact ⟨⟨pos, most, fits, writeCells_bytes_apply _ _ _ _⟩, rfl⟩

/-- **The padding loop of `UpdateUnsignedLeb128`**: from the end of the `m` bytes of `v` to the end
of `m + k`, it turns them into the `m + k` bytes of `v`, and leaves every other byte alone. -/
theorem updateUnsignedLeb128Loop_bytes {dest v : Nat} :
    ∀ k m (memory : Nat → UInt8), 1 ≤ m → v < 2 ^ (7 * m) →
      (∀ i < m, (memory (dest + i)).toNat = Base128.byte v m i) →
      (∀ i < m + k, (updateUnsignedLeb128Loop memory (dest + m) (dest + (m + k)) (dest + i)).toNat =
          Base128.byte v (m + k) i) ∧
        ∀ a, a < dest ∨ dest + (m + k) ≤ a → updateUnsignedLeb128Loop memory (dest + m) (dest + (m + k)) a = memory a
  | 0, m, memory, _, _, holds => by
      rw [Nat.add_zero, updateUnsignedLeb128Loop, if_neg (Nat.lt_irrefl _)]
      exact ⟨holds, fun _ _ => rfl⟩
  | k + 1, m, memory, pos, fits, holds => by
      obtain ⟨i, rfl⟩ : ∃ i, m = i + 1 := ⟨m - 1, by omega⟩
      -- one run of the body: the last byte of `v` gets its top bit and a zero byte follows it
      let padded := Function.update (Function.update memory (dest + (i + 1) - 1)
        (memory (dest + (i + 1) - 1) ||| 0x80)) (dest + (i + 1)) 0
      have paddedHolds : ∀ j < i + 1 + 1, (padded (dest + j)).toNat = Base128.byte v (i + 1 + 1) j := by
        intro j inside
        simp only [padded]
        by_cases last : j = i + 1
        · subst last
          rw [Function.update_self, Base128.byte_eq_zero_of_lt (Int.natCast_nonneg v) (by exact_mod_cast fits)]
          rfl
        rw [Function.update_of_ne (by omega)]
        by_cases before : j = i
        · subst before
          have byte := holds j (by omega)
          have low : Base128.byte v (j + 1) j < 128 := by
            have := (Base128.byte_continues_iff (x := v) (n := j + 1) (i := j)).not.2 (by omega)
            omega
          rw [show dest + (j + 1) - 1 = dest + j by omega, Function.update_self, toNat_or_0x80 (by omega), byte,
            Base128.byte_last_succ]
        · rw [Function.update_of_ne (by omega), holds j (by omega), Base128.byte_succ_of_lt (n := i + 1) (by omega)]
      have paddedFits : v < 2 ^ (7 * (i + 1 + 1)) :=
        lt_of_lt_of_le fits (Nat.pow_le_pow_right (by decide) (by omega))
      obtain ⟨rest, frame⟩ := updateUnsignedLeb128Loop_bytes k (i + 1 + 1) padded (by omega) paddedFits paddedHolds
      have step : updateUnsignedLeb128Loop memory (dest + (i + 1)) (dest + (i + 1 + (k + 1))) =
          updateUnsignedLeb128Loop padded (dest + (i + 1 + 1)) (dest + (i + 1 + 1 + k)) := by
        rw [updateUnsignedLeb128Loop, if_pos (by omega)]
        simp only [padded, show i + 1 + (k + 1) = i + 1 + 1 + k by omega, Nat.add_assoc]
      rw [step, show i + 1 + (k + 1) = i + 1 + 1 + k by omega]
      refine ⟨rest, fun a outside => ?_⟩
      rw [frame a outside]
      simp only [padded]
      rw [Function.update_of_ne (by omega), Function.update_of_ne (by omega)]

namespace HoldsLeb128

variable {memory : Nat → UInt8} {dest length : Nat} {old value : UInt32}

/-- **An update keeps the length of a padded encoding**: over an unsigned LEB128 of `old` in
`length` bytes, `UpdateUnsignedLeb128` of a value no larger writes one in as many bytes, and
changes no byte outside them. -/
theorem update (holds : HoldsLeb128 memory dest old length) (le : value ≤ old) :
    ∃ memory', updateUnsignedLeb128 memory dest value = some memory' ∧ HoldsLeb128 memory' dest value length ∧
      ∀ a, a < dest ∨ dest + length ≤ a → memory' a = memory a := by
  have fits : value.toNat < 2 ^ (7 * length) := lt_of_le_of_lt (UInt32.le_iff_toNat_le.1 le) holds.fits
  have pos := holds.pos
  -- the new value takes no more bytes than the old encoding spans
  have shorter : Base128.digitCount 7 value.toNat ≤ length := by
    have := Base128.digitCount_le_of_lt (k := 7) (m := length - 1)
      (show value.toNat < 2 ^ (7 + 7 * (length - 1)) by rw [show 7 + 7 * (length - 1) = 7 * length by omega]; exact fits)
    omega
  obtain ⟨encoded, ends⟩ := holdsLeb128_encode memory dest value
  obtain ⟨k, count⟩ : ∃ k, length = Base128.digitCount 7 value.toNat + k := ⟨_, (Nat.add_sub_cancel' shorter).symm⟩
  have untouched : ∀ a, a < dest ∨ dest + length ≤ a → (encodeUnsignedLeb128 memory dest value).1 a = memory a := by
    intro a outside
    rw [encodeUnsignedLeb128_eq, foldl_storeByte, Base128.length_bytes]
    exact writeCells_apply_of_not_mem _ _ _ (by rw [List.mem_range'_1]; omega)
  obtain ⟨padded, frame⟩ := updateUnsignedLeb128Loop_bytes k _ _ encoded.pos encoded.fits encoded.bytes
  rw [← count] at padded frame
  refine ⟨_, ?_, ⟨holds.pos, holds.most, fits, padded⟩, fun a outside => by rw [frame a outside, untouched a outside]⟩
  rw [updateUnsignedLeb128, holds.decode]
  simp only [if_pos le]
  rw [← ends]

end HoldsLeb128

/-- `memory` holds at `dest` an unsigned LEB128 of `value` that `EncodeUnsignedLeb128` wrote, or
that `UpdateUnsignedLeb128` wrote over such a LEB128. -/
inductive WrittenLeb128 (dest : Nat) : (Nat → UInt8) → UInt32 → Prop
  | encoded (memory : Nat → UInt8) (value : UInt32) : WrittenLeb128 dest (encodeUnsignedLeb128 memory dest value).1 value
  | updated {memory memory' : Nat → UInt8} {old : UInt32} (value : UInt32) :
      WrittenLeb128 dest memory old → updateUnsignedLeb128 memory dest value = some memory' →
        WrittenLeb128 dest memory' value

/-- What the encoder and the updates write is a padded encoding: the invariant of a run of updates. -/
theorem WrittenLeb128.holds {dest : Nat} {memory : Nat → UInt8} {value : UInt32}
    (written : WrittenLeb128 dest memory value) : ∃ length, HoldsLeb128 memory dest value length := by
  induction written with
  | encoded memory value => exact ⟨_, (holdsLeb128_encode memory dest value).1⟩
  | @updated memory memory' old value _ updated ih =>
      obtain ⟨length, holds⟩ := ih
      -- the update returned, so its `DCHECK_LE` held
      have le : value ≤ old := by
        by_contra larger
        rw [updateUnsignedLeb128, holds.decode] at updated
        simp only [if_neg larger, reduceCtorEq] at updated
      obtain ⟨memory'', again, holds', -⟩ := holds.update le
      rw [updated, Option.some.injEq] at again
      exact ⟨length, again ▸ holds'⟩

/-- **`UpdateUnsignedLeb128` ends where the old encoding ended.** Over an unsigned LEB128 that the
encoder or earlier updates wrote, an update with a value no larger returns; the value reads back,
the reading ends at the end of the old encoding, and no byte from there on changes. -/
theorem updateUnsignedLeb128_keeps_end {dest : Nat} {memory : Nat → UInt8} {old value : UInt32}
    (written : WrittenLeb128 dest memory old) (le : value ≤ old) :
    ∃ memory', updateUnsignedLeb128 memory dest value = some memory' ∧
      decodeUnsignedLeb128 memory' dest = (value, (decodeUnsignedLeb128 memory dest).2) ∧
      ∀ a, (decodeUnsignedLeb128 memory dest).2 ≤ a → memory' a = memory a := by
  obtain ⟨length, holds⟩ := written.holds
  obtain ⟨memory', updated, holds', frame⟩ := holds.update le
  rw [holds.decode]
  exact ⟨memory', updated, holds'.decode, fun a past => frame a (Or.inr past)⟩

/-- 300 takes two bytes; 5 written over them reads back and ends after both. -/
theorem update_of_twoBytes_keeps_end :
    WrittenLeb128 0 (encodeUnsignedLeb128 (fun _ => 0) 0 300).1 300 ∧ (5 : UInt32) ≤ 300 ∧
      ∃ memory', updateUnsignedLeb128 (encodeUnsignedLeb128 (fun _ => 0) 0 300).1 0 5 = some memory' ∧
        decodeUnsignedLeb128 memory' 0 = (5, (decodeUnsignedLeb128 (encodeUnsignedLeb128 (fun _ => 0) 0 300).1 0).2) ∧
        ∀ a, (decodeUnsignedLeb128 (encodeUnsignedLeb128 (fun _ => 0) 0 300).1 0).2 ≤ a →
          memory' a = (encodeUnsignedLeb128 (fun _ => 0) 0 300).1 a :=
  ⟨.encoded _ _, by decide, updateUnsignedLeb128_keeps_end (.encoded _ _) (by decide)⟩

end Art.Runtime
