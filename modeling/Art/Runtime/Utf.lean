import Mathlib.Algebra.BigOperators.Fin
import Mathlib.Tactic.Ring
import Art.Machine.BitField
import Art.Text.ModifiedUtf8

/-!
# Conversions between UTF-16 and modified UTF-8

The runtime keeps strings as UTF-16 chars and reads and writes them as modified
UTF-8 (`utf.cc`, `utf-inl.h`). `CountUtf8Bytes` sizes the bytes of a sequence of
chars and `ConvertUtf16ToModifiedUtf8` writes them; `CountModifiedUtf8Chars`
counts the chars of bytes and `ConvertModifiedUtf8ToUtf16` reads them back, one
`GetUtf16FromUtf8` at a time. Both conversions copy byte for char when the two
counts are equal, the case of a text all in U+0001..U+007F. A surrogate pair is
written as the four bytes of its code point.

Buffers are lists: a conversion returns the bytes or chars it writes. A read past
the end of the bytes, which the code leaves undefined, makes
`getUtf16FromUtf8` return `none`. A `char` is a byte; the code reads it as an
`int`, whose bits 7, 5 and 4 are those of the byte whether `char` is signed or
not, and the fast path of the reader widens it as the unsigned value that
`dchecked_integral_cast` checks it to be.

The writer spells its input in modified UTF-8 (`Art.Text.Mutf8`), with as many
bytes as `CountUtf8Bytes` counts (`convertUtf16ToModifiedUtf8_mutf8`); the counter
and the reader invert every spelling (`countModifiedUtf8Chars_of_mutf8`,
`convertModifiedUtf8ToUtf16_of_mutf8`), so a text goes to bytes and back
unchanged (`utf16_modifiedUtf8_roundTrip`).
-/

set_option autoImplicit false

namespace Art.Runtime

open Art.Machine Art.Text

/-! ## The model -/

/-- `GetLeadingUtf16Char`. -/
def getLeadingUtf16Char (maybePair : BitVec 32) : BitVec 16 := (maybePair &&& 0x0000ffff).setWidth 16

/-- `GetTrailingUtf16Char`. -/
def getTrailingUtf16Char (maybePair : BitVec 32) : BitVec 16 := (maybePair >>> 16).setWidth 16

/-- `GetUtf16FromUtf8`: the char, or the surrogate pair with the leading char in
the low half, that the bytes start with, and the bytes after it. -/
def getUtf16FromUtf8 : List (BitVec 8) → Option (BitVec 32 × List (BitVec 8))
  | [] => none
  | one :: rest =>
    if one &&& 0x80 = 0 then
      -- one-byte encoding
      some (one.setWidth 32, rest)
    else
      match rest with
      | [] => none
      | two :: rest =>
        if one &&& 0x20 = 0 then
          -- two-byte encoding
          some ((one &&& 0x1f).setWidth 32 <<< 6 ||| (two &&& 0x3f).setWidth 32, rest)
        else
          match rest with
          | [] => none
          | three :: rest =>
            if one &&& 0x10 = 0 then
              some ((one &&& 0x0f).setWidth 32 <<< 12 ||| (two &&& 0x3f).setWidth 32 <<< 6 |||
                (three &&& 0x3f).setWidth 32, rest)
            else
              match rest with
              | [] => none
              | four :: rest =>
                -- four-byte encoding, returned as a surrogate pair
                let codePoint := (one &&& 0x0f).setWidth 32 <<< 18 ||| (two &&& 0x3f).setWidth 32 <<< 12 |||
                  (three &&& 0x3f).setWidth 32 <<< 6 ||| (four &&& 0x3f).setWidth 32
                -- the leading surrogate in the low half, the trailing one in the high half
                let leadingHalf : BitVec 32 := (codePoint >>> 10) + 0xd7c0 &&& 0xffff
                let trailingHalf : BitVec 32 := ((codePoint &&& 0x03ff) + 0xdc00) <<< 16
                some (leadingHalf ||| trailingHalf, rest)

/-- `GetUtf16FromUtf8` consumes at least one byte. -/
theorem length_lt_of_getUtf16FromUtf8 {bytes rest : List (BitVec 8)} {value : BitVec 32}
    (read : getUtf16FromUtf8 bytes = some (value, rest)) : rest.length < bytes.length := by
  fun_cases getUtf16FromUtf8 bytes <;> simp_all [getUtf16FromUtf8] <;> omega

/-- `GetUtf16FromUtf8` reads no further than the bytes of the char it returns:
bytes after them change nothing. -/
theorem getUtf16FromUtf8_append {bytes next : List (BitVec 8)} {value : BitVec 32}
    (read : getUtf16FromUtf8 bytes = some (value, next)) (tail : List (BitVec 8)) :
    getUtf16FromUtf8 (bytes ++ tail) = some (value, next ++ tail) := by
  fun_cases getUtf16FromUtf8 bytes <;> simp_all [getUtf16FromUtf8]

/-- `CountModifiedUtf8Chars`: one char per lead byte, two for a four-byte
sequence. A sequence cut short by the end still counts. -/
def countModifiedUtf8Chars : List (BitVec 8) → Nat
  | [] => 0
  | ic :: rest =>
    if ic &&& 0x80 = 0 then countModifiedUtf8Chars rest + 1
    else
      match rest with
      | [] => 1
      | _ :: rest =>
        if ic &&& 0x20 = 0 then countModifiedUtf8Chars rest + 1
        else
          match rest with
          | [] => 1
          | _ :: rest =>
            if ic &&& 0x10 = 0 then countModifiedUtf8Chars rest + 1
            else
              match rest with
              | [] => 2
              | _ :: rest => countModifiedUtf8Chars rest + 2

/-- The loop of `ConvertModifiedUtf8ToUtf16` for a text that is not all ASCII. -/
def convertModifiedUtf8ToUtf16Loop (bytes : List (BitVec 8)) : Option (List (BitVec 16)) :=
  match bytes with
  | [] => some []
  | one :: rest =>
    match read : getUtf16FromUtf8 (one :: rest) with
    | none => none
    | some (ch, next) =>
      let leading := getLeadingUtf16Char ch
      let trailing := getTrailingUtf16Char ch
      (convertModifiedUtf8ToUtf16Loop next).map fun chars =>
        leading :: if trailing ≠ 0 then trailing :: chars else chars
termination_by bytes.length
decreasing_by exact length_lt_of_getUtf16FromUtf8 read

/-- `ConvertModifiedUtf8ToUtf16`: with as many bytes as chars, every byte is a
char; otherwise the loop. -/
def convertModifiedUtf8ToUtf16 (outChars : Nat) (utf8 : List (BitVec 8)) : Option (List (BitVec 16)) :=
  if outChars = utf8.length then some (utf8.map fun b => b.setWidth 16)
  else convertModifiedUtf8ToUtf16Loop utf8

/-- `CountUtf8Bytes`. A char is a surrogate pair with the next one only when
there is a next one: the loop's `chars < end`. -/
def countUtf8Bytes : List (BitVec 16) → Nat
  | [] => 0
  | [ch] => if ch ≠ 0 ∧ ch < 0x80 then 1 else if ch < 0x800 then 2 else 3
  | ch :: ch2 :: rest =>
    if ch ≠ 0 ∧ ch < 0x80 then countUtf8Bytes (ch2 :: rest) + 1
    else if ch < 0x800 then countUtf8Bytes (ch2 :: rest) + 2
    -- a properly paired surrogate takes four bytes, an unpaired one three
    else if (0xd800 ≤ ch ∧ ch < 0xdc00) ∧ (0xdc00 ≤ ch2 ∧ ch2 < 0xe000) then countUtf8Bytes rest + 4
    else countUtf8Bytes (ch2 :: rest) + 3

/-- The four bytes `ConvertUtf16ToModifiedUtf8` writes for a surrogate pair: those
of its code point. -/
def encodeSurrogatePair (ch ch2 : BitVec 16) : List (BitVec 8) :=
  let codePoint : BitVec 32 := (ch.setWidth 32 <<< 10) + ch2.setWidth 32 - 0x035fdc00
  [(codePoint >>> 18 ||| 0xf0).setWidth 8, ((codePoint >>> 12) &&& 0x3f ||| 0x80).setWidth 8,
    ((codePoint >>> 6) &&& 0x3f ||| 0x80).setWidth 8, (codePoint &&& 0x3f ||| 0x80).setWidth 8]

/-- The three or two bytes `ConvertUtf16ToModifiedUtf8` writes for any other char
that is not in U+0001..U+007F. -/
def encodeThreeOrTwoBytes (ch : BitVec 16) : List (BitVec 8) :=
  if ch > 0x07ff then
    [(ch >>> 12 ||| 0xe0).setWidth 8, ((ch >>> 6) &&& 0x3f ||| 0x80).setWidth 8, (ch &&& 0x3f ||| 0x80).setWidth 8]
  else
    [(ch >>> 6 ||| 0xc0).setWidth 8, (ch &&& 0x3f ||| 0x80).setWidth 8]

/-- The loop of `ConvertUtf16ToModifiedUtf8` for a text that is not all ASCII; a
char is a surrogate pair with the next one only when there is a next one, the
code's `char_count > 0`. -/
def convertUtf16ToModifiedUtf8Loop : List (BitVec 16) → List (BitVec 8)
  | [] => []
  | [ch] => if 0 < ch ∧ ch ≤ 0x7f then [ch.setWidth 8] else encodeThreeOrTwoBytes ch
  | ch :: ch2 :: rest =>
    if 0 < ch ∧ ch ≤ 0x7f then ch.setWidth 8 :: convertUtf16ToModifiedUtf8Loop (ch2 :: rest)
    else if (0xd800 ≤ ch ∧ ch ≤ 0xdbff) ∧ (0xdc00 ≤ ch2 ∧ ch2 ≤ 0xdfff) then
      encodeSurrogatePair ch ch2 ++ convertUtf16ToModifiedUtf8Loop rest
    else encodeThreeOrTwoBytes ch ++ convertUtf16ToModifiedUtf8Loop (ch2 :: rest)

/-- `ConvertUtf16ToModifiedUtf8`: with as many bytes as chars, every char is a
byte; otherwise the loop. -/
def convertUtf16ToModifiedUtf8 (byteCount : Nat) (utf16 : List (BitVec 16)) : List (BitVec 8) :=
  if byteCount = utf16.length then utf16.map fun ch => ch.setWidth 8
  else convertUtf16ToModifiedUtf8Loop utf16

/-- U+1F600, the pair `D83D DE00`, is the four bytes `F0 9F 98 80`; U+0000 is two. -/
example : convertUtf16ToModifiedUtf8 (countUtf8Bytes [0xd83d, 0xde00, 0]) [0xd83d, 0xde00, 0] =
    [0xf0, 0x9f, 0x98, 0x80, 0xc0, 0x80] := by
  decide

/-! ## Bytes as numbers -/

section Fields

variable {v : Nat}

theorem two_pow_eight_le (wide : 8 ≤ v) : 0x100 ≤ 2 ^ v :=
  calc (0x100 : Nat) = 2 ^ 8 := rfl
    _ ≤ 2 ^ v := Nat.pow_le_pow_right (by decide) wide

/-- A lead byte: the or of the high bits of a char with the marker `c`. -/
theorem toNat_leadByte (y c : BitVec v) {j : Nat} (low : y.toNat < 2 ^ j)
    (high : 2 ^ j ∣ c.toNat) (fits : c.toNat + 2 ^ j ≤ 0x100) :
    ((y ||| c).setWidth 8).toNat = y.toNat + c.toNat := by
  rw [BitVec.toNat_setWidth, toNat_or_of_lt_of_dvd low high]
  exact Nat.mod_eq_of_lt (by omega)

/-- A continuation byte `10xxxxxx` holds the six low bits of `y`. -/
theorem toNat_continuationByte (wide : 8 ≤ v) (y : BitVec v) :
    ((y &&& 0x3f ||| 0x80).setWidth 8).toNat = y.toNat % 0x40 + 0x80 := by
  have big := two_pow_eight_le wide
  have mask : (0x3f : BitVec v).toNat = 2 ^ 6 - 1 := by
    show (BitVec.ofNat v 0x3f).toNat = _
    rw [BitVec.toNat_ofNat, Nat.mod_eq_of_lt (by omega)]
    rfl
  have marker : (0x80 : BitVec v).toNat = 0x80 := by
    show (BitVec.ofNat v 0x80).toNat = _
    rw [BitVec.toNat_ofNat, Nat.mod_eq_of_lt (by omega)]
  have masked : (y &&& 0x3f).toNat = y.toNat % 2 ^ 6 := toNat_and_of_mask mask
  rw [toNat_leadByte _ _ (j := 6) (by omega) (by rw [marker]; decide) (by rw [marker]; decide), masked, marker]
  rfl

/-- A byte is `BitVec.ofNat 8` of its value. -/
theorem eq_ofNat_of_toNat {b : BitVec 8} {n : Nat} (value : b.toNat = n) : b = BitVec.ofNat 8 n := by
  rw [← value, BitVec.ofNat_toNat, BitVec.setWidth_eq]

theorem toNat_ushiftRight_eq_div {v : Nat} (x : BitVec v) (k : Nat) : (x >>> k).toNat = x.toNat / 2 ^ k := by
  rw [BitVec.toNat_ushiftRight, Nat.shiftRight_eq_div_pow]

section ByteField

variable (b m : BitVec 8) {k : Nat} (mask : m.toNat = 2 ^ k - 1)
include mask

/-- The low field of a byte, widened to 32 bits. -/
theorem toNat_byteField : ((b &&& m).setWidth 32).toNat = b.toNat % 2 ^ k := by
  have small := (b &&& m).isLt
  rw [BitVec.toNat_setWidth, Nat.mod_eq_of_lt (by omega), toNat_and_of_mask mask]

/-- A field of a byte, widened to 32 bits and shifted to its place. -/
theorem toNat_byteField_shiftLeft (s : Nat) (fits : k + s ≤ 32) :
    ((b &&& m).setWidth 32 <<< s).toNat = b.toNat % 2 ^ k * 2 ^ s := by
  have field : b.toNat % 2 ^ k < 2 ^ k := Nat.mod_lt _ (Nat.two_pow_pos k)
  have placed : b.toNat % 2 ^ k * 2 ^ s < 2 ^ 32 :=
    calc b.toNat % 2 ^ k * 2 ^ s < 2 ^ k * 2 ^ s := Nat.mul_lt_mul_of_pos_right field (Nat.two_pow_pos s)
      _ = 2 ^ (k + s) := (Nat.pow_add 2 k s).symm
      _ ≤ 2 ^ 32 := Nat.pow_le_pow_right (by decide) fits
  rw [BitVec.toNat_shiftLeft, toNat_byteField b m mask, Nat.shiftLeft_eq, Nat.mod_eq_of_lt placed]

end ByteField

/-- The test of a bit of a byte given by its value. -/
theorem ofNat_and_eq_zero_iff {n : Nat} (bit : BitVec 8) {k : Nat} (isBit : bit.toNat = 2 ^ k) :
    BitVec.ofNat 8 n &&& bit = 0 ↔ n % 0x100 / 2 ^ k % 2 = 0 := by
  rw [and_eq_zero_iff_of_bit isBit, BitVec.toNat_ofNat]

end Fields

/-! ## The writer spells its input -/

section Writer

/-- A char below U+0800 is written in two bytes. -/
theorem encodeThreeOrTwoBytes_of_lt {ch : BitVec 16} (small : ch.toNat < 0x800) :
    encodeThreeOrTwoBytes ch =
      [BitVec.ofNat 8 (0xc0 + ch.toNat / 0x40), BitVec.ofNat 8 (0x80 + ch.toNat % 0x40)] := by
  have notLarge : ¬ch > 0x07ff := by
    simp only [gt_iff_lt, BitVec.lt_def]
    simp
    omega
  have high := toNat_ushiftRight_eq_div ch 6
  rw [encodeThreeOrTwoBytes, if_neg notLarge]
  simp only [List.cons.injEq, and_true]
  refine ⟨eq_ofNat_of_toNat ?_, eq_ofNat_of_toNat ?_⟩
  · rw [toNat_leadByte _ _ (j := 5) (by rw [high]; omega) (by decide) (by decide), high]
    simp
    omega
  · rw [toNat_continuationByte (by decide)]
    omega

/-- A char from U+0800 on is written in three bytes. -/
theorem encodeThreeOrTwoBytes_of_le {ch : BitVec 16} (large : 0x800 ≤ ch.toNat) :
    encodeThreeOrTwoBytes ch =
      [BitVec.ofNat 8 (0xe0 + ch.toNat / 0x1000), BitVec.ofNat 8 (0x80 + ch.toNat / 0x40 % 0x40),
        BitVec.ofNat 8 (0x80 + ch.toNat % 0x40)] := by
  have isLarge : ch > 0x07ff := by
    simp only [gt_iff_lt, BitVec.lt_def]
    simp
    omega
  have high := toNat_ushiftRight_eq_div ch 12
  have middle := toNat_ushiftRight_eq_div ch 6
  have small := ch.isLt
  rw [encodeThreeOrTwoBytes, if_pos isLarge]
  simp only [List.cons.injEq, and_true]
  refine ⟨eq_ofNat_of_toNat ?_, eq_ofNat_of_toNat ?_, eq_ofNat_of_toNat ?_⟩
  · rw [toNat_leadByte _ _ (j := 4) (by rw [high]; omega) (by decide) (by decide), high]
    simp
    omega
  · rw [toNat_continuationByte (by decide), middle]
    omega
  · rw [toNat_continuationByte (by decide)]
    omega

section Pair

variable {ch ch2 : BitVec 16} (leading : 0xd800 ≤ ch.toNat ∧ ch.toNat < 0xdc00)
  (trailing : 0xdc00 ≤ ch2.toNat ∧ ch2.toNat < 0xe000)
include leading trailing

/-- `(ch << 10) + ch2 - 0x035fdc00` is the code point of the pair. -/
theorem toNat_pairCodePoint :
    ((ch.setWidth 32 <<< 10) + ch2.setWidth 32 - 0x035fdc00).toNat = pairCodePoint ch.toNat ch2.toNat := by
  simp only [BitVec.toNat_sub, BitVec.toNat_add, BitVec.toNat_shiftLeft, BitVec.toNat_setWidth, Nat.shiftLeft_eq]
  unfold pairCodePoint
  simp
  omega

/-- A surrogate pair is written as the four bytes of its code point. -/
theorem encodeSurrogatePair_eq :
    encodeSurrogatePair ch ch2 =
      [BitVec.ofNat 8 (0xf0 + pairCodePoint ch.toNat ch2.toNat / 0x40000),
        BitVec.ofNat 8 (0x80 + pairCodePoint ch.toNat ch2.toNat / 0x1000 % 0x40),
        BitVec.ofNat 8 (0x80 + pairCodePoint ch.toNat ch2.toNat / 0x40 % 0x40),
        BitVec.ofNat 8 (0x80 + pairCodePoint ch.toNat ch2.toNat % 0x40)] := by
  have point := toNat_pairCodePoint leading trailing
  have range := pairCodePoint_range leading trailing
  rw [encodeSurrogatePair]
  simp only [List.cons.injEq, and_true]
  refine ⟨eq_ofNat_of_toNat ?_, eq_ofNat_of_toNat ?_, eq_ofNat_of_toNat ?_, eq_ofNat_of_toNat ?_⟩
  · rw [toNat_leadByte _ _ (j := 3) (by rw [toNat_ushiftRight_eq_div, point]; omega) (by decide) (by decide),
      toNat_ushiftRight_eq_div, point]
    simp
    omega
  · rw [toNat_continuationByte (by decide), toNat_ushiftRight_eq_div, point]
    omega
  · rw [toNat_continuationByte (by decide), toNat_ushiftRight_eq_div, point]
    omega
  · rw [toNat_continuationByte (by decide), point]
    omega

end Pair

variable {chars : List (BitVec 16)} {bytes : List (BitVec 8)}

theorem mutf8_ascii {ch : BitVec 16} (ascii : 0 < ch ∧ ch ≤ 0x7f) (spelled : Mutf8 chars bytes) :
    Mutf8 (ch :: chars) (ch.setWidth 8 :: bytes) := by
  simp only [BitVec.lt_def, BitVec.le_def] at ascii
  simp at ascii
  rw [← BitVec.ofNat_toNat]
  exact .one ascii.1 (by omega) spelled

theorem mutf8_encodeThreeOrTwoBytes {ch : BitVec 16} (notAscii : ¬(0 < ch ∧ ch ≤ 0x7f))
    (spelled : Mutf8 chars bytes) : Mutf8 (ch :: chars) (encodeThreeOrTwoBytes ch ++ bytes) := by
  simp only [BitVec.lt_def, BitVec.le_def] at notAscii
  simp at notAscii
  by_cases small : ch.toNat < 0x800
  · rw [encodeThreeOrTwoBytes_of_lt small]
    exact .two (by omega) spelled
  · rw [encodeThreeOrTwoBytes_of_le (by omega)]
    exact .three (by omega) spelled

/-- **The writer's loop spells its input in modified UTF-8.** -/
theorem convertUtf16ToModifiedUtf8Loop_mutf8 (chars : List (BitVec 16)) :
    Mutf8 chars (convertUtf16ToModifiedUtf8Loop chars) := by
  fun_induction convertUtf16ToModifiedUtf8Loop chars with
  | case1 => exact .nil
  | case2 ch ascii => exact mutf8_ascii ascii .nil
  | case3 ch notAscii => simpa using mutf8_encodeThreeOrTwoBytes notAscii .nil
  | case4 ch ch2 rest ascii ih => exact mutf8_ascii ascii ih
  | case5 ch ch2 rest _ pair ih =>
      simp only [BitVec.le_def] at pair
      simp at pair
      have leading : 0xd800 ≤ ch.toNat ∧ ch.toNat < 0xdc00 := by omega
      have trailing : 0xdc00 ≤ ch2.toNat ∧ ch2.toNat < 0xe000 := by omega
      rw [encodeSurrogatePair_eq leading trailing]
      exact .four leading.1 leading.2 trailing.1 trailing.2 ih
  | case6 ch ch2 rest notAscii _ ih => exact mutf8_encodeThreeOrTwoBytes notAscii ih

theorem length_encodeThreeOrTwoBytes (ch : BitVec 16) :
    (encodeThreeOrTwoBytes ch).length = if ch < 0x800 then 2 else 3 := by
  by_cases small : ch.toNat < 0x800
  · rw [encodeThreeOrTwoBytes_of_lt small, if_pos (by rw [BitVec.lt_def]; simpa using small)]
    rfl
  · rw [encodeThreeOrTwoBytes_of_le (by omega), if_neg (by rw [BitVec.lt_def]; simpa using small)]
    rfl

theorem ascii_iff {ch : BitVec 16} : (0 < ch ∧ ch ≤ 0x7f) ↔ (ch ≠ 0 ∧ ch < 0x80) := by
  simp only [BitVec.lt_def, BitVec.le_def, ne_eq, ← BitVec.toNat_inj]
  simp
  omega

/-- The writer's loop writes as many bytes as `CountUtf8Bytes` counts. -/
theorem length_convertUtf16ToModifiedUtf8Loop (chars : List (BitVec 16)) :
    (convertUtf16ToModifiedUtf8Loop chars).length = countUtf8Bytes chars := by
  fun_induction convertUtf16ToModifiedUtf8Loop chars with
  | case1 => rfl
  | case2 ch ascii => rw [countUtf8Bytes, if_pos (ascii_iff.1 ascii)]; rfl
  | case3 ch notAscii =>
      rw [countUtf8Bytes, if_neg (ascii_iff.not.1 notAscii), length_encodeThreeOrTwoBytes]
  | case4 ch ch2 rest ascii ih => rw [countUtf8Bytes, if_pos (ascii_iff.1 ascii), List.length_cons, ih]
  | case5 ch ch2 rest notAscii pair ih =>
      have paired : (0xd800 ≤ ch ∧ ch < 0xdc00) ∧ (0xdc00 ≤ ch2 ∧ ch2 < 0xe000) := by
        simp only [BitVec.lt_def, BitVec.le_def] at pair ⊢
        simp at pair ⊢
        omega
      have large : ¬ch < 0x800 := by
        simp only [BitVec.lt_def, BitVec.le_def] at pair ⊢
        simp at pair ⊢
        omega
      rw [countUtf8Bytes, if_neg (ascii_iff.not.1 notAscii), if_neg large, if_pos paired, List.length_append, ih,
        Nat.add_comm]
      rfl
  | case6 ch ch2 rest notAscii notPair ih =>
      have unpaired : ¬((0xd800 ≤ ch ∧ ch < 0xdc00) ∧ (0xdc00 ≤ ch2 ∧ ch2 < 0xe000)) := by
        simp only [BitVec.lt_def, BitVec.le_def] at notPair ⊢
        simp at notPair ⊢
        omega
      rw [countUtf8Bytes, if_neg (ascii_iff.not.1 notAscii), List.length_append, ih,
        length_encodeThreeOrTwoBytes]
      -- an unpaired char takes two or three bytes by the same test in both
      split <;> omega

section Steps

variable {ch ch2 : BitVec 16} (rest : List (BitVec 16))

/-- The writer's loop on a surrogate pair. -/
theorem convertUtf16ToModifiedUtf8Loop_pair (leading : 0xd800 ≤ ch.toNat ∧ ch.toNat < 0xdc00)
    (trailing : 0xdc00 ≤ ch2.toNat ∧ ch2.toNat < 0xe000) :
    convertUtf16ToModifiedUtf8Loop (ch :: ch2 :: rest) = encodeSurrogatePair ch ch2 ++ convertUtf16ToModifiedUtf8Loop rest := by
  have notAscii : ¬(0 < ch ∧ ch ≤ 0x7f) := by
    simp only [BitVec.lt_def, BitVec.le_def]
    simp
    omega
  have paired : (0xd800 ≤ ch ∧ ch ≤ 0xdbff) ∧ (0xdc00 ≤ ch2 ∧ ch2 ≤ 0xdfff) := by
    simp only [BitVec.le_def]
    simp
    omega
  rw [convertUtf16ToModifiedUtf8Loop, if_neg notAscii, if_pos paired]

/-- The writer's loop on a char from U+0800 on that does not start a surrogate pair. -/
theorem convertUtf16ToModifiedUtf8Loop_unpaired (large : 0x800 ≤ ch.toNat)
    (unpaired : ¬(0xdc00 ≤ ch2.toNat ∧ ch2.toNat < 0xe000)) :
    convertUtf16ToModifiedUtf8Loop (ch :: ch2 :: rest) =
      encodeThreeOrTwoBytes ch ++ convertUtf16ToModifiedUtf8Loop (ch2 :: rest) := by
  have notAscii : ¬(0 < ch ∧ ch ≤ 0x7f) := by
    simp only [BitVec.lt_def, BitVec.le_def]
    simp
    omega
  have notPaired : ¬((0xd800 ≤ ch ∧ ch ≤ 0xdbff) ∧ (0xdc00 ≤ ch2 ∧ ch2 ≤ 0xdfff)) := by
    simp only [BitVec.le_def]
    simp
    omega
  rw [convertUtf16ToModifiedUtf8Loop, if_neg notAscii, if_neg notPaired]

end Steps

end Writer

/-! ## The reader inverts every spelling -/

section Reader

theorem setWidth_ofNat_of_lt {v u n : Nat} (small : n < 2 ^ v) :
    (BitVec.ofNat v n).setWidth u = BitVec.ofNat u n := by
  apply BitVec.eq_of_toNat_eq
  rw [BitVec.toNat_setWidth, BitVec.toNat_ofNat, BitVec.toNat_ofNat, Nat.mod_eq_of_lt small]

/-- The low half of a value is its leading char. -/
theorem getLeadingUtf16Char_ofNat (lead trail : Nat) :
    getLeadingUtf16Char (BitVec.ofNat 32 (lead + trail * 0x10000)) = BitVec.ofNat 16 lead := by
  apply BitVec.eq_of_toNat_eq
  rw [getLeadingUtf16Char, BitVec.toNat_setWidth, toNat_and_of_mask (k := 16) (by decide), BitVec.toNat_ofNat,
    BitVec.toNat_ofNat]
  omega

/-- The high half of a value is its trailing char. -/
theorem getTrailingUtf16Char_ofNat {lead : Nat} (trail : Nat) (low : lead < 0x10000) :
    getTrailingUtf16Char (BitVec.ofNat 32 (lead + trail * 0x10000)) = BitVec.ofNat 16 trail := by
  apply BitVec.eq_of_toNat_eq
  rw [getTrailingUtf16Char, BitVec.toNat_setWidth, toNat_ushiftRight_eq_div, BitVec.toNat_ofNat,
    BitVec.toNat_ofNat]
  omega

/-- A value below `0x10000` is a char with no trailing half. -/
theorem getLeadingUtf16Char_of_char (n : Nat) : getLeadingUtf16Char (BitVec.ofNat 32 n) = BitVec.ofNat 16 n := by
  simpa using getLeadingUtf16Char_ofNat n 0

theorem getTrailingUtf16Char_of_char {n : Nat} (small : n < 0x10000) :
    getTrailingUtf16Char (BitVec.ofNat 32 n) = 0 := by
  simpa using getTrailingUtf16Char_ofNat 0 small

/-- One run of the reader's loop, on what `GetUtf16FromUtf8` reads. -/
theorem convertModifiedUtf8ToUtf16Loop_of_read {bytes next : List (BitVec 8)} {value : BitVec 32}
    (read : getUtf16FromUtf8 bytes = some (value, next)) :
    convertModifiedUtf8ToUtf16Loop bytes = (convertModifiedUtf8ToUtf16Loop next).map fun chars =>
      getLeadingUtf16Char value ::
        if getTrailingUtf16Char value ≠ 0 then getTrailingUtf16Char value :: chars else chars := by
  cases bytes with
  | nil => simp [getUtf16FromUtf8] at read
  | cons one rest =>
      rw [convertModifiedUtf8ToUtf16Loop]
      split <;> simp_all

section Steps

variable {b1 b2 b3 b4 : BitVec 8} (rest : List (BitVec 8))

/-- The lead byte of a two-byte char: bit 7 set, bit 5 clear. -/
theorem leadBits_of_two {n : Nat} (small : n < 0x800) (first : b1.toNat = 0xc0 + n / 0x40) :
    ¬b1 &&& 0x80 = 0 ∧ b1 &&& 0x20 = 0 := by
  rw [and_eq_zero_iff_of_bit (k := 7) (by decide), and_eq_zero_iff_of_bit (k := 5) (by decide), first]
  omega

/-- The lead byte of a three-byte char: bits 7 and 5 set, bit 4 clear. -/
theorem leadBits_of_three {n : Nat} (small : n < 0x10000) (first : b1.toNat = 0xe0 + n / 0x1000) :
    ¬b1 &&& 0x80 = 0 ∧ ¬b1 &&& 0x20 = 0 ∧ b1 &&& 0x10 = 0 := by
  rw [and_eq_zero_iff_of_bit (k := 7) (by decide), and_eq_zero_iff_of_bit (k := 5) (by decide),
    and_eq_zero_iff_of_bit (k := 4) (by decide), first]
  omega

/-- The lead byte of a four-byte code point: bits 7, 5 and 4 set. -/
theorem leadBits_of_four {c : Nat} (small : c < 0x110000) (first : b1.toNat = 0xf0 + c / 0x40000) :
    ¬b1 &&& 0x80 = 0 ∧ ¬b1 &&& 0x20 = 0 ∧ ¬b1 &&& 0x10 = 0 := by
  rw [and_eq_zero_iff_of_bit (k := 7) (by decide), and_eq_zero_iff_of_bit (k := 5) (by decide),
    and_eq_zero_iff_of_bit (k := 4) (by decide), first]
  omega

/-- `GetUtf16FromUtf8` of a one-byte char. -/
theorem getUtf16FromUtf8_one {n : Nat} (small : n < 0x80) (first : b1.toNat = n) :
    getUtf16FromUtf8 (b1 :: rest) = some (BitVec.ofNat 32 n, rest) := by
  have clear7 : b1 &&& 0x80 = 0 := by
    rw [and_eq_zero_iff_of_bit (k := 7) (by decide), first]
    omega
  simp only [getUtf16FromUtf8, if_pos clear7, Option.some.injEq, Prod.mk.injEq, and_true]
  rw [← first, BitVec.ofNat_toNat]

/-- `GetUtf16FromUtf8` of a two-byte char. -/
theorem getUtf16FromUtf8_two {n : Nat} (small : n < 0x800) (first : b1.toNat = 0xc0 + n / 0x40)
    (second : b2.toNat = 0x80 + n % 0x40) :
    getUtf16FromUtf8 (b1 :: b2 :: rest) = some (BitVec.ofNat 32 n, rest) := by
  obtain ⟨set7, clear5⟩ := leadBits_of_two small first
  simp only [getUtf16FromUtf8, if_neg set7, if_pos clear5, Option.some.injEq, Prod.mk.injEq, and_true]
  apply BitVec.eq_of_toNat_eq
  have high := toNat_byteField_shiftLeft b1 0x1f (k := 5) (by decide) 6 (by decide)
  have low := toNat_byteField b2 0x3f (k := 6) (by decide)
  rw [toNat_or_of_dvd_of_lt (k := 6) (by rw [high]; omega) (by rw [low]; omega), high, low, first, second,
    BitVec.toNat_ofNat]
  omega

/-- After a two-byte lead byte `GetUtf16FromUtf8` takes the next byte as the
continuation, whatever it is: a `NUL` included. -/
theorem getUtf16FromUtf8_of_twoByteLead (set7 : ¬b1 &&& 0x80 = 0) (clear5 : b1 &&& 0x20 = 0) :
    getUtf16FromUtf8 (b1 :: b2 :: rest) = some (BitVec.ofNat 32 (b1.toNat % 0x20 * 0x40 + b2.toNat % 0x40), rest) := by
  simp only [getUtf16FromUtf8, if_neg set7, if_pos clear5, Option.some.injEq, Prod.mk.injEq, and_true]
  apply BitVec.eq_of_toNat_eq
  have high := toNat_byteField_shiftLeft b1 0x1f (k := 5) (by decide) 6 (by decide)
  have low := toNat_byteField b2 0x3f (k := 6) (by decide)
  rw [toNat_or_of_dvd_of_lt (k := 6) (by rw [high]; omega) (by rw [low]; omega), high, low, BitVec.toNat_ofNat]
  omega

/-- `GetUtf16FromUtf8` of a three-byte char. -/
theorem getUtf16FromUtf8_three {n : Nat} (small : n < 0x10000) (first : b1.toNat = 0xe0 + n / 0x1000)
    (second : b2.toNat = 0x80 + n / 0x40 % 0x40) (third : b3.toNat = 0x80 + n % 0x40) :
    getUtf16FromUtf8 (b1 :: b2 :: b3 :: rest) = some (BitVec.ofNat 32 n, rest) := by
  obtain ⟨set7, set5, clear4⟩ := leadBits_of_three small first
  simp only [getUtf16FromUtf8, if_neg set7, if_neg set5, if_pos clear4, Option.some.injEq, Prod.mk.injEq,
    and_true]
  apply BitVec.eq_of_toNat_eq
  have top := toNat_byteField_shiftLeft b1 0x0f (k := 4) (by decide) 12 (by decide)
  have middle := toNat_byteField_shiftLeft b2 0x3f (k := 6) (by decide) 6 (by decide)
  have low := toNat_byteField b3 0x3f (k := 6) (by decide)
  have upper : ((b1 &&& 0x0f).setWidth 32 <<< 12 ||| (b2 &&& 0x3f).setWidth 32 <<< 6).toNat =
      b1.toNat % 2 ^ 4 * 2 ^ 12 + b2.toNat % 2 ^ 6 * 2 ^ 6 := by
    rw [toNat_or_of_dvd_of_lt (k := 12) (by rw [top]; omega) (by rw [middle]; omega), top, middle]
  rw [toNat_or_of_dvd_of_lt (k := 6) (by rw [upper]; omega) (by rw [low]; omega), upper, low, first, second, third,
    BitVec.toNat_ofNat]
  omega

/-- The surrogate pair `GetUtf16FromUtf8` makes of a code point. -/
theorem toNat_surrogatePair {codePoint : BitVec 32} {lead trail : Nat}
    (leading : 0xd800 ≤ lead ∧ lead < 0xdc00) (trailing : 0xdc00 ≤ trail ∧ trail < 0xe000)
    (point : codePoint.toNat = pairCodePoint lead trail) :
    (((codePoint >>> 10) + 0xd7c0 &&& 0xffff : BitVec 32) |||
      (((codePoint &&& 0x03ff) + 0xdc00) <<< 16 : BitVec 32)).toNat = lead + trail * 0x10000 := by
  have leadingHalf : ((codePoint >>> 10) + 0xd7c0 &&& 0xffff : BitVec 32).toNat = lead := by
    rw [toNat_and_of_mask (k := 16) (by decide), BitVec.toNat_add, toNat_ushiftRight_eq_div, point]
    unfold pairCodePoint
    simp
    omega
  have trailingHalf : (((codePoint &&& 0x03ff) + 0xdc00) <<< 16).toNat = trail * 0x10000 := by
    rw [BitVec.toNat_shiftLeft, BitVec.toNat_add, toNat_and_of_mask (k := 10) (by decide), point, Nat.shiftLeft_eq]
    unfold pairCodePoint
    simp
    omega
  rw [toNat_or_of_lt_of_dvd (k := 16) (by rw [leadingHalf]; omega) (by rw [trailingHalf]; omega), leadingHalf,
    trailingHalf]

/-- `GetUtf16FromUtf8` of the four bytes of a surrogate pair. -/
theorem getUtf16FromUtf8_four {lead trail : Nat} (leading : 0xd800 ≤ lead ∧ lead < 0xdc00)
    (trailing : 0xdc00 ≤ trail ∧ trail < 0xe000)
    (first : b1.toNat = 0xf0 + pairCodePoint lead trail / 0x40000)
    (second : b2.toNat = 0x80 + pairCodePoint lead trail / 0x1000 % 0x40)
    (third : b3.toNat = 0x80 + pairCodePoint lead trail / 0x40 % 0x40)
    (fourth : b4.toNat = 0x80 + pairCodePoint lead trail % 0x40) :
    getUtf16FromUtf8 (b1 :: b2 :: b3 :: b4 :: rest) =
      some (BitVec.ofNat 32 (lead + trail * 0x10000), rest) := by
  have range := pairCodePoint_range leading trailing
  obtain ⟨set7, set5, set4⟩ := leadBits_of_four range.2 first
  simp only [getUtf16FromUtf8, if_neg set7, if_neg set5, if_neg set4, Option.some.injEq, Prod.mk.injEq,
    and_true]
  apply BitVec.eq_of_toNat_eq
  -- the code point, field by field from the top
  have f1 := toNat_byteField_shiftLeft b1 0x0f (k := 4) (by decide) 18 (by decide)
  have f2 := toNat_byteField_shiftLeft b2 0x3f (k := 6) (by decide) 12 (by decide)
  have f3 := toNat_byteField_shiftLeft b3 0x3f (k := 6) (by decide) 6 (by decide)
  have f4 := toNat_byteField b4 0x3f (k := 6) (by decide)
  have top : ((b1 &&& 0x0f).setWidth 32 <<< 18 ||| (b2 &&& 0x3f).setWidth 32 <<< 12).toNat =
      b1.toNat % 2 ^ 4 * 2 ^ 18 + b2.toNat % 2 ^ 6 * 2 ^ 12 := by
    rw [toNat_or_of_dvd_of_lt (k := 18) (by rw [f1]; omega) (by rw [f2]; omega), f1, f2]
  have upper : ((b1 &&& 0x0f).setWidth 32 <<< 18 ||| (b2 &&& 0x3f).setWidth 32 <<< 12 |||
      (b3 &&& 0x3f).setWidth 32 <<< 6).toNat =
        b1.toNat % 2 ^ 4 * 2 ^ 18 + b2.toNat % 2 ^ 6 * 2 ^ 12 + b3.toNat % 2 ^ 6 * 2 ^ 6 := by
    rw [toNat_or_of_dvd_of_lt (k := 12) (by rw [top]; omega) (by rw [f3]; omega), top, f3]
  have point : ((b1 &&& 0x0f).setWidth 32 <<< 18 ||| (b2 &&& 0x3f).setWidth 32 <<< 12 |||
      (b3 &&& 0x3f).setWidth 32 <<< 6 ||| (b4 &&& 0x3f).setWidth 32).toNat = pairCodePoint lead trail := by
    rw [toNat_or_of_dvd_of_lt (k := 6) (by rw [upper]; omega) (by rw [f4]; omega), upper, f4, first, second,
      third, fourth]
    omega
  rw [toNat_surrogatePair leading trailing point, BitVec.toNat_ofNat]
  omega

/-- `CountModifiedUtf8Chars` of a one-byte char. -/
theorem countModifiedUtf8Chars_one {n : Nat} (small : n < 0x80) (first : b1.toNat = n) :
    countModifiedUtf8Chars (b1 :: rest) = countModifiedUtf8Chars rest + 1 := by
  have clear7 : b1 &&& 0x80 = 0 := by
    rw [and_eq_zero_iff_of_bit (k := 7) (by decide), first]
    omega
  rw [countModifiedUtf8Chars.eq_def]
  simp only [if_pos clear7]

/-- `CountModifiedUtf8Chars` of a two-byte char. -/
theorem countModifiedUtf8Chars_two {n : Nat} (small : n < 0x800) (first : b1.toNat = 0xc0 + n / 0x40) :
    countModifiedUtf8Chars (b1 :: b2 :: rest) = countModifiedUtf8Chars rest + 1 := by
  obtain ⟨set7, clear5⟩ := leadBits_of_two small first
  rw [countModifiedUtf8Chars.eq_def]
  simp only [if_neg set7, if_pos clear5]

/-- `CountModifiedUtf8Chars` of a three-byte char. -/
theorem countModifiedUtf8Chars_three {n : Nat} (small : n < 0x10000) (first : b1.toNat = 0xe0 + n / 0x1000) :
    countModifiedUtf8Chars (b1 :: b2 :: b3 :: rest) = countModifiedUtf8Chars rest + 1 := by
  obtain ⟨set7, set5, clear4⟩ := leadBits_of_three small first
  rw [countModifiedUtf8Chars.eq_def]
  simp only [if_neg set7, if_neg set5, if_pos clear4]

/-- `CountModifiedUtf8Chars` of a four-byte code point: two chars. -/
theorem countModifiedUtf8Chars_four {c : Nat} (small : c < 0x110000) (first : b1.toNat = 0xf0 + c / 0x40000) :
    countModifiedUtf8Chars (b1 :: b2 :: b3 :: b4 :: rest) = countModifiedUtf8Chars rest + 2 := by
  obtain ⟨set7, set5, set4⟩ := leadBits_of_four small first
  rw [countModifiedUtf8Chars.eq_def]
  simp only [if_neg set7, if_neg set5, if_neg set4]

end Steps

/-- A run of the loop on a char. -/
theorem convertModifiedUtf8ToUtf16Loop_of_char {bytes next : List (BitVec 8)} {ch : BitVec 16}
    (read : getUtf16FromUtf8 bytes = some (BitVec.ofNat 32 ch.toNat, next)) :
    convertModifiedUtf8ToUtf16Loop bytes = (convertModifiedUtf8ToUtf16Loop next).map (ch :: ·) := by
  rw [convertModifiedUtf8ToUtf16Loop_of_read read, getLeadingUtf16Char_of_char,
    getTrailingUtf16Char_of_char ch.isLt, BitVec.ofNat_toNat, BitVec.setWidth_eq]
  simp

/-- A run of the loop on a surrogate pair. -/
theorem convertModifiedUtf8ToUtf16Loop_of_pair {bytes next : List (BitVec 8)} {lead trail : BitVec 16}
    (nonzero : trail ≠ 0) (read : getUtf16FromUtf8 bytes = some (BitVec.ofNat 32 (lead.toNat + trail.toNat * 0x10000), next)) :
    convertModifiedUtf8ToUtf16Loop bytes = (convertModifiedUtf8ToUtf16Loop next).map (lead :: trail :: ·) := by
  rw [convertModifiedUtf8ToUtf16Loop_of_read read, getLeadingUtf16Char_ofNat,
    getTrailingUtf16Char_ofNat _ lead.isLt, BitVec.ofNat_toNat, BitVec.setWidth_eq, BitVec.ofNat_toNat,
    BitVec.setWidth_eq]
  have nonzero : ¬trail = 0#16 := nonzero
  simp [nonzero]

variable {chars : List (BitVec 16)} {bytes : List (BitVec 8)}

/-- Induction over a spelling as `GetUtf16FromUtf8` reads it: a char, or a surrogate pair whose
trailing half is not zero, and then the spelling of the rest. -/
theorem Mutf8.read_induction {motive : ∀ chars bytes, Mutf8 chars bytes → Prop} (nil : motive [] [] .nil)
    (char : ∀ {ch chars bytes next}, getUtf16FromUtf8 bytes = some (BitVec.ofNat 32 ch.toNat, next) →
      ∀ (spelled : Mutf8 chars next), motive chars next spelled → ∀ whole, motive (ch :: chars) bytes whole)
    (pair : ∀ {lead trail chars bytes next}, trail ≠ 0 →
      getUtf16FromUtf8 bytes = some (BitVec.ofNat 32 (lead.toNat + trail.toNat * 0x10000), next) →
        ∀ (spelled : Mutf8 chars next), motive chars next spelled → ∀ whole, motive (lead :: trail :: chars) bytes whole)
    (spelled : Mutf8 chars bytes) : motive chars bytes spelled := by
  induction spelled with
  | nil => exact nil
  | @one ch _ rest _ small spelled ih =>
      exact char (getUtf16FromUtf8_one rest small (by simp; omega)) spelled ih _
  | @two ch _ rest range spelled ih =>
      have small := ch.isLt
      exact char (getUtf16FromUtf8_two rest (n := ch.toNat) (by omega) (by simp; omega) (by simp; omega)) spelled ih _
  | @three ch _ rest _ spelled ih =>
      have small := ch.isLt
      exact char (getUtf16FromUtf8_three rest (n := ch.toNat) small (by simp; omega) (by simp; omega)
        (by simp; omega)) spelled ih _
  | @four lead trail _ rest l1 l2 t1 t2 spelled ih =>
      have range := pairCodePoint_range ⟨l1, l2⟩ ⟨t1, t2⟩
      have nonzero : trail ≠ 0 := by
        intro zero
        rw [zero] at t1
        simp at t1
      exact pair nonzero (getUtf16FromUtf8_four rest ⟨l1, l2⟩ ⟨t1, t2⟩ (by simp; omega) (by simp; omega)
        (by simp; omega) (by simp; omega)) spelled ih _

/-- A spelling that is not empty starts with a char `GetUtf16FromUtf8` reads, and
the rest is a spelling. -/
theorem Mutf8.read_first (spelled : Mutf8 chars bytes) (nonempty : bytes ≠ []) :
    ∃ value rest next, getUtf16FromUtf8 bytes = some (value, next) ∧ Mutf8 rest next := by
  induction spelled using Mutf8.read_induction with
  | nil => exact absurd rfl nonempty
  | char read spelled _ => exact ⟨_, _, _, read, spelled⟩
  | pair _ read spelled _ => exact ⟨_, _, _, read, spelled⟩

/-- **The reader's loop inverts every spelling.** -/
theorem convertModifiedUtf8ToUtf16Loop_of_mutf8 (spelled : Mutf8 chars bytes) :
    convertModifiedUtf8ToUtf16Loop bytes = some chars := by
  induction spelled using Mutf8.read_induction with
  | nil => rw [convertModifiedUtf8ToUtf16Loop]
  | char read _ ih =>
      rw [convertModifiedUtf8ToUtf16Loop_of_char read, ih]
      rfl
  | pair nonzero read _ ih =>
      rw [convertModifiedUtf8ToUtf16Loop_of_pair nonzero read, ih]
      rfl

/-- **The counter counts the chars of every spelling.** -/
theorem countModifiedUtf8Chars_of_mutf8 (spelled : Mutf8 chars bytes) :
    countModifiedUtf8Chars bytes = chars.length := by
  induction spelled with
  | nil => rfl
  | @one ch _ rest _ small _ ih =>
      rw [countModifiedUtf8Chars_one rest (n := ch.toNat) small (by simp; omega), ih, List.length_cons]
  | @two ch _ rest range _ ih =>
      rw [countModifiedUtf8Chars_two rest (n := ch.toNat) (by omega) (by simp; omega), ih, List.length_cons]
  | @three ch _ rest _ _ ih =>
      have small := ch.isLt
      rw [countModifiedUtf8Chars_three rest (n := ch.toNat) small (by simp; omega), ih, List.length_cons]
  | @four lead trail _ rest l1 l2 t1 t2 _ ih =>
      have range := pairCodePoint_range ⟨l1, l2⟩ ⟨t1, t2⟩
      rw [countModifiedUtf8Chars_four rest range.2 (by simp; omega), ih, List.length_cons, List.length_cons]

end Reader

/-! ## Both conversions, fast paths included -/

section Conversions

variable {chars : List (BitVec 16)} {bytes : List (BitVec 8)}

/-- The fast path of the writer writes what its loop would. -/
theorem convertUtf16ToModifiedUtf8_eq_loop (chars : List (BitVec 16)) :
    convertUtf16ToModifiedUtf8 (countUtf8Bytes chars) chars = convertUtf16ToModifiedUtf8Loop chars := by
  rw [convertUtf16ToModifiedUtf8]
  split
  · -- one byte per char: the loop copies the chars too
    rename_i same
    obtain ⟨_, copied⟩ := (convertUtf16ToModifiedUtf8Loop_mutf8 chars).ascii_of_length_eq
      ((length_convertUtf16ToModifiedUtf8Loop chars).trans same)
    exact copied.symm
  · rfl

/-- The writer spells its input with as many bytes as `CountUtf8Bytes` counts. -/
theorem convertUtf16ToModifiedUtf8_mutf8 (chars : List (BitVec 16)) :
    Mutf8 chars (convertUtf16ToModifiedUtf8 (countUtf8Bytes chars) chars) ∧
      (convertUtf16ToModifiedUtf8 (countUtf8Bytes chars) chars).length = countUtf8Bytes chars := by
  rw [convertUtf16ToModifiedUtf8_eq_loop]
  exact ⟨convertUtf16ToModifiedUtf8Loop_mutf8 chars, length_convertUtf16ToModifiedUtf8Loop chars⟩

/-- A char in U+0001..U+007F survives being narrowed to a byte and widened back. -/
theorem setWidth_setWidth_of_ascii {ch : BitVec 16} (ascii : 0 < ch.toNat ∧ ch.toNat < 0x80) :
    (ch.setWidth 8).setWidth 16 = ch := by
  apply BitVec.eq_of_toNat_eq
  simp only [BitVec.toNat_setWidth]
  omega

/-- The reader reads every spelling back, given the number of its chars. -/
theorem convertModifiedUtf8ToUtf16_of_mutf8 (spelled : Mutf8 chars bytes) :
    convertModifiedUtf8ToUtf16 chars.length bytes = some chars := by
  rw [convertModifiedUtf8ToUtf16]
  split
  · -- one byte per char: every char is ASCII and is its byte
    rename_i same
    obtain ⟨ascii, copied⟩ := spelled.ascii_of_length_eq same.symm
    rw [copied, List.map_map, Option.some.injEq]
    conv_rhs => rw [← List.map_id chars]
    exact List.map_congr_left fun ch member => setWidth_setWidth_of_ascii (ascii ch member)
  · exact convertModifiedUtf8ToUtf16Loop_of_mutf8 spelled

end Conversions

/-- **UTF-16 to modified UTF-8 and back.** For every sequence of UTF-16 chars, with
`n` the count `CountUtf8Bytes` makes of them, `ConvertUtf16ToModifiedUtf8` writes
exactly `n` bytes, none of them zero; `CountModifiedUtf8Chars` counts the chars
back from those bytes, and `ConvertModifiedUtf8ToUtf16` reads the chars back. -/
theorem utf16_modifiedUtf8_roundTrip (chars : List (BitVec 16)) :
    (convertUtf16ToModifiedUtf8 (countUtf8Bytes chars) chars).length = countUtf8Bytes chars ∧
      (∀ b ∈ convertUtf16ToModifiedUtf8 (countUtf8Bytes chars) chars, b ≠ 0) ∧
      countModifiedUtf8Chars (convertUtf16ToModifiedUtf8 (countUtf8Bytes chars) chars) = chars.length ∧
      convertModifiedUtf8ToUtf16 chars.length (convertUtf16ToModifiedUtf8 (countUtf8Bytes chars) chars) =
        some chars := by
  obtain ⟨spelled, counted⟩ := convertUtf16ToModifiedUtf8_mutf8 chars
  exact ⟨counted, spelled.ne_zero, countModifiedUtf8Chars_of_mutf8 spelled,
    convertModifiedUtf8ToUtf16_of_mutf8 spelled⟩

/-! ## Hashes -/

/-- The loop of `ComputeUtf16Hash`, `hash = hash * 31 + *chars++` while `char_count--`. A read
past the chars has no result. -/
def computeUtf16HashLoop (hash : BitVec 32) : Nat → List (BitVec 16) → Option (BitVec 32)
  | 0, _ => some hash
  | _ + 1, [] => none
  | charCount + 1, ch :: chars => computeUtf16HashLoop (hash * 31 + ch.setWidth 32) charCount chars

/-- `ComputeUtf16Hash(chars, char_count)`: its `uint32_t` sum, which it returns as the
`int32_t` of the same bits. -/
def computeUtf16Hash (chars : List (BitVec 16)) (charCount : Nat) : Option (BitVec 32) :=
  computeUtf16HashLoop 0 charCount chars

/-- The loop of `ComputeUtf16HashFromModifiedUtf8` while `utf16_length != 0`: one step of the
hash for the leading char `GetUtf16FromUtf8` reads and, when the trailing char is not zero,
one more, after `DCHECK_NE(utf16_length, 0u)`. -/
def computeUtf16HashFromModifiedUtf8Loop (hash : BitVec 32) : Nat → List (BitVec 8) → Option (BitVec 32)
  | 0, _ => some hash
  | utf16Length + 1, utf8 => do
      let (pair, utf8) ← getUtf16FromUtf8 utf8
      let hash := hash * 31 + (getLeadingUtf16Char pair).setWidth 32
      let second := getTrailingUtf16Char pair
      if second ≠ 0 then
        match utf16Length with
        | 0 => none
        | utf16Length + 1 => computeUtf16HashFromModifiedUtf8Loop (hash * 31 + second.setWidth 32) utf16Length utf8
      else computeUtf16HashFromModifiedUtf8Loop hash utf16Length utf8

/-- `ComputeUtf16HashFromModifiedUtf8(utf8, utf16_length)`. -/
def computeUtf16HashFromModifiedUtf8 (utf8 : List (BitVec 8)) (utf16Length : Nat) : Option (BitVec 32) :=
  computeUtf16HashFromModifiedUtf8Loop 0 utf16Length utf8

section Hashes

variable {chars : List (BitVec 16)} {bytes next : List (BitVec 8)}

/-- The hash of chars from `hash` is `hash * 31 ^ n` plus `Σ chars[i] * 31 ^ (n - 1 - i)`. -/
theorem computeUtf16HashLoop_eq_sum (hash : BitVec 32) (chars : List (BitVec 16)) :
    computeUtf16HashLoop hash chars.length chars = some (hash * 31 ^ chars.length +
      BitVec.ofNat 32 (∑ i : Fin chars.length, chars[i].toNat * 31 ^ (chars.length - 1 - i))) := by
  induction chars generalizing hash with
  | nil => simp [computeUtf16HashLoop]
  | cons ch chars ih =>
      show computeUtf16HashLoop hash (chars.length + 1) (ch :: chars) = some (hash * 31 ^ (chars.length + 1) +
        BitVec.ofNat 32 (∑ i : Fin (chars.length + 1), (ch :: chars)[i].toNat * 31 ^ (chars.length + 1 - 1 - i)))
      -- the terms after the first are those of the rest
      have rest : ∀ i : Fin chars.length, (ch :: chars)[i.succ].toNat * 31 ^ (chars.length + 1 - 1 - (i.succ : Nat)) =
          chars[i].toNat * 31 ^ (chars.length - 1 - i) := fun i => by
        simp only [Fin.getElem_fin, Fin.val_succ, List.getElem_cons_succ]
        congr 2
        omega
      have thirtyOne : BitVec.ofNat 32 31 = 31 := rfl
      rw [computeUtf16HashLoop, ih, Fin.sum_univ_succ, Finset.sum_congr rfl fun i _ => rest i]
      simp only [Fin.getElem_fin, Fin.val_zero, List.getElem_cons_zero, Nat.add_sub_cancel, Nat.sub_zero,
        BitVec.ofNat_add, BitVec.ofNat_mul, ofNat_pow_eq_pow, BitVec.ofNat_toNat, thirtyOne]
      congr 1
      ring

/-- One step of the loop on a char that is not in a pair. -/
theorem computeUtf16HashFromModifiedUtf8Loop_of_char {ch : BitVec 16} (hash : BitVec 32) (utf16Length : Nat)
    (read : getUtf16FromUtf8 bytes = some (BitVec.ofNat 32 ch.toNat, next)) :
    computeUtf16HashFromModifiedUtf8Loop hash (utf16Length + 1) bytes =
      computeUtf16HashFromModifiedUtf8Loop (hash * 31 + ch.setWidth 32) utf16Length next := by
  rw [computeUtf16HashFromModifiedUtf8Loop, read, Option.bind_eq_bind, Option.bind_some]
  simp only [getLeadingUtf16Char_of_char, getTrailingUtf16Char_of_char ch.isLt]
  simp only [ne_eq, not_true_eq_false, if_false, BitVec.ofNat_toNat, BitVec.setWidth_eq]

/-- Two steps of the loop on a surrogate pair. -/
theorem computeUtf16HashFromModifiedUtf8Loop_of_pair {lead trail : BitVec 16} (hash : BitVec 32)
    (utf16Length : Nat) (nonzero : trail ≠ 0)
    (read : getUtf16FromUtf8 bytes = some (BitVec.ofNat 32 (lead.toNat + trail.toNat * 0x10000), next)) :
    computeUtf16HashFromModifiedUtf8Loop hash (utf16Length + 2) bytes =
      computeUtf16HashFromModifiedUtf8Loop ((hash * 31 + lead.setWidth 32) * 31 + trail.setWidth 32) utf16Length
        next := by
  rw [computeUtf16HashFromModifiedUtf8Loop, read, Option.bind_eq_bind, Option.bind_some]
  simp only [getLeadingUtf16Char_ofNat, getTrailingUtf16Char_ofNat _ lead.isLt]
  simp only [BitVec.ofNat_toNat, BitVec.setWidth_eq, ne_eq, nonzero, not_false_eq_true, if_true]

/-- On a spelling, the hash of the bytes read back as chars is the hash of the chars. -/
theorem computeUtf16HashFromModifiedUtf8Loop_of_mutf8 (spelled : Mutf8 chars bytes) (hash : BitVec 32) :
    computeUtf16HashFromModifiedUtf8Loop hash chars.length bytes = computeUtf16HashLoop hash chars.length chars := by
  induction spelled using Mutf8.read_induction generalizing hash with
  | nil => rfl
  | char read _ ih =>
      rw [List.length_cons, computeUtf16HashFromModifiedUtf8Loop_of_char hash _ read, ih, computeUtf16HashLoop]
  | pair nonzero read _ ih =>
      rw [List.length_cons, List.length_cons, computeUtf16HashFromModifiedUtf8Loop_of_pair hash _ nonzero read, ih,
        computeUtf16HashLoop, computeUtf16HashLoop]

end Hashes

/-- **The hash of a string's modified UTF-8 is its `hashCode()`.** For every sequence of UTF-16
chars, `ComputeUtf16HashFromModifiedUtf8` of the bytes `ConvertUtf16ToModifiedUtf8` writes for
them, given their number, equals `ComputeUtf16Hash` of the chars, and both are the
`java.lang.String` hash `Σ s[i] * 31 ^ (n - 1 - i)` modulo `2 ^ 32`. -/
theorem computeUtf16HashFromModifiedUtf8_convert (chars : List (BitVec 16)) :
    computeUtf16HashFromModifiedUtf8 (convertUtf16ToModifiedUtf8 (countUtf8Bytes chars) chars) chars.length =
        computeUtf16Hash chars chars.length ∧
      computeUtf16Hash chars chars.length =
        some (BitVec.ofNat 32 (∑ i : Fin chars.length, chars[i].toNat * 31 ^ (chars.length - 1 - i))) := by
  refine ⟨computeUtf16HashFromModifiedUtf8Loop_of_mutf8 (convertUtf16ToModifiedUtf8_mutf8 chars).1 0, ?_⟩
  rw [computeUtf16Hash, computeUtf16HashLoop_eq_sum, zero_mul, zero_add]

end Art.Runtime
