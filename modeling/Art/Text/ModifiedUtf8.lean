import Mathlib.Data.BitVec

/-!
# Modified UTF-8

Modified UTF-8 writes a sequence of UTF-16 chars as bytes, one unit at a time:
* a char in U+0001..U+007F as one byte `0xxxxxxx`;
* U+0000 and a char in U+0080..U+07FF as two bytes `110xxxxx 10xxxxxx`, so that
  no byte of the text is zero;
* a char in U+0800..U+FFFF, a lone surrogate included, as three bytes
  `1110xxxx 10xxxxxx 10xxxxxx`;
* a leading surrogate followed by a trailing one as the four bytes
  `11110xxx 10xxxxxx 10xxxxxx 10xxxxxx` of the code point they stand for
  (`pairCodePoint`), a form a reader of the format also accepts.

`Mutf8 chars bytes` says that `bytes` spells `chars` so. No byte of a spelling is
zero (`Mutf8.ne_zero`); a spelling has at least one byte per char
(`Mutf8.length_le`), and exactly one only when every char is in U+0001..U+007F
and each byte is its char (`Mutf8.ascii_of_length_eq`).
-/

set_option autoImplicit false

namespace Art.Text

/-- The code point of the surrogate pair `lead`, `trail`. -/
def pairCodePoint (lead trail : Nat) : Nat := 0x10000 + (lead - 0xd800) * 0x400 + (trail - 0xdc00)

/-- `bytes` spells `chars` in modified UTF-8. -/
inductive Mutf8 : List (BitVec 16) → List (BitVec 8) → Prop where
  | nil : Mutf8 [] []
  | one {ch : BitVec 16} {chars : List (BitVec 16)} {bytes : List (BitVec 8)} :
      0 < ch.toNat → ch.toNat < 0x80 → Mutf8 chars bytes →
      Mutf8 (ch :: chars) (BitVec.ofNat 8 ch.toNat :: bytes)
  | two {ch : BitVec 16} {chars : List (BitVec 16)} {bytes : List (BitVec 8)} :
      ch.toNat = 0 ∨ 0x80 ≤ ch.toNat ∧ ch.toNat < 0x800 → Mutf8 chars bytes →
      Mutf8 (ch :: chars)
        (BitVec.ofNat 8 (0xc0 + ch.toNat / 0x40) :: BitVec.ofNat 8 (0x80 + ch.toNat % 0x40) :: bytes)
  | three {ch : BitVec 16} {chars : List (BitVec 16)} {bytes : List (BitVec 8)} :
      0x800 ≤ ch.toNat → Mutf8 chars bytes →
      Mutf8 (ch :: chars)
        (BitVec.ofNat 8 (0xe0 + ch.toNat / 0x1000) :: BitVec.ofNat 8 (0x80 + ch.toNat / 0x40 % 0x40) ::
          BitVec.ofNat 8 (0x80 + ch.toNat % 0x40) :: bytes)
  | four {lead trail : BitVec 16} {chars : List (BitVec 16)} {bytes : List (BitVec 8)} :
      0xd800 ≤ lead.toNat → lead.toNat < 0xdc00 → 0xdc00 ≤ trail.toNat → trail.toNat < 0xe000 →
      Mutf8 chars bytes →
      Mutf8 (lead :: trail :: chars)
        (BitVec.ofNat 8 (0xf0 + pairCodePoint lead.toNat trail.toNat / 0x40000) ::
          BitVec.ofNat 8 (0x80 + pairCodePoint lead.toNat trail.toNat / 0x1000 % 0x40) ::
          BitVec.ofNat 8 (0x80 + pairCodePoint lead.toNat trail.toNat / 0x40 % 0x40) ::
          BitVec.ofNat 8 (0x80 + pairCodePoint lead.toNat trail.toNat % 0x40) :: bytes)

/-- The code point of a surrogate pair is in U+10000..U+10FFFF. -/
theorem pairCodePoint_range {lead trail : Nat} (leading : 0xd800 ≤ lead ∧ lead < 0xdc00)
    (trailing : 0xdc00 ≤ trail ∧ trail < 0xe000) :
    0x10000 ≤ pairCodePoint lead trail ∧ pairCodePoint lead trail < 0x110000 := by
  unfold pairCodePoint
  omega

namespace Mutf8

variable {chars : List (BitVec 16)} {bytes : List (BitVec 8)}

/-- A byte of value `n` with `0 < n < 256` is not zero. -/
theorem ofNat_ne_zero {n : Nat} (positive : 0 < n) (small : n < 0x100) : BitVec.ofNat 8 n ≠ 0 := by
  intro zero
  have := congrArg BitVec.toNat zero
  simp only [BitVec.toNat_ofNat, BitVec.ofNat_eq_ofNat] at this
  omega

/-- No byte of a spelling is zero. -/
theorem ne_zero (spelled : Mutf8 chars bytes) : ∀ b ∈ bytes, b ≠ 0 := by
  induction spelled with
  | nil => simp
  | @one ch _ _ positive small _ ih =>
      simp only [List.mem_cons, forall_eq_or_imp]
      exact ⟨ofNat_ne_zero positive (by omega), ih⟩
  | @two ch _ _ _ _ ih =>
      have small := ch.isLt
      simp only [List.mem_cons, forall_eq_or_imp]
      exact ⟨ofNat_ne_zero (by omega) (by omega), ofNat_ne_zero (by omega) (by omega), ih⟩
  | @three ch _ _ _ _ ih =>
      have small := ch.isLt
      simp only [List.mem_cons, forall_eq_or_imp]
      exact ⟨ofNat_ne_zero (by omega) (by omega), ofNat_ne_zero (by omega) (by omega),
        ofNat_ne_zero (by omega) (by omega), ih⟩
  | @four lead trail _ _ l1 l2 t1 t2 _ ih =>
      have range := pairCodePoint_range ⟨l1, l2⟩ ⟨t1, t2⟩
      simp only [List.mem_cons, forall_eq_or_imp]
      exact ⟨ofNat_ne_zero (by omega) (by omega), ofNat_ne_zero (by omega) (by omega),
        ofNat_ne_zero (by omega) (by omega), ofNat_ne_zero (by omega) (by omega), ih⟩

/-- A spelling has at least one byte per char. -/
theorem length_le (spelled : Mutf8 chars bytes) : chars.length ≤ bytes.length := by
  induction spelled with
  | nil => simp
  | one _ _ _ ih | two _ _ ih | three _ _ ih | four _ _ _ _ _ ih =>
      simp only [List.length_cons]
      omega

/-- A spelling with one byte per char is the chars themselves, all in U+0001..U+007F. -/
theorem ascii_of_length_eq (spelled : Mutf8 chars bytes) (same : bytes.length = chars.length) :
    (∀ ch ∈ chars, 0 < ch.toNat ∧ ch.toNat < 0x80) ∧ bytes = chars.map fun ch => ch.setWidth 8 := by
  induction spelled with
  | nil => simp
  | @one ch _ _ positive small _ ih =>
      simp only [List.length_cons, Nat.add_right_cancel_iff] at same
      obtain ⟨ascii, mapped⟩ := ih same
      refine ⟨?_, ?_⟩
      · simp only [List.mem_cons, forall_eq_or_imp]
        exact ⟨⟨positive, small⟩, ascii⟩
      · rw [List.map_cons, mapped, ← BitVec.ofNat_toNat]
  | two _ spelled _ | three _ spelled _ =>
      have := spelled.length_le
      simp only [List.length_cons] at same
      omega
  | four _ _ _ _ spelled _ =>
      have := spelled.length_le
      simp only [List.length_cons] at same
      omega

/-- Chars in U+0001..U+007F are spelled by themselves. -/
theorem of_ascii (ascii : ∀ ch ∈ chars, 0 < ch.toNat ∧ ch.toNat < 0x80) :
    Mutf8 chars (chars.map fun ch => ch.setWidth 8) := by
  induction chars with
  | nil => exact .nil
  | cons ch chars ih =>
      simp only [List.mem_cons, forall_eq_or_imp] at ascii
      rw [List.map_cons, ← BitVec.ofNat_toNat]
      exact .one ascii.1.1 ascii.1.2 (ih ascii.2)

/-- A spelling that starts with a byte below 0x80 starts with a one-byte char. -/
theorem tail_of_ascii {c : BitVec 8} {rest : List (BitVec 8)} (spelled : Mutf8 chars (c :: rest))
    (ascii : c.toNat < 0x80) : Mutf8 chars.tail rest := by
  cases spelled with
  | one _ _ spelled => exact spelled
  | @two ch _ _ range _ =>
      simp only [BitVec.toNat_ofNat] at ascii
      omega
  | @three ch _ _ _ _ =>
      have small := ch.isLt
      simp only [BitVec.toNat_ofNat] at ascii
      omega
  | @four lead trail _ _ l1 l2 t1 t2 _ =>
      have range := pairCodePoint_range ⟨l1, l2⟩ ⟨t1, t2⟩
      simp only [BitVec.toNat_ofNat] at ascii
      omega

end Mutf8

end Art.Text
