import Art.Runtime.Utf
import Art.Machine.Word
import Art.Machine.LexOrder

/-!
# Comparing modified UTF-8 strings

Two functions order strings by their UTF-16 chars. Both walk their modified UTF-8
`GetUtf16FromUtf8` by `GetUtf16FromUtf8`, and the unit read at each step is a char or,
for a four-byte sequence, a whole surrogate pair (`readUnits`).

* `CompareModifiedUtf8ToUtf16AsCodePointValues` compares bytes with chars: the
  leading char of each unit, then its trailing one if it has one, against the chars
  one by one. This is the lexicographic order of the chars the bytes spell
  (`compareModifiedUtf8ToUtf16AsCodePointValues_of_readUnits`), so for every text,
  the bytes `ConvertUtf16ToModifiedUtf8` writes compare with another text as the two
  texts do (`compareModifiedUtf8ToUtf16AsCodePointValues_modifiedUtf8`).
* `CompareModifiedUtf8ToModifiedUtf8AsUtf16CodePointValues` compares two strings of
  bytes unit by unit, and two different units by their leading chars, then their
  trailing ones, reading a char as a unit whose trailing char is zero. That is the
  lexicographic order of the units with the key `unitKey`
  (`compareModifiedUtf8ToModifiedUtf8AsUtf16CodePointValues_of_readUnits`). It is the
  order of the chars for texts without surrogates
  (`compareModifiedUtf8ToModifiedUtf8AsUtf16CodePointValues_of_noSurrogates`), but
  not in general: a surrogate pair compares above its leading surrogate standing
  alone, whatever follows it
  (`compareModifiedUtf8ToModifiedUtf8AsUtf16CodePointValues_pair_unpaired`), while as
  chars the pair's trailing surrogate compares below a following char in
  U+E000..U+FFFF.

A string ends at its first zero byte; the model holds the bytes before the
terminator, so the end of the list reads as the terminator too. A read past the
bytes, which the code leaves undefined, makes the comparison `none`.
-/

set_option autoImplicit false

namespace Art.Runtime

open Art.Machine Art.Text

/-! ## The model -/

/-- `CompareModifiedUtf8ToModifiedUtf8AsUtf16CodePointValues`. -/
def compareModifiedUtf8ToModifiedUtf8AsUtf16CodePointValues (utf8_1 utf8_2 : List (BitVec 8)) : Option Int :=
  -- did we reach a terminating character?
  if utf8_1.headD 0 = 0 then some (if utf8_2.headD 0 = 0 then 0 else -1)
  else if utf8_2.headD 0 = 0 then some 1
  else
    match read : getUtf16FromUtf8 utf8_1, getUtf16FromUtf8 utf8_2 with
    | some (c1, next1), some (c2, next2) =>
      if c1 = c2 then compareModifiedUtf8ToModifiedUtf8AsUtf16CodePointValues next1 next2
      else
        -- the difference of the leading chars, taken as a `uint32_t` and cast back to `int`
        let leadingSurrogateDiff : BitVec 32 :=
          (getLeadingUtf16Char c1).setWidth 32 - (getLeadingUtf16Char c2).setWidth 32
        if leadingSurrogateDiff ≠ 0 then some leadingSurrogateDiff.toInt
        else some ((getTrailingUtf16Char c1).toNat - (getTrailingUtf16Char c2).toNat : Int)
    | _, _ => none
termination_by utf8_1.length
decreasing_by exact length_lt_of_getUtf16FromUtf8 read

/-- `CompareModifiedUtf8ToUtf16AsCodePointValues`; the list `utf16` holds the
`utf16_length` chars. -/
def compareModifiedUtf8ToUtf16AsCodePointValues (utf8 : List (BitVec 8)) (utf16 : List (BitVec 16)) : Option Int :=
  if utf8.headD 0 = 0 then some (if utf16 = [] then 0 else -1)
  else
    match utf16 with
    | [] => some 1
    | rhs :: utf16 =>
      match read : getUtf16FromUtf8 utf8 with
      | none => none
      | some (pair, next) =>
        -- first compare the leading char
        let lhs := getLeadingUtf16Char pair
        if lhs ≠ rhs then some (if lhs > rhs then 1 else -1)
        else
          -- then the trailing char, if there is one
          let lhs2 := getTrailingUtf16Char pair
          if lhs2 ≠ 0 then
            match utf16 with
            | [] => some 1
            | rhs2 :: utf16 =>
              if lhs2 ≠ rhs2 then some (if lhs2 > rhs2 then 1 else -1)
              else compareModifiedUtf8ToUtf16AsCodePointValues next utf16
          else compareModifiedUtf8ToUtf16AsCodePointValues next utf16
termination_by utf8.length
decreasing_by all_goals exact length_lt_of_getUtf16FromUtf8 read

/-! ## The units the loops read -/

/-- The units both loops read from bytes, one `GetUtf16FromUtf8` at each step, up to
the first zero byte or the end. -/
def readUnits (bytes : List (BitVec 8)) : Option (List (BitVec 32)) :=
  if bytes.headD 0 = 0 then some []
  else
    match read : getUtf16FromUtf8 bytes with
    | none => none
    | some (unit, next) => (readUnits next).map (unit :: ·)
termination_by bytes.length
decreasing_by exact length_lt_of_getUtf16FromUtf8 read

/-- The chars of a unit: its leading char, then its trailing one unless that is zero. -/
def unitChars (unit : BitVec 32) : List (BitVec 16) :=
  getLeadingUtf16Char unit :: if getTrailingUtf16Char unit ≠ 0 then [getTrailingUtf16Char unit] else []

/-- The key by which the comparison of two strings of bytes orders their units: the
leading char, then the trailing one. -/
def unitKey (unit : BitVec 32) : Nat :=
  (getLeadingUtf16Char unit).toNat * 0x10000 + (getTrailingUtf16Char unit).toNat

section Reading

variable {bytes next : List (BitVec 8)} {unit : BitVec 32} {units : List (BitVec 32)}

theorem readUnits_of_end (ended : bytes.headD 0 = 0) : readUnits bytes = some [] := by
  rw [readUnits, if_pos ended]

theorem readUnits_of_read (going : bytes.headD 0 ≠ 0) (read : getUtf16FromUtf8 bytes = some (unit, next)) :
    readUnits bytes = (readUnits next).map (unit :: ·) := by
  rw [readUnits, if_neg going]
  split <;> simp_all

/-- What a read of units can be: the end, or one unit and the units after it. -/
theorem readUnits_cases (reads : readUnits bytes = some units) :
    (bytes.headD 0 = 0 ∧ units = []) ∨
      ∃ unit next rest, bytes.headD 0 ≠ 0 ∧ getUtf16FromUtf8 bytes = some (unit, next) ∧
        readUnits next = some rest ∧ units = unit :: rest := by
  by_cases ended : bytes.headD 0 = 0
  · rw [readUnits_of_end ended, Option.some.injEq] at reads
    exact .inl ⟨ended, reads.symm⟩
  · right
    cases read : getUtf16FromUtf8 bytes with
    | none =>
        rw [readUnits, if_neg ended] at reads
        split at reads <;> simp_all
    | some step =>
        obtain ⟨unit, next⟩ := step
        rw [readUnits_of_read ended read, Option.map_eq_some_iff] at reads
        obtain ⟨rest, restReads, rfl⟩ := reads
        exact ⟨unit, next, rest, ended, rfl, restReads, rfl⟩

end Reading

/-! ## Units and their keys -/

section Keys

/-- A unit is its leading char in the low half and its trailing char in the high half. -/
theorem toNat_eq_halves (unit : BitVec 32) :
    unit.toNat = (getLeadingUtf16Char unit).toNat + (getTrailingUtf16Char unit).toNat * 0x10000 := by
  have small := unit.isLt
  rw [getLeadingUtf16Char, getTrailingUtf16Char, BitVec.toNat_setWidth, BitVec.toNat_setWidth,
    toNat_and_of_mask (k := 16) (by decide), toNat_ushiftRight_eq_div]
  omega

/-- Different units have different keys. -/
theorem unitKey_ne {c1 c2 : BitVec 32} (different : c1 ≠ c2) : unitKey c1 ≠ unitKey c2 := by
  intro same
  apply different
  apply BitVec.eq_of_toNat_eq
  have lead1 := (getLeadingUtf16Char c1).isLt
  have lead2 := (getLeadingUtf16Char c2).isLt
  have trail1 := (getTrailingUtf16Char c1).isLt
  have trail2 := (getTrailingUtf16Char c2).isLt
  rw [unitKey, unitKey] at same
  rw [toNat_eq_halves c1, toNat_eq_halves c2]
  omega

/-- The difference of two chars, taken in 32 bits and read as signed. -/
theorem toInt_leadingSurrogateDiff (a b : BitVec 16) :
    (a.setWidth 32 - b.setWidth 32).toInt = (a.toNat : Int) - b.toNat := by
  have smallA := a.isLt
  have smallB := b.isLt
  rw [BitVec.toInt_eq_toNat_cond, BitVec.toNat_sub, BitVec.toNat_setWidth, BitVec.toNat_setWidth]
  split <;> omega

end Keys

/-! ## One step of each loop -/

section Steps

variable {utf8_1 utf8_2 next1 next2 : List (BitVec 8)} {c1 c2 : BitVec 32}

theorem compareModifiedUtf8ToModifiedUtf8AsUtf16CodePointValues_of_end (ended : utf8_1.headD 0 = 0) :
    compareModifiedUtf8ToModifiedUtf8AsUtf16CodePointValues utf8_1 utf8_2 =
      some (if utf8_2.headD 0 = 0 then 0 else -1) := by
  rw [compareModifiedUtf8ToModifiedUtf8AsUtf16CodePointValues, if_pos ended]

theorem compareModifiedUtf8ToModifiedUtf8AsUtf16CodePointValues_of_end_right (going : utf8_1.headD 0 ≠ 0)
    (ended : utf8_2.headD 0 = 0) : compareModifiedUtf8ToModifiedUtf8AsUtf16CodePointValues utf8_1 utf8_2 = some 1 := by
  rw [compareModifiedUtf8ToModifiedUtf8AsUtf16CodePointValues, if_neg going, if_pos ended]

section Read

variable (going1 : utf8_1.headD 0 ≠ 0) (going2 : utf8_2.headD 0 ≠ 0)
  (read1 : getUtf16FromUtf8 utf8_1 = some (c1, next1)) (read2 : getUtf16FromUtf8 utf8_2 = some (c2, next2))
include going1 going2 read1 read2

/-- One step of both strings: the two units read decide, unless they are equal. -/
theorem compareModifiedUtf8ToModifiedUtf8AsUtf16CodePointValues_of_read :
    compareModifiedUtf8ToModifiedUtf8AsUtf16CodePointValues utf8_1 utf8_2 =
      if c1 = c2 then compareModifiedUtf8ToModifiedUtf8AsUtf16CodePointValues next1 next2
      else if (getLeadingUtf16Char c1).setWidth 32 - (getLeadingUtf16Char c2).setWidth 32 ≠ 0 then
        some ((getLeadingUtf16Char c1).setWidth 32 - (getLeadingUtf16Char c2).setWidth 32).toInt
      else some ((getTrailingUtf16Char c1).toNat - (getTrailingUtf16Char c2).toNat : Int) := by
  rw [compareModifiedUtf8ToModifiedUtf8AsUtf16CodePointValues, if_neg going1, if_neg going2]
  split
  · rename_i c1' next1' c2' next2' first second
    rw [read1, Option.some.injEq, Prod.mk.injEq] at first
    rw [read2, Option.some.injEq, Prod.mk.injEq] at second
    obtain ⟨rfl, rfl⟩ := first
    obtain ⟨rfl, rfl⟩ := second
    rfl
  · rename_i undefined
    exact absurd (undefined c1 next1 c2 next2 read1 read2) id

/-- Two equal units: the comparison goes on after them. -/
theorem compareModifiedUtf8ToModifiedUtf8AsUtf16CodePointValues_of_same (same : c1 = c2) :
    compareModifiedUtf8ToModifiedUtf8AsUtf16CodePointValues utf8_1 utf8_2 =
      compareModifiedUtf8ToModifiedUtf8AsUtf16CodePointValues next1 next2 := by
  rw [compareModifiedUtf8ToModifiedUtf8AsUtf16CodePointValues_of_read going1 going2 read1 read2, if_pos same]

/-- Two different units: the sign of the result is the order of their keys. -/
theorem compareModifiedUtf8ToModifiedUtf8AsUtf16CodePointValues_of_different (different : c1 ≠ c2) :
    ∃ c, compareModifiedUtf8ToModifiedUtf8AsUtf16CodePointValues utf8_1 utf8_2 = some c ∧
      compare c 0 = compare (unitKey c1) (unitKey c2) := by
  have lead1 := (getLeadingUtf16Char c1).isLt
  have lead2 := (getLeadingUtf16Char c2).isLt
  have trail1 := (getTrailingUtf16Char c1).isLt
  have trail2 := (getTrailingUtf16Char c2).isLt
  rw [compareModifiedUtf8ToModifiedUtf8AsUtf16CodePointValues_of_read going1 going2 read1 read2, if_neg different]
  split
  · -- the leading chars differ, and decide
    rename_i leading
    have distinct : (getLeadingUtf16Char c1).toNat ≠ (getLeadingUtf16Char c2).toNat := by
      intro same
      apply leading
      rw [BitVec.eq_of_toNat_eq same, BitVec.sub_self]
      rfl
    refine ⟨_, rfl, compareOfLessAndEq_eq_of_iff ?_ ?_⟩ <;>
      rw [toInt_leadingSurrogateDiff, unitKey, unitKey] <;> omega
  · -- the same leading chars: the trailing ones decide
    rename_i leading
    have zero := congrArg BitVec.toInt (not_not.1 leading)
    rw [toInt_leadingSurrogateDiff, show (0 : BitVec 32).toInt = 0 from rfl] at zero
    refine ⟨_, rfl, compareOfLessAndEq_eq_of_iff ?_ ?_⟩ <;> rw [unitKey, unitKey] <;> omega

end Read

variable {utf8 next : List (BitVec 8)} {pair : BitVec 32}

theorem compareModifiedUtf8ToUtf16AsCodePointValues_of_end (ended : utf8.headD 0 = 0) (utf16 : List (BitVec 16)) :
    compareModifiedUtf8ToUtf16AsCodePointValues utf8 utf16 = some (if utf16 = [] then 0 else -1) := by
  rw [compareModifiedUtf8ToUtf16AsCodePointValues.eq_def, if_pos ended]

theorem compareModifiedUtf8ToUtf16AsCodePointValues_nil (going : utf8.headD 0 ≠ 0) :
    compareModifiedUtf8ToUtf16AsCodePointValues utf8 [] = some 1 := by
  rw [compareModifiedUtf8ToUtf16AsCodePointValues.eq_def, if_neg going]

/-- One step against a char: the leading char of the unit, then its trailing one. -/
theorem compareModifiedUtf8ToUtf16AsCodePointValues_of_read (going : utf8.headD 0 ≠ 0)
    (read : getUtf16FromUtf8 utf8 = some (pair, next)) (rhs : BitVec 16) (utf16 : List (BitVec 16)) :
    compareModifiedUtf8ToUtf16AsCodePointValues utf8 (rhs :: utf16) =
      if getLeadingUtf16Char pair ≠ rhs then some (if getLeadingUtf16Char pair > rhs then 1 else -1)
      else if getTrailingUtf16Char pair ≠ 0 then
        match utf16 with
        | [] => some 1
        | rhs2 :: utf16 =>
          if getTrailingUtf16Char pair ≠ rhs2 then some (if getTrailingUtf16Char pair > rhs2 then 1 else -1)
          else compareModifiedUtf8ToUtf16AsCodePointValues next utf16
      else compareModifiedUtf8ToUtf16AsCodePointValues next utf16 := by
  rw [compareModifiedUtf8ToUtf16AsCodePointValues, if_neg going]
  split
  · rename_i undefined
    rw [read] at undefined
    cases undefined
  · rename_i pair' next' again
    rw [read, Option.some.injEq, Prod.mk.injEq] at again
    obtain ⟨rfl, rfl⟩ := again
    rfl

end Steps

/-! ## What the loops compute -/

section Specification

/-- The sign of `a > b ? 1 : -1` for two different chars. -/
theorem compare_sign_of_ne {a b : BitVec 16} (different : a ≠ b) :
    compare (if a > b then (1 : Int) else -1) 0 = compare a b := by
  refine compareOfLessAndEq_eq_of_iff ?_ (iff_of_false ?_ different)
  · have distinct : a.toNat ≠ b.toNat := fun same => different (BitVec.eq_of_toNat_eq same)
    simp only [gt_iff_lt, BitVec.lt_def]
    split <;> omega
  · split <;> omega

/-- **Modified UTF-8 against chars.** The comparison of bytes with chars has the
sign of the lexicographic order of the chars the bytes read as, and the chars. -/
theorem compareModifiedUtf8ToUtf16AsCodePointValues_of_readUnits {units : List (BitVec 32)} :
    ∀ {utf8 : List (BitVec 8)}, readUnits utf8 = some units → ∀ utf16 : List (BitVec 16),
      ∃ c, compareModifiedUtf8ToUtf16AsCodePointValues utf8 utf16 = some c ∧
        compare c 0 = compare (units.flatMap unitChars) utf16 := by
  -- induction on the units read, one step of the loop for each
  induction units with
  | nil =>
      intro utf8 reads utf16
      obtain ⟨ended, -⟩ | ⟨_, _, _, _, _, _, _, ⟨⟩⟩ := readUnits_cases reads
      rw [compareModifiedUtf8ToUtf16AsCodePointValues_of_end ended]
      cases utf16 <;> exact ⟨_, rfl, rfl⟩
  | cons unit rest ih =>
      intro utf8 reads utf16
      obtain ⟨-, ⟨⟩⟩ | ⟨unit', next, rest', going, read, restReads, same⟩ := readUnits_cases reads
      obtain ⟨rfl, rfl⟩ := List.cons.inj same
      rw [List.flatMap_cons, unitChars, List.cons_append]
      cases utf16 with
      | nil => exact ⟨_, compareModifiedUtf8ToUtf16AsCodePointValues_nil going, rfl⟩
      | cons rhs utf16 =>
          rw [compareModifiedUtf8ToUtf16AsCodePointValues_of_read going read]
          by_cases leading : getLeadingUtf16Char unit = rhs
          · -- the same leading char: on to the trailing one
            rw [if_neg (not_not.2 leading), leading, compare_cons_self]
            by_cases trailing : getTrailingUtf16Char unit = 0
            · rw [if_neg (not_not.2 trailing), if_neg (not_not.2 trailing), List.nil_append]
              exact ih restReads utf16
            · rw [if_pos trailing, if_pos trailing, List.singleton_append]
              cases utf16 with
              | nil => exact ⟨_, rfl, rfl⟩
              | cons rhs2 utf16 =>
                  dsimp only
                  by_cases trailingSame : getTrailingUtf16Char unit = rhs2
                  · rw [if_neg (not_not.2 trailingSame), trailingSame, compare_cons_self]
                    exact ih restReads utf16
                  · rw [if_pos trailingSame, compare_cons_of_ne _ _ trailingSame]
                    exact ⟨_, rfl, compare_sign_of_ne trailingSame⟩
          · rw [if_pos leading, compare_cons_of_ne _ _ leading]
            exact ⟨_, rfl, compare_sign_of_ne leading⟩

/-- **Modified UTF-8 against modified UTF-8.** The comparison of two strings of bytes
has the sign of the lexicographic order of the keys of the units they read as. -/
theorem compareModifiedUtf8ToModifiedUtf8AsUtf16CodePointValues_of_readUnits {units1 : List (BitVec 32)} :
    ∀ {utf8_1 utf8_2 : List (BitVec 8)} {units2 : List (BitVec 32)}, readUnits utf8_1 = some units1 →
      readUnits utf8_2 = some units2 →
        ∃ c, compareModifiedUtf8ToModifiedUtf8AsUtf16CodePointValues utf8_1 utf8_2 = some c ∧
          compare c 0 = compare (units1.map unitKey) (units2.map unitKey) := by
  -- induction on the units of the first string, one step of the loop for each
  induction units1 with
  | nil =>
      intro utf8_1 utf8_2 units2 reads1 reads2
      obtain ⟨ended, -⟩ | ⟨_, _, _, _, _, _, _, ⟨⟩⟩ := readUnits_cases reads1
      rw [compareModifiedUtf8ToModifiedUtf8AsUtf16CodePointValues_of_end ended]
      obtain ⟨ended2, rfl⟩ | ⟨_, _, _, going2, _, _, rfl⟩ := readUnits_cases reads2
      · rw [if_pos ended2]
        exact ⟨_, rfl, rfl⟩
      · rw [if_neg going2]
        exact ⟨_, rfl, rfl⟩
  | cons unit1 rest1 ih =>
      intro utf8_1 utf8_2 units2 reads1 reads2
      obtain ⟨-, ⟨⟩⟩ | ⟨unit1', next1, rest1', going1, read1, restReads1, same⟩ := readUnits_cases reads1
      obtain ⟨rfl, rfl⟩ := List.cons.inj same
      obtain ⟨ended2, rfl⟩ | ⟨unit2, next2, rest2, going2, read2, restReads2, rfl⟩ := readUnits_cases reads2
      · exact ⟨_, compareModifiedUtf8ToModifiedUtf8AsUtf16CodePointValues_of_end_right going1 ended2, rfl⟩
      rw [List.map_cons, List.map_cons]
      by_cases same : unit1 = unit2
      · rw [compareModifiedUtf8ToModifiedUtf8AsUtf16CodePointValues_of_same going1 going2 read1 read2 same, same,
          compare_cons_self]
        exact ih restReads1 restReads2
      · rw [compare_cons_of_ne _ _ (unitKey_ne same)]
        exact compareModifiedUtf8ToModifiedUtf8AsUtf16CodePointValues_of_different going1 going2 read1 read2 same

end Specification

/-! ## Spellings -/

section Spellings

variable {chars : List (BitVec 16)} {bytes : List (BitVec 8)}

theorem readUnits_cons_of_read {rest : List (BitVec 8)} {unit : BitVec 32} {units : List (BitVec 32)}
    (going : bytes.headD 0 ≠ 0) (read : getUtf16FromUtf8 bytes = some (unit, rest))
    (reads : readUnits rest = some units) : readUnits bytes = some (unit :: units) := by
  rw [readUnits_of_read going read, reads, Option.map_some]

theorem unitChars_of_char (ch : BitVec 16) : unitChars (BitVec.ofNat 32 ch.toNat) = [ch] := by
  rw [unitChars, getLeadingUtf16Char_of_char, getTrailingUtf16Char_of_char ch.isLt, BitVec.ofNat_toNat,
    BitVec.setWidth_eq]
  simp

theorem unitChars_of_pair (lead trail : BitVec 16) (nonzero : trail ≠ 0) :
    unitChars (BitVec.ofNat 32 (lead.toNat + trail.toNat * 0x10000)) = [lead, trail] := by
  rw [unitChars, getLeadingUtf16Char_ofNat, getTrailingUtf16Char_ofNat _ lead.isLt, BitVec.ofNat_toNat,
    BitVec.setWidth_eq, BitVec.ofNat_toNat, BitVec.setWidth_eq]
  have nonzero : ¬trail = 0#16 := nonzero
  simp [nonzero]

theorem unitKey_of_char (ch : BitVec 16) : unitKey (BitVec.ofNat 32 ch.toNat) = ch.toNat * 0x10000 := by
  rw [unitKey, getLeadingUtf16Char_of_char, getTrailingUtf16Char_of_char ch.isLt, BitVec.toNat_ofNat]
  have := ch.isLt
  simp only [BitVec.ofNat_eq_ofNat, BitVec.toNat_ofNat]
  omega

theorem unitKey_of_pair (lead trail : BitVec 16) :
    unitKey (BitVec.ofNat 32 (lead.toNat + trail.toNat * 0x10000)) = lead.toNat * 0x10000 + trail.toNat := by
  rw [unitKey, getLeadingUtf16Char_ofNat, getTrailingUtf16Char_ofNat _ lead.isLt, BitVec.toNat_ofNat,
    BitVec.toNat_ofNat]
  have := lead.isLt
  have := trail.isLt
  omega

/-- **A spelling reads as units that spell its chars.** -/
theorem readUnits_of_mutf8 (spelled : Mutf8 chars bytes) :
    ∃ units, readUnits bytes = some units ∧ units.flatMap unitChars = chars := by
  induction spelled with
  | nil => exact ⟨[], readUnits_of_end rfl, rfl⟩
  | @one ch _ rest positive small _ ih =>
      obtain ⟨units, reads, spells⟩ := ih
      refine ⟨_, readUnits_cons_of_read (Mutf8.ofNat_ne_zero positive (by omega))
        (getUtf16FromUtf8_one rest small (by simp; omega)) reads, ?_⟩
      rw [List.flatMap_cons, unitChars_of_char, spells, List.singleton_append]
  | @two ch _ rest range _ ih =>
      obtain ⟨units, reads, spells⟩ := ih
      have small := ch.isLt
      refine ⟨_, readUnits_cons_of_read (Mutf8.ofNat_ne_zero (by omega) (by omega))
        (getUtf16FromUtf8_two rest (n := ch.toNat) (by omega) (by simp; omega) (by simp; omega)) reads, ?_⟩
      rw [List.flatMap_cons, unitChars_of_char, spells, List.singleton_append]
  | @three ch _ rest _ _ ih =>
      obtain ⟨units, reads, spells⟩ := ih
      have small := ch.isLt
      refine ⟨_, readUnits_cons_of_read (Mutf8.ofNat_ne_zero (by omega) (by omega))
        (getUtf16FromUtf8_three rest (n := ch.toNat) small (by simp; omega) (by simp; omega) (by simp; omega))
        reads, ?_⟩
      rw [List.flatMap_cons, unitChars_of_char, spells, List.singleton_append]
  | @four lead trail _ rest l1 l2 t1 t2 _ ih =>
      obtain ⟨units, reads, spells⟩ := ih
      have range := pairCodePoint_range ⟨l1, l2⟩ ⟨t1, t2⟩
      have nonzero : trail ≠ 0 := fun zero => by
        rw [zero] at t1
        simp at t1
      refine ⟨_, readUnits_cons_of_read (Mutf8.ofNat_ne_zero (by omega) (by omega))
        (getUtf16FromUtf8_four rest ⟨l1, l2⟩ ⟨t1, t2⟩ (by simp; omega) (by simp; omega) (by simp; omega)
          (by simp; omega)) reads, ?_⟩
      rw [List.flatMap_cons, unitChars_of_pair lead trail nonzero, spells]
      rfl

/-- A spelling of chars without surrogates reads as its chars, one unit each. -/
theorem readUnits_of_mutf8_noSurrogates (spelled : Mutf8 chars bytes)
    (noSurrogates : ∀ ch ∈ chars, ch.toNat < 0xd800 ∨ 0xe000 ≤ ch.toNat) :
    readUnits bytes = some (chars.map fun ch => BitVec.ofNat 32 ch.toNat) := by
  induction spelled with
  | nil => exact readUnits_of_end rfl
  | @one ch _ rest positive small _ ih =>
      rw [List.forall_mem_cons] at noSurrogates
      exact readUnits_cons_of_read (Mutf8.ofNat_ne_zero positive (by omega))
        (getUtf16FromUtf8_one rest small (by simp; omega)) (ih noSurrogates.2)
  | @two ch _ rest range _ ih =>
      rw [List.forall_mem_cons] at noSurrogates
      have small := ch.isLt
      exact readUnits_cons_of_read (Mutf8.ofNat_ne_zero (by omega) (by omega))
        (getUtf16FromUtf8_two rest (n := ch.toNat) (by omega) (by simp; omega) (by simp; omega))
        (ih noSurrogates.2)
  | @three ch _ rest _ _ ih =>
      rw [List.forall_mem_cons] at noSurrogates
      have small := ch.isLt
      exact readUnits_cons_of_read (Mutf8.ofNat_ne_zero (by omega) (by omega))
        (getUtf16FromUtf8_three rest (n := ch.toNat) small (by simp; omega) (by simp; omega) (by simp; omega))
        (ih noSurrogates.2)
  | four l1 l2 _ _ _ _ =>
      -- a surrogate pair starts with a surrogate
      have := (List.forall_mem_cons.1 noSurrogates).1
      omega

end Spellings

/-! ## Texts written by `ConvertUtf16ToModifiedUtf8` -/

section Texts

/-- The key of a char that is a unit of its own orders as the char. -/
theorem compare_key_of_char (x y : BitVec 16) : compare (x.toNat * 0x10000) (y.toNat * 0x10000) = compare x y :=
  compareOfLessAndEq_eq_of_iff (by rw [BitVec.lt_def]; omega) (by rw [← BitVec.toNat_inj]; omega)

/-- **Against chars, in the order of the chars.** The bytes that
`ConvertUtf16ToModifiedUtf8` writes for a text compare with chars as the text does. -/
theorem compareModifiedUtf8ToUtf16AsCodePointValues_modifiedUtf8 (chars utf16 : List (BitVec 16)) :
    ∃ c, compareModifiedUtf8ToUtf16AsCodePointValues
        (convertUtf16ToModifiedUtf8 (countUtf8Bytes chars) chars) utf16 = some c ∧
      compare c 0 = compare chars utf16 := by
  obtain ⟨units, reads, spells⟩ := readUnits_of_mutf8 (convertUtf16ToModifiedUtf8_mutf8 chars).1
  obtain ⟨c, result, sign⟩ := compareModifiedUtf8ToUtf16AsCodePointValues_of_readUnits reads utf16
  exact ⟨c, result, spells ▸ sign⟩

/-- **Without surrogates, in the order of the chars.** Two texts without surrogates
compare as modified UTF-8 as their chars do. -/
theorem compareModifiedUtf8ToModifiedUtf8AsUtf16CodePointValues_of_noSurrogates (chars1 chars2 : List (BitVec 16))
    (noSurrogates1 : ∀ ch ∈ chars1, ch.toNat < 0xd800 ∨ 0xe000 ≤ ch.toNat)
    (noSurrogates2 : ∀ ch ∈ chars2, ch.toNat < 0xd800 ∨ 0xe000 ≤ ch.toNat) :
    ∃ c, compareModifiedUtf8ToModifiedUtf8AsUtf16CodePointValues
        (convertUtf16ToModifiedUtf8 (countUtf8Bytes chars1) chars1)
        (convertUtf16ToModifiedUtf8 (countUtf8Bytes chars2) chars2) = some c ∧
      compare c 0 = compare chars1 chars2 := by
  have reads1 := readUnits_of_mutf8_noSurrogates (convertUtf16ToModifiedUtf8_mutf8 chars1).1 noSurrogates1
  have reads2 := readUnits_of_mutf8_noSurrogates (convertUtf16ToModifiedUtf8_mutf8 chars2).1 noSurrogates2
  obtain ⟨c, result, sign⟩ := compareModifiedUtf8ToModifiedUtf8AsUtf16CodePointValues_of_readUnits reads1 reads2
  refine ⟨c, result, ?_⟩
  -- a char read alone has the key of the char, so the keys order as the chars
  have keys : ∀ chars : List (BitVec 16),
      (chars.map fun ch => BitVec.ofNat 32 ch.toNat).map unitKey = chars.map fun ch => ch.toNat * 0x10000 := by
    intro chars
    rw [List.map_map]
    exact List.map_congr_left fun ch _ => unitKey_of_char ch
  rw [sign, keys, keys, compare_map _ compare_key_of_char]

/-- **A surrogate pair against its leading surrogate alone.** Compared as modified
UTF-8, a text that starts with a surrogate pair is above one that starts with the
same leading surrogate followed by a char in U+E000..U+FFFF, whatever comes after. -/
theorem compareModifiedUtf8ToModifiedUtf8AsUtf16CodePointValues_pair_unpaired {lead trail ch : BitVec 16}
    (x y : List (BitVec 16)) (leading : 0xd800 ≤ lead.toNat ∧ lead.toNat < 0xdc00)
    (trailing : 0xdc00 ≤ trail.toNat ∧ trail.toNat < 0xe000) (above : 0xe000 ≤ ch.toNat) :
    ∃ c, compareModifiedUtf8ToModifiedUtf8AsUtf16CodePointValues
        (convertUtf16ToModifiedUtf8 (countUtf8Bytes (lead :: trail :: x)) (lead :: trail :: x))
        (convertUtf16ToModifiedUtf8 (countUtf8Bytes (lead :: ch :: y)) (lead :: ch :: y)) = some c ∧ 0 < c := by
  obtain ⟨unitsX, readsX, -⟩ := readUnits_of_mutf8 (convertUtf16ToModifiedUtf8Loop_mutf8 x)
  obtain ⟨unitsY, readsY, -⟩ := readUnits_of_mutf8 (convertUtf16ToModifiedUtf8Loop_mutf8 (ch :: y))
  have range := pairCodePoint_range leading trailing
  have small := lead.isLt
  -- the first text starts with the four bytes of the pair, the second with the three of the lone surrogate
  have readsPair : readUnits (convertUtf16ToModifiedUtf8 (countUtf8Bytes (lead :: trail :: x)) (lead :: trail :: x)) =
      some (BitVec.ofNat 32 (lead.toNat + trail.toNat * 0x10000) :: unitsX) := by
    rw [convertUtf16ToModifiedUtf8_eq_loop, convertUtf16ToModifiedUtf8Loop_pair x leading trailing,
      encodeSurrogatePair_eq leading trailing]
    exact readUnits_cons_of_read (Mutf8.ofNat_ne_zero (by omega) (by omega))
      (getUtf16FromUtf8_four _ leading trailing (by simp; omega) (by simp; omega) (by simp; omega) (by simp; omega))
      readsX
  have readsUnpaired : readUnits (convertUtf16ToModifiedUtf8 (countUtf8Bytes (lead :: ch :: y)) (lead :: ch :: y)) =
      some (BitVec.ofNat 32 lead.toNat :: unitsY) := by
    rw [convertUtf16ToModifiedUtf8_eq_loop, convertUtf16ToModifiedUtf8Loop_unpaired y (by omega) (by omega),
      encodeThreeOrTwoBytes_of_le (by omega)]
    exact readUnits_cons_of_read (Mutf8.ofNat_ne_zero (by omega) (by omega))
      (getUtf16FromUtf8_three _ (n := lead.toNat) small (by simp; omega) (by simp; omega) (by simp; omega)) readsY
  obtain ⟨c, result, sign⟩ :=
    compareModifiedUtf8ToModifiedUtf8AsUtf16CodePointValues_of_readUnits readsPair readsUnpaired
  refine ⟨c, result, ?_⟩
  -- the pair's key has its trailing surrogate where the lone surrogate's has zero
  have greater : lead.toNat * 0x10000 < lead.toNat * 0x10000 + trail.toNat := by omega
  rw [List.map_cons, List.map_cons, unitKey_of_pair, unitKey_of_char, compare_cons_of_ne _ _ (by omega),
    Nat.compare_eq_gt.2 greater] at sign
  exact Int.compare_eq_gt.1 sign

end Texts

end Art.Runtime
