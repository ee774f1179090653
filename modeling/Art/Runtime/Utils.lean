import Art.Runtime.Utf

/-!
# Member names, class names and descriptors

`IsValidMemberName`, `IsValidDescriptor`, `IsValidBinaryClassName` and
`IsValidJniClassName` check a `NUL`-terminated modified UTF-8 string against the
grammar of the dex format. They decode one character at a time, classify ASCII
through the bit table `DEX_MEMBER_VALID_LOW_ASCII` and the other characters in
`IsValidPartOfMemberNameUtf8Slow`, which reads a second character after a
leading surrogate.

The model reads memory as the list of bytes from the start of the string on,
the terminating `NUL` and whatever follows it included; a read past the end of
the list is `none`. The grammar is stated separately on UTF-16 chars
(`SimpleName`, `MemberName`).

Two behaviours differ from the grammar.

* `IsValidMemberName` accepts `<>`: after `<` it returns at the first `>` with
  no check that a name came in between, so the empty name between the angle
  brackets passes (`isValidMemberName_emptyAngleName`).
* `GetUtf16FromUtf8` takes as many continuation bytes as the lead byte announces,
  without looking for the terminator. A two-byte lead byte just before the `NUL`
  takes the `NUL` as its continuation, and the check goes on reading the bytes
  after the string (`isValidMemberName_reads_past_nul`).

Such a string is not modified UTF-8, which `GetUtf16FromUtf8` asks its callers to
pass. On the spelling of any text followed by its `NUL` the four checks answer,
and read no byte beyond the `NUL` (`validators_read_within_string`): a check that
answers on some bytes answers the same on a longer memory, and every character,
the one a leading surrogate reads after it included, lies within the spelling or is
the `NUL`.
-/

set_option autoImplicit false

namespace Art.Runtime

open Art.Machine Art.Text

/-! ## The grammar -/

/-- The byte of an ASCII character. -/
def asciiByte (c : Char) : BitVec 8 := BitVec.ofNat 8 c.toNat

/-- The UTF-16 char of an ASCII character. -/
def asciiChar (c : Char) : BitVec 16 := BitVec.ofNat 16 c.toNat

/-- A char that stands for itself in a dex `SimpleName`: a letter, a digit, `$`,
`-`, `_`, or a char of U+00A1..U+1FFF, U+2010..U+2027, U+2030..U+D7FF or
U+E000..U+FFEF. -/
def IsSimpleNameChar (c : BitVec 16) : Prop :=
  ('A'.toNat ≤ c.toNat ∧ c.toNat ≤ 'Z'.toNat) ∨ ('a'.toNat ≤ c.toNat ∧ c.toNat ≤ 'z'.toNat) ∨
    ('0'.toNat ≤ c.toNat ∧ c.toNat ≤ '9'.toNat) ∨ c.toNat = '$'.toNat ∨ c.toNat = '-'.toNat ∨
    c.toNat = '_'.toNat ∨ (0xa1 ≤ c.toNat ∧ c.toNat ≤ 0x1fff) ∨ (0x2010 ≤ c.toNat ∧ c.toNat ≤ 0x2027) ∨
    (0x2030 ≤ c.toNat ∧ c.toNat ≤ 0xd7ff) ∨ (0xe000 ≤ c.toNat ∧ c.toNat ≤ 0xffef)

instance : DecidablePred IsSimpleNameChar := fun _ => inferInstanceAs (Decidable (_ ∨ _))

/-- The chars of a dex `SimpleName`, possibly none: chars that stand for
themselves and properly paired surrogates. -/
inductive SimpleNameChars : List (BitVec 16) → Prop where
  | nil : SimpleNameChars []
  | char {c : BitVec 16} {rest : List (BitVec 16)} : IsSimpleNameChar c → SimpleNameChars rest →
      SimpleNameChars (c :: rest)
  | pair {lead trail : BitVec 16} {rest : List (BitVec 16)} :
      0xd800 ≤ lead.toNat → lead.toNat < 0xdc00 → 0xdc00 ≤ trail.toNat → trail.toNat < 0xe000 →
      SimpleNameChars rest → SimpleNameChars (lead :: trail :: rest)

/-- A dex `SimpleName`: one char or more. -/
def SimpleName (chars : List (BitVec 16)) : Prop := chars ≠ [] ∧ SimpleNameChars chars

/-- A dex `MemberName`: a `SimpleName`, or one between `<` and `>`. -/
def MemberName (chars : List (BitVec 16)) : Prop :=
  SimpleName chars ∨ ∃ name, SimpleName name ∧ chars = asciiChar '<' :: name ++ [asciiChar '>']

/-- A name that starts with a char neither standing for itself nor a leading
surrogate is no `SimpleName`. -/
theorem not_simpleNameChars_cons {c : BitVec 16} {rest : List (BitVec 16)} (notChar : ¬IsSimpleNameChar c)
    (notLead : c.toNat < 0xd800) : ¬SimpleNameChars (c :: rest) := by
  intro chars
  cases chars with
  | char isChar _ => exact notChar isChar
  | pair lead => omega

/-! ## The model -/

/-- `DEX_MEMBER_VALID_LOW_ASCII`: for each char below 0x80, one bit that tells
whether it may stand in a member name. -/
def dexMemberValidLowAscii : List (BitVec 32) := [0x00000000, 0x03ff2010, 0x87fffffe, 0x07fffffe]

/-- `IsValidPartOfMemberNameUtf8Slow`: whether the multi-byte character the bytes
start with may stand in a member name, and the bytes after it. A leading
surrogate is valid only with a trailing one after it, which is read too. -/
def isValidPartOfMemberNameUtf8Slow (bytes : List (BitVec 8)) : Option (Bool × List (BitVec 8)) := do
  let (pair, rest) ← getUtf16FromUtf8 bytes
  let leading := getLeadingUtf16Char pair
  -- a four-byte sequence decodes to a surrogate pair, valid as it is
  if getTrailingUtf16Char pair ≠ 0 then return (true, rest)
  let high := (leading >>> 8).toNat
  if high = 0x00 then
    -- only above the ISO-8859-1 high space
    return (decide (0x00a0 < leading.toNat), rest)
  else if 0xd8 ≤ high ∧ high ≤ 0xdb then
    let (pair2, rest2) ← getUtf16FromUtf8 rest
    let trailing := getLeadingUtf16Char pair2
    return (getTrailingUtf16Char pair2 == 0 && decide (0xdc00 ≤ trailing.toNat ∧ trailing.toNat ≤ 0xdfff), rest2)
  else if 0xdc ≤ high ∧ high ≤ 0xdf then return (false, rest)
  else if high = 0x20 ∨ high = 0xff then
    -- spaces, controls and specials
    let masked := (leading &&& 0xfff8).toNat
    return (!decide (masked = 0x2000 ∨ masked = 0x2008 ∨ masked = 0x2028 ∨ masked = 0xfff0 ∨ masked = 0xfff8),
      rest)
  else return (true, rest)

/-- `IsValidPartOfMemberNameUtf8`: ASCII through the table, the rest through
`IsValidPartOfMemberNameUtf8Slow`. -/
def isValidPartOfMemberNameUtf8 (bytes : List (BitVec 8)) : Option (Bool × List (BitVec 8)) :=
  match bytes with
  | [] => none
  | c :: rest =>
    if c.toNat ≤ 0x7f then
      let wordIdx := c.toNat >>> 5
      let bitIdx := c.toNat &&& 0x1f
      some ((dexMemberValidLowAscii.getD wordIdx 0 &&& 1 <<< bitIdx) != 0, rest)
    else isValidPartOfMemberNameUtf8Slow (c :: rest)

/-- `IsValidPartOfMemberNameUtf8Slow` consumes at least one byte. -/
theorem length_lt_of_isValidPartOfMemberNameUtf8Slow {bytes rest : List (BitVec 8)} {valid : Bool}
    (read : isValidPartOfMemberNameUtf8Slow bytes = some (valid, rest)) : rest.length < bytes.length := by
  unfold isValidPartOfMemberNameUtf8Slow at read
  match first : getUtf16FromUtf8 bytes, read with
  | some (pair, next), read =>
      have shorter := length_lt_of_getUtf16FromUtf8 first
      simp only [Option.bind_eq_bind, Option.bind_some] at read
      split_ifs at read
      · cases read; exact shorter
      · cases read; exact shorter
      · -- the trailing surrogate is read after the leading one
        match second : getUtf16FromUtf8 next, read with
        | some (pair2, next2), read =>
            simp only [Option.bind_some, pure, Option.some.injEq, Prod.mk.injEq] at read
            rw [← read.2]
            exact (length_lt_of_getUtf16FromUtf8 second).trans shorter
      all_goals cases read; exact shorter

/-- `IsValidPartOfMemberNameUtf8` consumes at least one byte. -/
theorem length_lt_of_isValidPartOfMemberNameUtf8 {bytes rest : List (BitVec 8)} {valid : Bool}
    (read : isValidPartOfMemberNameUtf8 bytes = some (valid, rest)) : rest.length < bytes.length := by
  match bytes, read with
  | c :: tail, read =>
      simp only [isValidPartOfMemberNameUtf8] at read
      split_ifs at read
      · cases read
        exact Nat.lt_succ_self _
      · exact length_lt_of_isValidPartOfMemberNameUtf8Slow read

/-- The loop of `IsValidMemberName` after the optional `<`. -/
def isValidMemberNameLoop (angleName : Bool) (bytes : List (BitVec 8)) : Option Bool :=
  match bytes with
  | [] => none
  | c :: rest =>
    if c = 0 then some !angleName
    else if c = asciiByte '>' then
      if angleName then rest.head?.map (· == 0) else some false
    else
      match read : isValidPartOfMemberNameUtf8 (c :: rest) with
      | none => none
      | some (false, _) => some false
      | some (true, next) => isValidMemberNameLoop angleName next
termination_by bytes.length
decreasing_by exact length_lt_of_isValidPartOfMemberNameUtf8 read

/-- `IsValidMemberName`. -/
def isValidMemberName (bytes : List (BitVec 8)) : Option Bool :=
  match bytes with
  | [] => none
  | c :: rest =>
    if c = 0 then some false
    else if c = asciiByte '<' then isValidMemberNameLoop true rest
    else isValidMemberNameLoop false (c :: rest)

/-- `ClassNameType`. -/
inductive ClassNameType
  | kName
  | kDescriptor
  deriving DecidableEq, Repr

/-- The loop of `IsValidClassName` over the class name, with `sepOrFirst`: at the
start or just after a separator. -/
def isValidClassNameLoop (type : ClassNameType) (separator : BitVec 8) (sepOrFirst : Bool)
    (bytes : List (BitVec 8)) : Option Bool :=
  match bytes with
  | [] => none
  | c :: rest =>
    if c = 0 then some (type == .kName && !sepOrFirst)
    else if c = asciiByte ';' then
      if type = .kDescriptor ∧ !sepOrFirst then rest.head?.map (· == 0) else some false
    else if c = asciiByte '/' ∨ c = asciiByte '.' then
      if c ≠ separator then some false
      else if sepOrFirst then some false
      else isValidClassNameLoop type separator true rest
    else
      match read : isValidPartOfMemberNameUtf8 (c :: rest) with
      | none => none
      | some (false, _) => some false
      | some (true, next) => isValidClassNameLoop type separator false next
termination_by bytes.length
decreasing_by
  · exact Nat.lt_succ_self rest.length
  · exact length_lt_of_isValidPartOfMemberNameUtf8 read

/-- `IsValidClassName<kType, kSeparator>`: the array dimensions, then a primitive
type, or a class name (after `L` in a descriptor). -/
def isValidClassName (kType : ClassNameType) (kSeparator : BitVec 8) (bytes : List (BitVec 8)) : Option Bool :=
  let arrayCount := (bytes.takeWhile (· == asciiByte '[')).length
  let s := bytes.drop arrayCount
  if arrayCount > 255 then some false
  else
    -- an array of anything is a descriptor
    let type := if kType ≠ .kDescriptor ∧ arrayCount ≠ 0 then ClassNameType.kDescriptor else kType
    if type = .kDescriptor then
      match s with
      | [] => none
      | c :: rest =>
        if c ∈ ['B', 'C', 'D', 'F', 'I', 'J', 'S', 'Z'].map asciiByte then rest.head?.map (· == 0)
        else if c = asciiByte 'V' then
          if arrayCount = 0 then rest.head?.map (· == 0) else some false
        else if c = asciiByte 'L' then isValidClassNameLoop type kSeparator true rest
        else some false
    else isValidClassNameLoop type kSeparator true s

/-- `IsValidBinaryClassName`. -/
def isValidBinaryClassName (bytes : List (BitVec 8)) : Option Bool :=
  isValidClassName .kName (asciiByte '.') bytes

/-- `IsValidJniClassName`. -/
def isValidJniClassName (bytes : List (BitVec 8)) : Option Bool :=
  isValidClassName .kName (asciiByte '/') bytes

/-- `IsValidDescriptor`. -/
def isValidDescriptor (bytes : List (BitVec 8)) : Option Bool :=
  isValidClassName .kDescriptor (asciiByte '/') bytes

/-! ## Steps of the loops -/

/-- A char of U+00A1..U+07FF, read in two bytes, may stand in a member name. -/
theorem isValidPartOfMemberNameUtf8Slow_of_two {bytes rest : List (BitVec 8)} {n : Nat}
    (read : getUtf16FromUtf8 bytes = some (BitVec.ofNat 32 n, rest)) (above : 0xa0 < n) (below : n < 0x800) :
    isValidPartOfMemberNameUtf8Slow bytes = some (true, rest) := by
  have leading : (getLeadingUtf16Char (BitVec.ofNat 32 n)).toNat = n := by
    rw [getLeadingUtf16Char_of_char, BitVec.toNat_ofNat]
    omega
  have high : (getLeadingUtf16Char (BitVec.ofNat 32 n) >>> 8).toNat = n / 2 ^ 8 := by
    rw [toNat_ushiftRight_eq_div, leading]
  simp only [isValidPartOfMemberNameUtf8Slow, read, Option.bind_eq_bind, Option.bind_some,
    getTrailingUtf16Char_of_char (show n < 0x10000 by omega), ne_eq, not_true_eq_false, reduceIte, high, leading]
  -- the high byte of the char is at most 7: no surrogate, no space or special
  split_ifs <;> first | omega | simp [above]

/-- The loop of `IsValidMemberName` goes on after a valid character. -/
theorem isValidMemberNameLoop_of_valid {angleName : Bool} {c : BitVec 8} {rest next : List (BitVec 8)}
    (notNul : c ≠ 0) (notClose : c ≠ asciiByte '>')
    (valid : isValidPartOfMemberNameUtf8 (c :: rest) = some (true, next)) :
    isValidMemberNameLoop angleName (c :: rest) = isValidMemberNameLoop angleName next := by
  rw [isValidMemberNameLoop, if_neg notNul, if_neg notClose]
  split <;> simp_all

/-- The loop of `IsValidMemberName` stops at an invalid character. -/
theorem isValidMemberNameLoop_of_invalid {angleName : Bool} {c : BitVec 8} {rest next : List (BitVec 8)}
    (notNul : c ≠ 0) (notClose : c ≠ asciiByte '>')
    (invalid : isValidPartOfMemberNameUtf8 (c :: rest) = some (false, next)) :
    isValidMemberNameLoop angleName (c :: rest) = some false := by
  rw [isValidMemberNameLoop, if_neg notNul, if_neg notClose]
  split <;> simp_all

/-- An ASCII character is looked up in the table. -/
theorem isValidPartOfMemberNameUtf8_ascii {c : BitVec 8} (rest : List (BitVec 8)) (ascii : c.toNat ≤ 0x7f) :
    isValidPartOfMemberNameUtf8 (c :: rest) =
      some ((dexMemberValidLowAscii.getD (c.toNat >>> 5) 0 &&& 1 <<< (c.toNat &&& 0x1f)) != 0, rest) := by
  rw [isValidPartOfMemberNameUtf8, if_pos ascii]

/-- The loop of `IsValidClassName` goes on after a valid character of a name. -/
theorem isValidClassNameLoop_of_valid {type : ClassNameType} {separator c : BitVec 8} {sepOrFirst : Bool}
    {rest next : List (BitVec 8)} (notNul : c ≠ 0) (notEnd : c ≠ asciiByte ';')
    (notSeparator : ¬(c = asciiByte '/' ∨ c = asciiByte '.'))
    (valid : isValidPartOfMemberNameUtf8 (c :: rest) = some (true, next)) :
    isValidClassNameLoop type separator sepOrFirst (c :: rest) = isValidClassNameLoop type separator false next := by
  rw [isValidClassNameLoop, if_neg notNul, if_neg notEnd, if_neg notSeparator]
  split <;> simp_all

/-- The loop of `IsValidClassName` stops at an invalid character of a name. -/
theorem isValidClassNameLoop_of_invalid {type : ClassNameType} {separator c : BitVec 8} {sepOrFirst : Bool}
    {rest next : List (BitVec 8)} (notNul : c ≠ 0) (notEnd : c ≠ asciiByte ';')
    (notSeparator : ¬(c = asciiByte '/' ∨ c = asciiByte '.'))
    (invalid : isValidPartOfMemberNameUtf8 (c :: rest) = some (false, next)) :
    isValidClassNameLoop type separator sepOrFirst (c :: rest) = some false := by
  rw [isValidClassNameLoop, if_neg notNul, if_neg notEnd, if_neg notSeparator]
  split <;> simp_all

/-! ## Where the checks part from the grammar -/

/-- `IsValidMemberName` accepts `<>`, the spelling of a text that is no
`MemberName`, whatever lies after its terminator. -/
theorem isValidMemberName_emptyAngleName :
    Mutf8 [asciiChar '<', asciiChar '>'] [asciiByte '<', asciiByte '>'] ∧
      ¬MemberName [asciiChar '<', asciiChar '>'] ∧
      ∀ after, isValidMemberName (asciiByte '<' :: asciiByte '>' :: 0 :: after) = some true := by
  refine ⟨.one (by decide) (by decide) (.one (by decide) (by decide) .nil), ?_, fun after => ?_⟩
  · rintro (simple | ⟨name, simple, spelled⟩)
    · exact not_simpleNameChars_cons (by decide) (by decide) simple.2
    · -- the name between the brackets would be empty
      have empty : name = [] := by simpa using spelled
      exact simple.1 empty
  · rw [isValidMemberName, if_neg (by decide), if_pos rfl, isValidMemberNameLoop, if_neg (by decide), if_pos rfl,
      if_pos rfl]
    rfl

/-- A two-byte lead byte of 0xC3..0xDF just before the terminating `NUL` takes
the `NUL` as its continuation and decodes to a char of U+00C0..U+07C0, valid in a
member name: `IsValidMemberName` goes on with the bytes after the string. -/
theorem isValidMemberName_reads_past_nul {lead : BitVec 8} (twoByte : 0xc3 ≤ lead.toNat ∧ lead.toNat ≤ 0xdf)
    (after : List (BitVec 8)) : isValidMemberName (lead :: 0 :: after) = isValidMemberNameLoop false after := by
  have set7 : ¬lead &&& 0x80 = 0 := by
    rw [and_eq_zero_iff_of_bit (k := 7) (by decide)]
    omega
  have clear5 : lead &&& 0x20 = 0 := by
    rw [and_eq_zero_iff_of_bit (k := 5) (by decide)]
    omega
  have read : getUtf16FromUtf8 (lead :: 0 :: after) = _ := getUtf16FromUtf8_of_twoByteLead after set7 clear5
  have valid : isValidPartOfMemberNameUtf8 (lead :: 0 :: after) = some (true, after) := by
    rw [isValidPartOfMemberNameUtf8, if_neg (by omega)]
    exact isValidPartOfMemberNameUtf8Slow_of_two read (by simp; omega) (by simp; omega)
  have notNul : lead ≠ 0 := by
    rintro rfl
    simp at twoByte
  have notAngle : ∀ c : Char, c.toNat < 0x80 → lead ≠ asciiByte c := by
    rintro c ascii rfl
    simp only [asciiByte, BitVec.toNat_ofNat] at twoByte
    omega
  rw [isValidMemberName, if_neg notNul, if_neg (notAngle '<' (by decide)),
    isValidMemberNameLoop_of_valid notNul (notAngle '>' (by decide)) valid]

/-- Two memories that agree up to the terminating `NUL` of `"\xc3"` but not after it
get different answers from `IsValidMemberName`. -/
theorem isValidMemberName_reads_past_nul_c3 :
    isValidMemberName [0xc3, 0, 0] = some true ∧ isValidMemberName [0xc3, 0, asciiByte ' ', 0] = some false := by
  rw [isValidMemberName_reads_past_nul (by decide) [0], isValidMemberName_reads_past_nul (by decide) [asciiByte ' ', 0]]
  constructor
  · rw [isValidMemberNameLoop, if_pos rfl]
    rfl
  · exact isValidMemberNameLoop_of_invalid (by decide) (by decide)
      (show isValidPartOfMemberNameUtf8 [asciiByte ' ', 0] = some (false, [0]) from rfl)

/-- An array class name is checked as a descriptor but with the separator of the
class-name check: `.` for `IsValidBinaryClassName`. -/
theorem isValidBinaryClassName_array (rest : List (BitVec 8)) :
    isValidBinaryClassName (asciiByte '[' :: asciiByte 'L' :: rest) =
      isValidClassNameLoop .kDescriptor (asciiByte '.') true rest := by
  simp [isValidBinaryClassName, isValidClassName, asciiByte]

/-- `[La/b;` is a descriptor but no binary class name. -/
example : isValidBinaryClassName [asciiByte '[', asciiByte 'L', asciiByte 'a', asciiByte '/', asciiByte 'b',
    asciiByte ';', 0] = some false := by
  rw [isValidBinaryClassName_array,
    isValidClassNameLoop_of_valid (by decide) (by decide) (by decide) (isValidPartOfMemberNameUtf8_ascii _ (by decide)),
    isValidClassNameLoop, if_neg (by decide), if_neg (by decide), if_pos (by decide), if_pos (by decide)]

/-! ## What the checks read

A check that answers on some bytes answers the same on any longer memory that
starts with them (`isValidMemberNameLoop_append`, `isValidClassNameLoop_append`).
On the spelling of a text followed by its `NUL` every check answers
(`isValidMemberNameLoop_terminated`, `isValidClassNameLoop_terminated`): each
character is read within the spelling, and the character a leading surrogate reads
after it is the next one or the `NUL`.
-/

/-- `IsValidPartOfMemberNameUtf8Slow` reads no further than the one or two chars it
decodes. -/
theorem isValidPartOfMemberNameUtf8Slow_append {bytes rest : List (BitVec 8)} {valid : Bool}
    (read : isValidPartOfMemberNameUtf8Slow bytes = some (valid, rest)) (tail : List (BitVec 8)) :
    isValidPartOfMemberNameUtf8Slow (bytes ++ tail) = some (valid, rest ++ tail) := by
  unfold isValidPartOfMemberNameUtf8Slow at read ⊢
  match first : getUtf16FromUtf8 bytes, read with
  | some (pair, next), read =>
      simp only [getUtf16FromUtf8_append first, Option.bind_eq_bind, Option.bind_some] at read ⊢
      split_ifs at read ⊢
      all_goals try (cases read; rfl)
      -- the trailing surrogate read after the leading one
      match second : getUtf16FromUtf8 next, read with
      | some (pair2, next2), read =>
          simp only [getUtf16FromUtf8_append second, Option.bind_some, pure, Option.some.injEq, Prod.mk.injEq] at read ⊢
          rw [← read.1, ← read.2]
          exact ⟨rfl, rfl⟩

/-- `IsValidPartOfMemberNameUtf8` reads no further than the character it checks. -/
theorem isValidPartOfMemberNameUtf8_append {bytes rest : List (BitVec 8)} {valid : Bool}
    (read : isValidPartOfMemberNameUtf8 bytes = some (valid, rest)) (tail : List (BitVec 8)) :
    isValidPartOfMemberNameUtf8 (bytes ++ tail) = some (valid, rest ++ tail) := by
  match bytes, read with
  | c :: more, read =>
      rw [isValidPartOfMemberNameUtf8] at read
      rw [List.cons_append, isValidPartOfMemberNameUtf8]
      split_ifs at read ⊢
      · cases read
        rfl
      · exact isValidPartOfMemberNameUtf8Slow_append read tail

/-- The loop of `IsValidMemberName` answers the same on any memory that starts with
the bytes it answered on. -/
theorem isValidMemberNameLoop_append {angleName b : Bool} {bytes : List (BitVec 8)}
    (run : isValidMemberNameLoop angleName bytes = some b) (tail : List (BitVec 8)) :
    isValidMemberNameLoop angleName (bytes ++ tail) = some b := by
  fun_induction isValidMemberNameLoop angleName bytes with
  | case1 => cases run
  | case2 rest =>
      rw [List.cons_append, isValidMemberNameLoop, if_pos rfl]
      exact run
  | case3 rest angle notNul =>
      -- the byte after `>` is one of `rest`, which `run` read
      cases rest with
      | nil => cases run
      | cons next more =>
          rw [List.cons_append, isValidMemberNameLoop, if_neg notNul, if_pos rfl, if_pos angle]
          exact run
  | case4 rest notAngle notNul =>
      rw [List.cons_append, isValidMemberNameLoop, if_neg notNul, if_pos rfl, if_neg notAngle]
      exact run
  | case5 => cases run
  | case6 c rest notNul notClose next read =>
      have read := isValidPartOfMemberNameUtf8_append read tail
      rw [List.cons_append] at read ⊢
      rw [isValidMemberNameLoop_of_invalid notNul notClose read]
      exact run
  | case7 c rest notNul notClose next read ih =>
      have read := isValidPartOfMemberNameUtf8_append read tail
      rw [List.cons_append] at read ⊢
      rw [isValidMemberNameLoop_of_valid notNul notClose read]
      exact ih run

/-- The loop of `IsValidClassName` answers the same on any memory that starts with
the bytes it answered on. -/
theorem isValidClassNameLoop_append {type : ClassNameType} {separator : BitVec 8} {sepOrFirst b : Bool}
    {bytes : List (BitVec 8)} (run : isValidClassNameLoop type separator sepOrFirst bytes = some b)
    (tail : List (BitVec 8)) : isValidClassNameLoop type separator sepOrFirst (bytes ++ tail) = some b := by
  fun_induction isValidClassNameLoop type separator sepOrFirst bytes with
  | case1 => cases run
  | case2 sepOrFirst rest =>
      rw [List.cons_append, isValidClassNameLoop, if_pos rfl]
      exact run
  | case3 sepOrFirst rest descriptor notNul =>
      -- the byte after `;` is one of `rest`, which `run` read
      cases rest with
      | nil => cases run
      | cons next more =>
          rw [List.cons_append, isValidClassNameLoop, if_neg notNul, if_pos rfl, if_pos descriptor]
          exact run
  | case4 sepOrFirst rest notDescriptor notNul =>
      rw [List.cons_append, isValidClassNameLoop, if_neg notNul, if_pos rfl, if_neg notDescriptor]
      exact run
  | case5 sepOrFirst c rest notNul notEnd separates other =>
      rw [List.cons_append, isValidClassNameLoop, if_neg notNul, if_neg notEnd, if_pos separates, if_pos other]
      exact run
  | case6 c rest notNul notEnd separates same =>
      rw [List.cons_append, isValidClassNameLoop, if_neg notNul, if_neg notEnd, if_pos separates, if_neg same,
        if_pos rfl]
      exact run
  | case7 sepOrFirst c rest notNul notEnd separates same notFirst ih =>
      rw [List.cons_append, isValidClassNameLoop, if_neg notNul, if_neg notEnd, if_pos separates, if_neg same,
        if_neg notFirst]
      exact ih run
  | case8 => cases run
  | case9 sepOrFirst c rest notNul notEnd notSeparator next read =>
      have read := isValidPartOfMemberNameUtf8_append read tail
      rw [List.cons_append] at read ⊢
      rw [isValidClassNameLoop_of_invalid notNul notEnd notSeparator read]
      exact run
  | case10 sepOrFirst c rest notNul notEnd notSeparator next read ih =>
      have read := isValidPartOfMemberNameUtf8_append read tail
      rw [List.cons_append] at read ⊢
      rw [isValidClassNameLoop_of_valid notNul notEnd notSeparator read]
      exact ih run


/-- On a spelling followed by its `NUL`, `IsValidPartOfMemberNameUtf8Slow` either finds
the character invalid or consumes a spelled prefix; the character a leading surrogate
reads after it is the next one or the `NUL`, which makes it invalid. -/
theorem isValidPartOfMemberNameUtf8Slow_terminated {chars : List (BitVec 16)} {spelling : List (BitVec 8)}
    (spelled : Mutf8 chars spelling) (nonempty : spelling ≠ []) :
    (∃ rest, isValidPartOfMemberNameUtf8Slow (spelling ++ [0]) = some (false, rest)) ∨
      ∃ valid chars' next, Mutf8 chars' next ∧ next.length < spelling.length ∧
        isValidPartOfMemberNameUtf8Slow (spelling ++ [0]) = some (valid, next ++ [0]) := by
  obtain ⟨pair, chars', next, read, spelledNext⟩ := Mutf8.read_first spelled nonempty
  have shorter := length_lt_of_getUtf16FromUtf8 read
  unfold isValidPartOfMemberNameUtf8Slow
  simp only [getUtf16FromUtf8_append read, Option.bind_eq_bind, Option.bind_some]
  split_ifs with paired latin leading
  all_goals try exact .inr ⟨_, _, next, spelledNext, shorter, rfl⟩
  -- a leading surrogate reads the char after it, the terminator if it is the last
  cases next with
  | nil =>
      refine .inl ⟨[], ?_⟩
      rw [List.nil_append, getUtf16FromUtf8_one [] (n := 0) (by decide) rfl]
      rfl
  | cons b more =>
      obtain ⟨pair2, chars2, next2, read2, spelled2⟩ := Mutf8.read_first spelledNext (List.cons_ne_nil b more)
      rw [getUtf16FromUtf8_append read2]
      exact .inr ⟨_, _, next2, spelled2, (length_lt_of_getUtf16FromUtf8 read2).trans shorter, rfl⟩


/-- On a spelling followed by its `NUL`, `IsValidPartOfMemberNameUtf8` either finds the
character invalid or consumes a spelled prefix. -/
theorem isValidPartOfMemberNameUtf8_terminated {chars : List (BitVec 16)} {spelling : List (BitVec 8)}
    (spelled : Mutf8 chars spelling) (nonempty : spelling ≠ []) :
    (∃ rest, isValidPartOfMemberNameUtf8 (spelling ++ [0]) = some (false, rest)) ∨
      ∃ valid chars' next, Mutf8 chars' next ∧ next.length < spelling.length ∧
        isValidPartOfMemberNameUtf8 (spelling ++ [0]) = some (valid, next ++ [0]) := by
  obtain ⟨c, rest, rfl⟩ := List.exists_cons_of_ne_nil nonempty
  by_cases ascii : c.toNat ≤ 0x7f
  · rw [List.cons_append, isValidPartOfMemberNameUtf8_ascii _ ascii]
    exact .inr ⟨_, _, rest, spelled.tail_of_ascii (by omega), by simp, rfl⟩
  · rw [List.cons_append, isValidPartOfMemberNameUtf8, if_neg ascii, ← List.cons_append]
    exact isValidPartOfMemberNameUtf8Slow_terminated spelled nonempty

/-- The loop of `IsValidMemberName` answers on every spelling followed by its `NUL`. -/
theorem isValidMemberNameLoop_terminated {chars : List (BitVec 16)} {spelling : List (BitVec 8)}
    (spelled : Mutf8 chars spelling) (angleName : Bool) :
    ∃ b, isValidMemberNameLoop angleName (spelling ++ [0]) = some b := by
  match spelling, spelled with
  | [], _ => exact ⟨_, by rw [List.nil_append, isValidMemberNameLoop, if_pos rfl]⟩
  | c :: rest, spelled =>
      have notNul : c ≠ 0 := spelled.ne_zero c List.mem_cons_self
      by_cases close : c = asciiByte '>'
      · -- the answer is the byte after `>`, the terminator at the latest
        rw [List.cons_append, isValidMemberNameLoop, if_neg notNul, if_pos close]
        split
        · cases rest <;> exact ⟨_, rfl⟩
        · exact ⟨_, rfl⟩
      · rcases isValidPartOfMemberNameUtf8_terminated spelled (List.cons_ne_nil c rest) with
          ⟨next, invalid⟩ | ⟨valid, chars', next, spelledNext, shorter, read⟩
        · exact ⟨_, isValidMemberNameLoop_of_invalid notNul close invalid⟩
        · cases valid
          · exact ⟨_, isValidMemberNameLoop_of_invalid notNul close read⟩
          · obtain ⟨b, run⟩ := isValidMemberNameLoop_terminated spelledNext angleName
            exact ⟨b, (isValidMemberNameLoop_of_valid notNul close read).trans run⟩
termination_by spelling.length
decreasing_by
  all_goals
    simp only [List.length_cons] at *
    omega

/-- The loop of `IsValidClassName` answers on every spelling followed by its `NUL`. -/
theorem isValidClassNameLoop_terminated {chars : List (BitVec 16)} {spelling : List (BitVec 8)}
    (spelled : Mutf8 chars spelling) (type : ClassNameType) (separator : BitVec 8) (sepOrFirst : Bool) :
    ∃ b, isValidClassNameLoop type separator sepOrFirst (spelling ++ [0]) = some b := by
  match spelling, spelled with
  | [], _ => exact ⟨_, by rw [List.nil_append, isValidClassNameLoop, if_pos rfl]⟩
  | c :: rest, spelled =>
      have notNul : c ≠ 0 := spelled.ne_zero c List.mem_cons_self
      by_cases semicolon : c = asciiByte ';'
      · -- the answer is the byte after `;`, the terminator at the latest
        rw [List.cons_append, isValidClassNameLoop, if_neg notNul, if_pos semicolon]
        split
        · cases rest <;> exact ⟨_, rfl⟩
        · exact ⟨_, rfl⟩
      by_cases separates : c = asciiByte '/' ∨ c = asciiByte '.'
      · -- a separator is one byte, and the rest is spelled
        have ascii : c.toNat < 0x80 := by
          rcases separates with rfl | rfl <;> decide
        rw [List.cons_append, isValidClassNameLoop, if_neg notNul, if_neg semicolon, if_pos separates]
        split_ifs
        · exact ⟨_, rfl⟩
        · exact ⟨_, rfl⟩
        · exact isValidClassNameLoop_terminated (spelled.tail_of_ascii ascii) type separator true
      rcases isValidPartOfMemberNameUtf8_terminated spelled (List.cons_ne_nil c rest) with
        ⟨next, invalid⟩ | ⟨valid, chars', next, spelledNext, shorter, read⟩
      · exact ⟨_, isValidClassNameLoop_of_invalid notNul semicolon separates invalid⟩
      · cases valid
        · exact ⟨_, isValidClassNameLoop_of_invalid notNul semicolon separates read⟩
        · obtain ⟨b, run⟩ := isValidClassNameLoop_terminated spelledNext type separator false
          exact ⟨b, (isValidClassNameLoop_of_valid notNul semicolon separates read).trans run⟩
termination_by spelling.length
decreasing_by
  all_goals
    simp only [List.length_cons] at *
    omega


/-- The array dimensions `[` are one-byte chars: what follows them is a spelling. -/
theorem Mutf8.drop_brackets {chars : List (BitVec 16)} {spelling : List (BitVec 8)} (spelled : Mutf8 chars spelling) :
    ∃ chars', Mutf8 chars' (spelling.drop (spelling.takeWhile (· == asciiByte '[')).length) := by
  induction spelling generalizing chars with
  | nil => exact ⟨_, spelled⟩
  | cons c rest ih =>
      by_cases bracket : c = asciiByte '['
      · rw [List.takeWhile_cons_of_pos (by simp [bracket]), List.length_cons, List.drop_succ_cons]
        exact ih (spelled.tail_of_ascii (by rw [bracket]; decide))
      · rw [List.takeWhile_cons_of_neg (by simp [bracket]), List.length_nil, List.drop_zero]
        exact ⟨_, spelled⟩

/-- The array dimensions of a string are counted before its terminator. -/
theorem takeWhile_bracket_append_nul (bytes after : List (BitVec 8)) :
    (bytes ++ 0 :: after).takeWhile (· == asciiByte '[') = bytes.takeWhile (· == asciiByte '[') := by
  rw [List.takeWhile_append]
  split
  · rename_i whole
    rw [List.takeWhile_cons_of_neg (by decide), List.append_nil, (List.takeWhile_prefix _).eq_of_length whole]
  · rfl

/-- `IsValidClassName` answers on every spelling followed by its `NUL`, the same
whatever follows the `NUL`. -/
theorem isValidClassName_terminated {chars : List (BitVec 16)} {spelling : List (BitVec 8)}
    (spelled : Mutf8 chars spelling) (kType : ClassNameType) (kSeparator : BitVec 8) :
    ∃ b, ∀ after, isValidClassName kType kSeparator (spelling ++ 0 :: after) = some b := by
  obtain ⟨chars', spelledRest⟩ := Mutf8.drop_brackets spelled
  have dropped : ∀ after, (spelling ++ 0 :: after).drop (spelling.takeWhile (· == asciiByte '[')).length =
      spelling.drop (spelling.takeWhile (· == asciiByte '[')).length ++ 0 :: after :=
    fun after => List.drop_append_of_le_length (List.takeWhile_prefix _).length_le
  simp only [isValidClassName, takeWhile_bracket_append_nul, dropped]
  generalize (spelling.takeWhile (· == asciiByte '[')).length = count at spelledRest ⊢
  generalize spelling.drop count = s at spelledRest ⊢
  generalize (if kType ≠ .kDescriptor ∧ count ≠ 0 then ClassNameType.kDescriptor else kType) = type
  by_cases tooMany : count > 255
  · exact ⟨false, fun _ => by rw [if_pos tooMany]⟩
  simp only [if_neg tooMany]
  by_cases descriptor : type = .kDescriptor
  · -- a descriptor: a primitive type, `V`, or `L` and a class name
    simp only [if_pos descriptor]
    cases s with
    | nil => exact ⟨false, fun after => rfl⟩
    | cons c rest =>
        simp only [List.cons_append]
        by_cases primitive : c ∈ ['B', 'C', 'D', 'F', 'I', 'J', 'S', 'Z'].map asciiByte
        · refine ⟨rest.headD 0 == 0, fun after => ?_⟩
          rw [if_pos primitive]
          cases rest <;> rfl
        by_cases void : c = asciiByte 'V'
        · refine ⟨count == 0 && rest.headD 0 == 0, fun after => ?_⟩
          rw [if_neg primitive, if_pos void]
          split_ifs with noArray <;> cases rest <;> simp [noArray]
        by_cases object : c = asciiByte 'L'
        · obtain ⟨b, run⟩ := isValidClassNameLoop_terminated (spelledRest.tail_of_ascii (by rw [object]; decide))
            type kSeparator true
          refine ⟨b, fun after => ?_⟩
          rw [if_neg primitive, if_neg void, if_pos object, List.append_cons]
          exact isValidClassNameLoop_append run after
        · exact ⟨false, fun after => by rw [if_neg primitive, if_neg void, if_neg object]⟩
  · -- a class name
    simp only [if_neg descriptor]
    obtain ⟨b, run⟩ := isValidClassNameLoop_terminated spelledRest type kSeparator true
    refine ⟨b, fun after => ?_⟩
    rw [List.append_cons]
    exact isValidClassNameLoop_append run after

/-- `IsValidMemberName` answers on every spelling followed by its `NUL`, the same
whatever follows the `NUL`. -/
theorem isValidMemberName_terminated {chars : List (BitVec 16)} {spelling : List (BitVec 8)}
    (spelled : Mutf8 chars spelling) : ∃ b, ∀ after, isValidMemberName (spelling ++ 0 :: after) = some b := by
  match spelling, spelled with
  | [], _ => exact ⟨false, fun _ => rfl⟩
  | c :: rest, spelled =>
      have notNul : c ≠ 0 := spelled.ne_zero c List.mem_cons_self
      by_cases angle : c = asciiByte '<'
      · obtain ⟨b, run⟩ := isValidMemberNameLoop_terminated (spelled.tail_of_ascii (by rw [angle]; decide)) true
        refine ⟨b, fun after => ?_⟩
        rw [List.cons_append, isValidMemberName, if_neg notNul, if_pos angle, List.append_cons]
        exact isValidMemberNameLoop_append run after
      · obtain ⟨b, run⟩ := isValidMemberNameLoop_terminated spelled false
        refine ⟨b, fun after => ?_⟩
        rw [List.cons_append, isValidMemberName, if_neg notNul, if_neg angle, ← List.cons_append, List.append_cons]
        exact isValidMemberNameLoop_append run after

/-- **The checks read a well-formed string up to its terminator.** For the spelling
of any text in modified UTF-8 followed by its `NUL`, `IsValidMemberName`,
`IsValidDescriptor`, `IsValidBinaryClassName` and `IsValidJniClassName` each answer,
and the answer is the same whatever follows the `NUL`, nothing included. -/
theorem validators_read_within_string {chars : List (BitVec 16)} {spelling : List (BitVec 8)}
    (spelled : Mutf8 chars spelling) :
    ∃ member descriptor binary jni : Bool, ∀ after : List (BitVec 8),
      isValidMemberName (spelling ++ 0 :: after) = some member ∧
        isValidDescriptor (spelling ++ 0 :: after) = some descriptor ∧
        isValidBinaryClassName (spelling ++ 0 :: after) = some binary ∧
        isValidJniClassName (spelling ++ 0 :: after) = some jni := by
  obtain ⟨member, memberRun⟩ := isValidMemberName_terminated spelled
  obtain ⟨descriptor, descriptorRun⟩ := isValidClassName_terminated spelled .kDescriptor (asciiByte '/')
  obtain ⟨binary, binaryRun⟩ := isValidClassName_terminated spelled .kName (asciiByte '.')
  obtain ⟨jni, jniRun⟩ := isValidClassName_terminated spelled .kName (asciiByte '/')
  exact ⟨member, descriptor, binary, jni, fun after =>
    ⟨memberRun after, descriptorRun after, binaryRun after, jniRun after⟩⟩

/-- A lone leading surrogate, `ED A0 80`, makes `IsValidPartOfMemberNameUtf8Slow` read
the `NUL` as the char after it, and no byte beyond. -/
theorem loneSurrogate_read_within_string :
    Mutf8 [0xd800] [0xed, 0xa0, 0x80] ∧
      ∃ member descriptor binary jni : Bool, ∀ after : List (BitVec 8),
        isValidMemberName ([0xed, 0xa0, 0x80] ++ 0 :: after) = some member ∧
          isValidDescriptor ([0xed, 0xa0, 0x80] ++ 0 :: after) = some descriptor ∧
          isValidBinaryClassName ([0xed, 0xa0, 0x80] ++ 0 :: after) = some binary ∧
          isValidJniClassName ([0xed, 0xa0, 0x80] ++ 0 :: after) = some jni :=
  have spelled : Mutf8 [0xd800] [0xed, 0xa0, 0x80] := .three (by decide) .nil
  ⟨spelled, validators_read_within_string spelled⟩

end Art.Runtime
