import Art.Runtime.Leb128
import Mathlib.Tactic.SplitIfs

/-!
# The dex file verifier: bounded reads and the two failure channels

`DexFileVerifier` walks a dex file from a cursor `ptr_`. Before each structured
read it asks `CheckListSize` whether the bytes lie in `[begin_, begin_ + size_)`,
and every check reports a failure twice: it returns `false`, and it records a
message in `failure_reason_` through `ErrorStringPrintf`.

The state of the model is the cursor and the failure reason, as offsets from
`begin_`, with the list of offsets the verifier has read so far. Memory is a
function from offsets to bytes that goes on past the end of the buffer, so a
read out of bounds is a read like any other, and it shows in the list.

The checks that keep the discipline do so in both channels at once
(`checkListSize_run_cases`, `checkIndex_run_cases`). Two checks break it.

* `ReadUnsignedLittleEndian` records a failure when its bytes run past the end of
  the buffer, but it returns `0` and the caller checks that `0` as an index.
  `CheckEncodedValue` then succeeds, and so does the encoded array around it,
  with a failure recorded (`encodedArray_succeeds_with_failure`).
* `CheckIntraStringDataItem` checks that each lead byte of a character lies in
  the buffer, but reads the continuation bytes of a character and the final
  `NUL` without a check; a string data item that ends the buffer makes it read
  the byte just past the end (`stringData_reads_past_end`).

`CheckEncodedValue`, `CheckEncodedArray` and `CheckEncodedAnnotation` call one
another for nested arrays and annotations, and nothing caps the nesting: each
level costs a header byte and a count. The fuel of the model bounds the depth of
these calls; a buffer of `2 * depth + 1` bytes that nests `depth` arrays needs
`2 * depth + 1` of them (`checkEncodedValue_nestedArraysImage`), so the native
stack the check uses grows with the size of the file.
-/

set_option autoImplicit false

namespace Art.Runtime.DexFileVerifier

/-- What the verifier reads of a dex file: its location (for messages), the bytes
from `begin_` on (those at offsets from `size` on lie outside the buffer), the
address of `begin_`, `size_`, and the counts of the header and of the map that
the checks below compare indices with. -/
structure DexImage where
  location : String
  memory : Nat → UInt8
  begin : Nat
  size : Nat
  stringIdsSize : Nat
  typeIdsSize : Nat
  protoIdsSize : Nat
  fieldIdsSize : Nat
  methodIdsSize : Nat
  numMethodHandles : Nat

/-- The cursor `ptr_` and `failure_reason_` (empty as `none`), with the offsets
read so far, the latest first. -/
structure VerifierState where
  ptr : Nat
  failureReason : Option String
  reads : List Nat
  deriving DecidableEq, Repr

/-- The verifier's computations over one dex file. -/
abbrev VerifierM := StateM VerifierState

/-- Running a sequence whose first computation has a known result. -/
theorem run_bind_of_run {σ α β : Type} {x : StateM σ α} {f : α → StateM σ β} {state after : σ} {value : α}
    (first : x.run state = (value, after)) :
    (x >>= f).run state = (f value).run after := by
  rw [StateT.run_bind, first]
  rfl

/-- `%x`: lower-case hexadecimal. -/
def hex (value : Nat) : String :=
  String.ofList (Nat.toDigits 16 value)

example : hex 0xb8 = "b8" := by decide

variable (dex : DexImage)

/-- The text `ErrorStringPrintf` records for a message. -/
def failureReasonFor (message : String) : String :=
  "Failure to verify dex file '" ++ dex.location ++ "': " ++ message

/-- `ErrorStringPrintf`: record the failure. -/
def errorStringPrintf (message : String) : VerifierM Unit :=
  modify fun state => { state with failureReason := some (failureReasonFor dex message) }

/-- Read the byte at an offset. -/
def readByte (offset : Nat) : VerifierM UInt8 := do
  modify fun state => { state with reads := offset :: state.reads }
  return dex.memory offset

/-- `*(ptr_++)`. -/
def readNextByte : VerifierM UInt8 := do
  let state ← get
  set { state with ptr := state.ptr + 1 }
  readByte dex state.ptr

/-- The largest address, `uintptr_t` all ones. -/
def maxAddress : Nat := 2 ^ 64 - 1

/-- `CheckListSize`: are `count` elements of `elemSize` bytes from `start` inside
the buffer, with no overflow of the address space on the way? -/
def checkListSize (start count elemSize : Nat) (label : String) : VerifierM Bool := do
  let availableBytesTillEndOfMem := maxAddress - (dex.begin + start)
  let maxCount := availableBytesTillEndOfMem / elemSize
  if maxCount < count then
    errorStringPrintf dex
      ("Overflow in range for " ++ label ++ ": " ++ hex start ++ " for " ++ toString count ++ "@" ++
        toString elemSize)
    return false
  let rangeEnd := start + count * elemSize
  -- `range_start < file_start` cannot hold of an offset from `begin_`.
  if rangeEnd > dex.size then
    errorStringPrintf dex ("Bad range for " ++ label ++ ": " ++ hex start ++ " to " ++ hex rangeEnd)
    return false
  return true

/-! ### The bounds checks keep both channels -/

theorem errorStringPrintf_run (message : String) (state : VerifierState) :
    (errorStringPrintf dex message).run state =
      ((), { state with failureReason := some (failureReasonFor dex message) }) := rfl

theorem readNextByte_run (state : VerifierState) :
    (readNextByte dex).run state =
      (dex.memory state.ptr, { state with ptr := state.ptr + 1, reads := state.ptr :: state.reads }) := rfl

/-- No overflow of the address space when the range ends at an address. -/
theorem not_overflow_of_addressable {start count elemSize : Nat} (positive : 0 < elemSize)
    (addressable : dex.begin + start + count * elemSize ≤ maxAddress) :
    ¬ (maxAddress - (dex.begin + start)) / elemSize < count := by
  rw [Nat.not_lt, Nat.le_div_iff_mul_le positive]
  omega

theorem checkListSize_run_of_inside (state : VerifierState) (start count elemSize : Nat) (label : String)
    (positive : 0 < elemSize) (addressable : dex.begin + start + count * elemSize ≤ maxAddress)
    (inside : start + count * elemSize ≤ dex.size) :
    (checkListSize dex start count elemSize label).run state = (true, state) := by
  have inRange : ¬ start + count * elemSize > dex.size := Nat.not_lt.mpr inside
  simp only [checkListSize, not_overflow_of_addressable dex positive addressable, inRange, if_false]
  rfl

theorem checkListSize_run_of_bad_range (state : VerifierState) (start count elemSize : Nat) (label : String)
    (positive : 0 < elemSize) (addressable : dex.begin + start + count * elemSize ≤ maxAddress)
    (outside : dex.size < start + count * elemSize) :
    (checkListSize dex start count elemSize label).run state =
      (false, { state with failureReason := some (failureReasonFor dex
        ("Bad range for " ++ label ++ ": " ++ hex start ++ " to " ++ hex (start + count * elemSize))) }) := by
  simp only [checkListSize, not_overflow_of_addressable dex positive addressable, if_false, gt_iff_lt,
    outside, if_true]
  rfl

/-- `CheckListSize` fails in both channels or in neither: it returns `true` and
leaves the state alone, or it returns `false` and records a failure. -/
theorem checkListSize_run_cases (state : VerifierState) (start count elemSize : Nat) (label : String) :
    (checkListSize dex start count elemSize label).run state = (true, state) ∨
      ∃ message, (checkListSize dex start count elemSize label).run state =
        (false, { state with failureReason := some (failureReasonFor dex message) }) := by
  unfold checkListSize
  by_cases overflow : (maxAddress - (dex.begin + start)) / elemSize < count
  · exact Or.inr ⟨_, by simp only [overflow, if_true]; rfl⟩
  by_cases outside : start + count * elemSize > dex.size
  · exact Or.inr ⟨_, by simp only [overflow, outside, if_false, if_true]; rfl⟩
  · exact Or.inl (by simp only [overflow, outside, if_false]; rfl)

/-- What a successful `CheckListSize` guarantees: the whole range lies in the buffer. -/
theorem checkListSize_inside_of_run (state : VerifierState) {start count elemSize : Nat} {label : String}
    (passed : ((checkListSize dex start count elemSize label).run state).1 = true) :
    start + count * elemSize ≤ dex.size := by
  unfold checkListSize at passed
  by_cases overflow : (maxAddress - (dex.begin + start)) / elemSize < count
  · simp only [overflow, if_true] at passed
    cases passed
  by_cases outside : start + count * elemSize > dex.size
  · simp only [overflow, outside, if_false, if_true] at passed
    cases passed
  · exact Nat.not_lt.mp outside

/-- `CheckIndex`. -/
def checkIndex (field limit : Nat) (label : String) : VerifierM Bool := do
  if field ≥ limit then
    errorStringPrintf dex ("Bad index for " ++ label ++ ": " ++ hex field ++ " >= " ++ hex limit)
    return false
  return true

theorem checkIndex_run_of_lt (state : VerifierState) {field limit : Nat} (label : String) (below : field < limit) :
    (checkIndex dex field limit label).run state = (true, state) := by
  simp only [checkIndex, ge_iff_le, Nat.not_le.mpr below, if_false]
  rfl

/-- `CheckIndex` fails in both channels or in neither. -/
theorem checkIndex_run_cases (state : VerifierState) (field limit : Nat) (label : String) :
    (field < limit ∧ (checkIndex dex field limit label).run state = (true, state)) ∨
      (limit ≤ field ∧ ∃ message, (checkIndex dex field limit label).run state =
        (false, { state with failureReason := some (failureReasonFor dex message) })) := by
  by_cases below : field < limit
  · exact Or.inl ⟨below, checkIndex_run_of_lt dex state label below⟩
  · have atLeast : field ≥ limit := Nat.not_lt.mp below
    exact Or.inr ⟨atLeast, _, by simp only [checkIndex, atLeast, if_true]; rfl⟩

/-- The loop of `ReadUnsignedLittleEndian`: bytes `i` to `size - 1`. -/
def readLittleEndianBytes : Nat → Nat → Nat → VerifierM Nat
  | 0, _, result => return result
  | remaining + 1, i, result => do
      let byte ← readNextByte dex
      readLittleEndianBytes remaining (i + 1) (result ||| (byte.toNat <<< (i * 8)))

/-- `ReadUnsignedLittleEndian`: `size` bytes at the cursor, low byte first; `0`,
and no byte read, when they do not lie in the buffer. -/
def readUnsignedLittleEndian (size : Nat) : VerifierM Nat := do
  let state ← get
  if ← checkListSize dex state.ptr size 1 "encoded_value" then
    readLittleEndianBytes dex size 0 0
  else
    return 0

/-- `DECODE_UNSIGNED_CHECKED_FROM(ptr_, var)`: decode a ULEB128 at the cursor,
reading no byte at or past the end of the buffer. -/
def decodeUnsignedCheckedFromPtr : VerifierM (Option Nat) := do
  let state ← get
  match decodeUnsignedLeb128Checked dex.memory state.ptr dex.size with
  | some (value, next) =>
      set { state with ptr := next, reads := (List.range' state.ptr (next - state.ptr)).reverse ++ state.reads }
      return some value.toNat
  | none =>
      -- The decoder read every byte up to the end of the buffer before it stopped.
      set { state with reads := (List.range' state.ptr (dex.size - state.ptr)).reverse ++ state.reads }
      errorStringPrintf dex "Read out of bounds"
      return none

theorem readUnsignedLittleEndian_run_of_outside (state : VerifierState) (size : Nat)
    (addressable : dex.begin + state.ptr + size ≤ maxAddress) (outside : dex.size < state.ptr + size) :
    (readUnsignedLittleEndian dex size).run state =
      (0, { state with failureReason := some (failureReasonFor dex
        ("Bad range for encoded_value: " ++ hex state.ptr ++ " to " ++ hex (state.ptr + size))) }) := by
  have badRange := checkListSize_run_of_bad_range dex state state.ptr size 1 "encoded_value" Nat.one_pos
    (by simpa using addressable) (by simpa using outside)
  simp only [Nat.mul_one] at badRange
  simp only [readUnsignedLittleEndian, StateT.run_bind, StateT.run_get, pure_bind, badRange]
  rfl

theorem decodeUnsignedCheckedFromPtr_run_of_decoded (state : VerifierState) {value : UInt32} {next : Nat}
    (decoded : decodeUnsignedLeb128Checked dex.memory state.ptr dex.size = some (value, next)) :
    (decodeUnsignedCheckedFromPtr dex).run state =
      (some value.toNat,
        { state with ptr := next, reads := (List.range' state.ptr (next - state.ptr)).reverse ++ state.reads }) := by
  simp only [decodeUnsignedCheckedFromPtr, StateT.run_bind, StateT.run_get, pure_bind, decoded]
  rfl

/-- The bytes a checked decoding reads all lie in the buffer. -/
theorem decodeUnsignedCheckedFromPtr_reads_inside (state : VerifierState) :
    ∃ fresh, ((decodeUnsignedCheckedFromPtr dex).run state).2.reads = fresh ++ state.reads ∧
      ∀ offset ∈ fresh, offset < dex.size := by
  cases decoded : decodeUnsignedLeb128Checked dex.memory state.ptr dex.size with
  | some result =>
      obtain ⟨value, next⟩ := result
      have bounds := decodeUnsignedLeb128Checked_lt_end decoded
      refine ⟨(List.range' state.ptr (next - state.ptr)).reverse, ?_, ?_⟩
      · rw [decodeUnsignedCheckedFromPtr_run_of_decoded dex state decoded]
      · intro offset member
        simp only [List.mem_reverse, List.mem_range'_1] at member
        omega
  | none =>
      refine ⟨(List.range' state.ptr (dex.size - state.ptr)).reverse, ?_, ?_⟩
      · simp only [decodeUnsignedCheckedFromPtr, StateT.run_bind, StateT.run_get, pure_bind, decoded]
        rfl
      · intro offset member
        simp only [List.mem_reverse, List.mem_range'_1] at member
        omega

/-! ## Encoded values -/

/-- The value types of `encoded_value` (`DexFile::kDexAnnotation*`). -/
def kDexAnnotationByte : Nat := 0x00
def kDexAnnotationShort : Nat := 0x02
def kDexAnnotationChar : Nat := 0x03
def kDexAnnotationInt : Nat := 0x04
def kDexAnnotationLong : Nat := 0x06
def kDexAnnotationFloat : Nat := 0x10
def kDexAnnotationDouble : Nat := 0x11
def kDexAnnotationMethodType : Nat := 0x15
def kDexAnnotationMethodHandle : Nat := 0x16
def kDexAnnotationString : Nat := 0x17
def kDexAnnotationType : Nat := 0x18
def kDexAnnotationField : Nat := 0x19
def kDexAnnotationMethod : Nat := 0x1a
def kDexAnnotationEnum : Nat := 0x1b
def kDexAnnotationArray : Nat := 0x1c
def kDexAnnotationAnnotation : Nat := 0x1d
def kDexAnnotationNull : Nat := 0x1e
def kDexAnnotationBoolean : Nat := 0x1f

/-- Skip `count` bytes of a fixed-size payload, as `ptr_ += count` does: no byte is
read and nothing is checked. -/
def skipBytes (count : Nat) : VerifierM Unit :=
  modify fun state => { state with ptr := state.ptr + count }

/-- The index cases of `CheckEncodedValue`: at most four bytes, read by
`ReadUnsignedLittleEndian`, and checked against a limit. -/
def checkIndexValue (valueArg limit : Nat) (sizeMessage indexLabel : String) : VerifierM Bool := do
  if valueArg > 3 then
    errorStringPrintf dex (sizeMessage ++ " " ++ hex valueArg)
    return false
  let idx ← readUnsignedLittleEndian dex (valueArg + 1)
  checkIndex dex idx limit indexLabel

/-- The part of `CheckEncodedValue` after the header byte: the payload of a value of
type `valueType`, with the checks of a nested array and a nested annotation passed in. -/
def checkEncodedValuePayload (checkArray checkAnnotation : VerifierM Bool) (valueType valueArg : Nat) :
    VerifierM Bool := do
  if valueType = kDexAnnotationByte then
    if valueArg ≠ 0 then
      errorStringPrintf dex ("Bad encoded_value byte size " ++ hex valueArg)
      return false
    skipBytes 1
    return true
  else if valueType = kDexAnnotationShort ∨ valueType = kDexAnnotationChar then
    if valueArg > 1 then
      errorStringPrintf dex ("Bad encoded_value char/short size " ++ hex valueArg)
      return false
    skipBytes (valueArg + 1)
    return true
  else if valueType = kDexAnnotationInt ∨ valueType = kDexAnnotationFloat then
    if valueArg > 3 then
      errorStringPrintf dex ("Bad encoded_value int/float size " ++ hex valueArg)
      return false
    skipBytes (valueArg + 1)
    return true
  else if valueType = kDexAnnotationLong ∨ valueType = kDexAnnotationDouble then
    skipBytes (valueArg + 1)
    return true
  else if valueType = kDexAnnotationString then
    checkIndexValue dex valueArg dex.stringIdsSize "Bad encoded_value string size" "encoded_value string"
  else if valueType = kDexAnnotationType then
    checkIndexValue dex valueArg dex.typeIdsSize "Bad encoded_value type size" "encoded_value type"
  else if valueType = kDexAnnotationField ∨ valueType = kDexAnnotationEnum then
    checkIndexValue dex valueArg dex.fieldIdsSize "Bad encoded_value field/enum size" "encoded_value field"
  else if valueType = kDexAnnotationMethod then
    checkIndexValue dex valueArg dex.methodIdsSize "Bad encoded_value method size" "encoded_value method"
  else if valueType = kDexAnnotationArray then
    if valueArg ≠ 0 then
      errorStringPrintf dex ("Bad encoded_value array value_arg " ++ hex valueArg)
      return false
    checkArray
  else if valueType = kDexAnnotationAnnotation then
    if valueArg ≠ 0 then
      errorStringPrintf dex ("Bad encoded_value annotation value_arg " ++ hex valueArg)
      return false
    checkAnnotation
  else if valueType = kDexAnnotationNull then
    if valueArg ≠ 0 then
      errorStringPrintf dex ("Bad encoded_value null value_arg " ++ hex valueArg)
      return false
    return true
  else if valueType = kDexAnnotationBoolean then
    if valueArg > 1 then
      errorStringPrintf dex ("Bad encoded_value boolean size " ++ hex valueArg)
      return false
    return true
  else if valueType = kDexAnnotationMethodType then
    checkIndexValue dex valueArg dex.protoIdsSize "Bad encoded_value method type size" "method_type value"
  else if valueType = kDexAnnotationMethodHandle then
    checkIndexValue dex valueArg dex.numMethodHandles "Bad encoded_value method handle size"
      "method_handle value"
  else
    errorStringPrintf dex ("Bogus encoded_value value_type " ++ hex valueType)
    return false

mutual

/-- `CheckEncodedValue`. The `fuel` bounds the nesting of arrays and annotations;
each level reads a header byte inside the buffer first, so fuel above the size
of the buffer is never used up. -/
def checkEncodedValue : Nat → VerifierM Bool
  | 0 => return false
  | fuel + 1 => do
      let state ← get
      if !(← checkListSize dex state.ptr 1 1 "encoded_value header") then
        return false
      let headerByte := (← readNextByte dex).toNat
      checkEncodedValuePayload dex (checkEncodedArray fuel) ( checkEncodedAnnotation fuel)
        (headerByte &&& 0x1f) (headerByte >>> 5)

/-- `CheckEncodedArray`: a ULEB128 count, then that many encoded values. -/
def checkEncodedArray : Nat → VerifierM Bool
  | 0 => return false
  | fuel + 1 => do
      match ← decodeUnsignedCheckedFromPtr dex with
      | none => return false
      | some size => checkEncodedArrayValues fuel size

/-- The loop `while (size--)` of `CheckEncodedArray`. -/
def checkEncodedArrayValues : Nat → Nat → VerifierM Bool
  | _, 0 => return true
  | fuel, remaining + 1 => do
      if !(← checkEncodedValue fuel) then
        modify fun state =>
          { state with failureReason := some ("Bad encoded_array value: " ++ state.failureReason.getD "") }
        return false
      checkEncodedArrayValues fuel remaining

/-- `CheckEncodedAnnotation`: a type index, a count, then that many elements of a
name index (in increasing order) and an encoded value. -/
def checkEncodedAnnotation : Nat → VerifierM Bool
  | 0 => return false
  | fuel + 1 => do
      match ← decodeUnsignedCheckedFromPtr dex with
      | none => return false
      | some annoIdx =>
          if !(← checkIndex dex annoIdx dex.typeIdsSize "encoded_annotation type_idx") then
            return false
          match ← decodeUnsignedCheckedFromPtr dex with
          | none => return false
          | some size => checkAnnotationElements fuel size 0 true

/-- The loop over the elements of `CheckEncodedAnnotation`, with `last_idx` and
whether this is the first element. -/
def checkAnnotationElements : Nat → Nat → Nat → Bool → VerifierM Bool
  | _, 0, _, _ => return true
  | fuel, remaining + 1, lastIdx, first => do
      match ← decodeUnsignedCheckedFromPtr dex with
      | none => return false
      | some idx =>
          if !(← checkIndex dex idx dex.stringIdsSize "annotation_element name_idx") then
            return false
          if lastIdx ≥ idx ∧ !first then
            errorStringPrintf dex
              ("Out-of-order annotation_element name_idx: " ++ hex lastIdx ++ " then " ++ hex idx)
            return false
          if !(← checkEncodedValue fuel) then
            return false
          checkAnnotationElements fuel remaining idx false

end

theorem checkEncodedValue_run_of_header (fuel : Nat) (state : VerifierState)
    (addressable : dex.begin + state.ptr + 1 ≤ maxAddress) (inside : state.ptr + 1 ≤ dex.size) :
    (checkEncodedValue dex (fuel + 1)).run state =
      (checkEncodedValuePayload dex (checkEncodedArray dex fuel) ( checkEncodedAnnotation dex fuel)
        ((dex.memory state.ptr).toNat &&& 0x1f) ((dex.memory state.ptr).toNat >>> 5)).run
        { state with ptr := state.ptr + 1, reads := state.ptr :: state.reads } := by
  have headerInside := checkListSize_run_of_inside dex state state.ptr 1 1 "encoded_value header" Nat.one_pos
    (by simpa using addressable) (by simpa using inside)
  simp only [checkEncodedValue, StateT.run_bind, StateT.run_get, pure_bind, headerInside]
  rfl

theorem checkEncodedValuePayload_string (checkArray checkAnnotation : VerifierM Bool) (valueArg : Nat) :
    checkEncodedValuePayload dex checkArray checkAnnotation kDexAnnotationString valueArg =
      checkIndexValue dex valueArg dex.stringIdsSize "Bad encoded_value string size" "encoded_value string" :=
  rfl

/-- An index whose bytes run past the end of the buffer is read as `0`, which
passes the check against any non-empty table, with the failure recorded. -/
theorem checkIndexValue_run_of_outside (state : VerifierState) {valueArg limit : Nat}
    (sizeMessage indexLabel : String) (small : valueArg ≤ 3) (positive : 0 < limit)
    (addressable : dex.begin + state.ptr + (valueArg + 1) ≤ maxAddress)
    (outside : dex.size < state.ptr + (valueArg + 1)) :
    (checkIndexValue dex valueArg limit sizeMessage indexLabel).run state =
      (true, { state with failureReason := some (failureReasonFor dex
        ("Bad range for encoded_value: " ++ hex state.ptr ++ " to " ++ hex (state.ptr + (valueArg + 1)))) }) := by
  have readZero := readUnsignedLittleEndian_run_of_outside dex state (valueArg + 1) addressable outside
  have notLarge : ¬ valueArg > 3 := Nat.not_lt.mpr small
  simp only [checkIndexValue, notLarge, if_false, StateT.run_bind, readZero]
  exact checkIndex_run_of_lt dex _ indexLabel positive

theorem checkEncodedArray_run_of_decoded (fuel : Nat) (state : VerifierState) {count : UInt32} {next : Nat}
    (decoded : decodeUnsignedLeb128Checked dex.memory state.ptr dex.size = some (count, next)) :
    (checkEncodedArray dex (fuel + 1)).run state =
      (checkEncodedArrayValues dex fuel count.toNat).run
        { state with ptr := next, reads := (List.range' state.ptr (next - state.ptr)).reverse ++ state.reads } := by
  simp only [checkEncodedArray, StateT.run_bind, decodeUnsignedCheckedFromPtr_run_of_decoded dex state decoded]
  rfl

theorem checkEncodedArrayValues_run_one (fuel : Nat) (state after : VerifierState)
    (valueChecked : (checkEncodedValue dex fuel).run state = (true, after)) :
    (checkEncodedArrayValues dex fuel 1).run state = (true, after) := by
  simp only [checkEncodedArrayValues, StateT.run_bind, valueChecked]
  rfl

/-- **An encoded array that ends the buffer passes with a failure recorded.** The
array holds one string value whose four index bytes lie past the end of the
buffer: `ReadUnsignedLittleEndian` records the bad range and returns `0`, string
index `0` exists, and `CheckEncodedArray` returns `true` with `failure_reason_`
set, having read only the two bytes of the buffer. -/
theorem encodedArray_succeeds_with_failure (offset fuel : Nat) (atEnd : offset + 2 = dex.size)
    (count : dex.memory offset = 0x01) (header : dex.memory (offset + 1) = 0x77)
    (hasString : 0 < dex.stringIdsSize) (addressable : dex.begin + offset + 6 ≤ maxAddress) :
    (checkEncodedArray dex (fuel + 2)).run ⟨offset, none, []⟩ =
      (true, ⟨offset + 2, some (failureReasonFor dex
        ("Bad range for encoded_value: " ++ hex (offset + 2) ++ " to " ++ hex (offset + 6))), [offset + 1, offset]⟩) := by
  have decoded : decodeUnsignedLeb128Checked dex.memory offset dex.size = some (1, offset + 1) := by
    have nonEmpty : ¬ offset ≥ dex.size := by omega
    simp only [decodeUnsignedLeb128Checked, nonEmpty, if_false, count]
    rfl
  have stringHeader : (dex.memory (offset + 1)).toNat &&& 0x1f = kDexAnnotationString := by
    rw [header]
    rfl
  have fourBytes : (dex.memory (offset + 1)).toNat >>> 5 = 3 := by
    rw [header]
    rfl
  have indexOutside := checkIndexValue_run_of_outside dex ⟨offset + 2, none, [offset + 1, offset]⟩
    "Bad encoded_value string size" "encoded_value string" (Nat.le_refl 3) hasString (by simp only; omega)
    (by simp only; omega)
  rw [checkEncodedArray_run_of_decoded dex (fuel + 1) ⟨offset, none, []⟩ decoded]
  apply checkEncodedArrayValues_run_one
  rw [checkEncodedValue_run_of_header dex fuel _ (by simp only; omega) (by simp only; omega)]
  simp only [stringHeader, fourBytes, checkEncodedValuePayload_string]
  simpa using indexOutside

/-- The end of a dex file of `0xb8` bytes with one string id, mapped at
`0x70000000`: an `encoded_array_item` of one string value, `01 77`, at `0xb6`. -/
def encodedArrayAtEnd : DexImage where
  location := "classes.dex"
  memory := fun offset => if offset = 0xb6 then 0x01 else if offset = 0xb7 then 0x77 else 0
  begin := 0x70000000
  size := 0xb8
  stringIdsSize := 1
  typeIdsSize := 0
  protoIdsSize := 0
  fieldIdsSize := 0
  methodIdsSize := 0
  numMethodHandles := 0

theorem encodedArrayAtEnd_succeeds_with_failure :
    0xb6 + 2 = encodedArrayAtEnd.size ∧ encodedArrayAtEnd.memory 0xb6 = 0x01 ∧
      encodedArrayAtEnd.memory (0xb6 + 1) = 0x77 ∧ 0 < encodedArrayAtEnd.stringIdsSize ∧
      encodedArrayAtEnd.begin + 0xb6 + 6 ≤ maxAddress ∧
      (checkEncodedArray encodedArrayAtEnd (0 + 2)).run ⟨0xb6, none, []⟩ =
        (true, ⟨0xb6 + 2, some (failureReasonFor encodedArrayAtEnd
          ("Bad range for encoded_value: " ++ hex (0xb6 + 2) ++ " to " ++ hex (0xb6 + 6))), [0xb6 + 1, 0xb6]⟩) :=
  ⟨rfl, rfl, rfl, by decide, by decide,
    encodedArray_succeeds_with_failure encodedArrayAtEnd 0xb6 0 rfl rfl rfl (by decide) (by decide)⟩

/-! ## Nesting -/

/-- The bytes from `offset` on: `depth` encoded arrays of one element each,
nested, around a null value; `1c 01` `depth` times, then `1e`. -/
def NestedArrays (offset depth : Nat) : Prop :=
  (∀ k < depth, dex.memory (offset + 2 * k) = 0x1c ∧ dex.memory (offset + 2 * k + 1) = 0x01) ∧
    dex.memory (offset + 2 * depth) = 0x1e

/-- One array in, the rest of the nesting starts two bytes on. -/
theorem NestedArrays.inner {offset depth : Nat} (nested : NestedArrays dex offset (depth + 1)) :
    NestedArrays dex (offset + 2) depth := by
  obtain ⟨arrays, null⟩ := nested
  refine ⟨fun k below => ?_, ?_⟩
  · have outer := arrays (k + 1) (by omega)
    rwa [show offset + 2 * (k + 1) = offset + 2 + 2 * k by omega] at outer
  · rwa [show offset + 2 * (depth + 1) = offset + 2 + 2 * depth by omega] at null

theorem checkEncodedValuePayload_array (checkArray checkAnnotation : VerifierM Bool) :
    checkEncodedValuePayload dex checkArray checkAnnotation kDexAnnotationArray 0 = checkArray :=
  rfl

theorem checkEncodedValuePayload_null (checkArray checkAnnotation : VerifierM Bool) :
    checkEncodedValuePayload dex checkArray checkAnnotation kDexAnnotationNull 0 = return true :=
  rfl

/-- An array of one value answers as that value. -/
theorem checkEncodedArrayValues_one_fst (fuel : Nat) (state : VerifierState) :
    ((checkEncodedArrayValues dex fuel 1).run state).1 = ((checkEncodedValue dex fuel).run state).1 := by
  rcases checked : (checkEncodedValue dex fuel).run state with ⟨valid, after⟩
  cases valid <;> simp only [checkEncodedArrayValues, StateT.run_bind, checked] <;> rfl

/-- **Nesting is bounded only by the buffer.** `CheckEncodedValue` of `depth`
nested arrays succeeds exactly when its fuel allows `2 * depth + 1` nested calls:
one of `CheckEncodedValue` and one of `CheckEncodedArray` for each array, and one
for the null value inside. No check caps the depth. -/
theorem checkEncodedValue_nestedArrays (addressable : dex.begin + dex.size ≤ maxAddress) :
    ∀ (depth fuel : Nat) (state : VerifierState), NestedArrays dex state.ptr depth →
      state.ptr + 2 * depth + 1 ≤ dex.size →
      ((checkEncodedValue dex fuel).run state).1 = decide (2 * depth + 1 ≤ fuel)
  | _, 0, state, _, _ => by
      simp only [checkEncodedValue]
      exact (decide_eq_false (by omega)).symm
  | 0, fuel + 1, state, nested, inside => by
      have null : dex.memory state.ptr = 0x1e := nested.2
      rw [checkEncodedValue_run_of_header dex fuel state (by omega) (by omega), null,
        show (0x1e : UInt8).toNat &&& 0x1f = kDexAnnotationNull from rfl,
        show (0x1e : UInt8).toNat >>> 5 = 0 from rfl, checkEncodedValuePayload_null]
      exact (decide_eq_true (by omega)).symm
  | depth + 1, fuel + 1, state, nested, inside => by
      have array : dex.memory state.ptr = 0x1c := by simpa using (nested.1 0 (by omega)).1
      have count : dex.memory (state.ptr + 1) = 0x01 := by simpa using (nested.1 0 (by omega)).2
      rw [checkEncodedValue_run_of_header dex fuel state (by omega) (by omega), array,
        show (0x1c : UInt8).toNat &&& 0x1f = kDexAnnotationArray from rfl,
        show (0x1c : UInt8).toNat >>> 5 = 0 from rfl, checkEncodedValuePayload_array]
      cases fuel with
      | zero =>
          simp only [checkEncodedArray]
          exact (decide_eq_false (by omega)).symm
      | succ fuel =>
          -- the count of the array is the one byte `01`
          have decoded : decodeUnsignedLeb128Checked dex.memory (state.ptr + 1) dex.size =
              some (1, state.ptr + 2) := by
            rw [decodeUnsignedLeb128Checked_of_small (by omega) (by rw [count]; decide), count]
            rfl
          rw [checkEncodedArray_run_of_decoded dex fuel _ decoded, show (1 : UInt32).toNat = 1 from rfl,
            checkEncodedArrayValues_one_fst]
          rw [checkEncodedValue_nestedArrays addressable depth fuel _ (nested.inner dex) (by simp only; omega)]
          simp only [decide_eq_decide]
          omega

/-- A buffer of nothing but `depth` nested one-element arrays around a null
value, mapped at address `0`. -/
def nestedArraysImage (depth : Nat) : DexImage where
  location := "classes.dex"
  memory := fun offset =>
    if offset < 2 * depth then (if offset % 2 = 0 then 0x1c else 0x01)
    else if offset = 2 * depth then 0x1e else 0
  begin := 0
  size := 2 * depth + 1
  stringIdsSize := 0
  typeIdsSize := 0
  protoIdsSize := 0
  fieldIdsSize := 0
  methodIdsSize := 0
  numMethodHandles := 0

theorem nestedArraysImage_nested (depth : Nat) : NestedArrays (nestedArraysImage depth) 0 depth := by
  refine ⟨fun k below => ⟨?_, ?_⟩, ?_⟩ <;> simp only [nestedArraysImage] <;> split_ifs <;> first | rfl | omega

/-- **The depth grows with the buffer.** Checking a buffer of `2 * depth + 1`
bytes nests `2 * depth + 1` calls of `CheckEncodedValue` and `CheckEncodedArray`:
with room for fewer it fails, with room for as many or more it succeeds. -/
theorem checkEncodedValue_nestedArraysImage {depth : Nat} (addressable : 2 * depth + 1 ≤ maxAddress)
    (fuel : Nat) :
    ((checkEncodedValue (nestedArraysImage depth) fuel).run ⟨0, none, []⟩).1 = decide (2 * depth + 1 ≤ fuel) :=
  checkEncodedValue_nestedArrays (nestedArraysImage depth) (by simpa [nestedArraysImage] using addressable) depth
    fuel _ (nestedArraysImage_nested depth) (by simp [nestedArraysImage])

theorem checkEncodedValue_nestedArraysImage_thousand :
    2 * 1000 + 1 ≤ maxAddress ∧
      ((checkEncodedValue (nestedArraysImage 1000) 2000).run ⟨0, none, []⟩).1 = false ∧
      ((checkEncodedValue (nestedArraysImage 1000) 2001).run ⟨0, none, []⟩).1 = true :=
  ⟨by decide, checkEncodedValue_nestedArraysImage (by decide) 2000,
    checkEncodedValue_nestedArraysImage (by decide) 2001⟩

/-! ## String data -/

/-- The character loop of `CheckIntraStringDataItem` over a string of `size`
UTF-16 units, with `remaining` of them still to check. -/
def checkStringCharacters (size : Nat) : Nat → VerifierM Bool
  | 0 => return true
  | remaining + 1 => do
      let state ← get
      if state.ptr ≥ dex.size then
        errorStringPrintf dex "String data would go beyond end-of-file"
        return false
      let byte := (← readNextByte dex).toNat
      match byte >>> 4 with
      | 0x00 =>
          if byte = 0 then
            errorStringPrintf dex ("String data shorter than indicated utf16_size " ++ hex size)
            return false
          checkStringCharacters size remaining
      | 0x01 | 0x02 | 0x03 | 0x04 | 0x05 | 0x06 | 0x07 => checkStringCharacters size remaining
      | 0x0c | 0x0d =>
          -- The second byte is read with no bound check.
          let byte2 := (← readNextByte dex).toNat
          if byte2 &&& 0xc0 ≠ 0x80 then
            errorStringPrintf dex ("Illegal continuation byte " ++ hex byte2 ++ " in string data")
            return false
          let value := ((byte &&& 0x1f) <<< 6) ||| (byte2 &&& 0x3f)
          if value ≠ 0 ∧ value < 0x80 then
            errorStringPrintf dex ("Illegal representation for value " ++ hex value ++ " in string data")
            return false
          checkStringCharacters size remaining
      | 0x0e =>
          let byte2 := (← readNextByte dex).toNat
          if byte2 &&& 0xc0 ≠ 0x80 then
            errorStringPrintf dex ("Illegal continuation byte " ++ hex byte2 ++ " in string data")
            return false
          let byte3 := (← readNextByte dex).toNat
          if byte3 &&& 0xc0 ≠ 0x80 then
            errorStringPrintf dex ("Illegal continuation byte " ++ hex byte3 ++ " in string data")
            return false
          let value := ((byte &&& 0x0f) <<< 12) ||| ((byte2 &&& 0x3f) <<< 6) ||| (byte3 &&& 0x3f)
          if value < 0x800 then
            errorStringPrintf dex ("Illegal representation for value " ++ hex value ++ " in string data")
            return false
          checkStringCharacters size remaining
      | _ =>
          -- The bit patterns `10xx` and `1111`.
          errorStringPrintf dex ("Illegal start byte " ++ hex byte ++ " in string data")
          return false

/-- `CheckIntraStringDataItem`: the ULEB128 length in UTF-16 units, the modified
UTF-8 characters, and the terminating `NUL`, read with no bound check. -/
def checkIntraStringDataItem : VerifierM Bool := do
  match ← decodeUnsignedCheckedFromPtr dex with
  | none => return false
  | some size =>
      if !(← checkStringCharacters dex size size) then
        return false
      if (← readNextByte dex) ≠ 0 then
        errorStringPrintf dex ("String longer than indicated size " ++ hex size)
        return false
      return true

theorem checkStringCharacters_run_zero (size : Nat) (state : VerifierState) :
    (checkStringCharacters dex size 0).run state = (true, state) := rfl

/-- **A string data item that ends the buffer is read past its end.** Its length
is `0` and is the last byte of the buffer, so no character is checked, and the
terminating `NUL` is read at offset `size_`, outside the buffer. -/
theorem stringData_reads_past_end (offset : Nat) (last : offset + 1 = dex.size) (empty : dex.memory offset = 0) :
    ((checkIntraStringDataItem dex).run ⟨offset, none, []⟩).2.reads = [dex.size, offset] := by
  have decoded : decodeUnsignedLeb128Checked dex.memory offset dex.size = some (0, offset + 1) := by
    have nonEmpty : ¬ offset ≥ dex.size := by omega
    simp only [decodeUnsignedLeb128Checked, nonEmpty, if_false, empty]
    rfl
  rw [checkIntraStringDataItem, run_bind_of_run (decodeUnsignedCheckedFromPtr_run_of_decoded dex ⟨offset, none, []⟩ decoded)]
  simp only [UInt32.toNat_zero]
  rw [run_bind_of_run (checkStringCharacters_run_zero dex 0 _)]
  simp only [Bool.not_true, Bool.false_eq_true, if_false]
  rw [run_bind_of_run (readNextByte_run dex _), ← last]
  -- Whatever the byte past the end holds, it has been read.
  split
  · rw [run_bind_of_run (errorStringPrintf_run dex _ _)]
    simp
    rfl
  · simp
    rfl

/-- The end of a dex file of `0xa9` bytes: its last byte, at `0xa8`, is the
`utf16_size` of an empty `string_data_item`. -/
def stringDataAtEnd : DexImage where
  location := "classes.dex"
  memory := fun _ => 0
  begin := 0x70000000
  size := 0xa9
  stringIdsSize := 1
  typeIdsSize := 0
  protoIdsSize := 0
  fieldIdsSize := 0
  methodIdsSize := 0
  numMethodHandles := 0

theorem stringDataAtEnd_reads_past_end :
    0xa8 + 1 = stringDataAtEnd.size ∧ stringDataAtEnd.memory 0xa8 = 0 ∧
      ((checkIntraStringDataItem stringDataAtEnd).run ⟨0xa8, none, []⟩).2.reads = [stringDataAtEnd.size, 0xa8] :=
  ⟨rfl, rfl, stringData_reads_past_end stringDataAtEnd 0xa8 rfl rfl⟩

end Art.Runtime.DexFileVerifier
