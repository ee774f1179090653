import Art.Runtime.MemoryRegion
import Art.Machine.Word

/-!
# `DexRegisterLocationCatalog`

A stack map keeps the locations of a method's dex registers once each, in a
catalog of entries one after the other (`stack_map.h`). An entry is one byte, with
a kind of 3 bits and a value of 5 bits, or five bytes, a kind byte and an
`int32_t`. Stack offsets are stored divided by the frame slot size, so that short
entries reach offsets up to 124. `StackMapStream::FillIn` writes the entries with
`SetRegisterInfo`, each at the offset after the one before. `FindLocationOffset`
finds an entry by walking the entries before it and reading the kind of each.

Every entry reads back as the location it was written from: its surface kind
and its value, and its compressed kind as the internal kind
(`getDexRegisterLocation_fillInCatalog`). This holds as long as the walk of
`FindLocationOffset` ends. The walk counts entries with a `uint16_t`, so for an
entry past the first 65536 the count never reaches the index, and the walk
never ends: it runs until the `CHECK` of a load past the catalog aborts.
-/

set_option autoImplicit false

namespace Art.Runtime

open Art.Machine

/-- `DexRegisterLocation::Kind`. -/
inductive DexRegisterLocation.Kind
  | kInStack
  | kInRegister
  | kInRegisterHigh
  | kInFpuRegister
  | kInFpuRegisterHigh
  | kConstant
  | kInStackLargeOffset
  | kConstantLargeValue
  | kNone
  deriving DecidableEq, Repr

namespace DexRegisterLocation.Kind

/-- The `uint8_t` of a kind. -/
def toUInt8 : Kind → BitVec 8
  | kInStack => 0
  | kInRegister => 1
  | kInRegisterHigh => 2
  | kInFpuRegister => 3
  | kInFpuRegisterHigh => 4
  | kConstant => 5
  | kInStackLargeOffset => 6
  | kConstantLargeValue => 7
  | kNone => 0xff

/-- `static_cast<Kind>` of a `uint8_t`. -/
def ofUInt8 (kind : BitVec 8) : Kind :=
  match kind.toNat with
  | 0 => kInStack
  | 1 => kInRegister
  | 2 => kInRegisterHigh
  | 3 => kInFpuRegister
  | 4 => kInFpuRegisterHigh
  | 5 => kConstant
  | 6 => kInStackLargeOffset
  | 7 => kConstantLargeValue
  | _ => kNone

/-- `IsShortLocationKind`; `none` where it aborts, on `kNone`. -/
def isShortLocationKind : Kind → Option Bool
  | kInStack | kInRegister | kInRegisterHigh | kInFpuRegister | kInFpuRegisterHigh | kConstant => some true
  | kInStackLargeOffset | kConstantLargeValue => some false
  | kNone => none

/-- `ConvertToSurfaceKind`. -/
def convertToSurfaceKind : Kind → Kind
  | kInStackLargeOffset => kInStack
  | kConstantLargeValue => kConstant
  | kind => kind

end DexRegisterLocation.Kind

/-- `DexRegisterLocation`: its internal kind and its `int32_t` value. -/
structure DexRegisterLocation where
  kind : DexRegisterLocation.Kind
  value : BitVec 32
  deriving DecidableEq

namespace DexRegisterLocation

open Kind

/-- `GetKind`: the surface kind. -/
def getKind (location : DexRegisterLocation) : Kind := convertToSurfaceKind location.kind

/-- `DexRegisterLocation::None()`. -/
def noLocation : DexRegisterLocation := ⟨kNone, 0⟩

end DexRegisterLocation

namespace DexRegisterLocationCatalog

open DexRegisterLocation DexRegisterLocation.Kind

/-- `kFrameSlotSize`. -/
def kFrameSlotSize : BitVec 32 := 4

/-- `kFixedSize`. -/
def kFixedSize : Nat := 0

/-- `kKindMask`. -/
def kKindMask : BitVec 8 := 7

/-- `kValueMask`. -/
def kValueMask : BitVec 32 := 31

/-- `kKindOffset`. -/
def kKindOffset : Nat := 0

/-- `kValueOffset`. -/
def kValueOffset : Nat := 3

/-- `kNoLocationEntryIndex`, the `size_t` of `-1`. -/
def kNoLocationEntryIndex : Nat := 2 ^ 64 - 1

/-- `SingleShortEntrySize`. -/
def singleShortEntrySize : Nat := 1

/-- `SingleLargeEntrySize`. -/
def singleLargeEntrySize : Nat := 5

/-- `IsShortValue`: `IsUint<kValueBits>`. -/
def isShortValue (value : BitVec 32) : Bool := 0 ≤ value.toInt && value.toInt ≤ 31

/-- `IsShortStackOffsetValue`: the slot offset of a stack offset is short. -/
def isShortStackOffsetValue (value : BitVec 32) : Bool := isShortValue (value.sdiv kFrameSlotSize)

/-- `IsShortConstantValue`. -/
def isShortConstantValue (value : BitVec 32) : Bool := isShortValue value

/-- `ComputeCompressedKind`; `none` where it aborts. -/
def computeCompressedKind (location : DexRegisterLocation) : Option Kind :=
  match location.kind with
  | kInStack => some (if isShortStackOffsetValue location.value then kInStack else kInStackLargeOffset)
  | kInRegister | kInRegisterHigh | kInFpuRegister | kInFpuRegisterHigh => some location.kind
  | kConstant => some (if isShortConstantValue location.value then kConstant else kConstantLargeValue)
  | kConstantLargeValue | kInStackLargeOffset | kNone => none

/-- `CanBeEncodedAsShortLocation`; `none` where it aborts. -/
def canBeEncodedAsShortLocation (location : DexRegisterLocation) : Option Bool :=
  match location.kind with
  | kInStack => some (isShortStackOffsetValue location.value)
  | kInRegister | kInRegisterHigh | kInFpuRegister | kInFpuRegisterHigh => some true
  | kConstant => some (isShortConstantValue location.value)
  | kConstantLargeValue | kInStackLargeOffset | kNone => none

/-- `EntrySize`. -/
def entrySize (location : DexRegisterLocation) : Option Nat :=
  (canBeEncodedAsShortLocation location).map fun short => if short then singleShortEntrySize else singleLargeEntrySize

/-- `MakeShortLocation`: the kind in the low 3 bits, the value in the high 5. -/
def makeShortLocation (kind : Kind) (value : BitVec 32) : BitVec 8 :=
  ((kind.toUInt8 &&& kKindMask).setWidth 32 <<< kKindOffset ||| (value &&& kValueMask) <<< kValueOffset).setWidth 8

/-- `ExtractKindFromShortLocation`. -/
def extractKindFromShortLocation (location : BitVec 8) : Kind :=
  Kind.ofUInt8 ((location >>> kKindOffset) &&& kKindMask)

/-- `ExtractValueFromShortLocation`. -/
def extractValueFromShortLocation (location : BitVec 8) : BitVec 32 :=
  (location.setWidth 32 >>> kValueOffset) &&& kValueMask

variable (r : MemoryRegion) (memory : Nat → BitVec 8)

/-- `ExtractKindAtOffset`. -/
def extractKindAtOffset (offset : Nat) : Option Kind :=
  (r.loadUnaligned memory offset 1).map extractKindFromShortLocation

/-- `SetRegisterInfo`: the short location in one byte, or the kind and the value in
five; a stack offset as a slot offset. -/
def setRegisterInfo (offset : Nat) (dexRegisterLocation : DexRegisterLocation) : Option (Nat → BitVec 8) := do
  let kind ← computeCompressedKind dexRegisterLocation
  let value := dexRegisterLocation.value
  let short ← kind.isShortLocationKind
  if short then
    let value := if kind = kInStack then value.sdiv kFrameSlotSize else value
    r.storeUnaligned memory offset 1 (makeShortLocation kind value)
  else
    let value := if kind = kInStackLargeOffset then value.sdiv kFrameSlotSize else value
    let memory ← r.storeUnaligned memory offset 1 kind.toUInt8
    r.storeUnaligned memory (offset + 1) 4 value

/-- The loop of `FindLocationOffset` with its `uint16_t` counter `i`, for at most
`fuel` turns. -/
def findLocationOffsetLoop (index : Nat) : Nat → BitVec 16 → Nat → Option Nat
  | 0, _, _ => none
  | fuel + 1, i, offset =>
      if i.toNat < index then do
        let kind ← extractKindAtOffset r memory offset
        let short ← kind.isShortLocationKind
        findLocationOffsetLoop index fuel (i + 1) (offset + if short then singleShortEntrySize else singleLargeEntrySize)
      else some offset

/-- `FindLocationOffset`: `index + 1` turns of the loop end it, for an index the
counter reaches. -/
def findLocationOffset (index : Nat) : Option Nat :=
  findLocationOffsetLoop r memory index (index + 1) 0 kFixedSize

/-- `GetLocationInternalKind`. -/
def getLocationInternalKind (index : Nat) : Option Kind :=
  if index = kNoLocationEntryIndex then some kNone
  else do
    let offset ← findLocationOffset r memory index
    extractKindAtOffset r memory offset

/-- `GetDexRegisterLocation`: the internal kind and the value of an entry, a stack
offset back in bytes. -/
def getDexRegisterLocation (index : Nat) : Option DexRegisterLocation :=
  if index = kNoLocationEntryIndex then some noLocation
  else do
    let offset ← findLocationOffset r memory index
    let firstByte ← r.loadUnaligned memory offset 1
    let kind := extractKindFromShortLocation firstByte
    let short ← kind.isShortLocationKind
    if short then
      let value := extractValueFromShortLocation firstByte
      let value := if kind = kInStack then value * kFrameSlotSize else value
      return ⟨kind, value⟩
    else
      let value ← r.loadUnaligned memory (offset + 1) 4
      let value := if kind = kInStackLargeOffset then value * kFrameSlotSize else value
      return ⟨kind, value⟩

/-! ## Entries -/

/-- A location of a kind the code generator gives the catalog: a stack offset that
is a non-negative multiple of `kFrameSlotSize`, a register below 32, or a
constant. -/
def ShortInput (location : DexRegisterLocation) : Prop :=
  match location.kind with
  | kInStack => 0 ≤ location.value.toInt ∧ location.value.toInt % 4 = 0
  | kInRegister | kInRegisterHigh | kInFpuRegister | kInFpuRegisterHigh => location.value.toNat < 32
  | kConstant => True
  | kInStackLargeOffset | kConstantLargeValue | kNone => False

/-- The value `SetRegisterInfo` stores for a location of compressed kind `kind`, in
a short entry or not: a stack offset as a slot offset. -/
def storedValue (kind : Kind) (short : Bool) (value : BitVec 32) : BitVec 32 :=
  if short then (if kind = kInStack then value.sdiv kFrameSlotSize else value)
  else (if kind = kInStackLargeOffset then value.sdiv kFrameSlotSize else value)

/-- The value `GetDexRegisterLocation` reads back from a stored value: a slot offset
as a stack offset. -/
def readValue (kind : Kind) (short : Bool) (value : BitVec 32) : BitVec 32 :=
  if short then (if kind = kInStack then value * kFrameSlotSize else value)
  else (if kind = kInStackLargeOffset then value * kFrameSlotSize else value)

/-- The bytes of the entry of a location: the short location, or the kind byte and
the four bytes of the value. -/
def entryBytes (location : DexRegisterLocation) : List (BitVec 8) :=
  match computeCompressedKind location with
  | some kind =>
    match kind.isShortLocationKind with
    | some true => [makeShortLocation kind (storedValue kind true location.value)]
    | some false => kind.toUInt8 :: (List.range 4).map (littleEndianByte (storedValue kind false location.value))
    | none => []
  | none => []

/-- How a location compresses: its compressed kind, short or not, with a kind byte
of 3 bits, a short value of 5 bits, and a stored value that reads back as the
location's value. -/
structure Compressed (location : DexRegisterLocation) (kind : Kind) (short : Bool) : Prop where
  compressed : computeCompressedKind location = some kind
  isShort : kind.isShortLocationKind = some short
  canBeShort : canBeEncodedAsShortLocation location = some short
  surface : convertToSurfaceKind kind = location.kind
  byte : kind.toUInt8.toNat < 8
  fits : short = true → (storedValue kind short location.value).toNat < 32
  readValue_eq : readValue kind short (storedValue kind short location.value) = location.value

/-- A non-negative multiple of `kFrameSlotSize` is its slot offset times the slot size. -/
theorem sdiv_mul_kFrameSlotSize {value : BitVec 32} (nonneg : 0 ≤ value.toInt) (multiple : value.toInt % 4 = 0) :
    value.sdiv kFrameSlotSize * kFrameSlotSize = value := by
  have exact : value.toInt.tdiv 4 * 4 = value.toInt := by
    rw [Int.tdiv_eq_ediv_of_nonneg nonneg]
    omega
  rw [sdiv_eq_ofInt_tdiv, show kFrameSlotSize.toInt = 4 from rfl, show kFrameSlotSize = BitVec.ofInt 32 4 from rfl,
    ← BitVec.ofInt_mul, exact, BitVec.ofInt_toInt]

/-- A short value is below 32. -/
theorem toNat_lt_of_isShortValue {value : BitVec 32} (short : isShortValue value = true) : value.toNat < 32 := by
  simp only [isShortValue, Bool.and_eq_true, decide_eq_true_eq] at short
  rw [BitVec.toInt_eq_toNat_cond] at short
  split at short <;> omega

/-- Every location of a short kind compresses, and reads back. -/
theorem ShortInput.compressed {location : DexRegisterLocation} (input : ShortInput location) :
    ∃ kind short, Compressed location kind short := by
  obtain ⟨kind, value⟩ := location
  cases kind <;> simp only [ShortInput] at input
  case kInStack =>
    -- the slot offset decides between a short and a large entry
    have back := sdiv_mul_kFrameSlotSize input.1 input.2
    by_cases short : isShortStackOffsetValue value
    · refine ⟨kInStack, true, ⟨?_, rfl, ?_, rfl, by decide, fun _ => ?_, ?_⟩⟩
      · simp only [computeCompressedKind, short, if_true]
      · simp only [canBeEncodedAsShortLocation, short]
      · exact toNat_lt_of_isShortValue short
      · simpa [readValue, storedValue] using back
    · refine ⟨kInStackLargeOffset, false, ⟨?_, rfl, ?_, rfl, by decide, nofun, ?_⟩⟩
      · simp only [computeCompressedKind, short, Bool.false_eq_true, if_false]
      · simp only [canBeEncodedAsShortLocation, short]
      · simpa [readValue, storedValue] using back
  case kConstant =>
    by_cases short : isShortConstantValue value
    · exact ⟨kConstant, true, ⟨by simp only [computeCompressedKind, short, if_true], rfl,
        by simp only [canBeEncodedAsShortLocation, short], rfl, by decide,
        fun _ => toNat_lt_of_isShortValue short, by simp [readValue, storedValue]⟩⟩
    · exact ⟨kConstantLargeValue, false, ⟨by simp only [computeCompressedKind, short, Bool.false_eq_true, if_false],
        rfl, by simp only [canBeEncodedAsShortLocation, short], rfl, by decide, nofun,
        by simp [readValue, storedValue]⟩⟩
  all_goals
    -- a register: its own kind, short, with its number as the value
    exact ⟨_, true, ⟨rfl, rfl, rfl, rfl, by dsimp only; decide, fun _ => by simpa [storedValue] using input,
      by simp [readValue, storedValue]⟩⟩

/-! ## Reading an entry -/

theorem extractKindFromShortLocation_makeShortLocation {kind : Kind} (byte : kind.toUInt8.toNat < 8)
    {value : BitVec 32} (fits : value.toNat < 32) :
    extractKindFromShortLocation (makeShortLocation kind value) = kind := by
  obtain ⟨n, below, rfl⟩ : ∃ n < 32, value = BitVec.ofNat 32 n := ⟨value.toNat, fits, by simp⟩
  revert n
  cases kind <;> first | exact absurd byte (by decide) | decide

theorem extractValueFromShortLocation_makeShortLocation {kind : Kind} (byte : kind.toUInt8.toNat < 8)
    {value : BitVec 32} (fits : value.toNat < 32) :
    extractValueFromShortLocation (makeShortLocation kind value) = value := by
  obtain ⟨n, below, rfl⟩ : ∃ n < 32, value = BitVec.ofNat 32 n := ⟨value.toNat, fits, by simp⟩
  revert n
  cases kind <;> first | exact absurd byte (by decide) | decide

theorem extractKindFromShortLocation_toUInt8 {kind : Kind} (byte : kind.toUInt8.toNat < 8) :
    extractKindFromShortLocation kind.toUInt8 = kind := by
  cases kind <;> first | exact absurd byte (by decide) | decide

theorem littleEndianByte_byte (byte : BitVec 8) : littleEndianByte byte 0 = byte := by
  apply BitVec.eq_of_toNat_eq
  rw [toNat_littleEndianByte le_rfl, Nat.zero_mul, Nat.pow_zero, Nat.div_one, Nat.mod_eq_of_lt byte.isLt]

namespace Compressed

variable {location : DexRegisterLocation} {kind : Kind} {short : Bool}

theorem entryBytes_eq (c : Compressed location kind short) :
    entryBytes location =
      if short then [makeShortLocation kind (storedValue kind true location.value)]
      else kind.toUInt8 :: (List.range 4).map (littleEndianByte (storedValue kind false location.value)) := by
  unfold entryBytes
  rw [c.compressed]
  dsimp only
  rw [c.isShort]
  cases short <;> rfl

theorem length_entryBytes (c : Compressed location kind short) :
    (entryBytes location).length = if short then singleShortEntrySize else singleLargeEntrySize := by
  rw [c.entryBytes_eq]
  cases short <;> rfl

/-- `EntrySize` is the length of the entry. -/
theorem entrySize_eq (c : Compressed location kind short) : entrySize location = some (entryBytes location).length := by
  rw [entrySize, c.canBeShort, Option.map_some, c.length_entryBytes]

variable {r : MemoryRegion} {memory : Nat → BitVec 8} {offset : Nat}

/-- `SetRegisterInfo` inside the region writes the bytes of the entry. -/
theorem setRegisterInfo_apply (c : Compressed location kind short)
    (inside : offset + (entryBytes location).length ≤ r.size) :
    ∃ written, setRegisterInfo r memory offset location = some written ∧
      WrittenAt written memory (r.pointer + offset) (entryBytes location) := by
  rw [c.entryBytes_eq] at inside ⊢
  simp only [setRegisterInfo, c.compressed, c.isShort, Option.bind_eq_bind, Option.bind_some]
  cases short
  · -- a large entry: the kind byte, then the four bytes of the value
    simp only [List.length_cons, List.length_map, List.length_range, Bool.false_eq_true, if_false] at inside ⊢
    obtain ⟨kindStored, kindRun, kindWritten⟩ := @MemoryRegion.storeUnaligned_apply r memory offset 1 (by omega) kind.toUInt8
    obtain ⟨valueStored, valueRun, valueWritten⟩ :=
      @MemoryRegion.storeUnaligned_apply r kindStored (offset + 1) 4 (by omega) (storedValue kind false location.value)
    refine ⟨valueStored, by rw [kindRun, Option.bind_some]; exact valueRun, ?_⟩
    have whole := kindWritten.append (by rw [List.length_map, List.length_range, Nat.add_assoc]; exact valueWritten)
    simpa [littleEndianByte_byte] using whole
  · simp only [List.length_singleton, if_true] at inside ⊢
    obtain ⟨stored, run, written⟩ := @MemoryRegion.storeUnaligned_apply r memory offset 1 (by omega)
      (makeShortLocation kind (storedValue kind true location.value))
    exact ⟨stored, run, by simpa [littleEndianByte_byte] using written⟩

theorem entryBytes_eq_cons (c : Compressed location kind short) :
    entryBytes location =
      (if short then makeShortLocation kind (storedValue kind true location.value) else kind.toUInt8) ::
        (if short then [] else (List.range 4).map (littleEndianByte (storedValue kind false location.value))) := by
  rw [c.entryBytes_eq]
  cases short <;> rfl

/-- The first byte of an entry: the short location, or the kind byte. -/
theorem loadUnaligned_first (c : Compressed location kind short)
    (holds : HoldsAt memory (r.pointer + offset) (entryBytes location))
    (inside : offset + (entryBytes location).length ≤ r.size) :
    r.loadUnaligned memory offset 1 =
      some (if short then makeShortLocation kind (storedValue kind true location.value) else kind.toUInt8) := by
  rw [c.entryBytes_eq_cons, ← List.singleton_append] at holds inside
  rw [List.length_append, List.length_singleton] at inside
  apply MemoryRegion.loadUnaligned_of_holdsAt (by omega)
  simpa [littleEndianByte_byte] using holds.left

/-- `ExtractKindAtOffset` of an entry is its compressed kind. -/
theorem extractKindAtOffset_eq (c : Compressed location kind short)
    (holds : HoldsAt memory (r.pointer + offset) (entryBytes location))
    (inside : offset + (entryBytes location).length ≤ r.size) :
    extractKindAtOffset r memory offset = some kind := by
  rw [extractKindAtOffset, c.loadUnaligned_first holds inside, Option.map_some]
  cases short
  · rw [if_neg Bool.false_ne_true, extractKindFromShortLocation_toUInt8 c.byte]
  · rw [if_pos rfl, extractKindFromShortLocation_makeShortLocation c.byte (c.fits rfl)]

/-- `GetDexRegisterLocation` of an entry found at `offset`: its compressed kind, and
the value of the location. -/
theorem getDexRegisterLocation_eq (c : Compressed location kind short) {index : Nat}
    (valid : index ≠ kNoLocationEntryIndex) (found : findLocationOffset r memory index = some offset)
    (holds : HoldsAt memory (r.pointer + offset) (entryBytes location))
    (inside : offset + (entryBytes location).length ≤ r.size) :
    getDexRegisterLocation r memory index = some ⟨kind, location.value⟩ := by
  have first := c.loadUnaligned_first holds inside
  rw [getDexRegisterLocation, if_neg valid]
  simp only [found, first, Option.bind_eq_bind, Option.bind_some]
  cases short
  · -- a large entry: the value in the four bytes after the kind byte
    rw [c.entryBytes_eq_cons, ← List.singleton_append] at holds inside
    rw [List.length_append, List.length_singleton] at inside
    have value : r.loadUnaligned memory (offset + 1) 4 = some (storedValue kind false location.value) := by
      apply MemoryRegion.loadUnaligned_of_holdsAt (by simp at inside; omega)
      have rest := holds.right
      rw [List.length_singleton, Nat.add_assoc] at rest
      simpa using rest
    simp only [if_neg Bool.false_ne_true, extractKindFromShortLocation_toUInt8 c.byte, c.isShort, value,
      Option.bind_some]
    exact congrArg (fun v => some (DexRegisterLocation.mk kind v)) c.readValue_eq
  · simp only [if_true, extractKindFromShortLocation_makeShortLocation c.byte (c.fits rfl), c.isShort,
      extractValueFromShortLocation_makeShortLocation c.byte (c.fits rfl), Option.bind_some]
    exact congrArg (fun v => some (DexRegisterLocation.mk kind v)) c.readValue_eq

/-- `GetLocationInternalKind` of an entry found at `offset`: its compressed kind. -/
theorem getLocationInternalKind_eq (c : Compressed location kind short) {index : Nat}
    (valid : index ≠ kNoLocationEntryIndex) (found : findLocationOffset r memory index = some offset)
    (holds : HoldsAt memory (r.pointer + offset) (entryBytes location))
    (inside : offset + (entryBytes location).length ≤ r.size) :
    getLocationInternalKind r memory index = some kind := by
  rw [getLocationInternalKind, if_neg valid]
  simp only [found, Option.bind_eq_bind, Option.bind_some, c.extractKindAtOffset_eq holds inside]

end Compressed

/-! ## Walking the catalog -/

/-- The bytes of a catalog: the entries one after the other. -/
def catalogBytes (locations : List DexRegisterLocation) : List (BitVec 8) := locations.flatMap entryBytes

theorem catalogBytes_cons (location : DexRegisterLocation) (locations : List DexRegisterLocation) :
    catalogBytes (location :: locations) = entryBytes location ++ catalogBytes locations :=
  List.flatMap_cons

variable {r : MemoryRegion} {memory : Nat → BitVec 8}

/-- The walk of `FindLocationOffset` over the entries of a catalog, from the entry its
counter names, ends at the entry of the index, as long as the counter does not
wrap. The induction is on the entries left, with the counter and the offset
generalized. -/
theorem findLocationOffsetLoop_catalog {index : Nat} (fits : index < 0x10000) :
    ∀ (locations : List DexRegisterLocation) (offset : Nat) (i : BitVec 16) (fuel : Nat),
      (∀ location ∈ locations, ShortInput location) →
      HoldsAt memory (r.pointer + offset) (catalogBytes locations) →
      offset + (catalogBytes locations).length ≤ r.size →
      i.toNat ≤ index → index ≤ i.toNat + locations.length → index - i.toNat < fuel →
      findLocationOffsetLoop r memory index fuel i offset =
        some (offset + (catalogBytes (locations.take (index - i.toNat))).length) := by
  intro locations
  induction locations with
  | nil =>
    intro offset i fuel _ _ _ reached exhausted enough
    obtain ⟨fuel, rfl⟩ : ∃ f, fuel = f + 1 := ⟨fuel - 1, by omega⟩
    rw [List.length_nil] at exhausted
    rw [findLocationOffsetLoop, if_neg (by omega), List.take_nil]
    rfl
  | cons location locations ih =>
    intro offset i fuel inputs holds inside reached left enough
    obtain ⟨fuel, rfl⟩ : ∃ f, fuel = f + 1 := ⟨fuel - 1, by omega⟩
    rw [List.length_cons] at left
    rw [findLocationOffsetLoop]
    by_cases more : i.toNat < index
    · -- read the kind of the next entry and step over it
      obtain ⟨kind, short, c⟩ := (inputs location List.mem_cons_self).compressed
      rw [catalogBytes_cons] at holds inside
      rw [List.length_append] at inside
      have next : (i + 1).toNat = i.toNat + 1 := by
        rw [BitVec.toNat_add, show (1 : BitVec 16).toNat = 1 from rfl, Nat.mod_eq_of_lt (by omega)]
      have rest := ih (offset + (entryBytes location).length) (i + 1) fuel
        (fun l mem => inputs l (List.mem_cons_of_mem location mem)) (by rw [← Nat.add_assoc]; exact holds.right)
        (by omega) (by omega) (by omega) (by omega)
      rw [if_pos more]
      simp only [c.extractKindAtOffset_eq holds.left (by omega), c.isShort, Option.bind_eq_bind, Option.bind_some]
      rw [← c.length_entryBytes, rest, next, show index - i.toNat = index - (i.toNat + 1) + 1 by omega,
        List.take_succ_cons, catalogBytes_cons, List.length_append, Nat.add_assoc]
    · rw [if_neg more, show index - i.toNat = 0 by omega, List.take_zero]
      rfl

/-- For an index of 65536 and more, the walk never ends: the `uint16_t` counter is
always below the index. The induction is on the fuel. -/
theorem findLocationOffsetLoop_of_wraps {index : Nat} (wraps : 0x10000 ≤ index) :
    ∀ (fuel : Nat) (i : BitVec 16) (offset : Nat), findLocationOffsetLoop r memory index fuel i offset = none
  | 0, _, _ => rfl
  | fuel + 1, i, offset => by
    rw [findLocationOffsetLoop, if_pos (lt_of_lt_of_le i.isLt wraps)]
    -- whatever the entry holds, the walk goes on with a counter still below the index
    rcases extractKindAtOffset r memory offset with _ | kind
    · rfl
    · simp only [Option.bind_eq_bind, Option.bind_some]
      rcases kind.isShortLocationKind with _ | short
      · rfl
      · exact findLocationOffsetLoop_of_wraps wraps fuel (i + 1) _

/-- A catalog is the entries before `index`, the entry at `index`, and the entries
after it. -/
theorem catalogBytes_eq_take_append {locations : List DexRegisterLocation} {index : Nat}
    (inside : index < locations.length) :
    catalogBytes locations =
      catalogBytes (locations.take index) ++ (entryBytes locations[index] ++ catalogBytes (locations.drop (index + 1))) := by
  conv_lhs => rw [← List.take_append_drop index locations, List.drop_eq_getElem_cons inside]
  rw [catalogBytes, List.flatMap_append, List.flatMap_cons]
  rfl

section Catalog

variable {locations : List DexRegisterLocation} (inputs : ∀ location ∈ locations, ShortInput location)
  (holds : HoldsAt memory r.pointer (catalogBytes locations)) (sized : (catalogBytes locations).length ≤ r.size)

include inputs holds sized

/-- In memory that holds a catalog from the region's start, `FindLocationOffset`
finds entry `index` where its bytes begin, for an index the counter reaches. -/
theorem findLocationOffset_catalog {index : Nat} (inside : index < locations.length) (fits : index < 0x10000) :
    findLocationOffset r memory index = some (catalogBytes (locations.take index)).length := by
  have zero : (0 : BitVec 16).toNat = 0 := rfl
  have fixed : kFixedSize = 0 := rfl
  have walk := findLocationOffsetLoop_catalog fits locations kFixedSize 0 (index + 1) inputs
    (by rwa [fixed, Nat.add_zero]) (by rwa [fixed, Nat.zero_add]) (by omega) (by omega) (by omega)
  rw [findLocationOffset, walk, zero, Nat.sub_zero, fixed, Nat.zero_add]

/-- Entry `index` of a catalog reads back as its location: its compressed kind, with
the location's kind as its surface kind, and the location's value. -/
theorem getDexRegisterLocation_catalog {index : Nat} (inside : index < locations.length) (fits : index < 0x10000) :
    ∃ kind, getDexRegisterLocation r memory index = some ⟨kind, locations[index].value⟩ ∧
      convertToSurfaceKind kind = locations[index].kind ∧
      getLocationInternalKind r memory index = some kind ∧ computeCompressedKind locations[index] = some kind := by
  obtain ⟨kind, short, c⟩ := (inputs _ (List.getElem_mem inside)).compressed
  have found := findLocationOffset_catalog inputs holds sized inside fits
  -- the entry's bytes sit after those of the entries before it
  rw [catalogBytes_eq_take_append inside] at holds sized
  rw [List.length_append, List.length_append] at sized
  have entry := holds.right.left
  have valid : index ≠ kNoLocationEntryIndex := by
    unfold kNoLocationEntryIndex
    omega
  exact ⟨kind, c.getDexRegisterLocation_eq valid found entry (by omega), c.surface,
    c.getLocationInternalKind_eq valid found entry (by omega), c.compressed⟩

end Catalog

/-- Past the first 65536 entries, `GetDexRegisterLocation` and
`GetLocationInternalKind` never return, whatever memory holds. -/
theorem getDexRegisterLocation_of_wraps {index : Nat} (wraps : 0x10000 ≤ index) (valid : index ≠ kNoLocationEntryIndex) :
    getDexRegisterLocation r memory index = none ∧ getLocationInternalKind r memory index = none := by
  have lost : findLocationOffset r memory index = none := findLocationOffsetLoop_of_wraps wraps _ _ _
  rw [getDexRegisterLocation, getLocationInternalKind, if_neg valid, if_neg valid]
  simp only [lost, Option.bind_eq_bind, Option.bind_none, and_self]

end DexRegisterLocationCatalog

namespace StackMapStream

open DexRegisterLocation DexRegisterLocation.Kind DexRegisterLocationCatalog

/-- `ComputeDexRegisterLocationCatalogSize`. -/
def computeDexRegisterLocationCatalogSize (locationCatalogEntries : List DexRegisterLocation) : Option Nat :=
  locationCatalogEntries.foldlM (fun size location => (entrySize location).map (size + ·)) kFixedSize

/-- One turn of the catalog loop of `FillIn`: `SetRegisterInfo` at the offset, then
the offset moved past the entry by `EntrySize`. -/
def fillInCatalogStep (r : MemoryRegion) (state : (Nat → BitVec 8) × Nat) (location : DexRegisterLocation) :
    Option ((Nat → BitVec 8) × Nat) := do
  let memory ← setRegisterInfo r state.1 state.2 location
  let size ← entrySize location
  return (memory, state.2 + size)

/-- The catalog part of `FillIn`: each location written with `SetRegisterInfo` at
the offset where the one before ends. -/
def fillInCatalog (r : MemoryRegion) (memory : Nat → BitVec 8) (locationCatalogEntries : List DexRegisterLocation) :
    Option (Nat → BitVec 8) :=
  (locationCatalogEntries.foldlM (fillInCatalogStep r) (memory, kFixedSize)).map Prod.fst

variable {r : MemoryRegion} {memory : Nat → BitVec 8}

/-- The size `FillIn` reserves is the length of the catalog's bytes. -/
theorem computeDexRegisterLocationCatalogSize_eq {locations : List DexRegisterLocation}
    (inputs : ∀ location ∈ locations, ShortInput location) :
    computeDexRegisterLocationCatalogSize locations = some (catalogBytes locations).length := by
  -- the loop adds the size of each entry to the size so far
  suffices loop : ∀ size, locations.foldlM (fun size location => (entrySize location).map (size + ·)) size =
      some (size + (catalogBytes locations).length) by
    rw [computeDexRegisterLocationCatalogSize, loop, show kFixedSize = 0 from rfl, Nat.zero_add]
  induction locations with
  | nil => intro size; rfl
  | cons location locations ih =>
    intro size
    obtain ⟨kind, short, c⟩ := (inputs location List.mem_cons_self).compressed
    rw [List.foldlM_cons, c.entrySize_eq, Option.map_some, Option.bind_eq_bind, Option.bind_some,
      ih (fun l mem => inputs l (List.mem_cons_of_mem location mem)), catalogBytes_cons, List.length_append,
      Nat.add_assoc]

/-- A turn of the loop writes the entry of its location and moves past it. -/
theorem fillInCatalogStep_apply {location : DexRegisterLocation} (input : ShortInput location) {offset : Nat}
    (inside : offset + (entryBytes location).length ≤ r.size) :
    ∃ written, fillInCatalogStep r (memory, offset) location = some (written, offset + (entryBytes location).length) ∧
      WrittenAt written memory (r.pointer + offset) (entryBytes location) := by
  obtain ⟨kind, short, c⟩ := input.compressed
  obtain ⟨written, run, bytes⟩ := c.setRegisterInfo_apply inside
  refine ⟨written, ?_, bytes⟩
  simp only [fillInCatalogStep, run, c.entrySize_eq, Option.bind_eq_bind, Option.bind_some]
  rfl

/-- The loop of `FillIn` over a catalog writes the catalog's bytes one entry after
the other. The induction is on the locations left, with the memory and the offset
generalized. -/
theorem foldlM_fillInCatalogStep :
    ∀ (locations : List DexRegisterLocation) (memory : Nat → BitVec 8) (offset : Nat),
      (∀ location ∈ locations, ShortInput location) → offset + (catalogBytes locations).length ≤ r.size →
      ∃ written, locations.foldlM (fillInCatalogStep r) (memory, offset) =
          some (written, offset + (catalogBytes locations).length) ∧
        WrittenAt written memory (r.pointer + offset) (catalogBytes locations)
  | [], memory, offset, _, _ => by
    refine ⟨memory, ?_, WrittenAt.nil⟩
    rw [List.foldlM_nil, catalogBytes, List.flatMap_nil, List.length_nil, Nat.add_zero]
    rfl
  | location :: locations, memory, offset, inputs, inside => by
    rw [catalogBytes_cons, List.length_append] at inside
    obtain ⟨stored, step, first⟩ :=
      @fillInCatalogStep_apply r memory location (inputs location List.mem_cons_self) offset (by omega)
    obtain ⟨written, loop, rest⟩ := foldlM_fillInCatalogStep locations stored (offset + (entryBytes location).length)
      (fun l mem => inputs l (List.mem_cons_of_mem location mem)) (by omega)
    refine ⟨written, ?_, ?_⟩
    · rw [List.foldlM_cons, step, Option.bind_eq_bind, Option.bind_some, loop, catalogBytes_cons, List.length_append,
        Nat.add_assoc]
    · rw [catalogBytes_cons]
      exact first.append (by rw [Nat.add_assoc]; exact rest)

/-- `FillIn` in a region of the size it reserves writes the catalog's bytes at its
start. -/
theorem fillInCatalog_apply {locations : List DexRegisterLocation} (inputs : ∀ location ∈ locations, ShortInput location)
    (sized : computeDexRegisterLocationCatalogSize locations = some r.size) :
    ∃ written, fillInCatalog r memory locations = some written ∧ WrittenAt written memory r.pointer (catalogBytes locations) := by
  rw [computeDexRegisterLocationCatalogSize_eq inputs, Option.some.injEq] at sized
  obtain ⟨written, loop, bytes⟩ := foldlM_fillInCatalogStep locations memory kFixedSize inputs
    (by rw [show kFixedSize = 0 from rfl, Nat.zero_add, sized])
  refine ⟨written, by rw [fillInCatalog, loop, Option.map_some], ?_⟩
  rwa [show kFixedSize = 0 from rfl, Nat.add_zero] at bytes

/-- A catalog that `FillIn` writes from locations of short kinds, in a region of the
size it reserves, reads back each of its first 65536 entries as the location it
was written from: the same surface kind and value, and the compressed kind as the
internal kind. An entry past those is never read: the walk does not end. -/
theorem getDexRegisterLocation_fillInCatalog {locations : List DexRegisterLocation}
    (inputs : ∀ location ∈ locations, ShortInput location)
    (sized : computeDexRegisterLocationCatalogSize locations = some r.size) :
    ∃ written, fillInCatalog r memory locations = some written ∧
      (∀ index (inside : index < locations.length), index < 0x10000 →
        ∃ location, getDexRegisterLocation r written index = some location ∧
          location.getKind = locations[index].kind ∧ location.value = locations[index].value ∧
          getLocationInternalKind r written index = computeCompressedKind locations[index]) ∧
      (∀ index, 0x10000 ≤ index → index ≠ kNoLocationEntryIndex →
        getDexRegisterLocation r written index = none ∧ getLocationInternalKind r written index = none) := by
  obtain ⟨written, filled, bytes⟩ := fillInCatalog_apply inputs sized
  rw [computeDexRegisterLocationCatalogSize_eq inputs, Option.some.injEq] at sized
  refine ⟨written, filled, fun index inside fits => ?_, fun index wraps valid => getDexRegisterLocation_of_wraps wraps valid⟩
  obtain ⟨kind, location, surface, internal, compressed⟩ :=
    getDexRegisterLocation_catalog inputs bytes.holds sized.le inside fits
  exact ⟨_, location, surface, rfl, by rw [internal, compressed]⟩

/-- The constants `0` to `65536`, each an entry of its own. -/
def countingConstants : List DexRegisterLocation :=
  (List.range 0x10001).map fun n => ⟨kConstant, BitVec.ofNat 32 n⟩

/-- The catalog of `countingConstants` is written, and its last entry, the constant
`65536`, is never read back. -/
theorem countingConstants_lose_last :
    ∃ written, fillInCatalog ⟨0, (catalogBytes countingConstants).length⟩ (fun _ => 0) countingConstants = some written ∧
      countingConstants[0x10000]? = some ⟨kConstant, 0x10000⟩ ∧
      getDexRegisterLocation ⟨0, (catalogBytes countingConstants).length⟩ written 0x10000 = none := by
  have inputs : ∀ location ∈ countingConstants, ShortInput location := by
    intro location mem
    obtain ⟨n, -, rfl⟩ := List.mem_map.1 mem
    trivial
  -- the region is the size `FillIn` reserves, without counting the bytes out
  have sized : computeDexRegisterLocationCatalogSize countingConstants =
      some (MemoryRegion.size ⟨0, (catalogBytes countingConstants).length⟩) := by
    dsimp only
    exact computeDexRegisterLocationCatalogSize_eq inputs
  obtain ⟨written, filled, -, lost⟩ := @getDexRegisterLocation_fillInCatalog ⟨0, (catalogBytes countingConstants).length⟩
    (fun _ => 0) countingConstants inputs sized
  refine ⟨written, filled, ?_, (lost 0x10000 le_rfl (by decide)).1⟩
  rw [countingConstants, List.getElem?_map, List.getElem?_range (by decide), Option.map_some]
  rfl

end StackMapStream

end Art.Runtime
