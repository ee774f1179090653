import Art.Runtime.Jit.ProfileCompilationInfo
import Art.Machine.LittleEndian

/-!
# Loading a profile

`LoadInternal` reads a profile file (`profile_compilation_info.cc`). The file starts
with a header: the magic, the version, the number of dex files, and the sizes of the
data before and after compression (`ReadProfileHeader`). After the header comes the
compressed data, and nothing else. The data holds one line per dex file. A line
starts with a line header: the size of the dex location, the number of classes, the
size of the methods region, the checksum and the number of method ids. Then come the
dex location, the methods region (`ReadMethods`), the classes (`ReadClasses`) and
the method bitmap. The data must be read to its end.

The model reads from a `SafeBuffer`, the bytes not read yet. The file is a list of
bytes, and zlib is a parameter, `inflate`: the bytes a whole compressed stream stands
for. Errors are only logged, so their texts are left out. A `DCHECK` that fails, or a
`nullptr` that is dereferenced, is `none`.

`ReadMethods` and `ReadClasses` return `bool`, but their checks for a region longer
than the bytes left `return kProfileLoadBadData`. That enumerator is 3, so it
converts to `true`: the line is taken as read without reading the region
(`readMethods_of_short`). A file whose one line promises a methods region and ends
after the dex location therefore loads with `kProfileLoadSuccess`
(`loadInternal_accepts_missing_methods`). The check that all the data was read does
not catch this, because nothing was read past the end. A header written as `Save`
writes one reads back (`readProfileHeader_profileHeaderBytes`,
`readProfileLineHeader_lineHeaderBytes`).
-/

set_option autoImplicit false

namespace Art.Runtime

open Art.Machine

namespace ProfileCompilationInfo

/-- `ProfileLoadSatus`. -/
inductive ProfileLoadSatus where
  | kProfileLoadWouldOverwiteData
  | kProfileLoadIOError
  | kProfileLoadVersionMismatch
  | kProfileLoadBadData
  | kProfileLoadSuccess
  deriving DecidableEq, Repr

open ProfileLoadSatus

/-- The value of an enumerator: its place in the declaration. -/
def ProfileLoadSatus.toNat : ProfileLoadSatus → Nat
  | kProfileLoadWouldOverwiteData => 0
  | kProfileLoadIOError => 1
  | kProfileLoadVersionMismatch => 2
  | kProfileLoadBadData => 3
  | kProfileLoadSuccess => 4

/-- An enumerator returned by a function that returns `bool`: `true` unless it is zero. -/
def ProfileLoadSatus.toBool (status : ProfileLoadSatus) : Bool := status.toNat != 0

/-- `kProfileMagic`: `p`, `r`, `o` and a zero byte. -/
def kProfileMagic : List (BitVec 8) := [0x70, 0x72, 0x6f, 0x00]

/-- `kProfileVersion`: `0`, `0`, `9` and a zero byte. -/
def kProfileVersion : List (BitVec 8) := [0x30, 0x30, 0x39, 0x00]

/-- `kMagicVersionSize`: the magic, the version, the number of dex files and the two
sizes. -/
def kMagicVersionSize : Nat := 4 + 4 + 1 + 4 + 4

/-- `kMaxDexFileKeyLength`: `PATH_MAX`. -/
def kMaxDexFileKeyLength : Nat := 4096

/-- `kIsMissingTypesEncoding`. -/
def kIsMissingTypesEncoding : BitVec 8 := 6

/-- `kIsMegamorphicEncoding`. -/
def kIsMegamorphicEncoding : BitVec 8 := 7

/-- `kLineHeaderSize`: two `uint16_t` and three `uint32_t`. -/
def kLineHeaderSize : Nat := 2 * 2 + 3 * 4

/-- `kProfileSizeErrorThresholdInBytes`. -/
def kProfileSizeErrorThresholdInBytes : Nat := 1000000

/-- `AddUintToBuffer`: the bytes of an unsigned value of `size` bytes appended, the
least significant first. -/
def addUintToBuffer (buffer : List (BitVec 8)) (size : Nat) (value : BitVec (8 * size)) : List (BitVec 8) :=
  buffer ++ (List.range size).map (littleEndianByte value)

/-- `SafeBuffer`: the bytes from `ptr_current_` to `ptr_end_`, those not read yet. -/
structure SafeBuffer where
  unread : List (BitVec 8)

namespace SafeBuffer

/-- `CountUnreadBytes`. -/
def countUnreadBytes (buffer : SafeBuffer) : Nat := buffer.unread.length

/-- `ReadUintAndAdvance` of an unsigned value of `size` bytes, the least significant
first: nothing (`false`) when fewer bytes are left. -/
def readUintAndAdvance (buffer : SafeBuffer) (size : Nat) : Option (BitVec (8 * size) × SafeBuffer) :=
  if buffer.unread.length < size then none
  else some (sumLittleEndian (8 * size) (fun i => buffer.unread.getD i 0) size, ⟨buffer.unread.drop size⟩)

/-- `CompareAndAdvance`. -/
def compareAndAdvance (buffer : SafeBuffer) (data : List (BitVec 8)) : Option SafeBuffer :=
  if buffer.unread.length < data.length then none
  else if buffer.unread.take data.length = data then some ⟨buffer.unread.drop data.length⟩
  else none

/-- `Advance`. -/
def advance (buffer : SafeBuffer) (dataSize : Nat) : SafeBuffer := ⟨buffer.unread.drop dataSize⟩

theorem readUintAndAdvance_countUnreadBytes {buffer rest : SafeBuffer} {size : Nat} {value : BitVec (8 * size)}
    (read : buffer.readUintAndAdvance size = some (value, rest)) :
    rest.countUnreadBytes + size = buffer.countUnreadBytes := by
  rw [readUintAndAdvance] at read
  split at read
  · cases read
  · simp only [Option.some.injEq, Prod.mk.injEq] at read
    obtain ⟨-, rfl⟩ := read
    rw [countUnreadBytes, countUnreadBytes, List.length_drop]
    omega

/-- A value written by `AddUintToBuffer` reads back. -/
theorem readUintAndAdvance_addUintToBuffer (size : Nat) (value : BitVec (8 * size)) (rest : List (BitVec 8)) :
    (⟨addUintToBuffer [] size value ++ rest⟩ : SafeBuffer).readUintAndAdvance size = some (value, ⟨rest⟩) := by
  have length : (addUintToBuffer [] size value).length = size := by
    rw [addUintToBuffer, List.nil_append, List.length_map, List.length_range]
  have bytes : ∀ i < size, (addUintToBuffer [] size value ++ rest).getD i 0 = littleEndianByte value i := by
    intro i below
    rw [List.getD_eq_getElem?_getD, List.getElem?_append_left (by omega)]
    simp [addUintToBuffer, below]
  rw [readUintAndAdvance, if_neg (by rw [List.length_append, length]; omega), sumLittleEndian_congr bytes,
    sumLittleEndian_littleEndianByte, List.drop_left' length]

theorem compareAndAdvance_append (data rest : List (BitVec 8)) :
    (⟨data ++ rest⟩ : SafeBuffer).compareAndAdvance data = some ⟨rest⟩ := by
  rw [compareAndAdvance, if_neg (by rw [List.length_append]; omega), if_pos (List.take_left' rfl), List.drop_left' rfl]

end SafeBuffer

/-! ## Inline caches and methods -/

/-- The `dex_classes_size` type indices of one dex file of a dex pc, each added to
its cache: the innermost loop of `ReadInlineCache`. -/
def readClassesOfDex (dexProfileIndex : BitVec 8) : Nat → DexPcData → SafeBuffer → Bool × DexPcData × SafeBuffer
  | 0, data, buffer => (true, data, buffer)
  | count + 1, data, buffer =>
    match buffer.readUintAndAdvance 2 with
    | none => (false, data, buffer)
    | some (typeIndex, buffer) => readClassesOfDex dexProfileIndex count (data.addClass dexProfileIndex typeIndex) buffer

/-- The `dex_to_classes_map_size` dex files of a dex pc, each with its classes. -/
def readDexClasses (numberOfDexFiles : BitVec 8) : Nat → DexPcData → SafeBuffer → Bool × DexPcData × SafeBuffer
  | 0, data, buffer => (true, data, buffer)
  | count + 1, data, buffer =>
    match buffer.readUintAndAdvance 1 with
    | none => (false, data, buffer)
    | some (dexProfileIndex, buffer) =>
      match buffer.readUintAndAdvance 1 with
      | none => (false, data, buffer)
      | some (dexClassesSize, buffer) =>
        if dexProfileIndex ≥ numberOfDexFiles then (false, data, buffer)
        else
          match readClassesOfDex dexProfileIndex dexClassesSize.toNat data buffer with
          | (true, data, buffer) => readDexClasses numberOfDexFiles count data buffer
          | (false, data, buffer) => (false, data, buffer)

/-- The `inline_cache_size` dex pcs of a method: the loop of `ReadInlineCache`.
`FindOrAddDexPc` adds a dex pc before its classes are read, so a dex pc whose
classes fail to read stays, with the classes read so far. -/
def readDexPcs (numberOfDexFiles : BitVec 8) : Nat → InlineCacheMap → SafeBuffer → Bool × InlineCacheMap × SafeBuffer
  | 0, inlineCache, buffer => (true, inlineCache, buffer)
  | count + 1, inlineCache, buffer =>
    match buffer.readUintAndAdvance 2 with
    | none => (false, inlineCache, buffer)
    | some (dexPc, buffer) =>
      match buffer.readUintAndAdvance 1 with
      | none => (false, inlineCache, buffer)
      | some (dexToClassesMapSize, buffer) =>
        let data := (inlineCache.lookup dexPc).getD DexPcData.empty
        if dexToClassesMapSize = kIsMissingTypesEncoding then
          readDexPcs numberOfDexFiles count (inlineCache.insert dexPc data.setIsMissingTypes) buffer
        else if dexToClassesMapSize = kIsMegamorphicEncoding then
          readDexPcs numberOfDexFiles count (inlineCache.insert dexPc data.setIsMegamorphic) buffer
        else
          match readDexClasses numberOfDexFiles dexToClassesMapSize.toNat data buffer with
          | (true, data, buffer) => readDexPcs numberOfDexFiles count (inlineCache.insert dexPc data) buffer
          | (false, data, buffer) => (false, inlineCache.insert dexPc data, buffer)

/-- `ReadInlineCache`. -/
def readInlineCache (buffer : SafeBuffer) (numberOfDexFiles : BitVec 8) (inlineCache : InlineCacheMap) :
    Bool × InlineCacheMap × SafeBuffer :=
  match buffer.readUintAndAdvance 2 with
  | none => (false, inlineCache, buffer)
  | some (inlineCacheSize, buffer) => readDexPcs numberOfDexFiles inlineCacheSize.toNat inlineCache buffer

open SafeBuffer in
theorem readClassesOfDex_countUnreadBytes_le (dexProfileIndex : BitVec 8) :
    ∀ count data buffer, (readClassesOfDex dexProfileIndex count data buffer).2.2.countUnreadBytes ≤ buffer.countUnreadBytes
  | 0, _, _ => le_rfl
  | count + 1, data, buffer => by
    rw [readClassesOfDex]
    split
    · exact le_rfl
    · next typeIndex rest read =>
      have consumed := readUintAndAdvance_countUnreadBytes read
      have later := readClassesOfDex_countUnreadBytes_le dexProfileIndex count (data.addClass dexProfileIndex typeIndex) rest
      omega

open SafeBuffer in
theorem readDexClasses_countUnreadBytes_le (numberOfDexFiles : BitVec 8) :
    ∀ count data buffer, (readDexClasses numberOfDexFiles count data buffer).2.2.countUnreadBytes ≤ buffer.countUnreadBytes
  | 0, _, _ => le_rfl
  | count + 1, data, buffer => by
    rw [readDexClasses]
    split
    · exact le_rfl
    · next dexProfileIndex afterIndex readIndex =>
      have consumedIndex := readUintAndAdvance_countUnreadBytes readIndex
      split
      · dsimp only
        omega
      · next dexClassesSize afterSize readSize =>
        have consumedSize := readUintAndAdvance_countUnreadBytes readSize
        split
        · dsimp only
          omega
        · split
          · next _ data' buffer' read =>
            have classes := readClassesOfDex_countUnreadBytes_le dexProfileIndex dexClassesSize.toNat data afterSize
            rw [read] at classes
            exact (readDexClasses_countUnreadBytes_le numberOfDexFiles count data' buffer').trans (by dsimp only at classes; omega)
          · next _ data' buffer' read =>
            have classes := readClassesOfDex_countUnreadBytes_le dexProfileIndex dexClassesSize.toNat data afterSize
            rw [read] at classes
            dsimp only at classes ⊢
            omega

open SafeBuffer in
theorem readDexPcs_countUnreadBytes_le (numberOfDexFiles : BitVec 8) :
    ∀ count inlineCache buffer,
      (readDexPcs numberOfDexFiles count inlineCache buffer).2.2.countUnreadBytes ≤ buffer.countUnreadBytes
  | 0, _, _ => le_rfl
  | count + 1, inlineCache, buffer => by
    rw [readDexPcs]
    split
    · exact le_rfl
    · next dexPc afterPc readPc =>
      have consumedPc := readUintAndAdvance_countUnreadBytes readPc
      split
      · dsimp only
        omega
      · next dexToClassesMapSize afterSize readSize =>
        have consumedSize := readUintAndAdvance_countUnreadBytes readSize
        dsimp only
        split
        · exact (readDexPcs_countUnreadBytes_le numberOfDexFiles count _ afterSize).trans (by omega)
        · split
          · exact (readDexPcs_countUnreadBytes_le numberOfDexFiles count _ afterSize).trans (by omega)
          · -- the classes of the dex pc, then the dex pcs after it
            have classes := readDexClasses_countUnreadBytes_le numberOfDexFiles dexToClassesMapSize.toNat
              ((inlineCache.lookup dexPc).getD DexPcData.empty) afterSize
            split
            · next _ data' buffer' read =>
              rw [read] at classes
              exact (readDexPcs_countUnreadBytes_le numberOfDexFiles count _ buffer').trans
                (by dsimp only at classes; omega)
            · next _ data' buffer' read =>
              rw [read] at classes
              dsimp only at classes ⊢
              omega

/-- `ReadInlineCache` only reads. -/
theorem readInlineCache_countUnreadBytes_le (buffer : SafeBuffer) (numberOfDexFiles : BitVec 8)
    (inlineCache : InlineCacheMap) :
    (readInlineCache buffer numberOfDexFiles inlineCache).2.2.countUnreadBytes ≤ buffer.countUnreadBytes := by
  rw [readInlineCache]
  split
  · exact le_rfl
  · next inlineCacheSize rest read =>
    have consumed := SafeBuffer.readUintAndAdvance_countUnreadBytes read
    have later := readDexPcs_countUnreadBytes_le numberOfDexFiles inlineCacheSize.toNat inlineCache rest
    omega

/-- `ProfileLineHeader`. -/
structure ProfileLineHeader where
  dexLocation : List (BitVec 8)
  classSetSize : BitVec 16
  methodRegionSizeBytes : BitVec 32
  checksum : BitVec 32
  numMethodIds : BitVec 32

/-- The loop of `ReadMethods`: while more than `expected` bytes are left, a method
index, as the difference with the last one, and its inline cache, read into the
inline caches of the method that `FindOrAddMethod` finds or adds. Each pass reads at
least the two bytes of the difference, so the loop ends. -/
def readMethodsLoop (numberOfDexFiles : BitVec 8) (lineHeader : ProfileLineHeader) (expected : Nat)
    (lastMethodIndex : BitVec 16) (profile : ProfileCompilationInfo) (buffer : SafeBuffer) :
    Option (Bool × ProfileCompilationInfo × SafeBuffer) :=
  if buffer.countUnreadBytes > expected then
    match profile.getOrAddDexFileData lineHeader.dexLocation lineHeader.checksum lineHeader.numMethodIds with
    | (_, none) => none
    | (profile, some index) =>
      match read : buffer.readUintAndAdvance 2 with
      | none => some (false, profile, buffer)
      | some (diffWithLastMethodIndex, rest) =>
        let methodIndex := lastMethodIndex + diffWithLastMethodIndex
        match profile.info[index]? with
        | none => none
        | some data =>
          match cached : readInlineCache rest numberOfDexFiles ((data.methodMap.lookup methodIndex).getD ∅) with
          | (ok, inlineCache, next) =>
            let profile := profile.modifyData index
              (fun data => { data with methodMap := data.methodMap.insert methodIndex inlineCache }) fun _ => rfl
            if ok then readMethodsLoop numberOfDexFiles lineHeader expected methodIndex profile next
            else some (false, profile, next)
  else some (true, profile, buffer)
termination_by buffer.countUnreadBytes
decreasing_by
  have consumed := SafeBuffer.readUintAndAdvance_countUnreadBytes read
  have kept := readInlineCache_countUnreadBytes_le rest numberOfDexFiles ((data.methodMap.lookup methodIndex).getD ∅)
  rw [cached] at kept
  exact Nat.lt_of_le_of_lt kept (by omega)

/-- `ReadMethods`. The counts are `uint32_t` in the source; the buffer holds the
uncompressed data, whose size is a `uint32_t`, so none of them wraps. -/
def readMethods (profile : ProfileCompilationInfo) (buffer : SafeBuffer) (numberOfDexFiles : BitVec 8)
    (lineHeader : ProfileLineHeader) : Option (Bool × ProfileCompilationInfo × SafeBuffer) :=
  let unreadBytesBeforeOperation := buffer.countUnreadBytes
  if unreadBytesBeforeOperation < lineHeader.methodRegionSizeBytes.toNat then
    -- `return kProfileLoadBadData;` in a function that returns `bool`
    some (kProfileLoadBadData.toBool, profile, buffer)
  else
    let expectedUnreadBytesAfterOperation := buffer.countUnreadBytes - lineHeader.methodRegionSizeBytes.toNat
    match readMethodsLoop numberOfDexFiles lineHeader expectedUnreadBytesAfterOperation 0 profile buffer with
    | some (true, profile, buffer) =>
      let totalBytesRead := unreadBytesBeforeOperation - buffer.countUnreadBytes
      if totalBytesRead ≠ lineHeader.methodRegionSizeBytes.toNat then some (false, profile, buffer)
      else some (true, profile, buffer)
    | result => result

/-- The loop of `ReadClasses`: `class_set_size` type indices, each as the difference
with the last one, each added by `AddClassIndex`. -/
def readClassesLoop (lineHeader : ProfileLineHeader) :
    Nat → BitVec 16 → ProfileCompilationInfo → SafeBuffer → Bool × ProfileCompilationInfo × SafeBuffer
  | 0, _, profile, buffer => (true, profile, buffer)
  | count + 1, lastClassIndex, profile, buffer =>
    match buffer.readUintAndAdvance 2 with
    | none => (false, profile, buffer)
    | some (diffWithLastClassIndex, buffer) =>
      let typeIndex := lastClassIndex + diffWithLastClassIndex
      match profile.addClassIndex lineHeader.dexLocation lineHeader.checksum typeIndex lineHeader.numMethodIds with
      | (true, profile) => readClassesLoop lineHeader count typeIndex profile buffer
      | (false, profile) => (false, profile, buffer)

/-- `ReadClasses`. -/
def readClasses (profile : ProfileCompilationInfo) (buffer : SafeBuffer) (lineHeader : ProfileLineHeader) :
    Bool × ProfileCompilationInfo × SafeBuffer :=
  let unreadBytesBeforeOp := buffer.countUnreadBytes
  if unreadBytesBeforeOp < lineHeader.classSetSize.toNat then
    -- `return kProfileLoadBadData;` in a function that returns `bool`
    (kProfileLoadBadData.toBool, profile, buffer)
  else
    match readClassesLoop lineHeader lineHeader.classSetSize.toNat 0 profile buffer with
    | (true, profile, buffer) =>
      let totalBytesRead := unreadBytesBeforeOp - buffer.countUnreadBytes
      let expectedBytesRead := lineHeader.classSetSize.toNat * 2
      if totalBytesRead ≠ expectedBytesRead then (false, profile, buffer) else (true, profile, buffer)
    | (false, profile, buffer) => (false, profile, buffer)

/-! ## Headers and lines -/

/-- `ReadProfileLineHeaderElements`: the five numbers of a line header, the dex
location left empty. -/
def readProfileLineHeaderElements (buffer : SafeBuffer) : Option (BitVec 16 × ProfileLineHeader × SafeBuffer) := do
  let (dexLocationSize, buffer) ← buffer.readUintAndAdvance 2
  let (classSetSize, buffer) ← buffer.readUintAndAdvance 2
  let (methodRegionSizeBytes, buffer) ← buffer.readUintAndAdvance 4
  let (checksum, buffer) ← buffer.readUintAndAdvance 4
  let (numMethodIds, buffer) ← buffer.readUintAndAdvance 4
  return (dexLocationSize, ⟨[], classSetSize, methodRegionSizeBytes, checksum, numMethodIds⟩, buffer)

/-- `ReadProfileLineHeader`. -/
def readProfileLineHeader (buffer : SafeBuffer) : Except ProfileLoadSatus (ProfileLineHeader × SafeBuffer) :=
  if buffer.countUnreadBytes < kLineHeaderSize then .error kProfileLoadBadData
  else
    match readProfileLineHeaderElements buffer with
    | none => .error kProfileLoadBadData
    | some (dexLocationSize, lineHeader, buffer) =>
      if dexLocationSize.toNat = 0 ∨ dexLocationSize.toNat > kMaxDexFileKeyLength then .error kProfileLoadBadData
      else if buffer.countUnreadBytes < dexLocationSize.toNat then .error kProfileLoadBadData
      else .ok ({ lineHeader with dexLocation := buffer.unread.take dexLocationSize.toNat },
        buffer.advance dexLocationSize.toNat)

/-- `ReadProfileLine`: the data of the line's dex file, its methods, its classes and
its bitmap, copied over the `bitmap_storage` of the data. -/
def readProfileLine (profile : ProfileCompilationInfo) (buffer : SafeBuffer) (numberOfDexFiles : BitVec 8)
    (lineHeader : ProfileLineHeader) : Option (ProfileLoadSatus × ProfileCompilationInfo × SafeBuffer) :=
  match profile.getOrAddDexFileData lineHeader.dexLocation lineHeader.checksum lineHeader.numMethodIds with
  | (profile, none) => some (kProfileLoadBadData, profile, buffer)
  | (profile, some index) =>
    match readMethods profile buffer numberOfDexFiles lineHeader with
    | none => none
    | some (false, profile, buffer) => some (kProfileLoadBadData, profile, buffer)
    | some (true, profile, buffer) =>
      match readClasses profile buffer lineHeader with
      | (false, profile, buffer) => some (kProfileLoadBadData, profile, buffer)
      | (true, profile, buffer) =>
        match profile.info[index]? with
        | none => none
        | some data =>
          let bytes := data.bitmapStorage.length
          if buffer.countUnreadBytes < bytes then some (kProfileLoadBadData, profile, buffer)
          else
            let copied := profile.modifyData index (fun data => { data with
              bitmapStorage := List.ofFn (n := data.bitmapStorage.length) fun i => buffer.unread.getD i 0
              bitmapStorage_length := by rw [List.length_ofFn, data.bitmapStorage_length] }) fun _ => rfl
            some (kProfileLoadSuccess, copied, buffer.advance bytes)

/-- The `number_of_dex_files` lines of the data, each read after its header, until a
status other than `kProfileLoadSuccess`. -/
def readProfileLines (numberOfDexFiles : BitVec 8) :
    Nat → ProfileCompilationInfo → SafeBuffer → Option (ProfileLoadSatus × ProfileCompilationInfo × SafeBuffer)
  | 0, profile, buffer => some (kProfileLoadSuccess, profile, buffer)
  | lines + 1, profile, buffer =>
    match readProfileLineHeader buffer with
    | .error status => some (status, profile, buffer)
    | .ok (lineHeader, buffer) =>
      match readProfileLine profile buffer numberOfDexFiles lineHeader with
      | none => none
      | some (status, profile, buffer) =>
        if status ≠ kProfileLoadSuccess then some (status, profile, buffer)
        else readProfileLines numberOfDexFiles lines profile buffer

/-- `ReadProfileHeader` of a file: the number of dex files, the two sizes and the
bytes of the file after the header. -/
def readProfileHeader (file : List (BitVec 8)) :
    Except ProfileLoadSatus (BitVec 8 × BitVec 32 × BitVec 32 × List (BitVec 8)) :=
  -- `FillFromFd` of the header
  if file.length < kMagicVersionSize then .error kProfileLoadBadData
  else
    let safeBuffer : SafeBuffer := ⟨file.take kMagicVersionSize⟩
    match safeBuffer.compareAndAdvance kProfileMagic with
    | none => .error kProfileLoadVersionMismatch
    | some safeBuffer =>
      match safeBuffer.compareAndAdvance kProfileVersion with
      | none => .error kProfileLoadVersionMismatch
      | some safeBuffer =>
        match safeBuffer.readUintAndAdvance 1 with
        | none => .error kProfileLoadBadData
        | some (numberOfDexFiles, safeBuffer) =>
          match safeBuffer.readUintAndAdvance 4 with
          | none => .error kProfileLoadBadData
          | some (uncompressedDataSize, safeBuffer) =>
            match safeBuffer.readUintAndAdvance 4 with
            | none => .error kProfileLoadBadData
            | some (compressedDataSize, _) =>
              .ok (numberOfDexFiles, uncompressedDataSize, compressedDataSize, file.drop kMagicVersionSize)

/-- `InflateBuffer` returns `Z_STREAM_END` when the input is one whole stream whose
bytes fill the output exactly: then the bytes, else nothing. -/
def inflateBuffer (inflate : List (BitVec 8) → Option (List (BitVec 8))) (inBuffer : List (BitVec 8))
    (expectedUncompressedDataSize : Nat) : Option (List (BitVec 8)) :=
  match inflate inBuffer with
  | some out => if out.length = expectedUncompressedDataSize then some out else none
  | none => none

/-- `LoadInternal` of a file into `profile`, with the status and the profile after
it. The file is read whole, so `fstat` and `read` do not fail. -/
def loadInternal (kIsTargetBuild : Bool) (inflate : List (BitVec 8) → Option (List (BitVec 8)))
    (profile : ProfileCompilationInfo) (file : List (BitVec 8)) : Option (ProfileLoadSatus × ProfileCompilationInfo) :=
  if !profile.isEmpty then some (kProfileLoadWouldOverwiteData, profile)
  -- an empty file is an empty profile
  else if file.length = 0 then some (kProfileLoadSuccess, profile)
  else
    match readProfileHeader file with
    | .error status => some (status, profile)
    | .ok (numberOfDexFiles, uncompressedDataSize, compressedDataSize, rest) =>
      if kIsTargetBuild && decide (uncompressedDataSize.toNat > kProfileSizeErrorThresholdInBytes) then
        some (kProfileLoadBadData, profile)
      else
        -- `ReadFully` of the compressed data, then `testEOF` for a byte after it
        let bytesReadSuccess := decide (compressedDataSize.toNat ≤ rest.length)
        if rest.length > compressedDataSize.toNat then some (kProfileLoadBadData, profile)
        else if !bytesReadSuccess then some (kProfileLoadBadData, profile)
        else
          match inflateBuffer inflate (rest.take compressedDataSize.toNat) uncompressedDataSize.toNat with
          | none => some (kProfileLoadBadData, profile)
          | some uncompressedData =>
            match readProfileLines numberOfDexFiles numberOfDexFiles.toNat profile ⟨uncompressedData⟩ with
            | none => none
            | some (status, profile, buffer) =>
              if status ≠ kProfileLoadSuccess then some (status, profile)
              -- the data must be read to its end
              else if buffer.countUnreadBytes > 0 then some (kProfileLoadBadData, profile)
              else some (kProfileLoadSuccess, profile)

/-! ## A region the reads do not read -/

/-- A methods region longer than the bytes left: `ReadMethods` returns `true` and
reads nothing. -/
theorem readMethods_of_short {profile : ProfileCompilationInfo} {buffer : SafeBuffer} {lineHeader : ProfileLineHeader}
    (numberOfDexFiles : BitVec 8) (short : buffer.countUnreadBytes < lineHeader.methodRegionSizeBytes.toNat) :
    readMethods profile buffer numberOfDexFiles lineHeader = some (true, profile, buffer) := by
  rw [readMethods, if_pos short]
  rfl

/-- No classes: `ReadClasses` reads nothing. -/
theorem readClasses_of_zero (profile : ProfileCompilationInfo) (buffer : SafeBuffer) {lineHeader : ProfileLineHeader}
    (noClasses : lineHeader.classSetSize = 0) :
    readClasses profile buffer lineHeader = (true, profile, buffer) := by
  have zero : lineHeader.classSetSize.toNat = 0 := by rw [noClasses]; rfl
  rw [readClasses, if_neg (by omega), zero, readClassesLoop]
  simp

/-! ## Files that `Save` writes -/

/-- The header `Save` writes: the magic, the version, the number of dex files, and the
sizes of the data before and after compression. -/
def profileHeaderBytes (numberOfDexFiles : BitVec 8) (uncompressedDataSize compressedDataSize : BitVec 32) :
    List (BitVec 8) :=
  kProfileMagic ++ kProfileVersion ++
    addUintToBuffer (addUintToBuffer (addUintToBuffer [] 1 numberOfDexFiles) 4 uncompressedDataSize) 4 compressedDataSize

/-- The line header `Save` writes, and the dex location after it
(`AddStringToBuffer`). -/
def lineHeaderBytes (lineHeader : ProfileLineHeader) : List (BitVec 8) :=
  addUintToBuffer (addUintToBuffer (addUintToBuffer (addUintToBuffer (addUintToBuffer []
    2 (BitVec.ofNat 16 lineHeader.dexLocation.length)) 2 lineHeader.classSetSize) 4 lineHeader.methodRegionSizeBytes)
    4 lineHeader.checksum) 4 lineHeader.numMethodIds ++ lineHeader.dexLocation

theorem addUintToBuffer_eq (buffer : List (BitVec 8)) (size : Nat) (value : BitVec (8 * size)) :
    addUintToBuffer buffer size value = buffer ++ addUintToBuffer [] size value := by
  rw [addUintToBuffer, addUintToBuffer, List.nil_append]

theorem length_addUintToBuffer (buffer : List (BitVec 8)) (size : Nat) (value : BitVec (8 * size)) :
    (addUintToBuffer buffer size value).length = buffer.length + size := by
  rw [addUintToBuffer, List.length_append, List.length_map, List.length_range]

theorem length_lineHeaderBytes (lineHeader : ProfileLineHeader) :
    (lineHeaderBytes lineHeader).length = kLineHeaderSize + lineHeader.dexLocation.length := by
  simp only [lineHeaderBytes, List.length_append, length_addUintToBuffer, List.length_nil, kLineHeaderSize]

open SafeBuffer in
/-- A header as `Save` writes it reads back, and the bytes after it are left. -/
theorem readProfileHeader_profileHeaderBytes (numberOfDexFiles : BitVec 8) (uncompressedDataSize compressedDataSize : BitVec 32)
    (rest : List (BitVec 8)) :
    readProfileHeader (profileHeaderBytes numberOfDexFiles uncompressedDataSize compressedDataSize ++ rest) =
      .ok (numberOfDexFiles, uncompressedDataSize, compressedDataSize, rest) := by
  have fields : profileHeaderBytes numberOfDexFiles uncompressedDataSize compressedDataSize =
      kProfileMagic ++ (kProfileVersion ++ (addUintToBuffer [] 1 numberOfDexFiles ++
        (addUintToBuffer [] 4 uncompressedDataSize ++ (addUintToBuffer [] 4 compressedDataSize ++ [])))) := by
    simp only [profileHeaderBytes, addUintToBuffer, List.nil_append, List.append_assoc, List.append_nil]
  have length : (profileHeaderBytes numberOfDexFiles uncompressedDataSize compressedDataSize).length = kMagicVersionSize := by
    rw [fields]
    simp only [List.length_append, length_addUintToBuffer, List.length_nil]
    rfl
  rw [readProfileHeader, if_neg (by rw [List.length_append, length]; omega)]
  simp only [List.take_left' length, List.drop_left' length]
  rw [fields]
  simp only [compareAndAdvance_append, readUintAndAdvance_addUintToBuffer]

open SafeBuffer in
theorem readProfileLineHeaderElements_lineHeaderBytes (lineHeader : ProfileLineHeader) (rest : List (BitVec 8)) :
    readProfileLineHeaderElements ⟨lineHeaderBytes lineHeader ++ rest⟩ =
      some (BitVec.ofNat 16 lineHeader.dexLocation.length,
        ⟨[], lineHeader.classSetSize, lineHeader.methodRegionSizeBytes, lineHeader.checksum, lineHeader.numMethodIds⟩,
        ⟨lineHeader.dexLocation ++ rest⟩) := by
  have fields : lineHeaderBytes lineHeader ++ rest =
      addUintToBuffer [] 2 (BitVec.ofNat 16 lineHeader.dexLocation.length) ++ (addUintToBuffer [] 2 lineHeader.classSetSize ++
        (addUintToBuffer [] 4 lineHeader.methodRegionSizeBytes ++ (addUintToBuffer [] 4 lineHeader.checksum ++
          (addUintToBuffer [] 4 lineHeader.numMethodIds ++ (lineHeader.dexLocation ++ rest))))) := by
    simp only [lineHeaderBytes, addUintToBuffer, List.nil_append, List.append_assoc]
  rw [fields]
  simp only [readProfileLineHeaderElements, readUintAndAdvance_addUintToBuffer, Option.bind_eq_bind, Option.bind_some]
  rfl

/-- A line header as `Save` writes it, with a dex location that is not empty nor
longer than `kMaxDexFileKeyLength`, reads back, and the bytes after it are left. -/
theorem readProfileLineHeader_lineHeaderBytes {lineHeader : ProfileLineHeader}
    (located : 0 < lineHeader.dexLocation.length ∧ lineHeader.dexLocation.length ≤ kMaxDexFileKeyLength)
    (rest : List (BitVec 8)) :
    readProfileLineHeader ⟨lineHeaderBytes lineHeader ++ rest⟩ = .ok (lineHeader, ⟨rest⟩) := by
  have size : (BitVec.ofNat 16 lineHeader.dexLocation.length).toNat = lineHeader.dexLocation.length := by
    rw [BitVec.toNat_ofNat, Nat.mod_eq_of_lt (by rw [kMaxDexFileKeyLength] at located; omega)]
  have whole : ¬(SafeBuffer.countUnreadBytes ⟨lineHeaderBytes lineHeader ++ rest⟩ < kLineHeaderSize) := by
    rw [SafeBuffer.countUnreadBytes, List.length_append, length_lineHeaderBytes]
    omega
  rw [readProfileLineHeader, if_neg whole, readProfileLineHeaderElements_lineHeaderBytes]
  dsimp only
  rw [size, if_neg (by omega), if_neg (by rw [SafeBuffer.countUnreadBytes, List.length_append]; omega),
    List.take_left' rfl, SafeBuffer.advance, List.drop_left' rfl]

/-- A line whose header promises a methods region, with no bytes after the dex
location and no classes or methods: the line reads, with nothing read. -/
theorem readProfileLine_of_missing_methods {lineHeader : ProfileLineHeader}
    (promised : 0 < lineHeader.methodRegionSizeBytes.toNat) (noClasses : lineHeader.classSetSize = 0)
    (noMethods : lineHeader.numMethodIds = 0) :
    ∃ loaded, readProfileLine empty ⟨[]⟩ 1 lineHeader = some (kProfileLoadSuccess, loaded, ⟨[]⟩) := by
  obtain ⟨added, getOrAdd, addedInfo⟩ :=
    @getOrAddDexFileData_of_new empty lineHeader.dexLocation rfl (by decide) lineHeader.checksum lineHeader.numMethodIds
  have noBitmap : bitmapBytes lineHeader.numMethodIds = 0 := by rw [noMethods]; rfl
  rw [readProfileLine, getOrAdd]
  dsimp only
  -- `ReadMethods` finds no byte where the region should be, and reads on
  rw [@readMethods_of_short added ⟨[]⟩ lineHeader 1 promised]
  dsimp only
  rw [readClasses_of_zero _ _ noClasses]
  dsimp only
  rw [addedInfo]
  simp [DexFileData.make, noBitmap, SafeBuffer.countUnreadBytes, SafeBuffer.advance]

/-- A file whose one line promises a methods region but ends after the dex location
loads with `kProfileLoadSuccess`. At the start of the region no byte is left, and
`ReadMethods` returns `true` there without reading. -/
theorem loadInternal_accepts_missing_methods (kIsTargetBuild : Bool)
    (inflate : List (BitVec 8) → Option (List (BitVec 8))) (lineHeader : ProfileLineHeader) (compressed : List (BitVec 8))
    (located : 0 < lineHeader.dexLocation.length ∧ lineHeader.dexLocation.length ≤ kMaxDexFileKeyLength)
    (promised : 0 < lineHeader.methodRegionSizeBytes.toNat) (noClasses : lineHeader.classSetSize = 0)
    (noMethods : lineHeader.numMethodIds = 0) (inflated : inflate compressed = some (lineHeaderBytes lineHeader))
    (fits : compressed.length < 2 ^ 32) :
    (∃ profile, loadInternal kIsTargetBuild inflate empty
        (profileHeaderBytes 1 (BitVec.ofNat 32 (lineHeaderBytes lineHeader).length) (BitVec.ofNat 32 compressed.length) ++
          compressed) = some (kProfileLoadSuccess, profile)) ∧
      readProfileLineHeader ⟨lineHeaderBytes lineHeader⟩ = .ok (lineHeader, ⟨[]⟩) ∧
      ∀ profile, readMethods profile ⟨[]⟩ 1 lineHeader = some (true, profile, ⟨[]⟩) := by
  have lineHeaderRead := readProfileLineHeader_lineHeaderBytes located []
  rw [List.append_nil] at lineHeaderRead
  refine ⟨?_, lineHeaderRead, fun profile => @readMethods_of_short profile ⟨[]⟩ lineHeader 1 promised⟩
  obtain ⟨loaded, lineRead⟩ := readProfileLine_of_missing_methods promised noClasses noMethods
  have uncompressedSize : (BitVec.ofNat 32 (lineHeaderBytes lineHeader).length).toNat = (lineHeaderBytes lineHeader).length := by
    rw [BitVec.toNat_ofNat, Nat.mod_eq_of_lt]
    rw [length_lineHeaderBytes, kLineHeaderSize]
    rw [kMaxDexFileKeyLength] at located
    omega
  have compressedSize : (BitVec.ofNat 32 compressed.length).toNat = compressed.length := by
    rw [BitVec.toNat_ofNat, Nat.mod_eq_of_lt fits]
  have small : ¬(lineHeaderBytes lineHeader).length > kProfileSizeErrorThresholdInBytes := by
    rw [length_lineHeaderBytes, kLineHeaderSize, kProfileSizeErrorThresholdInBytes]
    rw [kMaxDexFileKeyLength] at located
    omega
  have inflatedLine : inflateBuffer inflate compressed (lineHeaderBytes lineHeader).length = some (lineHeaderBytes lineHeader) := by
    rw [inflateBuffer, inflated]
    exact if_pos rfl
  -- the one line, read from the whole of the data
  have linesRead : readProfileLines 1 1 empty ⟨lineHeaderBytes lineHeader⟩ = some (kProfileLoadSuccess, loaded, ⟨[]⟩) := by
    rw [readProfileLines, lineHeaderRead]
    dsimp only
    rw [lineRead]
    rfl
  refine ⟨loaded, ?_⟩
  rw [loadInternal, if_neg (by decide), if_neg (by simp [profileHeaderBytes, kProfileMagic]),
    readProfileHeader_profileHeaderBytes]
  dsimp only
  rw [uncompressedSize, compressedSize, if_neg (by simp [small]), if_neg (Nat.lt_irrefl _), if_neg (by simp),
    List.take_length, inflatedLine]
  dsimp only
  rw [show BitVec.toNat (1 : BitVec 8) = 1 from rfl, linesRead]
  rfl

/-- The line of a file that loads without its methods: the dex location `a`, a
methods region of four bytes, no classes and no methods. -/
def missingMethodsLine : ProfileLineHeader := ⟨[0x61], 0, 4, 0, 0⟩

example : lineHeaderBytes missingMethodsLine = [1, 0, 0, 0, 4, 0, 0, 0, 0, 0, 0, 0, 0, 0, 0, 0, 0x61] := by decide

/-- The zlib stream that `DeflateBuffer` (`deflate` at level 1) writes for the bytes of
`missingMethodsLine`. -/
def missingMethodsStream : List (BitVec 8) :=
  [0x78, 0x01, 0x63, 0x64, 0x60, 0x60, 0x60, 0x01, 0x62, 0x18, 0x48, 0x04, 0x00, 0x00, 0xb7, 0x00, 0x67]

/-- What zlib's `inflate` gives for `missingMethodsStream`, and for no other input. -/
def inflateMissingMethodsStream (bytes : List (BitVec 8)) : Option (List (BitVec 8)) :=
  if bytes = missingMethodsStream then some (lineHeaderBytes missingMethodsLine) else none

theorem missingMethodsLine_loads :
    (∃ profile, loadInternal false inflateMissingMethodsStream empty
        (profileHeaderBytes 1 (BitVec.ofNat 32 (lineHeaderBytes missingMethodsLine).length)
          (BitVec.ofNat 32 missingMethodsStream.length) ++ missingMethodsStream) = some (kProfileLoadSuccess, profile)) ∧
      readProfileLineHeader ⟨lineHeaderBytes missingMethodsLine⟩ = .ok (missingMethodsLine, ⟨[]⟩) ∧
      ∀ profile, readMethods profile ⟨[]⟩ 1 missingMethodsLine = some (true, profile, ⟨[]⟩) :=
  loadInternal_accepts_missing_methods false inflateMissingMethodsStream missingMethodsLine missingMethodsStream
    ⟨by decide, by decide⟩ (by decide) rfl rfl (if_pos rfl) (by decide)

end ProfileCompilationInfo

end Art.Runtime
