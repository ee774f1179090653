import Art.Runtime.Utf.Compare

/-!
# `TypeLookupTable`

The type lookup table of an oat file maps a class descriptor to the index of its
class def (`type_lookup_table.{h,cc}`). It has a power of two of slots, at least
as many as class defs. The constructor puts the entry of each class def in the
slot that the low bits of its descriptor's hash select or, when an earlier class
def took that slot, in a free slot after it, linked from the last entry of the
bucket by `next_pos_delta`. The 16 bits of an entry's `data` keep the class def
index in the bits of `mask_` and the hash of the descriptor in the bits above;
`Lookup` walks the bucket of a hash and compares those bits before it compares
strings.

The hash is `ComputeModifiedUtf8Hash`, which adds each `char` of the descriptor
to a `uint32_t` as an `int`. A byte of `0x80` and above is negative where `char`
is signed, as on the x86 host where dex2oat writes the table into the oat file,
and positive where it is not, as on the ARM device where the runtime reads it.
The two hashes agree on ASCII descriptors (`computeModifiedUtf8Hash_of_ascii`).
Every entry of a table keeps the hash bits of its own class def
(`create_keeps`), so a table built with signed `char` cannot find a descriptor
whose two hashes differ in the kept bits when it is read with unsigned `char`
(`lookup_ne_of_kept_bits_differ`).

Slots are indexed by `uint32_t` positions, already masked. Every walk of the code
loops until it meets an empty slot or the end of a bucket; a walk here takes at
most `Size()` steps, and `none` is a walk that does not end within them.
-/

set_option autoImplicit false

namespace Art.Runtime

/-! ## `ComputeModifiedUtf8Hash` -/

/-- A `char` as `ComputeModifiedUtf8Hash` adds it to the `uint32_t` hash: the byte,
sign-extended where `char` is signed. -/
def charValue (charIsSigned : Bool) (c : BitVec 8) : BitVec 32 :=
  if charIsSigned then c.signExtend 32 else c.setWidth 32

/-- The loop of `ComputeModifiedUtf8Hash` from `hash`, up to the terminating `NUL`. -/
def computeModifiedUtf8HashLoop (charIsSigned : Bool) (hash : BitVec 32) : List (BitVec 8) → BitVec 32
  | [] => hash
  | c :: chars =>
      if c = 0 then hash else computeModifiedUtf8HashLoop charIsSigned (hash * 31 + charValue charIsSigned c) chars

/-- `ComputeModifiedUtf8Hash`, on a target where `char` is signed or not. -/
def computeModifiedUtf8Hash (charIsSigned : Bool) (chars : List (BitVec 8)) : BitVec 32 :=
  computeModifiedUtf8HashLoop charIsSigned 0 chars

/-- An ASCII byte adds the same value either way. -/
theorem charValue_of_ascii {c : BitVec 8} (ascii : c.toNat < 0x80) : charValue true c = charValue false c := by
  have positive : c.msb = false := by
    rw [BitVec.msb_eq_decide]
    simpa using ascii
  simp only [charValue, if_true, Bool.false_eq_true, if_false]
  exact BitVec.signExtend_eq_setWidth_of_msb_false positive

/-- The hash of an ASCII string does not depend on the signedness of `char`. The
induction is on the string, with the hash so far generalized. -/
theorem computeModifiedUtf8HashLoop_of_ascii (hash : BitVec 32) {chars : List (BitVec 8)}
    (ascii : ∀ c ∈ chars, c.toNat < 0x80) :
    computeModifiedUtf8HashLoop true hash chars = computeModifiedUtf8HashLoop false hash chars := by
  induction chars generalizing hash with
  | nil => rfl
  | cons c chars ih =>
    simp only [computeModifiedUtf8HashLoop]
    rw [charValue_of_ascii (ascii c List.mem_cons_self),
      ih _ (fun d mem => ascii d (List.mem_cons_of_mem c mem))]

theorem computeModifiedUtf8Hash_of_ascii {chars : List (BitVec 8)} (ascii : ∀ c ∈ chars, c.toNat < 0x80) :
    computeModifiedUtf8Hash true chars = computeModifiedUtf8Hash false chars :=
  computeModifiedUtf8HashLoop_of_ascii 0 ascii

/-! ## The table -/

/-- `TypeLookupTable::Entry`: the offset of the descriptor's string data, the class
def index with the kept hash bits, and the distance to the next entry of the
bucket, `0` for the last. -/
structure TypeLookupTable.Entry where
  strOffset : BitVec 32
  data : BitVec 16
  nextPosDelta : BitVec 16
  deriving DecidableEq

namespace TypeLookupTable.Entry

/-- `Entry()`. -/
def empty : Entry := ⟨0, 0, 0⟩

/-- `IsEmpty`. -/
def isEmpty (entry : Entry) : Bool := entry.strOffset == 0

/-- `IsLast`. -/
def isLast (entry : Entry) : Bool := entry.nextPosDelta == 0

end TypeLookupTable.Entry

/-- What the table reads of a dex file: the `string_data_off_` of the descriptor of
each class def, in class def order, and the string data at an offset from the
start of the file, after its ULEB128 length. -/
structure ClassDescriptors where
  descriptorOffsets : List (BitVec 32)
  stringData : BitVec 32 → List (BitVec 8)

/-- `GetStringData` of the descriptor of class def `i`. -/
def ClassDescriptors.descriptor (dex : ClassDescriptors) (i : Nat) : List (BitVec 8) :=
  dex.stringData (dex.descriptorOffsets.getD i 0)

/-- A `TypeLookupTable`: the string data of its dex file at `dex_file_begin_`,
`mask_`, and the `mask_ + 1` entries. -/
structure TypeLookupTable where
  stringData : BitVec 32 → List (BitVec 8)
  mask : BitVec 32
  entries : BitVec 32 → TypeLookupTable.Entry

namespace TypeLookupTable

/-- `DexFile::kDexNoIndex`. -/
def kDexNoIndex : BitVec 32 := 0xffffffff

/-- `SupportedSize`. -/
def supportedSize (numClassDefs : Nat) : Bool := numClassDefs != 0 && numClassDefs ≤ 0xffff

/-- `RoundUpToPowerOfTwo` of a `uint32_t` no larger than `2^31`:
`1 << (32 - CLZ(x - 1))`, the power of two above the highest bit of `x - 1`. -/
def roundUpToPowerOfTwo (x : Nat) : Nat := if x < 2 then x else 2 ^ (Nat.log2 (x - 1) + 1)

/-- `CalculateMask`. -/
def calculateMask (numClassDefs : Nat) : BitVec 32 :=
  if supportedSize numClassDefs then BitVec.ofNat 32 (roundUpToPowerOfTwo numClassDefs) - 1 else 0

/-- `Size()`. -/
def size (t : TypeLookupTable) : BitVec 32 := t.mask + 1

/-- `MakeData`. -/
def makeData (classDefIdx : BitVec 16) (hash mask : BitVec 32) : BitVec 16 :=
  let hashMask : BitVec 16 := (~~~mask).setWidth 16
  (hash.setWidth 16 &&& hashMask) ||| classDefIdx

/-- `CmpHashBits`. -/
def cmpHashBits (t : TypeLookupTable) (data : BitVec 16) (hash : BitVec 32) : Bool :=
  let mask : BitVec 32 := ((~~~t.mask).setWidth 16).setWidth 32
  hash &&& mask == data.setWidth 32 &&& mask

/-- `GetClassDefIdx`. -/
def getClassDefIdx (t : TypeLookupTable) (data : BitVec 16) : BitVec 32 := data.setWidth 32 &&& t.mask

/-- `IsStringsEquals`: the string and the string data at the offset compare equal as
UTF-16 code point values. -/
def isStringsEquals (t : TypeLookupTable) (str : List (BitVec 8)) (strOffset : BitVec 32) : Bool :=
  compareModifiedUtf8ToModifiedUtf8AsUtf16CodePointValues str (t.stringData strOffset) == some 0

/-- The loop of `Lookup` from `pos`, for at most `fuel` entries. -/
def lookupLoop (t : TypeLookupTable) (str : List (BitVec 8)) (hash : BitVec 32) :
    Nat → BitVec 32 → Option (BitVec 32)
  | 0, _ => none
  | fuel + 1, pos =>
      let entry := t.entries pos
      if entry.isEmpty then some kDexNoIndex
      else if t.cmpHashBits entry.data hash && t.isStringsEquals str entry.strOffset then
        some (t.getClassDefIdx entry.data)
      else if entry.isLast then some kDexNoIndex
      else lookupLoop t str hash fuel ((pos + entry.nextPosDelta.setWidth 32) &&& t.mask)

/-- `Lookup`: the class def index of a descriptor, given its hash. -/
def lookup (t : TypeLookupTable) (str : List (BitVec 8)) (hash : BitVec 32) : Option (BitVec 32) :=
  t.lookupLoop str hash t.size.toNat (hash &&& t.mask)

/-- `SetOnInitialPos`: the table with the entry in the slot of its hash, or `none`
when that slot is taken. -/
def setOnInitialPos (t : TypeLookupTable) (entry : Entry) (hash : BitVec 32) : Option TypeLookupTable :=
  let pos := hash &&& t.mask
  if !(t.entries pos).isEmpty then none
  else some { t with entries := Function.update t.entries pos { entry with nextPosDelta := 0 } }

/-- The loop of `FindLastEntryInBucket` from `pos`, for at most `fuel` entries. -/
def findLastEntryInBucket (t : TypeLookupTable) : Nat → BitVec 32 → Option (BitVec 32)
  | 0, _ => none
  | fuel + 1, pos =>
      let entry := t.entries pos
      if entry.isLast then some pos
      else findLastEntryInBucket t fuel ((pos + entry.nextPosDelta.setWidth 32) &&& t.mask)

/-- The probe of `Insert` from `nextPos` to a free slot, for at most `fuel` slots. -/
def probeFree (t : TypeLookupTable) : Nat → BitVec 32 → Option (BitVec 32)
  | 0, _ => none
  | fuel + 1, nextPos =>
      if !(t.entries nextPos).isEmpty then probeFree t fuel ((nextPos + 1) &&& t.mask) else some nextPos

/-- `Insert`: the entry goes to the first free slot after the last entry of the
bucket of its hash, and that entry links to it. -/
def insert (t : TypeLookupTable) (entry : Entry) (hash : BitVec 32) : Option TypeLookupTable := do
  let pos ← t.findLastEntryInBucket t.size.toNat (hash &&& t.mask)
  let nextPos ← t.probeFree t.size.toNat ((pos + 1) &&& t.mask)
  let delta := if pos ≤ nextPos then nextPos - pos else nextPos + t.size - pos
  let linked := Function.update t.entries pos { t.entries pos with nextPosDelta := delta.setWidth 16 }
  return { t with entries := Function.update linked nextPos { entry with nextPosDelta := 0 } }

/-- The hash of the descriptor of class def `i` and the entry the constructor makes
for it. -/
def classDefEntry (charIsSigned : Bool) (dex : ClassDescriptors) (mask : BitVec 32) (i : Nat) :
    BitVec 32 × Entry :=
  let hash := computeModifiedUtf8Hash charIsSigned (dex.descriptor i)
  (hash, ⟨dex.descriptorOffsets.getD i 0, makeData (BitVec.ofNat 16 i) hash mask, 0⟩)

/-- The first stage of the constructor at class def `i`: its entry goes to the slot
of its hash, or `i` joins the conflicts when that slot is taken. -/
def placeInitial (charIsSigned : Bool) (dex : ClassDescriptors) (state : TypeLookupTable × List Nat) (i : Nat) :
    TypeLookupTable × List Nat :=
  let made := classDefEntry charIsSigned dex state.1.mask i
  match state.1.setOnInitialPos made.2 made.1 with
  | some placed => (placed, state.2)
  | none => (state.1, state.2 ++ [i])

/-- The second stage of the constructor at a conflicting class def `i`: `Insert`. -/
def placeConflict (charIsSigned : Bool) (dex : ClassDescriptors) (t : TypeLookupTable) (i : Nat) :
    Option TypeLookupTable :=
  let made := classDefEntry charIsSigned dex t.mask i
  t.insert made.2 made.1

/-- `TypeLookupTable::Create` on a target where `char` is signed or not: `none` where
it returns `nullptr`, and where a walk of the constructor does not end. -/
def create (charIsSigned : Bool) (dex : ClassDescriptors) : Option TypeLookupTable :=
  let numClassDefs := dex.descriptorOffsets.length
  if supportedSize numClassDefs then
    let empty : TypeLookupTable := ⟨dex.stringData, calculateMask numClassDefs, fun _ => Entry.empty⟩
    let firstStage := (List.range numClassDefs).foldl (placeInitial charIsSigned dex) (empty, [])
    firstStage.2.foldlM (placeConflict charIsSigned dex) firstStage.1
  else none

/-! ## The mask -/

/-- `RoundUpToPowerOfTwo` of a positive number is a power of two at least as large,
of at most 16 bits for a number of 16 bits. -/
theorem roundUpToPowerOfTwo_eq {x : Nat} (positive : 0 < x) :
    ∃ n, roundUpToPowerOfTwo x = 2 ^ n ∧ x ≤ 2 ^ n ∧ (x ≤ 0xffff → n ≤ 16) := by
  unfold roundUpToPowerOfTwo
  split
  · exact ⟨0, by omega, by omega, fun _ => by omega⟩
  · refine ⟨Nat.log2 (x - 1) + 1, rfl, ?_, fun small => ?_⟩
    · have := Nat.lt_log2_self (n := x - 1)
      omega
    · have := (Nat.log2_lt (n := x - 1) (by omega) (k := 16)).2 (by omega)
      omega

/-- The mask of a supported number of class defs is `2^n - 1` for a power of two
`2^n` of at most 16 bits that is at least that number: its bits are those below `n`. -/
theorem calculateMask_eq {numClassDefs : Nat} (supported : supportedSize numClassDefs = true) :
    ∃ n ≤ 16, numClassDefs ≤ 2 ^ n ∧ ∀ k, (calculateMask numClassDefs).getLsbD k = decide (k < n) := by
  simp only [supportedSize, Bool.and_eq_true, bne_iff_ne, ne_eq, decide_eq_true_eq] at supported
  obtain ⟨n, pow, fits, small⟩ := roundUpToPowerOfTwo_eq (x := numClassDefs) (by omega)
  have bounded : 2 ^ n ≤ 2 ^ 16 := Nat.pow_le_pow_right (by omega) (small supported.2)
  have toNat_mask : (calculateMask numClassDefs).toNat = 2 ^ n - 1 := by
    rw [calculateMask, if_pos (by simp only [supportedSize]; simp [supported.1, supported.2]), pow,
      BitVec.toNat_sub, BitVec.toNat_ofNat, show (1 : BitVec 32).toNat = 1 from rfl,
      Nat.mod_eq_of_lt (lt_of_le_of_lt bounded (by decide))]
    have : 1 ≤ 2 ^ n := Nat.one_le_two_pow
    omega
  refine ⟨n, small supported.2, fits, fun k => ?_⟩
  rw [BitVec.getLsbD, toNat_mask, Nat.testBit_two_pow_sub_one]

/-- The index of a class def below the number of class defs has its bits in the mask. -/
theorem getLsbD_classDefIdx {numClassDefs i : Nat} (supported : supportedSize numClassDefs = true)
    (inside : i < numClassDefs) (k : Nat) :
    (BitVec.ofNat 16 i).getLsbD k = true → (calculateMask numClassDefs).getLsbD k = true := by
  obtain ⟨n, small, fits, bits⟩ := calculateMask_eq supported
  rw [bits, decide_eq_true_iff]
  intro set
  by_contra beyond
  have below : i < 2 ^ k := lt_of_lt_of_le inside (fits.trans (Nat.pow_le_pow_right (by omega) (by omega)))
  rw [BitVec.getLsbD_ofNat, Nat.testBit_eq_false_of_lt below, Bool.and_false] at set
  contradiction

/-! ## What an entry keeps -/

section Data

variable {idx : BitVec 16} {hash mask : BitVec 32}

/-- `GetClassDefIdx` reads back the index `MakeData` stored, when its bits are in the
mask. -/
theorem getClassDefIdx_makeData (t : TypeLookupTable) (covered : ∀ k, idx.getLsbD k = true → t.mask.getLsbD k = true) :
    t.getClassDefIdx (makeData idx hash t.mask) = idx.setWidth 32 := by
  ext k below
  have bit := covered k
  simp only [getClassDefIdx, makeData, BitVec.getElem_and, BitVec.getElem_setWidth, BitVec.getLsbD_and,
    BitVec.getLsbD_setWidth, BitVec.getLsbD_not, BitVec.getLsbD_or] at bit ⊢
  grind

/-- `CmpHashBits` against the data `MakeData` made of a hash holds only for a hash
with the same bits above the mask in the low 16. -/
theorem keptBits_eq_of_cmpHashBits {t : TypeLookupTable} {hash' : BitVec 32}
    (covered : ∀ k, idx.getLsbD k = true → t.mask.getLsbD k = true)
    (matched : t.cmpHashBits (makeData idx hash t.mask) hash' = true) :
    hash'.setWidth 16 &&& (~~~t.mask).setWidth 16 = hash.setWidth 16 &&& (~~~t.mask).setWidth 16 := by
  simp only [cmpHashBits, makeData, beq_iff_eq] at matched
  ext k below
  have bit := congrArg (fun v => v.getLsbD k) matched
  have inMask := covered k
  simp only [BitVec.getLsbD_and, BitVec.getLsbD_setWidth, BitVec.getLsbD_not, BitVec.getLsbD_or, below,
    decide_true] at bit inMask ⊢
  simp only [BitVec.getElem_and, BitVec.getElem_setWidth]
  grind

end Data

/-! ## The constructor keeps the entries of the class defs -/

section Invariant

variable (charIsSigned : Bool) (dex : ClassDescriptors)

/-- An entry made for one of the class defs: the offset of its descriptor and the
data `MakeData` gives it, with any `next_pos_delta`. -/
def EntryOf (mask : BitVec 32) (entry : Entry) : Prop :=
  ∃ i < dex.descriptorOffsets.length,
    entry.strOffset = (classDefEntry charIsSigned dex mask i).2.strOffset ∧
      entry.data = (classDefEntry charIsSigned dex mask i).2.data

/-- The invariant of the constructor: the mask of the class defs, and in every full
slot an entry made for one of them. -/
structure Keeps (t : TypeLookupTable) : Prop where
  mask_eq : t.mask = calculateMask dex.descriptorOffsets.length
  entries : ∀ pos, (t.entries pos).isEmpty = false → EntryOf charIsSigned dex t.mask (t.entries pos)

variable {charIsSigned dex}

theorem Keeps.setOnInitialPos {t placed : TypeLookupTable} (keeps : Keeps charIsSigned dex t) {i : Nat}
    (inside : i < dex.descriptorOffsets.length)
    (set : t.setOnInitialPos (classDefEntry charIsSigned dex t.mask i).2 (classDefEntry charIsSigned dex t.mask i).1 =
      some placed) :
    Keeps charIsSigned dex placed := by
  dsimp only [TypeLookupTable.setOnInitialPos] at set
  split at set
  · contradiction
  · cases set
    refine ⟨keeps.mask_eq, fun pos full => ?_⟩
    by_cases here : pos = (classDefEntry charIsSigned dex t.mask i).1 &&& t.mask
    · subst here
      simp only [Function.update_self]
      exact ⟨i, inside, rfl, rfl⟩
    · simp only [Function.update_of_ne here] at full ⊢
      exact keeps.entries pos full

theorem Keeps.insert {t inserted : TypeLookupTable} (keeps : Keeps charIsSigned dex t) {entry : Entry} {hash : BitVec 32}
    (made : EntryOf charIsSigned dex t.mask entry) (done : t.insert entry hash = some inserted) :
    Keeps charIsSigned dex inserted := by
  simp only [TypeLookupTable.insert, Option.bind_eq_bind, Option.bind_eq_some_iff, Option.pure_def,
    Option.some.injEq] at done
  obtain ⟨pos, -, nextPos, -, rfl⟩ := done
  refine ⟨keeps.mask_eq, fun q full => ?_⟩
  by_cases new : q = nextPos
  · subst new
    simp only [Function.update_self]
    obtain ⟨i, inside, offset, data⟩ := made
    exact ⟨i, inside, offset, data⟩
  · simp only [Function.update_of_ne new] at full ⊢
    by_cases linked : q = pos
    · -- the last entry of the bucket only gets a new `next_pos_delta`
      subst linked
      simp only [Function.update_self, Entry.isEmpty] at full ⊢
      exact keeps.entries q full
    · simp only [Function.update_of_ne linked] at full ⊢
      exact keeps.entries q full

/-- The first stage keeps the invariant, and the conflicts it collects are class defs.
The induction is on the class defs it places. -/
theorem Keeps.placeInitial : ∀ (indices : List Nat) (state : TypeLookupTable × List Nat),
    Keeps charIsSigned dex state.1 → (∀ i ∈ state.2, i < dex.descriptorOffsets.length) →
    (∀ i ∈ indices, i < dex.descriptorOffsets.length) →
    Keeps charIsSigned dex (indices.foldl (placeInitial charIsSigned dex) state).1 ∧
      ∀ i ∈ (indices.foldl (placeInitial charIsSigned dex) state).2, i < dex.descriptorOffsets.length
  | [], _, keeps, conflicts, _ => ⟨keeps, conflicts⟩
  | i :: indices, (t, pending), keeps, conflicts, inside => by
    have here := inside i List.mem_cons_self
    have rest : ∀ j ∈ indices, j < dex.descriptorOffsets.length := fun j mem => inside j (List.mem_cons_of_mem i mem)
    rw [List.foldl_cons]
    apply Keeps.placeInitial indices _ _ _ rest
    · simp only [TypeLookupTable.placeInitial]
      split
      · next placed set => exact keeps.setOnInitialPos here set
      · exact keeps
    · simp only [TypeLookupTable.placeInitial]
      split
      · exact conflicts
      · intro j mem
        rcases List.mem_append.1 mem with old | new
        · exact conflicts j old
        · rw [List.mem_singleton.1 new]
          exact here

/-- The second stage keeps the invariant. The induction is on the conflicts. -/
theorem Keeps.placeConflicts : ∀ (conflicts : List Nat) (t done : TypeLookupTable),
    Keeps charIsSigned dex t → (∀ i ∈ conflicts, i < dex.descriptorOffsets.length) →
    conflicts.foldlM (placeConflict charIsSigned dex) t = some done → Keeps charIsSigned dex done
  | [], _, _, keeps, _, run => by
    cases run
    exact keeps
  | i :: conflicts, t, done, keeps, inside, run => by
    rw [List.foldlM_cons, Option.bind_eq_bind, Option.bind_eq_some_iff] at run
    obtain ⟨inserted, step, rest⟩ := run
    have made : EntryOf charIsSigned dex t.mask (classDefEntry charIsSigned dex t.mask i).2 :=
      ⟨i, inside i List.mem_cons_self, rfl, rfl⟩
    exact Keeps.placeConflicts conflicts inserted done (keeps.insert made step)
      (fun j mem => inside j (List.mem_cons_of_mem i mem)) rest

/-- Every full slot of a table `Create` builds holds the entry of a class def, with the
data `MakeData` made of its descriptor's hash. -/
theorem create_keeps {t : TypeLookupTable} (created : create charIsSigned dex = some t) :
    Keeps charIsSigned dex t := by
  dsimp only [create] at created
  split at created
  · next supported =>
    have start : Keeps charIsSigned dex ⟨dex.stringData, calculateMask dex.descriptorOffsets.length, fun _ => .empty⟩ :=
      ⟨rfl, fun _ full => by simp [Entry.isEmpty, Entry.empty] at full⟩
    obtain ⟨keeps, conflicts⟩ := Keeps.placeInitial (List.range dex.descriptorOffsets.length)
      (⟨dex.stringData, calculateMask dex.descriptorOffsets.length, fun _ => .empty⟩, []) start
      (fun _ mem => absurd mem List.not_mem_nil) (fun _ mem => List.mem_range.1 mem)
    exact Keeps.placeConflicts _ _ t keeps conflicts created
  · contradiction

/-- The supported number of class defs of a table `Create` builds. -/
theorem create_supported {t : TypeLookupTable} (created : create charIsSigned dex = some t) :
    supportedSize dex.descriptorOffsets.length = true := by
  dsimp only [create] at created
  split at created
  · assumption
  · contradiction

end Invariant

/-! ## `Lookup` -/

/-- What `Lookup` can answer: `kDexNoIndex`, or the index of a full slot's entry
whose kept hash bits match the hash. The induction is on the walk. -/
theorem lookupLoop_eq_some {t : TypeLookupTable} {str : List (BitVec 8)} {hash found : BitVec 32} :
    ∀ (fuel : Nat) (pos : BitVec 32), t.lookupLoop str hash fuel pos = some found →
      found = kDexNoIndex ∨ ∃ q, (t.entries q).isEmpty = false ∧ t.cmpHashBits (t.entries q).data hash = true ∧
        found = t.getClassDefIdx (t.entries q).data
  | 0, _, walk => by
    simp only [lookupLoop, reduceCtorEq] at walk
  | fuel + 1, pos, walk => by
    simp only [lookupLoop] at walk
    by_cases empty : (t.entries pos).isEmpty
    · rw [if_pos empty, Option.some.injEq] at walk
      exact Or.inl walk.symm
    · rw [if_neg empty] at walk
      by_cases matched : t.cmpHashBits (t.entries pos).data hash && t.isStringsEquals str (t.entries pos).strOffset
      · rw [if_pos matched, Option.some.injEq] at walk
        simp only [Bool.and_eq_true] at matched
        exact Or.inr ⟨pos, by simpa using empty, matched.1, walk.symm⟩
      · rw [if_neg matched] at walk
        split at walk
        · rw [Option.some.injEq] at walk
          exact Or.inl walk.symm
        · exact lookupLoop_eq_some fuel _ walk

/-- A table that dex2oat built where `char` is signed, read where `char` is unsigned:
for a class def whose descriptor's two hashes differ in the bits an entry keeps,
`Lookup` with the hash of the reader does not find the class def. -/
theorem lookup_ne_of_kept_bits_differ {dex : ClassDescriptors} {t : TypeLookupTable} (created : create true dex = some t)
    {i : Nat} (inside : i < dex.descriptorOffsets.length)
    (differ : (computeModifiedUtf8Hash true (dex.descriptor i)).setWidth 16 &&& (~~~t.mask).setWidth 16 ≠
      (computeModifiedUtf8Hash false (dex.descriptor i)).setWidth 16 &&& (~~~t.mask).setWidth 16) :
    t.lookup (dex.descriptor i) (computeModifiedUtf8Hash false (dex.descriptor i)) ≠ some (BitVec.ofNat 32 i) := by
  intro found
  have keeps := create_keeps created
  have supported := create_supported created
  have small : dex.descriptorOffsets.length ≤ 0xffff := by
    simp only [supportedSize, Bool.and_eq_true, decide_eq_true_eq] at supported
    exact supported.2
  rcases lookupLoop_eq_some _ _ found with noIndex | ⟨q, full, matched, index⟩
  · -- `kDexNoIndex` is no class def index
    have := congrArg BitVec.toNat noIndex
    rw [BitVec.toNat_ofNat, show kDexNoIndex.toNat = 0xffffffff from rfl] at this
    omega
  · obtain ⟨j, below, -, data⟩ := keeps.entries q full
    have covered : ∀ k, (BitVec.ofNat 16 j).getLsbD k = true → t.mask.getLsbD k = true := by
      rw [keeps.mask_eq]
      exact getLsbD_classDefIdx supported below
    rw [data] at matched index
    dsimp only [classDefEntry] at matched index
    rw [getClassDefIdx_makeData t covered] at index
    -- the entry found is that of class def `i` itself
    have same : j = i := by
      have := congrArg BitVec.toNat index
      simp only [BitVec.toNat_ofNat, BitVec.toNat_setWidth] at this
      omega
    subst same
    exact differ (keptBits_eq_of_cmpHashBits covered matched).symm

/-- A dex file with the one class def `LÄ;`, the string data of its descriptor at
offset `0x70`. -/
def lDiaeresis : ClassDescriptors := ⟨[0x70], fun _ => [0x4c, 0xc3, 0x84, 0x3b]⟩

/-- Its descriptor is the modified UTF-8 of `LÄ;`. The table dex2oat builds where
`char` is signed finds it with the hash of signed `char`, and not with the hash of
unsigned `char`, which differs by `-256 * (31^2 + 31)`: `0x2000` in the low 16 bits. -/
theorem lDiaeresis_lookup_diverges :
    Art.Text.Mutf8 [0x4c, 0xc4, 0x3b] (lDiaeresis.descriptor 0) ∧
      ∃ t, create true lDiaeresis = some t ∧
        t.lookup (lDiaeresis.descriptor 0) (computeModifiedUtf8Hash true (lDiaeresis.descriptor 0)) = some 0 ∧
        t.lookup (lDiaeresis.descriptor 0) (computeModifiedUtf8Hash false (lDiaeresis.descriptor 0)) ≠
          some (BitVec.ofNat 32 0) :=
  ⟨.one (by decide) (by decide) (.two (by decide) (.one (by decide) (by decide) .nil)),
    _, rfl, by decide +kernel, lookup_ne_of_kept_bits_differ rfl (by decide) (by decide)⟩

end TypeLookupTable

end Art.Runtime
