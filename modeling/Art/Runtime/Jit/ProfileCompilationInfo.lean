import Mathlib
import Art.Machine.MapMerge
import Art.Runtime.MemoryRegion

/-!
# `ProfileCompilationInfo`: the data of a profile

A profile keeps, for each dex file it covers, a `DexFileData`
(`profile_compilation_info.{h,cc}`): the profile key and checksum of the dex file,
its number of method ids, the inline caches of its methods, the set of its
profiled classes and the bitmap of its startup and post-startup methods. The
dex files are numbered in the order they were added: `profile_index`, which a
`ClassReference` uses to name a class of another dex file.

`info_` is the vector of the data, and `profile_key_map_` maps each key to the
index of its data in `info_`; `GetOrAddDexFileData` adds a key with the next
index exactly when it adds the data, so the key of `info_[i]` is mapped to `i`,
and the model keeps `info_` only, with the index of a key its position there. The
keys are distinct and at most 255 of them are kept (`ProfileCompilationInfo`),
and each bitmap has the bytes its number of methods asks for (`DexFileData`).

An inline cache of a dex pc (`DexPcData`) holds the classes seen there, fewer than
`kIndividualCacheSize` and each once, unless it is megamorphic or missing types,
and then none: its type carries this. What it says is a `CacheView`: types
missing, megamorphic, or a set of classes. `AddClass` adds a class to the set,
which turns megamorphic when it reaches `kIndividualCacheSize` classes
(`view_addClass`), and adding a list of classes is adding their set, in any order
(`view_addClasses`).
-/

set_option autoImplicit false

namespace Art.Runtime

open Art.Machine

/-- `InlineCache::kIndividualCacheSize`. -/
def kIndividualCacheSize : Nat := 5

namespace ProfileCompilationInfo

/-- `ClassReference`: a type index of the dex file of profile index
`dexProfileIndex`. -/
structure ClassReference where
  dexProfileIndex : BitVec 8
  typeIndex : BitVec 16
  deriving DecidableEq, Repr

/-- `DexPcData`: the inline cache of a dex pc. -/
structure DexPcData where
  isMissingTypes : Bool
  isMegamorphic : Bool
  classes : List ClassReference
  nodup : classes.Nodup
  small : classes.length < kIndividualCacheSize
  flagged : (isMissingTypes || isMegamorphic) = true → classes = []
  notBoth : ¬(isMissingTypes = true ∧ isMegamorphic = true)

namespace DexPcData

/-- The `DexPcData` a new dex pc starts with. -/
def empty : DexPcData := ⟨false, false, [], .nil, by decide, nofun, by decide⟩

/-- `AddClass`: the class is added unless the cache is megamorphic or missing types,
or has it; a class past `kIndividualCacheSize - 1` makes it megamorphic. -/
def addClass (data : DexPcData) (dexProfileIdx : BitVec 8) (typeIdx : BitVec 16) : DexPcData :=
  if flags : (data.isMegamorphic || data.isMissingTypes) = true then data
  else if found : (⟨dexProfileIdx, typeIdx⟩ : ClassReference) ∈ data.classes then data
  else if full : data.classes.length + 1 ≥ kIndividualCacheSize then
    ⟨data.isMissingTypes, true, [], .nil, by decide, fun _ => rfl,
      fun both => flags (by rw [both.1, Bool.or_true])⟩
  else
    ⟨data.isMissingTypes, data.isMegamorphic, ⟨dexProfileIdx, typeIdx⟩ :: data.classes,
      List.nodup_cons.2 ⟨found, data.nodup⟩, by rw [List.length_cons]; omega,
      fun either => absurd (by rwa [Bool.or_comm] at either) flags, data.notBoth⟩

/-- `SetIsMegamorphic`: no change when missing types. -/
def setIsMegamorphic (data : DexPcData) : DexPcData :=
  if missing : data.isMissingTypes = true then data
  else ⟨data.isMissingTypes, true, [], .nil, by decide, fun _ => rfl, fun both => missing both.1⟩

/-- `SetIsMissingTypes`. -/
def setIsMissingTypes (_ : DexPcData) : DexPcData := ⟨true, false, [], .nil, by decide, fun _ => rfl, by decide⟩

end DexPcData

/-! ## What an inline cache says -/

/-- What the inline cache of a dex pc says: its types are missing, it is
megamorphic, or it has seen these classes. -/
inductive CacheView where
  | missingTypes
  | megamorphic
  | classes (seen : Finset ClassReference)
  deriving DecidableEq

namespace CacheView

/-- The classes seen, as a cache holds them: megamorphic from
`kIndividualCacheSize` classes on. -/
def ofClasses (seen : Finset ClassReference) : CacheView :=
  if kIndividualCacheSize ≤ seen.card then megamorphic else classes seen

/-- A class seen. -/
def addClass : CacheView → ClassReference → CacheView
  | classes seen, ref => ofClasses (insert ref seen)
  | view, _ => view

/-- Two caches merged: missing types wins, then megamorphic, and the classes are
united. -/
def merge : CacheView → CacheView → CacheView
  | missingTypes, _ => missingTypes
  | _, missingTypes => missingTypes
  | megamorphic, _ => megamorphic
  | _, megamorphic => megamorphic
  | classes seen, classes more => ofClasses (seen ∪ more)

/-- A cache with each class renamed. -/
def map (rename : ClassReference → ClassReference) : CacheView → CacheView
  | classes seen => classes (seen.image rename)
  | view => view

theorem ofClasses_of_lt {seen : Finset ClassReference} (few : seen.card < kIndividualCacheSize) :
    ofClasses seen = classes seen :=
  if_neg (Nat.not_le_of_lt few)

theorem addClass_ofClasses (seen : Finset ClassReference) (ref : ClassReference) :
    (ofClasses seen).addClass ref = ofClasses (insert ref seen) := by
  by_cases many : kIndividualCacheSize ≤ seen.card
  · -- megamorphic before, and the more classes still are
    have more : kIndividualCacheSize ≤ (insert ref seen).card := le_trans many (Finset.card_le_card (Finset.subset_insert ref seen))
    rw [ofClasses, if_pos many, ofClasses, if_pos more]
    rfl
  · rw [ofClasses, if_neg many]
    rfl

/-- Classes seen one after another are their set seen at once. -/
theorem foldl_addClass_ofClasses (seen : Finset ClassReference) (refs : List ClassReference) :
    refs.foldl addClass (ofClasses seen) = ofClasses (seen ∪ refs.toFinset) := by
  induction refs generalizing seen with
  | nil => rw [List.foldl_nil, List.toFinset_nil, Finset.union_empty]
  | cons ref refs ih =>
    rw [List.foldl_cons, addClass_ofClasses, ih, List.toFinset_cons, Finset.union_insert, Finset.insert_union]

theorem foldl_addClass_of_not_classes {view : CacheView} (flagged : ∀ seen, view ≠ classes seen)
    (refs : List ClassReference) : refs.foldl addClass view = view := by
  induction refs with
  | nil => rfl
  | cons ref refs ih =>
    cases view with
    | classes seen => exact absurd rfl (flagged seen)
    | missingTypes | megamorphic => exact ih

theorem merge_missingTypes (view : CacheView) : view.merge missingTypes = missingTypes := by
  cases view <;> rfl

theorem merge_megamorphic {view : CacheView} (notMissing : view ≠ missingTypes) : view.merge megamorphic = megamorphic := by
  cases view with
  | missingTypes => exact absurd rfl notMissing
  | megamorphic | classes _ => rfl

/-- Classes seen one after another, by a cache of fewer than `kIndividualCacheSize`
classes, are their set merged in. -/
theorem foldl_addClass {view : CacheView} (small : ∀ seen, view = classes seen → seen.card < kIndividualCacheSize)
    (refs : List ClassReference) : refs.foldl addClass view = view.merge (classes refs.toFinset) := by
  cases view with
  | missingTypes => exact foldl_addClass_of_not_classes (fun _ same => by cases same) refs
  | megamorphic => exact foldl_addClass_of_not_classes (fun _ same => by cases same) refs
  | classes seen =>
    calc refs.foldl addClass (classes seen) = refs.foldl addClass (ofClasses seen) := by
          rw [ofClasses_of_lt (small seen rfl)]
      _ = ofClasses (seen ∪ refs.toFinset) := foldl_addClass_ofClasses seen refs
      _ = (classes seen).merge (classes refs.toFinset) := rfl

end CacheView

namespace DexPcData

/-- What the cache says. -/
def view (data : DexPcData) : CacheView :=
  if data.isMissingTypes then .missingTypes
  else if data.isMegamorphic then .megamorphic
  else .classes data.classes.toFinset

theorem view_of_classes {data : DexPcData} (missing : data.isMissingTypes = false) (megamorphic : data.isMegamorphic = false) :
    data.view = .classes data.classes.toFinset := by
  rw [view, if_neg (by rw [missing]; decide), if_neg (by rw [megamorphic]; decide)]

/-- A cache that has seen classes has fewer than `kIndividualCacheSize`. -/
theorem view_eq_ofClasses {data : DexPcData} (missing : data.isMissingTypes = false) (megamorphic : data.isMegamorphic = false) :
    data.view = .ofClasses data.classes.toFinset := by
  rw [view_of_classes missing megamorphic, CacheView.ofClasses_of_lt]
  rw [List.toFinset_card_of_nodup data.nodup]
  exact data.small

theorem view_addClass (data : DexPcData) (dexProfileIdx : BitVec 8) (typeIdx : BitVec 16) :
    (data.addClass dexProfileIdx typeIdx).view = data.view.addClass ⟨dexProfileIdx, typeIdx⟩ := by
  rw [addClass]
  by_cases flags : (data.isMegamorphic || data.isMissingTypes) = true
  · rw [dif_pos flags]
    cases missing : data.isMissingTypes
    · have megamorphic : data.isMegamorphic = true := by rwa [missing, Bool.or_false] at flags
      rw [view, missing, megamorphic]
      rfl
    · rw [view, missing]
      rfl
  have missing : data.isMissingTypes = false := by cases h : data.isMissingTypes <;> simp_all
  have megamorphic : data.isMegamorphic = false := by cases h : data.isMegamorphic <;> simp_all
  rw [dif_neg flags, view_eq_ofClasses missing megamorphic, CacheView.addClass_ofClasses]
  by_cases found : (⟨dexProfileIdx, typeIdx⟩ : ClassReference) ∈ data.classes
  · -- a class seen before: the set does not change
    rw [dif_pos found, view_eq_ofClasses missing megamorphic, Finset.insert_eq_of_mem (List.mem_toFinset.2 found)]
  rw [dif_neg found]
  have card : (insert (⟨dexProfileIdx, typeIdx⟩ : ClassReference) data.classes.toFinset).card = data.classes.length + 1 := by
    rw [Finset.card_insert_of_notMem (by rwa [List.mem_toFinset]), List.toFinset_card_of_nodup data.nodup]
  by_cases full : data.classes.length + 1 ≥ kIndividualCacheSize
  · rw [dif_pos full, CacheView.ofClasses, if_pos (by omega)]
    simp [view, missing]
  · rw [dif_neg full, CacheView.ofClasses, if_neg (by omega)]
    simp [view, missing, megamorphic]

/-- Classes added one after another are their set added at once: the order does
not matter, and neither do repeats. -/
theorem view_addClasses (data : DexPcData) (refs : List ClassReference) :
    (refs.foldl (fun data ref => data.addClass ref.dexProfileIndex ref.typeIndex) data).view =
      refs.foldl CacheView.addClass data.view := by
  induction refs generalizing data with
  | nil => rfl
  | cons ref refs ih => rw [List.foldl_cons, ih, view_addClass, List.foldl_cons]

theorem view_empty : empty.view = .classes ∅ := rfl

/-- The classes of a cache that says which it has seen are fewer than
`kIndividualCacheSize`. -/
theorem view_small (data : DexPcData) : ∀ seen, data.view = .classes seen → seen.card < kIndividualCacheSize := by
  intro seen viewed
  rw [view] at viewed
  split at viewed
  · cases viewed
  split at viewed
  · cases viewed
  cases viewed
  rw [List.toFinset_card_of_nodup data.nodup]
  exact data.small

theorem view_eq_missingTypes_iff (data : DexPcData) : data.view = .missingTypes ↔ data.isMissingTypes = true := by
  unfold view
  cases data.isMissingTypes <;> cases data.isMegamorphic <;> simp

theorem view_setIsMissingTypes (data : DexPcData) : data.setIsMissingTypes.view = .missingTypes := rfl

theorem view_setIsMegamorphic (data : DexPcData) :
    data.setIsMegamorphic.view = if data.isMissingTypes then .missingTypes else .megamorphic := by
  rw [setIsMegamorphic]
  by_cases missing : data.isMissingTypes = true
  · rw [dif_pos missing, if_pos missing, view, if_pos missing]
  · rw [dif_neg missing, if_neg missing]
    simp [view, missing]

end DexPcData

/-! ## The data of a dex file -/

/-- `InlineCacheMap`: the `DexPcData` of each dex pc of a method. -/
abbrev InlineCacheMap := AList fun _ : BitVec 16 => DexPcData

/-- `MethodMap`: the inline caches of each method index. -/
abbrev MethodMap := AList fun _ : BitVec 16 => InlineCacheMap

/-- `kBitmapIndexCount`: a startup and a post-startup bit for each method. -/
def kBitmapIndexCount : Nat := 2

/-- The bytes of the method bitmap: `RoundUp(num_method_ids * kBitmapIndexCount,
kBitsPerByte) / kBitsPerByte`. -/
def bitmapBytes (numMethodIds : BitVec 32) : Nat :=
  (numMethodIds.toNat * kBitmapIndexCount + kBitsPerByte - 1) / kBitsPerByte

/-- `DexFileData`, but for `profile_index`, which is its position in `info_`, and
`method_bitmap`, the view of `bitmap_storage` that `AddMethod` writes through. -/
structure DexFileData where
  profileKey : List (BitVec 8)
  checksum : BitVec 32
  methodMap : MethodMap
  classSet : Finset (BitVec 16)
  numMethodIds : BitVec 32
  bitmapStorage : List (BitVec 8)
  bitmapStorage_length : bitmapStorage.length = bitmapBytes numMethodIds

namespace DexFileData

/-- The `DexFileData` constructor: no methods and no classes, and a bitmap of zeros. -/
def make (key : List (BitVec 8)) (locationChecksum numMethods : BitVec 32) : DexFileData :=
  ⟨key, locationChecksum, ∅, ∅, numMethods, List.replicate (bitmapBytes numMethods) 0, List.length_replicate⟩

/-- `FindOrAddMethod`, and a change of the inline caches of the method. -/
def findOrAddMethod (data : DexFileData) (methodIndex : BitVec 16) (change : InlineCacheMap → InlineCacheMap) :
    DexFileData :=
  { data with methodMap := data.methodMap.insert methodIndex (change ((data.methodMap.lookup methodIndex).getD ∅)) }

/-- What the inline cache of a dex pc of a method says, when the method has one
for the dex pc. -/
def cacheView (data : DexFileData) (methodIndex dexPc : BitVec 16) : Option CacheView :=
  ((data.methodMap.lookup methodIndex).bind fun inlineCache => inlineCache.lookup dexPc).map DexPcData.view

/-- `MergeBitmap`: the bitmaps or-ed byte by byte, after a `DCHECK_EQ` of their sizes. -/
def mergeBitmap (data other : DexFileData) : Option DexFileData :=
  if same : data.bitmapStorage.length = other.bitmapStorage.length then
    some { data with
      bitmapStorage := List.zipWith (· ||| ·) data.bitmapStorage other.bitmapStorage
      bitmapStorage_length := by rw [List.length_zipWith, ← same, Nat.min_self, data.bitmapStorage_length] }
  else none

/-- A merge of the bitmaps changes the bitmap only. -/
theorem mergeBitmap_eq_some {data other merged : DexFileData} (run : data.mergeBitmap other = some merged) :
    merged.profileKey = data.profileKey ∧ merged.checksum = data.checksum ∧ merged.methodMap = data.methodMap ∧
      merged.classSet = data.classSet ∧ merged.numMethodIds = data.numMethodIds ∧
      merged.bitmapStorage = List.zipWith (· ||| ·) data.bitmapStorage other.bitmapStorage := by
  rw [mergeBitmap] at run
  split at run
  · cases run
    exact ⟨rfl, rfl, rfl, rfl, rfl, rfl⟩
  · cases run

/-- The bitmaps of data with the same number of methods have the same size. -/
theorem mergeBitmap_of_numMethodIds {data other : DexFileData} (same : data.numMethodIds = other.numMethodIds) :
    ∃ merged, data.mergeBitmap other = some merged ∧ merged.bitmapStorage = List.zipWith (· ||| ·) data.bitmapStorage other.bitmapStorage ∧
      merged.profileKey = data.profileKey ∧ merged.checksum = data.checksum ∧ merged.methodMap = data.methodMap ∧
      merged.classSet = data.classSet ∧ merged.numMethodIds = data.numMethodIds := by
  have sizes : data.bitmapStorage.length = other.bitmapStorage.length := by
    rw [data.bitmapStorage_length, other.bitmapStorage_length, same]
  exact ⟨_, dif_pos sizes, rfl, rfl, rfl, rfl, rfl, rfl⟩

end DexFileData

end ProfileCompilationInfo

open ProfileCompilationInfo

/-- A `ProfileCompilationInfo`: `info_`, with distinct keys and at most 255 of them. -/
structure ProfileCompilationInfo where
  info : List DexFileData
  keysNodup : (info.map DexFileData.profileKey).Nodup
  length_le : info.length ≤ 255

namespace ProfileCompilationInfo

/-- The empty profile. -/
def empty : ProfileCompilationInfo := ⟨[], .nil, by decide⟩

/-- `IsEmpty`. -/
def isEmpty (profile : ProfileCompilationInfo) : Bool := profile.info.isEmpty

/-- `profile_key_map_.find(key)`: the index of the data of a key. -/
def profileIndexOf (profile : ProfileCompilationInfo) (key : List (BitVec 8)) : Option (Fin profile.info.length) :=
  profile.info.findFinIdx? fun data => data.profileKey == key

/-- Two data of a profile with the same key are the same. -/
theorem eq_of_profileKey_eq {profile : ProfileCompilationInfo} {data data' : DexFileData} (mem : data ∈ profile.info)
    (mem' : data' ∈ profile.info) (same : data.profileKey = data'.profileKey) : data = data' :=
  List.inj_on_of_nodup_map profile.keysNodup mem mem' same

/-- Two places of a profile with the same key are the same. -/
theorem index_eq_of_profileKey_eq {profile : ProfileCompilationInfo} {i j : Nat} (hi : i < profile.info.length)
    (hj : j < profile.info.length) (same : profile.info[i].profileKey = profile.info[j].profileKey) : i = j := by
  have hi' : i < (profile.info.map DexFileData.profileKey).length := by rw [List.length_map]; exact hi
  have hj' : j < (profile.info.map DexFileData.profileKey).length := by rw [List.length_map]; exact hj
  apply (List.Nodup.getElem_inj_iff profile.keysNodup).1
  rw [List.getElem_map, List.getElem_map]
  exacts [same, hj', hi']

theorem profileKey_of_profileIndexOf {profile : ProfileCompilationInfo} {key : List (BitVec 8)}
    {index : Fin profile.info.length} (found : profile.profileIndexOf key = some index) :
    profile.info[index].profileKey = key := by
  have := (List.findFinIdx?_eq_some_iff.1 found).1
  simpa using this

/-- A list changed at one place by a change that keeps `g` keeps `g` of each entry. -/
theorem map_modify_of_forall {δ ε : Type} (l : List δ) (i : Nat) {f : δ → δ} {g : δ → ε} (kept : ∀ a, g (f a) = g a) :
    (l.modify i f).map g = l.map g := by
  apply List.ext_getElem (by rw [List.length_map, List.length_map, List.length_modify])
  intro j _ _
  rw [List.getElem_map, List.getElem_map, List.getElem_modify]
  split
  · exact kept _
  · rfl

/-- The profile with the data of index `index` changed, but not its key. -/
def modifyData (profile : ProfileCompilationInfo) (index : Nat) (change : DexFileData → DexFileData)
    (keyKept : ∀ data, (change data).profileKey = data.profileKey) : ProfileCompilationInfo :=
  ⟨profile.info.modify index change, by rw [map_modify_of_forall _ _ keyKept]; exact profile.keysNodup,
    by rw [List.length_modify]; exact profile.length_le⟩

/-- The check at the end of `GetOrAddDexFileData` of the data of index `index`: the
index, unless the checksum or the number of methods differs (`nullptr`). -/
def checkDexFileData (profile : ProfileCompilationInfo) (index : Fin profile.info.length)
    (checksum numMethodIds : BitVec 32) : Option Nat :=
  let result := profile.info.get index
  if result.checksum ≠ checksum then none
  else if numMethodIds ≠ result.numMethodIds then none
  else some index

/-- `GetOrAddDexFileData`: the profile, with new data for a key it did not have, and
the index of the data of the key; no index (`nullptr`) for a 256th key, or for data
whose checksum or number of methods differs. -/
def getOrAddDexFileData (profile : ProfileCompilationInfo) (profileKey : List (BitVec 8))
    (checksum numMethodIds : BitVec 32) : ProfileCompilationInfo × Option Nat :=
  match found : profile.profileIndexOf profileKey with
  | some index => (profile, profile.checkDexFileData index checksum numMethodIds)
  | none =>
    if full : profile.info.length + 1 > 255 then (profile, none)
    else
      let added : ProfileCompilationInfo :=
        ⟨profile.info ++ [DexFileData.make profileKey checksum numMethodIds], by
          rw [List.map_append, List.nodup_append]
          refine ⟨profile.keysNodup, List.nodup_singleton _, ?_⟩
          intro key old new newMem
          rw [List.map_singleton, List.mem_singleton] at newMem
          obtain ⟨data, mem, rfl⟩ := List.mem_map.1 old
          have := List.findFinIdx?_eq_none_iff.1 found data mem
          rw [newMem]
          simpa [DexFileData.make] using this,
        by rw [List.length_append, List.length_singleton]; omega⟩
      (added, added.checkDexFileData ⟨profile.info.length, by simp [added]⟩ checksum numMethodIds)

theorem checkDexFileData_eq_some {profile : ProfileCompilationInfo} {index : Fin profile.info.length}
    {checksum numMethodIds : BitVec 32} {result : Nat} (run : profile.checkDexFileData index checksum numMethodIds = some result) :
    result = index ∧ profile.info[index].checksum = checksum ∧ profile.info[index].numMethodIds = numMethodIds := by
  simp only [checkDexFileData] at run
  change (if profile.info[index].checksum ≠ checksum then none
    else if numMethodIds ≠ profile.info[index].numMethodIds then none else some (index : Nat)) = some result at run
  by_cases same : profile.info[index].checksum = checksum
  · by_cases count : numMethodIds = profile.info[index].numMethodIds
    · rw [if_neg (not_not.2 same), if_neg (not_not.2 count)] at run
      exact ⟨(Option.some.inj run).symm, same, count.symm⟩
    · rw [if_neg (not_not.2 same), if_pos count] at run
      cases run
  · rw [if_pos same] at run
    cases run

/-- What `GetOrAddDexFileData` returns data for: the profile gains at most new data
of the key, and the data has the key, checksum and number of methods asked for; it
is the profile's own data, or new data for a key the profile did not have. -/
theorem getOrAddDexFileData_eq_some {profile added : ProfileCompilationInfo} {profileKey : List (BitVec 8)}
    {checksum numMethodIds : BitVec 32} {index : Nat}
    (run : profile.getOrAddDexFileData profileKey checksum numMethodIds = (added, some index)) :
    (∃ fresh, added.info = profile.info ++ fresh ∧ ∀ data ∈ fresh, data.profileKey = profileKey) ∧
    ∃ data, added.info[index]? = some data ∧ data.profileKey = profileKey ∧ data.checksum = checksum ∧
      data.numMethodIds = numMethodIds ∧
      (data ∈ profile.info ∨
        (profileKey ∉ profile.info.map DexFileData.profileKey ∧ data = DexFileData.make profileKey checksum numMethodIds)) := by
  unfold getOrAddDexFileData at run
  split at run
  · next found found' =>
    obtain ⟨rfl, checked⟩ := Prod.mk.inj run
    obtain ⟨rfl, same, count⟩ := checkDexFileData_eq_some checked
    refine ⟨⟨[], (List.append_nil _).symm, nofun⟩, profile.info[found], List.getElem?_eq_getElem _,
      profileKey_of_profileIndexOf found', same, count, Or.inl (List.getElem_mem _)⟩
  · next fresh =>
    split at run
    · cases run
    · obtain ⟨rfl, checked⟩ := Prod.mk.inj run
      obtain ⟨rfl, -, -⟩ := checkDexFileData_eq_some checked
      have missing : profileKey ∉ profile.info.map DexFileData.profileKey := by
        intro mem
        obtain ⟨data, inInfo, key⟩ := List.mem_map.1 mem
        have := List.findFinIdx?_eq_none_iff.1 fresh data inInfo
        simp [key] at this
      refine ⟨⟨[DexFileData.make profileKey checksum numMethodIds], rfl, ?_⟩, DexFileData.make profileKey checksum numMethodIds,
        by simp, rfl, rfl, rfl, Or.inr ⟨missing, rfl⟩⟩
      intro data mem
      rw [List.mem_singleton.1 mem]
      rfl

/-- A key the profile does not have, with room for it, gets new data at the end. -/
theorem getOrAddDexFileData_of_new {profile : ProfileCompilationInfo} {profileKey : List (BitVec 8)}
    (fresh : profile.profileIndexOf profileKey = none) (room : profile.info.length < 255) (checksum numMethodIds : BitVec 32) :
    ∃ added : ProfileCompilationInfo, profile.getOrAddDexFileData profileKey checksum numMethodIds = (added, some profile.info.length) ∧
      added.info = profile.info ++ [DexFileData.make profileKey checksum numMethodIds] := by
  unfold getOrAddDexFileData
  split
  · next index found =>
    rw [fresh] at found
    cases found
  · rw [dif_neg (by omega)]
    exact ⟨_, Prod.ext rfl (by simp [checkDexFileData, DexFileData.make]), rfl⟩

/-- `kDebugIgnoreChecksum`. -/
def kDebugIgnoreChecksum : Bool := false

/-- `ChecksumMatch`. -/
def checksumMatch (dexFileChecksum checksum : BitVec 32) : Bool := kDebugIgnoreChecksum || dexFileChecksum == checksum

/-- `FindDexData`: the index of the data of a key, with the checksum checked when
`verifyChecksum`. -/
def findDexData (profile : ProfileCompilationInfo) (profileKey : List (BitVec 8)) (checksum : BitVec 32)
    (verifyChecksum : Bool) : Option (Fin profile.info.length) :=
  match profile.profileIndexOf profileKey with
  | none => none
  | some index => if verifyChecksum && !checksumMatch (profile.info.get index).checksum checksum then none else some index

/-- The profile with the data of index `index` replaced by data of the same key. -/
def setData (profile : ProfileCompilationInfo) (index : Fin profile.info.length) (data : DexFileData)
    (sameKey : data.profileKey = (profile.info.get index).profileKey) : ProfileCompilationInfo :=
  ⟨profile.info.set index data, by
    have bound : (index : Nat) < (profile.info.map DexFileData.profileKey).length := by
      rw [List.length_map]
      exact index.isLt
    have key : (profile.info.map DexFileData.profileKey)[(index : Nat)] = (profile.info.get index).profileKey :=
      List.getElem_map _
    rw [List.map_set, sameKey, ← key, List.set_getElem_self]
    exact profile.keysNodup,
    by rw [List.length_set]; exact profile.length_le⟩

theorem findDexData_eq_some {profile : ProfileCompilationInfo} {profileKey : List (BitVec 8)} {checksum : BitVec 32}
    {verifyChecksum : Bool} {index : Fin profile.info.length}
    (run : profile.findDexData profileKey checksum verifyChecksum = some index) : profile.info[index].profileKey = profileKey := by
  rw [findDexData] at run
  split at run
  · cases run
  · next found found' =>
    split at run
    · cases run
    · cases run
      exact profileKey_of_profileIndexOf found'

theorem info_setData (profile : ProfileCompilationInfo) (index : Fin profile.info.length) (data : DexFileData)
    (sameKey : data.profileKey = (profile.info.get index).profileKey) :
    (profile.setData index data sameKey).info = profile.info.set index data := rfl

/-- `AddClassIndex`. -/
def addClassIndex (profile : ProfileCompilationInfo) (dexLocation : List (BitVec 8)) (checksum : BitVec 32)
    (typeIdx : BitVec 16) (numMethodIds : BitVec 32) : Bool × ProfileCompilationInfo :=
  match profile.getOrAddDexFileData dexLocation checksum numMethodIds with
  | (profile, none) => (false, profile)
  | (profile, some index) =>
    (true, profile.modifyData index (fun data => { data with classSet := insert typeIdx data.classSet }) fun _ => rfl)

end ProfileCompilationInfo

end Art.Runtime
