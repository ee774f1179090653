import Art.Runtime.Jit.ProfileCompilationInfo

/-!
# Merging profiles

`MergeWith` merges another profile into this one (`profile_compilation_info.cc`).
First it checks the checksum of each dex file of the other profile that this one
also has, and returns `false` on a mismatch before it changes anything. Then it
finds or adds the data of each dex file of the other profile
(`GetOrAddDexFileData`) and records this profile's index for it. Last, it merges
the other's data into the data of each key: the classes when `merge_classes`, the
methods with their inline caches, and the method bitmap.

When it returns `true`, the profile has every key of the other, with its checksum.
The data of such a key is what this profile had for it, or new empty data, merged
with the other's (`MergedInto`). The classes are united, the bitmaps or-ed, the
methods united, and the view of each inline cache is the merge of the two views
(`CacheView.merge`), with the other's classes renamed to this profile's indices.
Keys the other profile lacks keep their data (`mergeWith_spec`). The loops merge
entries one key at a time, in the order of the maps, and the result does not
depend on that order (`lookup_upsertAll?`, `view_addClasses`).
-/

set_option autoImplicit false

namespace Art.Runtime

open Art.Machine

namespace ProfileCompilationInfo

/-- `dex_profile_index_remap.Get(index)`: this profile's index of the dex file with
index `index` in the other profile; nothing when the other has no such dex file
(the `DCHECK` of `SafeMap::Get`). The map is filled by `Put` in the order of the
other's `info_`, where the index of each data is its position, so it is the list of
this profile's indices. -/
def remapGet (remap : List (BitVec 8)) (index : BitVec 8) : Option (BitVec 8) := remap[index.toNat]?

/-- A class of the other profile, with its dex file named by this profile's index. -/
def remapClassReference (remap : List (BitVec 8)) (ref : ClassReference) : ClassReference :=
  ⟨remap.getD ref.dexProfileIndex.toNat 0, ref.typeIndex⟩

/-- The inline cache of a dex pc of the other profile merged into this profile's:
missing types, megamorphic, or each class added with its remapped index. -/
def mergeDexPcData (remap : List (BitVec 8)) (other data : DexPcData) : Option DexPcData :=
  if other.isMissingTypes then some data.setIsMissingTypes
  else if other.isMegamorphic then some data.setIsMegamorphic
  else
    other.classes.foldlM (fun data classRef =>
      (remapGet remap classRef.dexProfileIndex).map fun index => data.addClass index classRef.typeIndex) data

/-- The classes of the other profile, added one after another with their remapped
indices, when every index is remapped. -/
theorem foldlM_addClass_eq_some {remap : List (BitVec 8)} :
    ∀ {classes : List ClassReference} {data result : DexPcData},
      classes.foldlM (fun data classRef =>
        (remapGet remap classRef.dexProfileIndex).map fun index => data.addClass index classRef.typeIndex) data = some result →
      result = (classes.map (remapClassReference remap)).foldl
        (fun data ref => data.addClass ref.dexProfileIndex ref.typeIndex) data
  | [], data, result, run => by
    cases run
    rfl
  | classRef :: classes, data, result, run => by
    rw [List.foldlM_cons, Option.bind_eq_bind, Option.bind_eq_some_iff] at run
    obtain ⟨middle, step, rest⟩ := run
    obtain ⟨index, remapped, rfl⟩ := Option.map_eq_some_iff.1 step
    have renamed : remapClassReference remap classRef = ⟨index, classRef.typeIndex⟩ := by
      rw [remapClassReference, List.getD_eq_getElem?_getD, show remap[classRef.dexProfileIndex.toNat]? = some index from remapped,
        Option.getD_some]
    rw [foldlM_addClass_eq_some rest, List.map_cons, List.foldl_cons, renamed]

/-- The merge of two caches is the merge of what they say, with the other's classes
renamed. -/
theorem view_mergeDexPcData {remap : List (BitVec 8)} {other data result : DexPcData}
    (run : mergeDexPcData remap other data = some result) :
    result.view = data.view.merge (other.view.map (remapClassReference remap)) := by
  rw [mergeDexPcData] at run
  by_cases missing : other.isMissingTypes = true
  · rw [if_pos missing] at run
    cases run
    rw [DexPcData.view_setIsMissingTypes, (DexPcData.view_eq_missingTypes_iff other).2 missing]
    exact (CacheView.merge_missingTypes _).symm
  rw [if_neg missing] at run
  by_cases megamorphic : other.isMegamorphic = true
  · rw [if_pos megamorphic] at run
    cases run
    have otherView : other.view = .megamorphic := by rw [DexPcData.view, if_neg missing, if_pos megamorphic]
    rw [DexPcData.view_setIsMegamorphic, otherView]
    by_cases dataMissing : data.isMissingTypes = true
    · rw [if_pos dataMissing, (DexPcData.view_eq_missingTypes_iff data).2 dataMissing]
      rfl
    · rw [if_neg dataMissing]
      exact (CacheView.merge_megamorphic (mt (DexPcData.view_eq_missingTypes_iff data).1 dataMissing)).symm
  -- the classes of the other cache, added one after another
  rw [if_neg megamorphic] at run
  have otherView : other.view = .classes other.classes.toFinset := by
    rw [DexPcData.view, if_neg missing, if_neg megamorphic]
  rw [foldlM_addClass_eq_some run, DexPcData.view_addClasses, otherView, CacheView.foldl_addClass data.view_small]
  show _ = data.view.merge (.classes (other.classes.toFinset.image (remapClassReference remap)))
  congr 2
  ext ref
  simp

theorem view_getD_empty (found : Option DexPcData) :
    (found.getD DexPcData.empty).view = (found.map DexPcData.view).getD (.classes ∅) := by
  cases found <;> rfl

/-- The inline caches of a method of the other profile merged into this profile's,
each dex pc found or added by `FindOrAddDexPc`. -/
def mergeInlineCache (remap : List (BitVec 8)) (other inlineCache : InlineCacheMap) : Option InlineCacheMap :=
  upsertAll? (mergeDexPcData remap) DexPcData.empty inlineCache other.entries

/-- The methods of the other profile merged into this profile's, each method found
or added by `FindOrAddMethod`. -/
def mergeMethodMap (remap : List (BitVec 8)) (other methodMap : MethodMap) : Option MethodMap :=
  upsertAll? (mergeInlineCache remap) ∅ methodMap other.entries

/-- A dex pc of a merged method: what its cache says is the merge of what the two
caches say, a dex pc the other method lacks keeping its cache. -/
theorem view_lookup_mergeInlineCache {remap : List (BitVec 8)} {other inlineCache result : InlineCacheMap}
    (run : mergeInlineCache remap other inlineCache = some result) (dexPc : BitVec 16) :
    (result.lookup dexPc).map DexPcData.view =
      match (other.lookup dexPc).map DexPcData.view with
      | some otherView =>
        some ((((inlineCache.lookup dexPc).map DexPcData.view).getD (.classes ∅)).merge
          (otherView.map (remapClassReference remap)))
      | none => (inlineCache.lookup dexPc).map DexPcData.view := by
  cases found : other.lookup dexPc with
  | none =>
    rw [lookup_upsertAll? other.nodupKeys run dexPc, show other.entries.dlookup dexPc = none from found]
    rfl
  | some otherData =>
    obtain ⟨data, merged, present⟩ := lookup_upsertAll?_of_dlookup other.nodupKeys run found
    rw [present, Option.map_some, view_mergeDexPcData merged, view_getD_empty]
    rfl

/-- A method of the merge: the other profile lacks it and it keeps its caches, or
its caches are merged. -/
theorem lookup_mergeMethodMap {remap : List (BitVec 8)} {other methodMap result : MethodMap}
    (run : mergeMethodMap remap other methodMap = some result) (methodIndex : BitVec 16) :
    (other.lookup methodIndex = none ∧ result.lookup methodIndex = methodMap.lookup methodIndex) ∨
      ∃ otherCache inlineCache, other.lookup methodIndex = some otherCache ∧ result.lookup methodIndex = some inlineCache ∧
        mergeInlineCache remap otherCache ((methodMap.lookup methodIndex).getD ∅) = some inlineCache := by
  cases found : other.lookup methodIndex with
  | none =>
    left
    refine ⟨rfl, ?_⟩
    rw [lookup_upsertAll? other.nodupKeys run methodIndex, show other.entries.dlookup methodIndex = none from found]
  | some otherCache =>
    right
    obtain ⟨inlineCache, merged, present⟩ := lookup_upsertAll?_of_dlookup other.nodupKeys run found
    exact ⟨otherCache, inlineCache, rfl, present, merged⟩

theorem lookup_getD_empty (found : Option InlineCacheMap) (dexPc : BitVec 16) :
    (found.getD ∅).lookup dexPc = found.bind fun inlineCache => inlineCache.lookup dexPc := by
  cases found with
  | none => exact AList.lookup_empty dexPc
  | some inlineCache => rfl

/-- What `MergeWith` makes of the data `data` of a key, given the data `other` of the
other profile for that key and the renaming `rename` of its classes: the same key,
checksum and methods count; the classes united when `mergeClasses`; the bitmaps
or-ed; the methods united; and for each dex pc of the other, a cache that says what
the two merged say. -/
structure MergedInto (rename : ClassReference → ClassReference) (mergeClasses : Bool) (data other merged : DexFileData) :
    Prop where
  profileKey : merged.profileKey = data.profileKey
  checksum : merged.checksum = data.checksum
  numMethodIds : merged.numMethodIds = data.numMethodIds
  classSet : merged.classSet = if mergeClasses then data.classSet ∪ other.classSet else data.classSet
  bitmapStorage : merged.bitmapStorage = List.zipWith (· ||| ·) data.bitmapStorage other.bitmapStorage
  methods : ∀ methodIndex, (merged.methodMap.lookup methodIndex).isSome =
    ((data.methodMap.lookup methodIndex).isSome || (other.methodMap.lookup methodIndex).isSome)
  caches : ∀ methodIndex dexPc, merged.cacheView methodIndex dexPc =
    match other.cacheView methodIndex dexPc with
    | some otherView => some (((data.cacheView methodIndex dexPc).getD (.classes ∅)).merge (otherView.map rename))
    | none => data.cacheView methodIndex dexPc

/-- The data of a dex file of the other profile merged into this profile's data for
its key: the classes when `mergeClasses`, the methods, and the bitmap
(`MergeBitmap`). -/
def mergeDexFileData (remap : List (BitVec 8)) (mergeClasses : Bool) (other data : DexFileData) :
    Option DexFileData := do
  let data := if mergeClasses then { data with classSet := data.classSet ∪ other.classSet } else data
  let methodMap ← mergeMethodMap remap other.methodMap data.methodMap
  DexFileData.mergeBitmap { data with methodMap } other

theorem mergeDexFileData_eq_some {remap : List (BitVec 8)} {mergeClasses : Bool} {other data merged : DexFileData}
    (run : mergeDexFileData remap mergeClasses other data = some merged) :
    ∃ methodMap, mergeMethodMap remap other.methodMap data.methodMap = some methodMap ∧
      merged.profileKey = data.profileKey ∧ merged.checksum = data.checksum ∧ merged.numMethodIds = data.numMethodIds ∧
      merged.classSet = (if mergeClasses then data.classSet ∪ other.classSet else data.classSet) ∧
      merged.methodMap = methodMap ∧
      merged.bitmapStorage = List.zipWith (· ||| ·) data.bitmapStorage other.bitmapStorage := by
  -- the classes are merged first, and the methods and the bitmap of the result are the old ones
  have classesFirst : ∀ withClasses : DexFileData, withClasses =
      (if mergeClasses then { data with classSet := data.classSet ∪ other.classSet } else data) →
      withClasses.methodMap = data.methodMap ∧ withClasses.profileKey = data.profileKey ∧
        withClasses.checksum = data.checksum ∧ withClasses.numMethodIds = data.numMethodIds ∧
        withClasses.bitmapStorage = data.bitmapStorage ∧
        withClasses.classSet = (if mergeClasses then data.classSet ∪ other.classSet else data.classSet) := by
    intro withClasses same
    cases mergeClasses <;> (subst same; exact ⟨rfl, rfl, rfl, rfl, rfl, rfl⟩)
  obtain ⟨methods, key, checksum, numMethods, bitmap, classes⟩ := classesFirst _ rfl
  rw [mergeDexFileData, Option.bind_eq_bind, Option.bind_eq_some_iff] at run
  obtain ⟨methodMap, mergedMethods, bitmapRun⟩ := run
  obtain ⟨key', checksum', methods', classes', numMethods', bitmap'⟩ := DexFileData.mergeBitmap_eq_some bitmapRun
  rw [methods] at mergedMethods
  exact ⟨methodMap, mergedMethods, key'.trans key, checksum'.trans checksum, numMethods'.trans numMethods,
    classes'.trans classes, methods', by rw [bitmap', bitmap]⟩

theorem mergeDexFileData_profileKey {remap : List (BitVec 8)} {mergeClasses : Bool} {other data merged : DexFileData}
    (run : mergeDexFileData remap mergeClasses other data = some merged) : merged.profileKey = data.profileKey := by
  obtain ⟨_, _, key, _⟩ := mergeDexFileData_eq_some run
  exact key

/-- The merge of the data of a dex file is `MergedInto`. -/
theorem mergeDexFileData_mergedInto {remap : List (BitVec 8)} {mergeClasses : Bool} {other data merged : DexFileData}
    (run : mergeDexFileData remap mergeClasses other data = some merged) :
    MergedInto (remapClassReference remap) mergeClasses data other merged := by
  obtain ⟨methodMap, methodsRun, key, checksum, numMethods, classes, methods, bitmap⟩ := mergeDexFileData_eq_some run
  refine ⟨key, checksum, numMethods, classes, bitmap, fun methodIndex => ?_, fun methodIndex dexPc => ?_⟩
  · rw [methods]
    rcases lookup_mergeMethodMap methodsRun methodIndex with ⟨otherMissing, kept⟩ | ⟨otherCache, inlineCache, found, present, -⟩
    · rw [kept, otherMissing, Option.isSome_none, Bool.or_false]
    · rw [present, found, Option.isSome_some, Option.isSome_some, Bool.or_true]
  · rw [DexFileData.cacheView, DexFileData.cacheView, DexFileData.cacheView, methods]
    rcases lookup_mergeMethodMap methodsRun methodIndex with ⟨otherMissing, kept⟩ | ⟨otherCache, inlineCache, found, present, cachesRun⟩
    · rw [kept, otherMissing]
      rfl
    · rw [present, found, Option.bind_some, Option.bind_some, view_lookup_mergeInlineCache cachesRun dexPc, lookup_getD_empty]

/-- The first loop of `MergeWith`: a dex file of the other profile that this profile
also has, found by `FindDexData` without a check of the checksum, with another
checksum. -/
def checksumMismatch (profile other : ProfileCompilationInfo) : Bool :=
  other.info.any fun otherData =>
    match profile.findDexData otherData.profileKey 0 false with
    | some index => (profile.info.get index).checksum != otherData.checksum
    | none => false

/-- The second loop of `MergeWith`: `GetOrAddDexFileData` of each dex file of the
other profile, and this profile's index of each; nothing after a `nullptr`. -/
def addDexFiles (profile : ProfileCompilationInfo) : List DexFileData → ProfileCompilationInfo × Option (List (BitVec 8))
  | [] => (profile, some [])
  | otherData :: others =>
    match profile.getOrAddDexFileData otherData.profileKey otherData.checksum otherData.numMethodIds with
    | (profile, none) => (profile, none)
    | (profile, some index) =>
      match addDexFiles profile others with
      | (profile, none) => (profile, none)
      | (profile, some remap) => (profile, some (BitVec.ofNat 8 index :: remap))

/-- What the second loop of `MergeWith` has done when it returns indices: the
profile only gains data at its end, and the `i`-th index is the place of data with
the `i`-th key of the other profile and its checksum. That data is the profile's
own, or new data for a key the profile did not have. -/
structure DexFilesAdded (profile : ProfileCompilationInfo) (others : List DexFileData) (added : ProfileCompilationInfo)
    (remap : List (BitVec 8)) : Prop where
  grows : ∃ fresh, added.info = profile.info ++ fresh
  length : remap.length = others.length
  index : ∀ i (h : i < others.length), ∃ j, remap[i]? = some (BitVec.ofNat 8 j) ∧ ∃ base, added.info[j]? = some base ∧
    base.profileKey = others[i].profileKey ∧ base.checksum = others[i].checksum ∧
    (base ∈ profile.info ∨ (others[i].profileKey ∉ profile.info.map DexFileData.profileKey ∧
      base = DexFileData.make others[i].profileKey others[i].checksum others[i].numMethodIds))

theorem addDexFiles_eq_some :
    ∀ {others : List DexFileData} {profile added : ProfileCompilationInfo} {remap : List (BitVec 8)},
      (others.map DexFileData.profileKey).Nodup → addDexFiles profile others = (added, some remap) →
      DexFilesAdded profile others added remap
  | [], profile, added, remap, _, run => by
    obtain ⟨rfl, remapped⟩ := Prod.mk.inj run
    obtain rfl := Option.some.inj remapped
    exact ⟨⟨[], (List.append_nil _).symm⟩, rfl, fun i h => absurd h (Nat.not_lt_zero i)⟩
  | otherData :: others, profile, added, remap, distinct, run => by
    rw [List.map_cons] at distinct
    obtain ⟨headFresh, restDistinct⟩ := List.nodup_cons.1 distinct
    unfold addDexFiles at run
    split at run
    · cases run
    · next first index firstRun =>
      split at run
      · cases run
      · next second remap' restRun =>
        obtain ⟨rfl, remapped⟩ := Prod.mk.inj run
        cases remapped
        obtain ⟨⟨fresh, firstGrows, freshKeys⟩, data, placed, key, checksum, -, origin⟩ := getOrAddDexFileData_eq_some firstRun
        have later := addDexFiles_eq_some restDistinct restRun
        obtain ⟨secondFresh, secondGrows⟩ := later.grows
        have atLength : index < first.info.length := by
          by_contra outside
          rw [List.getElem?_eq_none (by omega)] at placed
          cases placed
        refine ⟨⟨fresh ++ secondFresh, by rw [secondGrows, firstGrows, List.append_assoc]⟩,
          by rw [List.length_cons, List.length_cons, later.length], fun i h => ?_⟩
        cases i with
        | zero =>
          -- the first key of the other profile: its data is where `GetOrAddDexFileData` put it
          refine ⟨index, rfl, data, ?_, key, checksum, origin⟩
          rw [secondGrows, List.getElem?_append_left atLength, placed]
        | succ i =>
          have bound : i < others.length := by simpa using h
          obtain ⟨j, remapAt, base, baseAt, baseKey, baseChecksum, baseOrigin⟩ := later.index i bound
          refine ⟨j, remapAt, base, baseAt, baseKey, baseChecksum, ?_⟩
          -- a later key is not the first, so its data was not added for the first
          have other : others[i].profileKey ≠ otherData.profileKey := by
            intro same
            exact headFresh (same ▸ List.mem_map_of_mem (List.getElem_mem _))
          rcases baseOrigin with old | ⟨missing, made⟩
          · rw [firstGrows, List.mem_append] at old
            rcases old with old | new
            · exact Or.inl old
            · exact absurd (baseKey.symm.trans (freshKeys base new)) other
          · refine Or.inr ⟨fun mem => missing ?_, made⟩
            rw [firstGrows, List.map_append]
            exact List.mem_append_left _ mem

/-- What the third loop of `MergeWith` has done: no data moves; data of a key the
other profile lacks is kept, and data of a key it has is merged with the other's. -/
structure DexFilesMerged (remap : List (BitVec 8)) (mergeClasses : Bool) (profile : ProfileCompilationInfo)
    (others : List DexFileData) (merged : ProfileCompilationInfo) : Prop where
  length : merged.info.length = profile.info.length
  kept : ∀ i (h : i < profile.info.length), profile.info[i].profileKey ∉ others.map DexFileData.profileKey →
    merged.info[i]? = some profile.info[i]
  mergedAt : ∀ i (h : i < profile.info.length), ∀ otherData ∈ others, otherData.profileKey = profile.info[i].profileKey →
    ∃ data, merged.info[i]? = some data ∧ mergeDexFileData remap mergeClasses otherData profile.info[i] = some data

/-- The third loop of `MergeWith`: the data of each dex file of the other profile
merged into this profile's data for its key, which `FindDexData` finds (a
`DCHECK`). -/
def mergeDexFiles (remap : List (BitVec 8)) (mergeClasses : Bool) (profile : ProfileCompilationInfo) :
    List DexFileData → Option ProfileCompilationInfo
  | [] => some profile
  | otherData :: others =>
    match profile.findDexData otherData.profileKey otherData.checksum true with
    | none => none
    | some index =>
      match merged : mergeDexFileData remap mergeClasses otherData (profile.info.get index) with
      | none => none
      | some data => mergeDexFiles remap mergeClasses (profile.setData index data (mergeDexFileData_profileKey merged)) others

theorem mergeDexFiles_eq_some {remap : List (BitVec 8)} {mergeClasses : Bool} :
    ∀ {others : List DexFileData} {profile merged : ProfileCompilationInfo},
      (others.map DexFileData.profileKey).Nodup → mergeDexFiles remap mergeClasses profile others = some merged →
      DexFilesMerged remap mergeClasses profile others merged
  | [], profile, merged, _, run => by
    cases run
    exact ⟨rfl, fun i h _ => List.getElem?_eq_getElem h, fun _ _ _ mem => absurd mem List.not_mem_nil⟩
  | otherData :: others, profile, merged, distinct, run => by
    rw [List.map_cons] at distinct
    obtain ⟨headFresh, restDistinct⟩ := List.nodup_cons.1 distinct
    unfold mergeDexFiles at run
    split at run
    · cases run
    · next index found =>
      split at run
      · cases run
      · next data mergedData =>
        set updated := profile.setData index data (mergeDexFileData_profileKey mergedData) with updatedDef
        have later := mergeDexFiles_eq_some restDistinct run
        have foundKey := findDexData_eq_some found
        -- the profile after the first merge differs from the old one at `index` only
        have lengthSet : updated.info.length = profile.info.length := by
          rw [updatedDef, info_setData, List.length_set]
        have element : ∀ i (h : i < profile.info.length) (h' : i < updated.info.length), i ≠ index →
            updated.info[i] = profile.info[i] := by
          intro i h h' other
          have kept : updated.info[i]? = profile.info[i]? := by
            rw [updatedDef, info_setData, List.getElem?_set_ne (Ne.symm other)]
          rw [List.getElem?_eq_getElem h', List.getElem?_eq_getElem h] at kept
          exact Option.some.inj kept
        have atIndex : updated.info[(index : Nat)]? = some data := by
          rw [updatedDef, info_setData, List.getElem?_set_self index.isLt]
        have indexBound : (index : Nat) < updated.info.length := by rw [lengthSet]; exact index.isLt
        have dataKey : updated.info[(index : Nat)].profileKey = otherData.profileKey := by
          rw [List.getElem?_eq_getElem indexBound] at atIndex
          rw [Option.some.inj atIndex, mergeDexFileData_profileKey mergedData]
          exact foundKey
        refine ⟨by rw [later.length, lengthSet], fun i h missing => ?_, fun i h otherData' mem same => ?_⟩
        · -- a key the other profile lacks is not the one merged first
          have bound : i < updated.info.length := by rw [lengthSet]; exact h
          have notIndex : i ≠ index := by
            rintro rfl
            exact missing (foundKey ▸ List.mem_cons_self)
          rw [← element i h bound notIndex]
          apply later.kept i bound
          rw [element i h bound notIndex]
          exact fun mem => missing (List.mem_cons_of_mem _ mem)
        · rcases List.mem_cons.1 mem with rfl | laterMem
          · -- the first key: the later merges leave its merged data
            have isIndex : i = index := index_eq_of_profileKey_eq h index.isLt (same.symm.trans foundKey.symm)
            subst isIndex
            refine ⟨data, ?_, mergedData⟩
            rw [later.kept index indexBound (by rw [dataKey]; exact headFresh), ← List.getElem?_eq_getElem indexBound,
              atIndex]
          · have bound : i < updated.info.length := by rw [lengthSet]; exact h
            have notIndex : i ≠ index := by
              rintro rfl
              exact headFresh (foundKey.symm.trans same.symm ▸ List.mem_map_of_mem laterMem)
            rw [← element i h bound notIndex]
            exact later.mergedAt i bound otherData' laterMem (by rw [element i h bound notIndex]; exact same)

/-- `MergeWith`. -/
def mergeWith (profile other : ProfileCompilationInfo) (mergeClasses : Bool) : Option (Bool × ProfileCompilationInfo) :=
  if checksumMismatch profile other then some (false, profile)
  else
    match addDexFiles profile other.info with
    | (profile, none) => some (false, profile)
    | (profile, some remap) => (mergeDexFiles remap mergeClasses profile other.info).map fun profile => (true, profile)

/-- When `MergeWith` returns `true`, the merged profile has every key of the other
profile, with the other's checksum. The `i`-th dex file of the other profile is
renamed to the place of its key in the merged profile. The data of each such key is
the data this profile had for it, or new empty data, merged with the other's data:
the classes are united when `mergeClasses`, the bitmaps or-ed, the methods united,
and each inline cache says what the two caches merged say (`MergedInto`). Data of
the keys the other profile lacks is kept. -/
theorem mergeWith_spec {profile other merged : ProfileCompilationInfo} {mergeClasses : Bool}
    (run : profile.mergeWith other mergeClasses = some (true, merged)) :
    ∃ remap : List (BitVec 8),
      (∀ i (h : i < other.info.length), ∃ j, remap[i]? = some (BitVec.ofNat 8 j) ∧
        ∃ data, merged.info[j]? = some data ∧ data.profileKey = other.info[i].profileKey) ∧
      (∀ otherData ∈ other.info, ∃ data ∈ merged.info, data.profileKey = otherData.profileKey ∧
        data.checksum = otherData.checksum ∧
        (∀ old ∈ profile.info, old.profileKey = otherData.profileKey →
          MergedInto (remapClassReference remap) mergeClasses old otherData data) ∧
        (otherData.profileKey ∉ profile.info.map DexFileData.profileKey →
          MergedInto (remapClassReference remap) mergeClasses
            (DexFileData.make otherData.profileKey otherData.checksum otherData.numMethodIds) otherData data)) ∧
      (∀ old ∈ profile.info, old.profileKey ∉ other.info.map DexFileData.profileKey → old ∈ merged.info) := by
  unfold mergeWith at run
  split at run
  · cases run
  split at run
  · cases run
  next added remap addRun =>
  obtain ⟨merged', mergeRun, finished⟩ := Option.map_eq_some_iff.1 run
  cases finished
  have addedSpec := addDexFiles_eq_some other.keysNodup addRun
  have mergedSpec := mergeDexFiles_eq_some other.keysNodup mergeRun
  -- the `i`-th dex file of the other profile: its place, and the data merged there
  have placed : ∀ i (h : i < other.info.length), ∃ j, remap[i]? = some (BitVec.ofNat 8 j) ∧
      ∃ base data, merged.info[j]? = some data ∧ base.profileKey = other.info[i].profileKey ∧
        base.checksum = other.info[i].checksum ∧
        MergedInto (remapClassReference remap) mergeClasses base other.info[i] data ∧
        (base ∈ profile.info ∨ (other.info[i].profileKey ∉ profile.info.map DexFileData.profileKey ∧
          base = DexFileData.make other.info[i].profileKey other.info[i].checksum other.info[i].numMethodIds)) := by
    intro i h
    obtain ⟨j, remapAt, base, baseAt, baseKey, baseChecksum, origin⟩ := addedSpec.index i h
    have bound : j < added.info.length := by
      by_contra outside
      rw [List.getElem?_eq_none (by omega)] at baseAt
      cases baseAt
    have isBase : added.info[j] = base := Option.some.inj ((List.getElem?_eq_getElem bound).symm.trans baseAt)
    obtain ⟨data, dataAt, mergedData⟩ :=
      mergedSpec.mergedAt j bound other.info[i] (List.getElem_mem h) (by rw [isBase, baseKey])
    rw [isBase] at mergedData
    exact ⟨j, remapAt, base, data, dataAt, baseKey, baseChecksum, mergeDexFileData_mergedInto mergedData, origin⟩
  refine ⟨remap, fun i h => ?_, fun otherData mem => ?_, fun old mem missing => ?_⟩
  · obtain ⟨j, remapAt, base, data, dataAt, baseKey, -, into, -⟩ := placed i h
    exact ⟨j, remapAt, data, dataAt, into.profileKey.trans baseKey⟩
  · obtain ⟨i, h, rfl⟩ := List.mem_iff_getElem.1 mem
    obtain ⟨j, -, base, data, dataAt, baseKey, baseChecksum, into, origin⟩ := placed i h
    refine ⟨data, List.mem_of_getElem? dataAt, into.profileKey.trans baseKey, into.checksum.trans baseChecksum,
      fun old oldMem same => ?_, fun missing => ?_⟩
    · -- this profile had the key: its data is the base of the merge
      rcases origin with baseMem | ⟨missing, -⟩
      · rwa [eq_of_profileKey_eq oldMem baseMem (same.trans baseKey.symm)]
      · exact absurd (same ▸ List.mem_map_of_mem oldMem) missing
    · rcases origin with baseMem | ⟨-, made⟩
      · exact absurd (baseKey ▸ List.mem_map_of_mem baseMem) missing
      · rwa [made] at into
  · -- a key the other profile lacks: its data stays in place through both loops
    obtain ⟨i, h, rfl⟩ := List.mem_iff_getElem.1 mem
    obtain ⟨fresh, grows⟩ := addedSpec.grows
    have bound : i < added.info.length := by rw [grows, List.length_append]; omega
    have same : added.info[i] = profile.info[i] := by simp only [grows, List.getElem_append_left h]
    have kept := mergedSpec.kept i bound (by rw [same]; exact missing)
    rw [same] at kept
    exact List.mem_of_getElem? kept

/-- A profile of one dex file, `a`, with no methods. -/
def profileA : ProfileCompilationInfo := ⟨[DexFileData.make [0x61] 0 0], by decide, by decide⟩

/-- A profile of one dex file, `b`, whose method 3 has seen at dex pc 7 the class 5
of `b` itself, profile index 0. -/
def profileB : ProfileCompilationInfo :=
  ⟨[(DexFileData.make [0x62] 0 0).findOrAddMethod 3 fun inlineCache => inlineCache.insert 7 (DexPcData.empty.addClass 0 5)],
    by decide, by decide⟩

/-- The class 5 of `b` is class 5 of profile index 1 once `b` follows `a`. -/
example : (profileA.mergeWith profileB true).bind (fun merged => merged.2.info[1]?.bind (·.cacheView 3 7)) =
    some (.classes {⟨1, 5⟩}) := by decide

theorem profileA_mergeWith_profileB :
    ∃ merged, profileA.mergeWith profileB true = some (true, merged) ∧
    ∃ remap : List (BitVec 8),
      (∀ i (h : i < profileB.info.length), ∃ j, remap[i]? = some (BitVec.ofNat 8 j) ∧
        ∃ data, merged.info[j]? = some data ∧ data.profileKey = profileB.info[i].profileKey) ∧
      (∀ otherData ∈ profileB.info, ∃ data ∈ merged.info, data.profileKey = otherData.profileKey ∧
        data.checksum = otherData.checksum ∧
        (∀ old ∈ profileA.info, old.profileKey = otherData.profileKey →
          MergedInto (remapClassReference remap) true old otherData data) ∧
        (otherData.profileKey ∉ profileA.info.map DexFileData.profileKey →
          MergedInto (remapClassReference remap) true
            (DexFileData.make otherData.profileKey otherData.checksum otherData.numMethodIds) otherData data)) ∧
      (∀ old ∈ profileA.info, old.profileKey ∉ profileB.info.map DexFileData.profileKey → old ∈ merged.info) :=
  ⟨_, rfl, mergeWith_spec rfl⟩

end ProfileCompilationInfo

end Art.Runtime
