import Art.Runtime.Utf.Compare
import Art.Machine.BinarySearch

/-!
# Looking up strings in a dex file

The string ids of a dex file point at the string data of its strings, and the
verifier accepts them only in increasing order: `CheckInterStringIdItem` rejects an
item whose string data does not compare above that of the one before it, by
`CompareModifiedUtf8ToModifiedUtf8AsUtf16CodePointValues`
(`DexFileVerifier.StringIdsInOrder`). `DexFile::FindStringId` looks a string up by a
binary search over them (`Art.Machine.binarySearch`), and has two overloads.

* For a string of modified UTF-8, it compares the string with the string data at
  the midpoint, by the comparison the verifier uses. On an accepted table of
  well-formed strings it finds every entry (`findStringId_of_inOrder`); so does
  `FindTypeId` over the descriptors of the type ids.
* For chars, it compares the string data at the midpoint with the chars, by
  `CompareModifiedUtf8ToUtf16AsCodePointValues`: the arguments are the other way
  around, but the branches are those of the first overload, so a string data that
  compares below the chars moves the search to the left. When every entry but the
  last compares below the chars, the search finds nothing, whatever the last entry
  is (`findStringIdUtf16_eq_none_of_below`).

The string data of a string id is the list of its bytes before the terminating
zero; a pointer to a string id is its index.
-/

set_option autoImplicit false

namespace Art.Runtime

open Art.Machine

namespace DexFileVerifier

/-- The order `CheckInterStringIdItem` checks between the string data of a string id
and that of the one before it: the verifier rejects the file when the comparison
is not negative. -/
def checkInterStringIdItemOrder (prevStr str : List (BitVec 8)) : Bool :=
  match compareModifiedUtf8ToModifiedUtf8AsUtf16CodePointValues prevStr str with
  | some compare => !decide (compare ≥ 0)
  | none => false

/-- The string ids pass the order check, each against the one before it. -/
def StringIdsInOrder (stringData : List (List (BitVec 8))) : Prop :=
  stringData.IsChain fun prevStr str => checkInterStringIdItemOrder prevStr str = true

theorem checkInterStringIdItemOrder_iff {prevStr str : List (BitVec 8)} :
    checkInterStringIdItemOrder prevStr str = true ↔
      ∃ c, compareModifiedUtf8ToModifiedUtf8AsUtf16CodePointValues prevStr str = some c ∧ c < 0 := by
  rw [checkInterStringIdItemOrder]
  split <;> simp_all

end DexFileVerifier

namespace DexFile

open DexFileVerifier

/-- `DexFile::FindStringId(const char*)`. -/
def findStringId (stringData : List (List (BitVec 8))) (string : List (BitVec 8)) : Option (Option Int) :=
  binarySearch (fun mid => stringData[mid.toNat]?.bind fun str =>
    compareModifiedUtf8ToModifiedUtf8AsUtf16CodePointValues string str) 0 ((stringData.length : Int) - 1)

/-- `DexFile::FindTypeId(const char*)`: the search over the type ids, each read
through its `descriptor_idx_`. -/
def findTypeId (stringData : List (List (BitVec 8))) (descriptorIdx : List Nat) (string : List (BitVec 8)) :
    Option (Option Int) :=
  binarySearch (fun mid => (descriptorIdx[mid.toNat]?.bind fun idx => stringData[idx]?).bind fun str =>
    compareModifiedUtf8ToModifiedUtf8AsUtf16CodePointValues string str) 0 ((descriptorIdx.length : Int) - 1)

/-- `DexFile::FindStringId(const uint16_t*, size_t)`; the list `string` holds the
`length` chars. -/
def findStringIdUtf16 (stringData : List (List (BitVec 8))) (string : List (BitVec 16)) : Option (Option Int) :=
  binarySearch (fun mid => stringData[mid.toNat]?.bind fun str =>
    compareModifiedUtf8ToUtf16AsCodePointValues str string) 0 ((stringData.length : Int) - 1)

/-! ## The order of well-formed strings -/

section Order

/-- The keys of the units of a string, in order: what the verifier's comparison
orders strings by. -/
def unitKeys (str : List (BitVec 8)) : List Nat := ((readUnits str).getD []).map unitKey

theorem unitKeys_of_readUnits {str : List (BitVec 8)} {units : List (BitVec 32)} (reads : readUnits str = some units) :
    unitKeys str = units.map unitKey := by
  rw [unitKeys, reads, Option.getD_some]

/-- Two well-formed strings compare as their keys do. -/
theorem compare_of_wellFormed {str1 str2 : List (BitVec 8)} (wellFormed1 : ∃ units, readUnits str1 = some units)
    (wellFormed2 : ∃ units, readUnits str2 = some units) :
    ∃ c, compareModifiedUtf8ToModifiedUtf8AsUtf16CodePointValues str1 str2 = some c ∧
      compare c 0 = compare (unitKeys str1) (unitKeys str2) := by
  obtain ⟨units1, reads1⟩ := wellFormed1
  obtain ⟨units2, reads2⟩ := wellFormed2
  rw [unitKeys_of_readUnits reads1, unitKeys_of_readUnits reads2]
  exact compareModifiedUtf8ToModifiedUtf8AsUtf16CodePointValues_of_readUnits reads1 reads2

/-- An accepted table increases in every key by which the comparison of two of its
entries orders them: the verifier checks each neighbour, and the order is transitive. -/
theorem pairwise_of_inOrder {β α : Type} [Ord α] [Std.TransOrd α] {items : List β} (spell : β → List (BitVec 8))
    (key : β → α) (inOrder : StringIdsInOrder (items.map spell))
    (keeps : ∀ a ∈ items, ∀ b ∈ items, ∃ c, compareModifiedUtf8ToModifiedUtf8AsUtf16CodePointValues (spell a) (spell b) =
      some c ∧ compare c 0 = compare (key a) (key b)) :
    (items.map key).Pairwise fun a b => compare a b = .lt := by
  apply pairwise_of_isChain
  rw [StringIdsInOrder, List.isChain_map] at inOrder
  rw [List.isChain_map]
  refine inOrder.imp_of_mem_imp fun a b memberA memberB ordered => ?_
  obtain ⟨c, result, negative⟩ := checkInterStringIdItemOrder_iff.1 ordered
  obtain ⟨c', result', sign⟩ := keeps a memberA b memberB
  rw [result, Option.some.injEq] at result'
  rw [← sign, ← result']
  exact Int.compare_eq_lt.2 negative

/-- The keys of an accepted table of well-formed strings increase along the table. -/
theorem pairwise_unitKeys {stringData : List (List (BitVec 8))} (inOrder : StringIdsInOrder stringData)
    (wellFormed : ∀ str ∈ stringData, ∃ units, readUnits str = some units) :
    (stringData.map unitKeys).Pairwise fun a b => compare a b = .lt := by
  rw [← List.map_id stringData] at inOrder
  exact pairwise_of_inOrder id unitKeys inOrder fun a memberA b memberB =>
    compare_of_wellFormed (wellFormed a memberA) (wellFormed b memberB)

/-- Without surrogates, the verifier's order of the spellings of texts is the order
of their chars. -/
theorem pairwise_of_inOrder_noSurrogates {texts : List (List (BitVec 16))}
    (noSurrogates : ∀ text ∈ texts, ∀ ch ∈ text, ch.toNat < 0xd800 ∨ 0xe000 ≤ ch.toNat)
    (inOrder : StringIdsInOrder (texts.map fun text => convertUtf16ToModifiedUtf8 (countUtf8Bytes text) text)) :
    texts.Pairwise fun a b => compare a b = .lt := by
  rw [← List.map_id texts]
  exact pairwise_of_inOrder _ id inOrder fun a memberA b memberB =>
    compareModifiedUtf8ToModifiedUtf8AsUtf16CodePointValues_of_noSurrogates a b
      (noSurrogates a memberA) (noSurrogates b memberB)

end Order

/-! ## The two searches -/

/-- **The search for modified UTF-8 finds every entry** of a table of well-formed
strings that the verifier accepts. -/
theorem findStringId_of_inOrder {stringData : List (List (BitVec 8))} (inOrder : StringIdsInOrder stringData)
    (wellFormed : ∀ str ∈ stringData, ∃ units, readUnits str = some units) (k : Nat) (index : k < stringData.length) :
    findStringId stringData stringData[k] = some (some (k : Int)) := by
  have increasing := List.pairwise_iff_getElem.1 (pairwise_unitKeys inOrder wellFormed)
  simp only [List.length_map, List.getElem_map] at increasing
  apply binarySearch_eq_of_sorted (by omega) (by omega)
  intro i lower upper
  have small : i.toNat < stringData.length := by omega
  obtain ⟨c, result, sign⟩ :=
    compare_of_wellFormed (wellFormed _ (List.getElem_mem index)) (wellFormed _ (List.getElem_mem small))
  refine ⟨c, by rw [List.getElem?_eq_getElem small, Option.bind_some, result], ?_, ?_, ?_⟩
  · -- an entry below `k` has smaller keys
    intro below
    have ordered := increasing i.toNat k small index (by omega)
    rw [← Std.OrientedCmp.gt_iff_lt, ← sign] at ordered
    exact Int.compare_eq_gt.1 ordered
  · intro same
    have atK : i.toNat = k := by omega
    simp only [atK, Std.ReflOrd.compare_self] at sign
    exact Int.compare_eq_eq.1 sign
  · -- an entry above `k` has greater keys
    intro above
    have ordered := increasing k i.toNat index small (by omega)
    rw [← sign] at ordered
    exact Int.compare_eq_lt.1 ordered

/-- `FindTypeId` is the search for a string over the descriptors of the type ids. -/
theorem findTypeId_eq_findStringId {stringData descriptors : List (List (BitVec 8))} {descriptorIdx : List Nat}
    (names : descriptorIdx.map (fun idx => stringData[idx]?) = descriptors.map some) (string : List (BitVec 8)) :
    findTypeId stringData descriptorIdx string = findStringId descriptors string := by
  have sameLength : descriptorIdx.length = descriptors.length := by
    simpa using congrArg List.length names
  have reads : ∀ mid : Nat, (descriptorIdx[mid]?.bind fun idx => stringData[idx]?) = descriptors[mid]? := by
    intro mid
    have named := congrArg (·[mid]?) names
    simp only [List.getElem?_map] at named
    cases entry : descriptors[mid]? <;> cases index : descriptorIdx[mid]? <;> simp_all
  rw [findTypeId, findStringId, sameLength]
  simp only [reads]

/-- **The search for chars misses what the last entry holds.** When every entry
but the last compares below the chars, the search moves left from its first
midpoint and finds nothing. -/
theorem findStringIdUtf16_eq_none_of_below {stringData : List (List (BitVec 8))} {string : List (BitVec 16)}
    (two : 2 ≤ stringData.length)
    (below : ∀ i (index : i + 1 < stringData.length),
      ∃ c, compareModifiedUtf8ToUtf16AsCodePointValues stringData[i] string = some c ∧ c < 0) :
    findStringIdUtf16 stringData string = some none := by
  apply binarySearch_eq_none_of_neg_below (le_refl 0) (by omega)
  intro i lower upper
  have index : i.toNat + 1 < stringData.length := by omega
  obtain ⟨c, result, negative⟩ := below i.toNat index
  exact ⟨c, by rw [List.getElem?_eq_getElem (by omega), Option.bind_some, result], negative⟩

/-! ## The two overloads disagree -/

/-- **The comparisons and the searches for modified UTF-8 and for chars disagree.**

* A text that starts with a surrogate pair and one that starts with the same
  leading surrogate followed by a char in U+E000..U+FFFF: as chars the first is
  below the second, and so `CompareModifiedUtf8ToUtf16AsCodePointValues` finds it,
  but `CompareModifiedUtf8ToModifiedUtf8AsUtf16CodePointValues` finds it above.
* In every table of two or more texts without surrogates that the verifier accepts,
  `FindStringId` finds the last text by its modified UTF-8, and finds nothing by its
  chars. -/
theorem findStringId_overloads_disagree :
    (∀ (lead trail ch : BitVec 16) (x y : List (BitVec 16)),
      0xd800 ≤ lead.toNat → lead.toNat < 0xdc00 → 0xdc00 ≤ trail.toNat → trail.toNat < 0xe000 →
        0xe000 ≤ ch.toNat →
        compare (lead :: trail :: x) (lead :: ch :: y) = .lt ∧
        (∃ c, compareModifiedUtf8ToUtf16AsCodePointValues
          (convertUtf16ToModifiedUtf8 (countUtf8Bytes (lead :: trail :: x)) (lead :: trail :: x))
          (lead :: ch :: y) = some c ∧ c < 0) ∧
        (∃ c, compareModifiedUtf8ToModifiedUtf8AsUtf16CodePointValues
          (convertUtf16ToModifiedUtf8 (countUtf8Bytes (lead :: trail :: x)) (lead :: trail :: x))
          (convertUtf16ToModifiedUtf8 (countUtf8Bytes (lead :: ch :: y)) (lead :: ch :: y)) = some c ∧ 0 < c)) ∧
    (∀ (texts : List (List (BitVec 16))) (last : List (BitVec 16)), texts ≠ [] →
      (∀ text ∈ texts ++ [last], ∀ ch ∈ text, ch.toNat < 0xd800 ∨ 0xe000 ≤ ch.toNat) →
      StringIdsInOrder ((texts ++ [last]).map fun text => convertUtf16ToModifiedUtf8 (countUtf8Bytes text) text) →
        findStringId ((texts ++ [last]).map fun text => convertUtf16ToModifiedUtf8 (countUtf8Bytes text) text)
            (convertUtf16ToModifiedUtf8 (countUtf8Bytes last) last) = some (some (texts.length : Int)) ∧
          findStringIdUtf16 ((texts ++ [last]).map fun text => convertUtf16ToModifiedUtf8 (countUtf8Bytes text) text)
            last = some none) := by
  refine ⟨?_, ?_⟩
  · intro lead trail ch x y l1 l2 t1 t2 above
    -- as chars, the trailing surrogate is below `ch`
    have charsBelow : compare (lead :: trail :: x) (lead :: ch :: y) = .lt := by
      rw [compare_cons_self, compare_cons_of_ne _ _ (fun same => by rw [same] at t2; omega)]
      exact compareOfLessAndEq_eq_lt.2 (BitVec.lt_def.2 (by omega))
    obtain ⟨c, result, sign⟩ := compareModifiedUtf8ToUtf16AsCodePointValues_modifiedUtf8 (lead :: trail :: x)
      (lead :: ch :: y)
    rw [charsBelow] at sign
    exact ⟨charsBelow, ⟨c, result, Int.compare_eq_lt.1 sign⟩,
      compareModifiedUtf8ToModifiedUtf8AsUtf16CodePointValues_pair_unpaired x y ⟨l1, l2⟩ ⟨t1, t2⟩ above⟩
  · intro texts last nonempty noSurrogates inOrder
    have wellFormed : ∀ str ∈ (texts ++ [last]).map fun text => convertUtf16ToModifiedUtf8 (countUtf8Bytes text) text,
        ∃ units, readUnits str = some units := by
      intro str member
      obtain ⟨text, -, rfl⟩ := List.mem_map.1 member
      obtain ⟨units, reads, -⟩ := readUnits_of_mutf8 (convertUtf16ToModifiedUtf8_mutf8 text).1
      exact ⟨units, reads⟩
    have nonzero : texts.length ≠ 0 := fun zero => nonempty (List.eq_nil_of_length_eq_zero zero)
    refine ⟨?_, ?_⟩
    · -- by its modified UTF-8, the last text is found where it stands
      have found := findStringId_of_inOrder inOrder wellFormed texts.length (by simp)
      simpa using found
    · -- by its chars, every text before it is below, and the search runs left
      have increasing := List.pairwise_iff_getElem.1 (pairwise_of_inOrder_noSurrogates noSurrogates inOrder)
      apply findStringIdUtf16_eq_none_of_below (by simp; omega)
      intro i index
      simp only [List.length_map, List.length_append, List.length_singleton] at index
      have small : i < (texts ++ [last]).length := by simp; omega
      have belowLast := increasing i texts.length small (by simp) (by omega)
      obtain ⟨c, result, sign⟩ := compareModifiedUtf8ToUtf16AsCodePointValues_modifiedUtf8
        (texts ++ [last])[i] last
      simp only [List.getElem_append_right (Nat.le_refl _), Nat.sub_self, List.getElem_singleton] at belowLast
      rw [belowLast] at sign
      refine ⟨c, ?_, Int.compare_eq_lt.1 sign⟩
      rw [List.getElem_map]
      exact result

/-- The strings `a` and `b`: `FindStringId("b")` finds the second string id,
`FindStringId(u"b", 1)` none; and the pair `D800 DC00` against `D800 E000`. -/
theorem findStringId_overloads_disagree_ab :
    (compare ([0xd800, 0xdc00] : List (BitVec 16)) [0xd800, 0xe000] = .lt ∧
      (∃ c, compareModifiedUtf8ToUtf16AsCodePointValues
        (convertUtf16ToModifiedUtf8 (countUtf8Bytes [0xd800, 0xdc00]) [0xd800, 0xdc00]) [0xd800, 0xe000] =
          some c ∧ c < 0) ∧
      (∃ c, compareModifiedUtf8ToModifiedUtf8AsUtf16CodePointValues
        (convertUtf16ToModifiedUtf8 (countUtf8Bytes [0xd800, 0xdc00]) [0xd800, 0xdc00])
        (convertUtf16ToModifiedUtf8 (countUtf8Bytes [0xd800, 0xe000]) [0xd800, 0xe000]) = some c ∧ 0 < c)) ∧
    (findStringId ([[0x61], [0x62]].map fun text => convertUtf16ToModifiedUtf8 (countUtf8Bytes text) text)
        (convertUtf16ToModifiedUtf8 (countUtf8Bytes [0x62]) [0x62]) = some (some 1) ∧
      findStringIdUtf16 ([[0x61], [0x62]].map fun text => convertUtf16ToModifiedUtf8 (countUtf8Bytes text) text)
        [0x62] = some none) := by
  -- the verifier accepts `a` before `b`
  have inOrder : StringIdsInOrder ([[0x61], [0x62]].map fun text =>
      convertUtf16ToModifiedUtf8 (countUtf8Bytes text) text) := by
    refine .cons_cons (checkInterStringIdItemOrder_iff.2 ?_) (.singleton _)
    obtain ⟨c, result, sign⟩ :=
      compareModifiedUtf8ToModifiedUtf8AsUtf16CodePointValues_of_noSurrogates [0x61] [0x62] (by simp) (by simp)
    exact ⟨c, result, Int.compare_eq_lt.1 (sign.trans (by decide))⟩
  exact ⟨findStringId_overloads_disagree.1 0xd800 0xdc00 0xe000 [] [] (by decide) (by decide) (by decide)
      (by decide) (by decide),
    findStringId_overloads_disagree.2 [[0x61]] [0x62] (by decide) (by simp) inOrder⟩

end DexFile

end Art.Runtime
