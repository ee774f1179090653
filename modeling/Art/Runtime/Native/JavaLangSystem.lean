import Art.Runtime.Mirror.Array

/-!
# `System.arraycopy`

`System_arraycopy` copies `length` elements from `src` at `srcPos` to `dst` at
`dstPos`. It throws `NullPointerException` for a null `src` or `dst`, and
`ArrayStoreException` when either is not an array. It then checks the bounds, on
`jint`s: the subtraction of a non-negative count from a length cannot overflow, so
the test is the one on integers (`boundsCheckFails_iff`). Only then does it compare
the component types: the same type goes to the `Memmove` of its width, a primitive
type against another type throws `ArrayStoreException`, and two reference types
go to `AssignableMemcpy` when the destination's is assignable from the source's,
to `AssignableCheckingMemcpy` otherwise.

The Java SE documentation orders the checks the other way: incompatible component
types throw `ArrayStoreException` whatever the positions, and only compatible
arrays have their bounds checked (`javaArraycopy`). On every other input the code
does what the documentation says, for a heap whose arrays of references hold only
null or objects of their component type (`systemArraycopy_refines`): the
destination range receives the original source range, also within one array, every
other element keeps its value, and a checking copy stores the longest prefix that
may be stored before it throws. On two arrays of incompatible component types with
positions out of bounds, the code throws `ArrayIndexOutOfBoundsException` where
the documentation throws `ArrayStoreException` (`systemArraycopy_boundsBeforeTypes`).
With the bounds checked first, as the code and `UnstartedSystemArraycopy` check
them (`arraycopyBoundsFirst`), the documented behaviour is what the code does on
every input (`systemArraycopy_checksBoundsFirst`).
-/

set_option autoImplicit false

namespace Art.Runtime.Native

open Art.Machine Art.Compiler.Optimizing Art.Runtime.Mirror

variable {C : Type} [DecidableEq C]

/-! ## The bounds test on `jint`s -/

/-- The bounds test of `System_arraycopy`. -/
def boundsCheckFails (srcLength srcPos dstLength dstPos count : BitVec 32) : Bool :=
  srcPos.slt 0 || dstPos.slt 0 || count.slt 0 || (srcLength - count).slt srcPos || (dstLength - count).slt dstPos

/-- A length below `2 ^ 31` is the same `jint`. -/
theorem toInt_ofNat_of_lt {n : Nat} (small : n < 2 ^ 31) : (BitVec.ofNat 32 n).toInt = n := by
  have cond := BitVec.toInt_eq_toNat_cond (BitVec.ofNat 32 n)
  rw [BitVec.toNat_ofNat] at cond
  split at cond <;> omega

/-- A non-negative `jint` is the same as a natural number. -/
theorem toNat_eq_toInt_toNat {x : BitVec 32} (nonneg : 0 ≤ x.toInt) : x.toNat = x.toInt.toNat := by
  have cond := BitVec.toInt_eq_toNat_cond x
  split at cond <;> omega

/-- A non-negative count subtracted from a length does not overflow. -/
theorem toInt_ofNat_sub {n : Nat} (small : n < 2 ^ 31) {count : BitVec 32} (nonneg : 0 ≤ count.toInt) :
    (BitVec.ofNat 32 n - count).toInt = n - count.toInt := by
  rw [BitVec.toInt_sub, toInt_ofNat_of_lt small]
  have := BitVec.toInt_lt (x := count)
  exact Int.bmod_eq_of_le (by omega) (by omega)

/-- The bounds test on `jint`s is the test on integers: the test of the count
comes first, and past it no subtraction overflows. -/
theorem boundsCheckFails_iff {srcLength dstLength : Nat} (srcSmall : srcLength < 2 ^ 31)
    (dstSmall : dstLength < 2 ^ 31) (srcPos dstPos count : BitVec 32) :
    boundsCheckFails (BitVec.ofNat 32 srcLength) srcPos (BitVec.ofNat 32 dstLength) dstPos count = true ↔
      srcPos.toInt < 0 ∨ dstPos.toInt < 0 ∨ count.toInt < 0 ∨ (srcLength : Int) < srcPos.toInt + count.toInt ∨
        (dstLength : Int) < dstPos.toInt + count.toInt := by
  have zero : (0 : BitVec 32).toInt = 0 := rfl
  simp only [boundsCheckFails, Bool.or_eq_true, BitVec.slt_iff_toInt_lt, zero]
  by_cases negative : count.toInt < 0
  · exact iff_of_true (.inl (.inl (.inr negative))) (.inr (.inr (.inl negative)))
  · rw [toInt_ofNat_sub srcSmall (by omega), toInt_ofNat_sub dstSmall (by omega)]
    omega

/-! ## The code -/

/-- `System_arraycopy`, with `javaSrc` and `javaDst` the addresses the references
decode to, `0` for null. A `LOG(FATAL)` is `none`. -/
def systemArraycopy (classes : ClassTable C) (heap : Heap C) (javaSrc : Nat) (srcPos : BitVec 32)
    (javaDst : Nat) (dstPos length : BitVec 32) : Option (Outcome C) :=
  let count := length
  if javaSrc = 0 then some ⟨heap, some (.nullPointer "src == null")⟩
  else if javaDst = 0 then some ⟨heap, some (.nullPointer "dst == null")⟩
  else
    match classes.componentType (heap.classOf javaSrc), classes.componentType (heap.classOf javaDst) with
    | none, _ => some ⟨heap, some (.notAnArray "source" (heap.classOf javaSrc))⟩
    | some _, none => some ⟨heap, some (.notAnArray "destination" (heap.classOf javaDst))⟩
    | some srcComponentType, some dstComponentType =>
        let srcLength : BitVec 32 := BitVec.ofNat 32 (heap.length javaSrc)
        let dstLength : BitVec 32 := BitVec.ofNat 32 (heap.length javaDst)
        if boundsCheckFails srcLength srcPos dstLength dstPos count then
          some ⟨heap, some (.outOfBounds srcLength.toInt srcPos.toInt dstLength.toInt dstPos.toInt count.toInt)⟩
        else
          let copied (element : Nat × Nat → Nat) : Option (Outcome C) := some ⟨{ heap with element }, none⟩
          if srcComponentType = dstComponentType then
            -- trivial assignability: the copy of the width of the type
            match classes.primitiveType dstComponentType with
            | .primVoid => none
            | .primBoolean | .primByte =>
                copied (PrimitiveArray.memmove 1 heap.element javaDst dstPos.toNat javaSrc srcPos.toNat count.toNat)
            | .primChar | .primShort =>
                copied (PrimitiveArray.memmove 2 heap.element javaDst dstPos.toNat javaSrc srcPos.toNat count.toNat)
            | .primInt | .primFloat =>
                copied (PrimitiveArray.memmove 4 heap.element javaDst dstPos.toNat javaSrc srcPos.toNat count.toNat)
            | .primLong | .primDouble =>
                copied (PrimitiveArray.memmove 8 heap.element javaDst dstPos.toNat javaSrc srcPos.toNat count.toNat)
            | .primNot =>
                copied (ObjectArray.assignableMemmove heap.element javaDst dstPos.toNat javaSrc srcPos.toNat count.toNat)
          else if classes.primitiveType dstComponentType ≠ .primNot ∨ classes.primitiveType srcComponentType ≠ .primNot then
            some ⟨heap, some (.incompatibleTypes (heap.classOf javaSrc) (heap.classOf javaDst))⟩
          -- distinct types, so distinct arrays
          else if classes.isAssignableFrom dstComponentType srcComponentType then
            copied (ObjectArray.assignableMemcpy heap.element javaDst dstPos.toNat javaSrc srcPos.toNat count.toNat)
          else
            some (ObjectArray.assignableCheckingMemcpy classes heap dstComponentType javaDst dstPos.toNat javaSrc
              srcPos.toNat count.toNat)

/-- `System_arraycopy` on two arrays, with every copy at its meaning: past the
bounds test, the same component type copies the range through a temporary, and so
does a reference type assignable to the destination's. -/
theorem systemArraycopy_of_arrays (classes : ClassTable C) (heap : Heap C) {src dst : Nat}
    (srcPos dstPos length : BitVec 32) (srcNonnull : src ≠ 0) (dstNonnull : dst ≠ 0) {srcComponent dstComponent : C}
    (srcArray : classes.componentType (heap.classOf src) = some srcComponent)
    (dstArray : classes.componentType (heap.classOf dst) = some dstComponent) :
    systemArraycopy classes heap src srcPos dst dstPos length =
      if boundsCheckFails (BitVec.ofNat 32 (heap.length src)) srcPos (BitVec.ofNat 32 (heap.length dst)) dstPos
          length then
        some ⟨heap, some (.outOfBounds (heap.length src) srcPos.toInt (heap.length dst) dstPos.toInt length.toInt)⟩
      else if srcComponent = dstComponent then
        some ⟨{ heap with element := copyRange heap.element dst dstPos.toNat src srcPos.toNat length.toNat }, none⟩
      else if classes.primitiveType dstComponent ≠ .primNot ∨ classes.primitiveType srcComponent ≠ .primNot then
        some ⟨heap, some (.incompatibleTypes (heap.classOf src) (heap.classOf dst))⟩
      else if classes.isAssignableFrom dstComponent srcComponent then
        some ⟨{ heap with element := copyRange heap.element dst dstPos.toNat src srcPos.toNat length.toNat }, none⟩
      else
        some (ObjectArray.assignableCheckingMemcpy classes heap dstComponent dst dstPos.toNat src srcPos.toNat
          length.toNat) := by
  simp only [systemArraycopy, if_neg srcNonnull, if_neg dstNonnull, srcArray, dstArray,
    toInt_ofNat_of_lt (heap.length_lt src), toInt_ofNat_of_lt (heap.length_lt dst)]
  split_ifs with outside same incompatible assignable
  · rfl
  · -- the copies of every width within one type copy through a temporary
    subst same
    have notVoid := classes.componentType_ne_void _ _ dstArray
    cases typeOf : classes.primitiveType srcComponent
    case primVoid => exact absurd typeOf notVoid
    all_goals simp only [PrimitiveArray.memmove_eq_copyRange, ObjectArray.assignableMemmove_eq_copyRange]
  · rfl
  · -- arrays of two types are two arrays
    have distinct : src ≠ dst := by
      rintro rfl
      exact same (Option.some.inj (srcArray.symm.trans dstArray))
    rw [ObjectArray.assignableMemcpy_eq_copyRange _ _ _ _ _ _ distinct]
  · rfl

/-! ## The documented behaviour -/

/-- `System.arraycopy` as the Java SE documentation specifies it, on integer
positions: the heap it leaves and the class of what it throws. The
`IndexOutOfBoundsException` it names is thrown as its subclass
`ArrayIndexOutOfBoundsException`. An element of the source converts to the
destination's component type by assignment when the type is primitive (and then
the source's), or when the element may be stored. -/
def javaArraycopy (classes : ClassTable C) (heap : Heap C) (src : Nat) (srcPos : Int) (dst : Nat)
    (dstPos length : Int) : Heap C × Option ThrowableClass :=
  if src = 0 ∨ dst = 0 then (heap, some .nullPointerException)
  else
    match classes.componentType (heap.classOf src), classes.componentType (heap.classOf dst) with
    | some srcComponent, some dstComponent =>
        if srcComponent ≠ dstComponent ∧
            (classes.primitiveType srcComponent ≠ .primNot ∨ classes.primitiveType dstComponent ≠ .primNot) then
          (heap, some .arrayStoreException)
        else if srcPos < 0 ∨ dstPos < 0 ∨ length < 0 ∨ (heap.length src : Int) < srcPos + length ∨
            (heap.length dst : Int) < dstPos + length then
          (heap, some .arrayIndexOutOfBoundsException)
        else
          let converts (j : Nat) : Bool := classes.primitiveType dstComponent != .primNot ||
            canStore classes heap.classOf dstComponent (heap.element (src, srcPos.toNat + j))
          let k := leadingCount converts 0 length.toNat
          ({ heap with element := copyRange heap.element dst dstPos.toNat src srcPos.toNat k },
            if k < length.toNat then some .arrayStoreException else none)
    | _, _ => (heap, some .arrayStoreException)

/-- What the documentation sees of an outcome: the heap and the class of the
exception. -/
def Outcome.toJava (outcome : Outcome C) : Heap C × Option ThrowableClass :=
  (outcome.heap, outcome.exception.map Exception.throwableClass)

/-- `javaArraycopy` on two arrays. -/
theorem javaArraycopy_of_arrays (classes : ClassTable C) (heap : Heap C) {src dst : Nat} (srcPos dstPos length : Int)
    (srcNonnull : src ≠ 0) (dstNonnull : dst ≠ 0) {srcComponent dstComponent : C}
    (srcArray : classes.componentType (heap.classOf src) = some srcComponent)
    (dstArray : classes.componentType (heap.classOf dst) = some dstComponent) :
    javaArraycopy classes heap src srcPos dst dstPos length =
      if srcComponent ≠ dstComponent ∧
          (classes.primitiveType srcComponent ≠ .primNot ∨ classes.primitiveType dstComponent ≠ .primNot) then
        (heap, some .arrayStoreException)
      else if srcPos < 0 ∨ dstPos < 0 ∨ length < 0 ∨ (heap.length src : Int) < srcPos + length ∨
          (heap.length dst : Int) < dstPos + length then
        (heap, some .arrayIndexOutOfBoundsException)
      else
        let k := leadingCount (fun j => classes.primitiveType dstComponent != .primNot ||
          canStore classes heap.classOf dstComponent (heap.element (src, srcPos.toNat + j))) 0 length.toNat
        ({ heap with element := copyRange heap.element dst dstPos.toNat src srcPos.toNat k },
          if k < length.toNat then some .arrayStoreException else none) := by
  simp only [javaArraycopy, srcNonnull, dstNonnull, or_self, if_false, srcArray, dstArray]

/-- The documented behaviour with the bounds checked before the component types, in
the order of `System_arraycopy` and of `UnstartedSystemArraycopy`: two arrays out
of bounds throw `ArrayIndexOutOfBoundsException` whatever their component types. -/
def arraycopyBoundsFirst (classes : ClassTable C) (heap : Heap C) (src : Nat) (srcPos : Int) (dst : Nat)
    (dstPos length : Int) : Heap C × Option ThrowableClass :=
  if src ≠ 0 ∧ dst ≠ 0 ∧ (classes.componentType (heap.classOf src)).isSome ∧
      (classes.componentType (heap.classOf dst)).isSome ∧
      (srcPos < 0 ∨ dstPos < 0 ∨ length < 0 ∨ (heap.length src : Int) < srcPos + length ∨
        (heap.length dst : Int) < dstPos + length) then
    (heap, some .arrayIndexOutOfBoundsException)
  else javaArraycopy classes heap src srcPos dst dstPos length

/-! ## The code against the documentation -/

section Refinement

variable (classes : ClassTable C) (heap : Heap C)

omit [DecidableEq C] in
/-- The documented copy within the bounds, when every element of the range
converts: all of the range is copied and nothing is thrown. -/
theorem javaCopy_of_converts {src dst : Nat} {dstComponent : C} {srcPos dstPos : Nat} {n : Nat}
    (converts : ∀ j < n, (classes.primitiveType dstComponent != .primNot ||
      canStore classes heap.classOf dstComponent (heap.element (src, srcPos + j))) = true) :
    let k := leadingCount (fun j => classes.primitiveType dstComponent != .primNot ||
      canStore classes heap.classOf dstComponent (heap.element (src, srcPos + j))) 0 n
    (({ heap with element := copyRange heap.element dst dstPos src srcPos k } : Heap C),
        if k < n then some ThrowableClass.arrayStoreException else none) =
      ({ heap with element := copyRange heap.element dst dstPos src srcPos n }, none) := by
  intro k
  have all : k = n := leadingCount_eq_self fun j below => by simpa using converts j below
  rw [all, if_neg (Nat.lt_irrefl n)]

/-- Within the bounds, on two arrays, the code's copy is the documented one: the
same type or a type assignable to the destination's copies all the range, and
the checking copy the longest prefix that converts. -/
theorem copy_refines (typed : heap.WellTyped classes) {src dst srcPos : Nat} (dstPos : Nat) {n : Nat}
    {srcComponent dstComponent : C}
    (srcArray : classes.componentType (heap.classOf src) = some srcComponent)
    (dstArray : classes.componentType (heap.classOf dst) = some dstComponent)
    (srcRange : ∀ j < n, srcPos + j < heap.length src) :
    (if srcComponent = dstComponent then
        some ⟨{ heap with element := copyRange heap.element dst dstPos src srcPos n }, none⟩
      else if classes.primitiveType dstComponent ≠ .primNot ∨ classes.primitiveType srcComponent ≠ .primNot then
        some ⟨heap, some (.incompatibleTypes (heap.classOf src) (heap.classOf dst))⟩
      else if classes.isAssignableFrom dstComponent srcComponent then
        some ⟨{ heap with element := copyRange heap.element dst dstPos src srcPos n }, none⟩
      else
        some (ObjectArray.assignableCheckingMemcpy classes heap dstComponent dst dstPos src srcPos n)).map
          Outcome.toJava =
      some (if srcComponent ≠ dstComponent ∧
          (classes.primitiveType srcComponent ≠ .primNot ∨ classes.primitiveType dstComponent ≠ .primNot) then
        (heap, some .arrayStoreException)
      else
        let k := leadingCount (fun j => classes.primitiveType dstComponent != .primNot ||
          canStore classes heap.classOf dstComponent (heap.element (src, srcPos + j))) 0 n
        ({ heap with element := copyRange heap.element dst dstPos src srcPos k },
          if k < n then some .arrayStoreException else none)) := by
  by_cases same : srcComponent = dstComponent
  · -- one type: every element of the range converts
    subst same
    have compatible : ¬(srcComponent ≠ srcComponent ∧
        (classes.primitiveType srcComponent ≠ .primNot ∨ classes.primitiveType srcComponent ≠ .primNot)) :=
      fun incompatible => incompatible.1 rfl
    rw [if_pos rfl, if_neg compatible, javaCopy_of_converts classes heap fun j below => by
      by_cases reference : classes.primitiveType srcComponent = .primNot
      · rw [heap.canStore_of_wellTyped classes typed srcArray reference (classes.isAssignableFrom_self _)
          (srcRange j below), Bool.or_true]
      · simp [reference]]
    rfl
  · rw [if_neg same]
    by_cases primitive : classes.primitiveType dstComponent ≠ .primNot ∨
        classes.primitiveType srcComponent ≠ .primNot
    · have incompatible : srcComponent ≠ dstComponent ∧
          (classes.primitiveType srcComponent ≠ .primNot ∨ classes.primitiveType dstComponent ≠ .primNot) :=
        ⟨same, primitive.symm⟩
      rw [if_pos primitive, if_pos incompatible]
      rfl
    · have compatible : ¬(srcComponent ≠ dstComponent ∧
          (classes.primitiveType srcComponent ≠ .primNot ∨ classes.primitiveType dstComponent ≠ .primNot)) :=
        fun incompatible => primitive incompatible.2.symm
      rw [if_neg primitive, if_neg compatible]
      simp only [not_or, not_not] at primitive
      obtain ⟨dstReference, srcReference⟩ := primitive
      by_cases assignable : classes.isAssignableFrom dstComponent srcComponent = true
      · -- every element of the source is of a class assignable to the destination's type
        rw [if_pos assignable, javaCopy_of_converts classes heap fun j below => by
          rw [dstReference, bne_self_eq_false, Bool.false_or]
          exact heap.canStore_of_wellTyped classes typed srcArray srcReference assignable (srcRange j below)]
        rfl
      · have distinct : src ≠ dst := by
          rintro rfl
          exact same (Option.some.inj (srcArray.symm.trans dstArray))
        rw [if_neg assignable, ObjectArray.assignableCheckingMemcpy_eq _ _ _ _ _ _ _ _ distinct]
        simp only [Option.map_some, Outcome.toJava, dstReference, bne_self_eq_false, Bool.false_or]
        split_ifs <;> rfl

/-- **The code refines the documentation** off the inputs where the order of the
checks matters. For a heap whose arrays of references hold null or objects of their
component type, and arguments that are not two arrays of incompatible component
types with positions out of bounds, `System_arraycopy` leaves the heap the
documentation describes and throws an exception of the class it names. -/
theorem systemArraycopy_refines (typed : heap.WellTyped classes) (src dst : Nat) (srcPos dstPos length : BitVec 32)
    (ordered : ∀ srcComponent dstComponent, classes.componentType (heap.classOf src) = some srcComponent →
      classes.componentType (heap.classOf dst) = some dstComponent → srcComponent ≠ dstComponent →
      (classes.primitiveType srcComponent ≠ .primNot ∨ classes.primitiveType dstComponent ≠ .primNot) →
      0 ≤ srcPos.toInt ∧ 0 ≤ dstPos.toInt ∧ 0 ≤ length.toInt ∧ srcPos.toInt + length.toInt ≤ heap.length src ∧
        dstPos.toInt + length.toInt ≤ heap.length dst) :
    (systemArraycopy classes heap src srcPos dst dstPos length).map Outcome.toJava =
      some (javaArraycopy classes heap src srcPos.toInt dst dstPos.toInt length.toInt) := by
  by_cases srcNull : src = 0
  · simp [systemArraycopy, javaArraycopy, srcNull, Outcome.toJava, Exception.throwableClass]
  by_cases dstNull : dst = 0
  · simp [systemArraycopy, javaArraycopy, srcNull, dstNull, Outcome.toJava, Exception.throwableClass]
  -- the checks that an argument is an array are in the same order in both
  cases srcArray : classes.componentType (heap.classOf src) with
  | none => simp [systemArraycopy, javaArraycopy, srcNull, dstNull, srcArray, Outcome.toJava, Exception.throwableClass]
  | some srcComponent =>
  cases dstArray : classes.componentType (heap.classOf dst) with
  | none => simp [systemArraycopy, javaArraycopy, srcNull, dstNull, srcArray, dstArray, Outcome.toJava,
      Exception.throwableClass]
  | some dstComponent =>
  rw [systemArraycopy_of_arrays classes heap srcPos dstPos length srcNull dstNull srcArray dstArray,
    javaArraycopy_of_arrays classes heap _ _ _ srcNull dstNull srcArray dstArray]
  by_cases outside : srcPos.toInt < 0 ∨ dstPos.toInt < 0 ∨ length.toInt < 0 ∨
      (heap.length src : Int) < srcPos.toInt + length.toInt ∨ (heap.length dst : Int) < dstPos.toInt + length.toInt
  · -- out of bounds, so the component types are compatible
    have compatible : ¬(srcComponent ≠ dstComponent ∧
        (classes.primitiveType srcComponent ≠ .primNot ∨ classes.primitiveType dstComponent ≠ .primNot)) :=
      fun ⟨different, primitive⟩ => by
        have := ordered srcComponent dstComponent srcArray dstArray different primitive
        omega
    have fails := (boundsCheckFails_iff (heap.length_lt src) (heap.length_lt dst) srcPos dstPos length).2 outside
    simp [fails, compatible, outside, Outcome.toJava, Exception.throwableClass]
  · have passes : boundsCheckFails (BitVec.ofNat 32 (heap.length src)) srcPos (BitVec.ofNat 32 (heap.length dst))
        dstPos length = false := by
      rw [← Bool.not_eq_true, boundsCheckFails_iff (heap.length_lt src) (heap.length_lt dst)]
      exact outside
    have within := outside
    simp only [not_or, Int.not_lt] at within
    obtain ⟨srcNonneg, dstNonneg, lengthNonneg, srcFits, -⟩ := within
    have srcRange : ∀ j < length.toNat, srcPos.toNat + j < heap.length src := by
      intro j below
      have := toNat_eq_toInt_toNat srcNonneg
      have := toNat_eq_toInt_toNat lengthNonneg
      omega
    have copied := copy_refines classes heap typed dstPos.toNat srcArray dstArray srcRange
    rw [toNat_eq_toInt_toNat srcNonneg, toNat_eq_toInt_toNat dstNonneg, toNat_eq_toInt_toNat lengthNonneg] at copied
    simp only [passes, Bool.false_eq_true, if_false]
    rw [toNat_eq_toInt_toNat srcNonneg, toNat_eq_toInt_toNat dstNonneg, toNat_eq_toInt_toNat lengthNonneg, copied]
    by_cases incompatible : srcComponent ≠ dstComponent ∧
        (classes.primitiveType srcComponent ≠ .primNot ∨ classes.primitiveType dstComponent ≠ .primNot)
    · rw [if_pos incompatible, if_pos incompatible]
    · rw [if_neg incompatible, if_neg incompatible, if_neg outside]

end Refinement

/-! ## The order of the checks -/

/-- **The bounds are checked before the component types.** On two arrays whose
component types are incompatible (different, and one of them primitive) and
positions out of their bounds, `System_arraycopy` throws
`ArrayIndexOutOfBoundsException` and leaves the heap alone, where the documentation
throws `ArrayStoreException`. -/
theorem systemArraycopy_boundsBeforeTypes (classes : ClassTable C) (heap : Heap C) {src dst : Nat}
    (srcPos dstPos length : BitVec 32) (srcNonnull : src ≠ 0) (dstNonnull : dst ≠ 0) {srcComponent dstComponent : C}
    (srcArray : classes.componentType (heap.classOf src) = some srcComponent)
    (dstArray : classes.componentType (heap.classOf dst) = some dstComponent)
    (incompatible : srcComponent ≠ dstComponent ∧
      (classes.primitiveType srcComponent ≠ .primNot ∨ classes.primitiveType dstComponent ≠ .primNot))
    (outside : srcPos.toInt < 0 ∨ dstPos.toInt < 0 ∨ length.toInt < 0 ∨
      (heap.length src : Int) < srcPos.toInt + length.toInt ∨ (heap.length dst : Int) < dstPos.toInt + length.toInt) :
    systemArraycopy classes heap src srcPos dst dstPos length =
        some ⟨heap, some (.outOfBounds (heap.length src) srcPos.toInt (heap.length dst) dstPos.toInt length.toInt)⟩ ∧
      javaArraycopy classes heap src srcPos.toInt dst dstPos.toInt length.toInt = (heap, some .arrayStoreException) := by
  have fails := (boundsCheckFails_iff (heap.length_lt src) (heap.length_lt dst) srcPos dstPos length).2 outside
  rw [systemArraycopy_of_arrays classes heap srcPos dstPos length srcNonnull dstNonnull srcArray dstArray,
    javaArraycopy_of_arrays classes heap _ _ _ srcNonnull dstNonnull srcArray dstArray, if_pos fails,
    if_pos incompatible]
  exact ⟨rfl, rfl⟩

/-- **`System_arraycopy` is the documented behaviour with the bounds checked
first.** For a heap whose arrays of references hold null or objects of their
component type, it leaves the heap `arraycopyBoundsFirst` describes and throws an
exception of the class it names, on every input. -/
theorem systemArraycopy_checksBoundsFirst (classes : ClassTable C) (heap : Heap C) (typed : heap.WellTyped classes)
    (src dst : Nat) (srcPos dstPos length : BitVec 32) :
    (systemArraycopy classes heap src srcPos dst dstPos length).map Outcome.toJava =
      some (arraycopyBoundsFirst classes heap src srcPos.toInt dst dstPos.toInt length.toInt) := by
  by_cases early : src ≠ 0 ∧ dst ≠ 0 ∧ (classes.componentType (heap.classOf src)).isSome ∧
      (classes.componentType (heap.classOf dst)).isSome
  · obtain ⟨srcNonnull, dstNonnull, srcIsArray, dstIsArray⟩ := early
    obtain ⟨srcComponent, srcArray⟩ := Option.isSome_iff_exists.mp srcIsArray
    obtain ⟨dstComponent, dstArray⟩ := Option.isSome_iff_exists.mp dstIsArray
    by_cases outside : srcPos.toInt < 0 ∨ dstPos.toInt < 0 ∨ length.toInt < 0 ∨
        (heap.length src : Int) < srcPos.toInt + length.toInt ∨ (heap.length dst : Int) < dstPos.toInt + length.toInt
    · -- out of bounds: the code throws before it looks at the component types
      have fails := (boundsCheckFails_iff (heap.length_lt src) (heap.length_lt dst) srcPos dstPos length).2 outside
      rw [systemArraycopy_of_arrays classes heap srcPos dstPos length srcNonnull dstNonnull srcArray dstArray,
        if_pos fails, arraycopyBoundsFirst, if_pos ⟨srcNonnull, dstNonnull, srcIsArray, dstIsArray, outside⟩]
      rfl
    · -- within the bounds the order of the checks does not matter
      have within := outside
      simp only [not_or, Int.not_lt] at within
      rw [arraycopyBoundsFirst, if_neg fun first => outside first.2.2.2.2]
      exact systemArraycopy_refines classes heap typed src dst srcPos dstPos length
        fun _ _ _ _ _ _ => ⟨within.1, within.2.1, within.2.2.1, within.2.2.2.1, within.2.2.2.2⟩
  · -- a null or a non-array argument: the two behaviours are the documented one
    rw [arraycopyBoundsFirst, if_neg fun first => early ⟨first.1, first.2.1, first.2.2.1, first.2.2.2.1⟩]
    by_cases nulls : src = 0 ∨ dst = 0
    · rcases nulls with srcNull | dstNull
      · simp [systemArraycopy, javaArraycopy, srcNull, Outcome.toJava, Exception.throwableClass]
      · by_cases srcNull : src = 0 <;>
          simp [systemArraycopy, javaArraycopy, srcNull, dstNull, Outcome.toJava, Exception.throwableClass]
    · -- one of them is not an array, so no bounds are compared
      refine systemArraycopy_refines classes heap typed src dst srcPos dstPos length
        fun srcComponent dstComponent srcArray dstArray _ _ => absurd ⟨?_, ?_, ?_, ?_⟩ early
      · exact fun srcNull => nulls (.inl srcNull)
      · exact fun dstNull => nulls (.inr dstNull)
      · rw [srcArray]; rfl
      · rw [dstArray]; rfl

/-- The classes of a heap that holds an `int[]` and a `long[]`. -/
inductive IntLongClass
  | int
  | long
  | intArray
  | longArray
  deriving DecidableEq

/-- `int`, `long` and their arrays, each assignable only from itself. -/
def intLongClasses : ClassTable IntLongClass where
  componentType
    | .intArray => some .int
    | .longArray => some .long
    | _ => none
  primitiveType
    | .int => .primInt
    | .long => .primLong
    | _ => .primNot
  isAssignableFrom a b := decide (a = b)
  isAssignableFrom_self c := decide_eq_true rfl
  isAssignableFrom_trans a b c ab bc := by simp_all
  componentType_ne_void c d arrayOf := by
    cases c <;> cases d <;> simp_all

/-- A `new int[1]` at address `1` and a `new long[1]` at every other address. -/
def intLongHeap : Heap IntLongClass where
  classOf address := if address = 1 then .intArray else .longArray
  length _ := 1
  element _ := 0
  length_lt _ := by decide

/-- `System.arraycopy(new int[1], 0, new long[1], 0, 2)` throws
`ArrayIndexOutOfBoundsException`; the documentation says `ArrayStoreException`. -/
theorem intToLongArraycopy_outOfBounds :
    systemArraycopy intLongClasses intLongHeap 1 0 2 0 2 = some ⟨intLongHeap, some (.outOfBounds 1 0 1 0 2)⟩ ∧
      javaArraycopy intLongClasses intLongHeap 1 0 2 0 2 = (intLongHeap, some .arrayStoreException) :=
  systemArraycopy_boundsBeforeTypes intLongClasses intLongHeap 0 0 2 (by decide) (by decide) rfl rfl
    ⟨by decide, .inl (by decide)⟩ (by decide)

/-- `intLongHeap` has no array of references. -/
theorem intLongHeap_wellTyped : intLongHeap.WellTyped intLongClasses := by
  intro array component arrayOf reference
  by_cases one : array = 1 <;> simp only [intLongHeap, intLongClasses, one, if_true, if_false,
    Option.some.injEq] at arrayOf <;> subst arrayOf <;> simp [intLongClasses] at reference

theorem intToLongArraycopy_checksBoundsFirst :
    intLongHeap.WellTyped intLongClasses ∧
      (systemArraycopy intLongClasses intLongHeap 1 0 2 0 2).map Outcome.toJava =
        some (intLongHeap, some .arrayIndexOutOfBoundsException) :=
  ⟨intLongHeap_wellTyped,
    (systemArraycopy_checksBoundsFirst intLongClasses intLongHeap intLongHeap_wellTyped 1 2 0 0 2).trans
      (by rw [arraycopyBoundsFirst, if_pos (by decide)])⟩

end Art.Runtime.Native
