import Mathlib
import Art.Machine.RangeCopy
import Art.Compiler.Optimizing.MoveOperands

/-!
# Arrays of the heap and their bulk copies

The heap holds objects at addresses other than `0`, which is null. An object has a
class; an array also has a length and elements. An element is the bits of a
primitive or, in an array of references, the address of the object it refers to,
`0` for null, as a `HeapReference` holds it. The elements of all arrays form one
memory of cells `(array, index)`, so that the source and the destination of a copy
may be one array.

Of `mirror::Class` the copies read the component type of an array class, the
primitive type of a class and `IsAssignableFrom` (`ClassTable`). No class is an
array of `void`, and `IsAssignableFrom` holds of every class and itself, which the
cache of `AssignableCheckingMemcpy` relies on.

The copies of `PrimitiveArray` and `ObjectArray` read and write one element at a
time, forwards or backwards, and call `memcpy(3)` or `memmove(3)` for bytes, which
are taken at their specification: a copy through a temporary. Both `Memmove`s pick
the direction so that no element is overwritten before it is read, and so copy
through a temporary whatever the overlap (`PrimitiveArray.memmove_eq_copyRange`,
`ObjectArray.assignableMemmove_eq_copyRange`); `Memcpy` and `AssignableMemcpy` do
so for two distinct arrays. `AssignableCheckingMemcpy` copies the longest prefix of
elements that are null or of a class assignable to the component type of the
destination, whether its cached class or `IsAssignableFrom` let each one through,
and throws `ArrayStoreException` at the first element after it
(`ObjectArray.assignableCheckingMemcpy_eq`).

Read and write barriers, the checks of debug builds and transactions change no
element and are left out, and so is the fast path of the Baker read barrier, which
runs the same loop without the barrier.
-/

set_option autoImplicit false

namespace Art.Runtime.Mirror

open Art.Machine Art.Compiler.Optimizing

variable {C : Type}

/-- What the copies read of `mirror::Class`: the component type of an array class,
the primitive type of a class (`primNot` for a reference type) and
`IsAssignableFrom`, which is reflexive and transitive. No class is an array of
`void`. -/
structure ClassTable (C : Type) where
  componentType : C → Option C
  primitiveType : C → Primitive.Type
  isAssignableFrom : C → C → Bool
  isAssignableFrom_self : ∀ c, isAssignableFrom c c = true
  isAssignableFrom_trans : ∀ a b c, isAssignableFrom a b = true → isAssignableFrom b c = true →
    isAssignableFrom a c = true
  componentType_ne_void : ∀ c d, componentType c = some d → primitiveType d ≠ .primVoid

/-- The objects of the heap: the class of each, and the length and elements of each
array. `GetLength` is an `int32_t`, so no length reaches `2 ^ 31`. -/
structure Heap (C : Type) where
  classOf : Nat → C
  length : Nat → Nat
  element : Nat × Nat → Nat
  length_lt : ∀ address, length address < 2 ^ 31

/-- An element may be stored into an array whose component type is `dstClass`: it is
null, or the class of the object it refers to is assignable to `dstClass`. -/
def canStore (classes : ClassTable C) (classOf : Nat → C) (dstClass : C) (o : Nat) : Bool :=
  o == 0 || classes.isAssignableFrom dstClass (classOf o)

/-- Every array of references holds null or objects of classes assignable to its
component type. -/
def Heap.WellTyped (classes : ClassTable C) (heap : Heap C) : Prop :=
  ∀ array component, classes.componentType (heap.classOf array) = some component →
    classes.primitiveType component = .primNot →
    ∀ i < heap.length array, canStore classes heap.classOf component (heap.element (array, i)) = true

/-- In a well-typed heap, an element of an array of references may be stored into
an array of any type its component type is assignable to. -/
theorem Heap.canStore_of_wellTyped (heap : Heap C) (classes : ClassTable C) (typed : heap.WellTyped classes)
    {array : Nat} {component target : C}
    (arrayOf : classes.componentType (heap.classOf array) = some component)
    (reference : classes.primitiveType component = .primNot)
    (assignable : classes.isAssignableFrom target component = true) {i : Nat} (inside : i < heap.length array) :
    canStore classes heap.classOf target (heap.element (array, i)) = true := by
  have stored := typed array component arrayOf reference i inside
  simp only [canStore, Bool.or_eq_true] at stored ⊢
  rcases stored with null | elementClass
  · exact .inl null
  · exact .inr (classes.isAssignableFrom_trans _ _ _ assignable elementClass)

/-- The Java class of an exception. -/
inductive ThrowableClass
  | nullPointerException
  | arrayStoreException
  | arrayIndexOutOfBoundsException
  deriving DecidableEq, Repr

/-- The exceptions of the array copies, each with the values its message prints. -/
inductive Exception (C : Type)
  | nullPointer (message : String)
  | notAnArray (identifier : String) (actualType : C)
  | outOfBounds (srcLength srcPos dstLength dstPos length : Int)
  | incompatibleTypes (srcType dstType : C)
  | cannotBeStored (index : Int) (actualType dstType : C)
  deriving DecidableEq, Repr

namespace Exception

/-- The class each exception is thrown as. -/
def throwableClass : Exception C → ThrowableClass
  | .nullPointer _ => .nullPointerException
  | .notAnArray _ _ => .arrayStoreException
  | .outOfBounds _ _ _ _ _ => .arrayIndexOutOfBoundsException
  | .incompatibleTypes _ _ => .arrayStoreException
  | .cannotBeStored _ _ _ => .arrayStoreException

/-- The message of each exception, with `prettyTypeOf` printing a class. -/
def message (prettyTypeOf : C → String) : Exception C → String
  | .nullPointer message => message
  | .notAnArray identifier actualType => identifier ++ " of type " ++ prettyTypeOf actualType ++ " is not an array"
  | .outOfBounds srcLength srcPos dstLength dstPos length =>
      "src.length=" ++ toString srcLength ++ " srcPos=" ++ toString srcPos ++ " dst.length=" ++
        toString dstLength ++ " dstPos=" ++ toString dstPos ++ " length=" ++ toString length
  | .incompatibleTypes srcType dstType =>
      "Incompatible types: src=" ++ prettyTypeOf srcType ++ ", dst=" ++ prettyTypeOf dstType
  | .cannotBeStored index actualType dstType =>
      "source[" ++ toString index ++ "] of type " ++ prettyTypeOf actualType ++
        " cannot be stored in destination array of type " ++ prettyTypeOf dstType

end Exception

/-- What a native call leaves: the heap, and the exception it throws if any. -/
structure Outcome (C : Type) where
  heap : Heap C
  exception : Option (Exception C)

/-! ## `PrimitiveArray` -/

namespace PrimitiveArray

/-- `PrimitiveArray<T>::Memcpy` for elements of `size` bytes into the array `dst`
(the receiver) from the array `src`. Bytes go through `memcpy(3)`. -/
def memcpy (size : Nat) (element : Nat × Nat → Nat) (dst dstPos src srcPos count : Nat) : Nat × Nat → Nat :=
  if count = 0 then element
  else if size = 1 then copyRange element dst dstPos src srcPos count
  else forwardCopy element dst dstPos src srcPos count

/-- `PrimitiveArray<T>::Memmove`. Within one array, bytes go through `memmove(3)`
and wider elements are copied forwards when the destination starts below the
source or past the source range, backwards otherwise. Both positions are
non-negative, so `dst_pos - src_pos` is the difference of naturals wherever the
first test fails. -/
def memmove (size : Nat) (element : Nat × Nat → Nat) (dst dstPos src srcPos count : Nat) : Nat × Nat → Nat :=
  if count = 0 then element
  else if src ≠ dst then memcpy size element dst dstPos src srcPos count
  else if size = 1 then copyRange element dst dstPos src srcPos count
  else if dstPos < srcPos ∨ dstPos - srcPos ≥ count then forwardCopy element dst dstPos src srcPos count
  else backwardCopy element dst dstPos src srcPos count

variable (size : Nat) (element : Nat × Nat → Nat) (dst dstPos src srcPos count : Nat)

/-- `Memcpy` between two distinct arrays copies through a temporary. -/
theorem memcpy_eq_copyRange (distinct : src ≠ dst) :
    memcpy size element dst dstPos src srcPos count = copyRange element dst dstPos src srcPos count := by
  unfold memcpy
  split_ifs with empty bytes
  · rw [empty, copyRange_zero]
  · rfl
  · exact forwardCopy_eq_copyRange _ _ _ _ _ _ (.inl distinct.symm)

/-- `Memmove` copies through a temporary, also within one array. -/
theorem memmove_eq_copyRange :
    memmove size element dst dstPos src srcPos count = copyRange element dst dstPos src srcPos count := by
  unfold memmove
  split_ifs with empty distinct bytes forward
  · rw [empty, copyRange_zero]
  · exact memcpy_eq_copyRange size element dst dstPos src srcPos count distinct
  · rfl
  · exact forwardCopy_eq_copyRange _ _ _ _ _ _ (by omega)
  · exact backwardCopy_eq_copyRange _ _ _ _ _ _ (by omega)

end PrimitiveArray

/-! ## `ObjectArray` -/

namespace ObjectArray

/-- `ObjectArray<T>::AssignableMemmove`: forwards from another array, or within one
array when the destination starts below the source or past the source range;
backwards otherwise. -/
def assignableMemmove (element : Nat × Nat → Nat) (dst dstPos src srcPos count : Nat) : Nat × Nat → Nat :=
  if src ≠ dst ∨ dstPos < srcPos ∨ dstPos - srcPos ≥ count then forwardCopy element dst dstPos src srcPos count
  else backwardCopy element dst dstPos src srcPos count

/-- `ObjectArray<T>::AssignableMemcpy`: forwards. -/
def assignableMemcpy (element : Nat × Nat → Nat) (dst dstPos src srcPos count : Nat) : Nat × Nat → Nat :=
  forwardCopy element dst dstPos src srcPos count

section Copies

variable (element : Nat × Nat → Nat) (dst dstPos src srcPos count : Nat)

/-- `AssignableMemmove` copies through a temporary, also within one array. -/
theorem assignableMemmove_eq_copyRange :
    assignableMemmove element dst dstPos src srcPos count = copyRange element dst dstPos src srcPos count := by
  unfold assignableMemmove
  split_ifs with forward
  · refine forwardCopy_eq_copyRange _ _ _ _ _ _ ?_
    rcases forward with distinct | below | past
    exacts [.inl (Ne.symm distinct), .inr (by omega), .inr (by omega)]
  · simp only [not_or, not_not] at forward
    obtain ⟨same, notBelow, notPast⟩ := forward
    exact backwardCopy_eq_copyRange _ _ _ _ _ _ (.inr (by omega))

/-- `AssignableMemcpy` between two distinct arrays copies through a temporary. -/
theorem assignableMemcpy_eq_copyRange (distinct : src ≠ dst) :
    assignableMemcpy element dst dstPos src srcPos count = copyRange element dst dstPos src srcPos count :=
  forwardCopy_eq_copyRange _ _ _ _ _ _ (.inl distinct.symm)

end Copies

variable [DecidableEq C]

/-- The loop of `AssignableCheckingMemcpy` at index `i` with `remaining` indices to
go, `lastAssignable` the class it last found assignable to `dstClass` and `o` the
last element it read. It returns the elements, the index it stopped at and the
last element read. -/
def assignableCheckingLoop (classes : ClassTable C) (classOf : Nat → C) (dstClass : C)
    (dst dstPos src srcPos : Nat) (element : Nat × Nat → Nat) (lastAssignable : C) (i o : Nat) :
    Nat → (Nat × Nat → Nat) × Nat × Nat
  | 0 => (element, i, o)
  | remaining + 1 =>
      let o := element (src, srcPos + i)
      if o = 0 then
        -- null is always assignable
        assignableCheckingLoop classes classOf dstClass dst dstPos src srcPos
          (Function.update element (dst, dstPos + i) o) lastAssignable (i + 1) o remaining
      else if lastAssignable = classOf o then
        assignableCheckingLoop classes classOf dstClass dst dstPos src srcPos
          (Function.update element (dst, dstPos + i) o) lastAssignable (i + 1) o remaining
      else if classes.isAssignableFrom dstClass (classOf o) then
        assignableCheckingLoop classes classOf dstClass dst dstPos src srcPos
          (Function.update element (dst, dstPos + i) o) (classOf o) (i + 1) o remaining
      else (element, i, o)

/-- `ObjectArray<T>::AssignableCheckingMemcpy` with `throw_exception`, into the
array `dst` whose component type `dstClass` the caller has read. The cache starts
at `dstClass` itself. -/
def assignableCheckingMemcpy (classes : ClassTable C) (heap : Heap C) (dstClass : C)
    (dst dstPos src srcPos count : Nat) : Outcome C :=
  let (element, i, o) :=
    assignableCheckingLoop classes heap.classOf dstClass dst dstPos src srcPos heap.element dstClass 0 0 count
  { heap := { heap with element }
    exception := if i ≠ count then some (.cannotBeStored (srcPos + i) (heap.classOf o) (heap.classOf dst)) else none }

section CheckingLoop

variable (classes : ClassTable C) (classOf : Nat → C) (dstClass : C) (dst dstPos src srcPos : Nat)

/-- One round of the loop at an element that may be stored: it is stored, and the
cached class stays assignable to `dstClass`. -/
theorem assignableCheckingLoop_store {element : Nat × Nat → Nat} {lastAssignable : C} {i : Nat}
    (o remaining : Nat) (cached : classes.isAssignableFrom dstClass lastAssignable = true)
    (stored : canStore classes classOf dstClass (element (src, srcPos + i)) = true) :
    ∃ last, classes.isAssignableFrom dstClass last = true ∧
      assignableCheckingLoop classes classOf dstClass dst dstPos src srcPos element lastAssignable i o
          (remaining + 1) =
        assignableCheckingLoop classes classOf dstClass dst dstPos src srcPos
          (Function.update element (dst, dstPos + i) (element (src, srcPos + i))) last (i + 1)
          (element (src, srcPos + i)) remaining := by
  simp only [assignableCheckingLoop]
  by_cases null : element (src, srcPos + i) = 0
  · rw [if_pos null, null]
    exact ⟨lastAssignable, cached, rfl⟩
  · rw [if_neg null]
    by_cases same : lastAssignable = classOf (element (src, srcPos + i))
    · rw [if_pos same]
      exact ⟨lastAssignable, cached, rfl⟩
    · have assignable : classes.isAssignableFrom dstClass (classOf (element (src, srcPos + i))) = true := by
        simpa [canStore, null] using stored
      rw [if_neg same, if_pos assignable]
      exact ⟨_, assignable, rfl⟩

/-- One round of the loop at an element that may not be stored: the loop stops
there. -/
theorem assignableCheckingLoop_stop {element : Nat × Nat → Nat} {lastAssignable : C} {i : Nat}
    (o remaining : Nat) (cached : classes.isAssignableFrom dstClass lastAssignable = true)
    (rejected : canStore classes classOf dstClass (element (src, srcPos + i)) = false) :
    assignableCheckingLoop classes classOf dstClass dst dstPos src srcPos element lastAssignable i o
        (remaining + 1) = (element, i, element (src, srcPos + i)) := by
  simp only [canStore, Bool.or_eq_false_iff, beq_eq_false_iff_ne] at rejected
  obtain ⟨null, notAssignable⟩ := rejected
  have other : lastAssignable ≠ classOf (element (src, srcPos + i)) := by
    rintro same
    rw [← same, cached] at notAssignable
    exact Bool.noConfusion notAssignable
  simp only [assignableCheckingLoop, if_neg null, if_neg other, notAssignable, Bool.false_eq_true, if_false]

/-- The loop from index `i` copies the longest prefix of elements that may be stored
and stops at the first that may not, having read it last. The induction is on the
indices left; the cached class stays assignable to `dstClass`, and the source is
another array than the destination, so the writes leave unread elements alone. -/
theorem assignableCheckingLoop_eq (distinct : src ≠ dst) (remaining : Nat) :
    ∀ (element : Nat × Nat → Nat) (lastAssignable : C) (i o : Nat),
      classes.isAssignableFrom dstClass lastAssignable = true →
      let k := leadingCount (fun j => canStore classes classOf dstClass (element (src, srcPos + j))) i remaining
      let result := assignableCheckingLoop classes classOf dstClass dst dstPos src srcPos element lastAssignable i o
        remaining
      result.1 = forwardCopy element dst (dstPos + i) src (srcPos + i) k ∧ result.2.1 = i + k ∧
        (k < remaining → result.2.2 = element (src, srcPos + (i + k))) := by
  induction remaining with
  | zero =>
      intro element lastAssignable i o _
      simp [leadingCount, assignableCheckingLoop, forwardCopy]
  | succ remaining ih =>
      intro element lastAssignable i o cached
      simp only
      by_cases stored : canStore classes classOf dstClass (element (src, srcPos + i)) = true
      · obtain ⟨last, assignable, unfolded⟩ :=
          assignableCheckingLoop_store classes classOf dstClass dst dstPos src srcPos o remaining cached stored
        set element' := Function.update element (dst, dstPos + i) (element (src, srcPos + i))
        -- the write is to the destination, so the source reads as before
        have unread : ∀ j, element' (src, j) = element (src, j) := fun j =>
          Function.update_of_ne (fun same => distinct (Prod.mk.inj same).1) _ _
        obtain ⟨copied, index, last'⟩ := ih element' last (i + 1) (element (src, srcPos + i)) assignable
        simp only [unread] at copied index last'
        have count : leadingCount (fun j => canStore classes classOf dstClass (element (src, srcPos + j))) i
            (remaining + 1) =
            leadingCount (fun j => canStore classes classOf dstClass (element (src, srcPos + j))) (i + 1)
              remaining + 1 := by
          simp only [leadingCount, stored, if_true]
        rw [unfolded, count]
        refine ⟨?_, by omega, fun below => ?_⟩
        · rw [copied, forwardCopy, ← Nat.add_assoc, ← Nat.add_assoc]
        · rw [last' (by omega)]
          congr 2
          omega
      · have step := assignableCheckingLoop_stop classes classOf dstClass dst dstPos src srcPos o remaining cached
          (Bool.eq_false_iff.2 stored)
        have count : leadingCount (fun j => canStore classes classOf dstClass (element (src, srcPos + j))) i
            (remaining + 1) = 0 := by
          simp only [leadingCount, stored, Bool.false_eq_true, if_false]
        rw [step, count]
        simp [forwardCopy]

end CheckingLoop

/-- **`AssignableCheckingMemcpy`.** From another array, it stores the `k` leading
elements of the source range that may be stored into an array of `dstClass`, `k`
the longest such prefix, and leaves every other element alone; it throws
`ArrayStoreException` exactly when `k` is short of `count`, naming the source index
and the class of the element there. -/
theorem assignableCheckingMemcpy_eq (classes : ClassTable C) (heap : Heap C) (dstClass : C)
    (dst dstPos src srcPos count : Nat) (distinct : src ≠ dst) :
    let k := leadingCount (fun j => canStore classes heap.classOf dstClass (heap.element (src, srcPos + j))) 0 count
    assignableCheckingMemcpy classes heap dstClass dst dstPos src srcPos count =
      { heap := { heap with element := copyRange heap.element dst dstPos src srcPos k }
        exception := if k < count then
          some (.cannotBeStored (srcPos + k) (heap.classOf (heap.element (src, srcPos + k))) (heap.classOf dst))
          else none } := by
  intro k
  obtain ⟨copied, index, last⟩ := assignableCheckingLoop_eq classes heap.classOf dstClass dst dstPos src srcPos
    distinct count heap.element dstClass 0 0 (classes.isAssignableFrom_self dstClass)
  simp only [Nat.add_zero, Nat.zero_add] at copied index last
  have within := (leadingCount_spec (fun j => canStore classes heap.classOf dstClass (heap.element (src, srcPos + j)))
    0 count).1
  unfold assignableCheckingMemcpy
  generalize assignableCheckingLoop classes heap.classOf dstClass dst dstPos src srcPos heap.element dstClass 0 0
    count = result at copied index last
  obtain ⟨element, i, o⟩ := result
  simp only at copied index last ⊢
  rw [copied, index, forwardCopy_eq_copyRange _ _ _ _ _ _ (.inl distinct.symm)]
  by_cases short : k < count
  · rw [last short, if_pos (by omega), if_pos short]
  · rw [if_neg (by omega), if_neg short]

end ObjectArray

end Art.Runtime.Mirror
