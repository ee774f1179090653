import Mathlib.Data.List.Nodup

/-!
# Locations

A `Location` of the optimizing compiler names where a value lives: a core or
floating-point register, a pair of them, a 32-bit, 64-bit or 128-bit stack slot,
or a constant. The code packs the kind and a payload into one machine word and
compares locations by that word (`Location::Equals`); here a location is an
inductive value with the kind as its constructor and the payload as its fields,
and `Equals` is equality. The payload encodings of the code (stack indices with a
bias, the two registers of a pair in two 16-bit halves) are injective on the
values the compiler builds, which is what makes the two agree.

`Contains` and `OverlapsWith` are the only overlap tests the parallel move
resolvers use. `OverlapsWith` checks containment in either direction, so it
misses two pairs or two double stack slots that share exactly one half; the code
asserts in debug builds that such locations never meet (`Location::OverlapsWith`).

The machine meaning of a location is its footprint: the list of 32-bit cells it
covers. A 64-bit value in a single register covers both halves of the register,
a 32-bit one only the low half, so the footprint of a register depends on the
width of the value; pairs and stack slots cover the same cells at either width.
A constant covers cells of its own that nothing writes. Two locations overlap in
the machine when their footprints meet, and `OverlapsWith` is sound for that
(`Location.meets_of_overlapsWith`); its completeness is the hypothesis
`Location.OverlapsExactly` that the resolvers' correctness rests on.
-/

set_option autoImplicit false

namespace Art.Compiler.Optimizing

/-- `Location::Kind`. The codes 5 and 9 are reserved by the code and name no kind. -/
inductive Location.Kind
  | invalid
  | constant
  | stackSlot
  | doubleStackSlot
  | register
  | fpuRegister
  | registerPair
  | fpuRegisterPair
  | simdStackSlot
  | unallocated
  deriving DecidableEq, Repr

/-- A location of the optimizing compiler. `constant` carries the identity of its
`HConstant` node and whether that is a long or double constant, `unallocated` its
allocation policy. -/
inductive Location
  | noLocation
  | constant (id : Nat) (wide : Bool)
  | stackSlot (index : Int)
  | doubleStackSlot (index : Int)
  | register (reg : Nat)
  | fpuRegister (reg : Nat)
  | registerPair (low high : Nat)
  | fpuRegisterPair (low high : Nat)
  | simdStackSlot (index : Int)
  | unallocated (policy : Nat)
  deriving DecidableEq, Repr

namespace Location

/-- `Location::GetKind`. -/
def getKind : Location → Kind
  | noLocation => .invalid
  | constant _ _ => .constant
  | stackSlot _ => .stackSlot
  | doubleStackSlot _ => .doubleStackSlot
  | register _ => .register
  | fpuRegister _ => .fpuRegister
  | registerPair _ _ => .registerPair
  | fpuRegisterPair _ _ => .fpuRegisterPair
  | simdStackSlot _ => .simdStackSlot
  | unallocated _ => .unallocated

/-- `Location::IsValid`. -/
def isValid (location : Location) : Bool := location != noLocation

/-- `Location::IsInvalid`. -/
def isInvalid (location : Location) : Bool := location == noLocation

/-- `Location::IsConstant`. -/
def isConstant (location : Location) : Bool := location.getKind == .constant

/-- `Location::IsStackSlot`. -/
def isStackSlot (location : Location) : Bool := location.getKind == .stackSlot

/-- `Location::IsDoubleStackSlot`. -/
def isDoubleStackSlot (location : Location) : Bool := location.getKind == .doubleStackSlot

/-- `Location::IsRegister`. -/
def isRegister (location : Location) : Bool := location.getKind == .register

/-- `Location::IsFpuRegister`. -/
def isFpuRegister (location : Location) : Bool := location.getKind == .fpuRegister

/-- `Location::IsRegisterPair`. -/
def isRegisterPair (location : Location) : Bool := location.getKind == .registerPair

/-- `Location::IsFpuRegisterPair`. -/
def isFpuRegisterPair (location : Location) : Bool := location.getKind == .fpuRegisterPair

/-- `Location::IsPair`. -/
def isPair (location : Location) : Bool := location.isRegisterPair || location.isFpuRegisterPair

/-- `Location::ToLow`: the low half of a pair or double stack slot. The code only
calls it on those kinds; on the others it answers `noLocation`, as the resolver's
`LowOf` does. -/
def toLow : Location → Location
  | registerPair low _ => register low
  | fpuRegisterPair low _ => fpuRegister low
  | doubleStackSlot index => stackSlot index
  | _ => noLocation

/-- `Location::ToHigh`: the high half of a pair, or the slot `GetHighStackIndex(4)`
of a double stack slot. -/
def toHigh : Location → Location
  | registerPair _ high => register high
  | fpuRegisterPair _ high => fpuRegister high
  | doubleStackSlot index => stackSlot (index + 4)
  | _ => noLocation

/-- `Location::Equals`: the two encodings are the same word. -/
def equals (location other : Location) : Bool := location == other

/-- `Location::Contains`. -/
def contains (location other : Location) : Bool :=
  location.equals other ||
    ((location.isPair || location.isDoubleStackSlot) &&
      (location.toLow.equals other || location.toHigh.equals other))

/-- `Location::OverlapsWith`: containment in either direction. -/
def overlapsWith (location other : Location) : Bool :=
  location.contains other || other.contains location

/-! ## Cells and footprints -/

/-- A 32-bit cell of the machine. A register has a low (`half = 0`) and a high
(`half = 1`) word; a stack cell is the word at a byte offset of the frame; a
constant has read-only cells of its own. -/
inductive Cell
  | core (reg half : Nat)
  | fpu (reg half : Nat)
  | stack (index : Int)
  | constant (id half : Nat)
  deriving DecidableEq, Repr

/-- The cells a location covers when it holds a value of the given width. -/
def footprint : Location → Bool → List Cell
  | noLocation, _ => []
  | constant id _, wide => if wide then [.constant id 0, .constant id 1] else [.constant id 0]
  | stackSlot index, _ => [.stack index]
  | doubleStackSlot index, _ => [.stack index, .stack (index + 4)]
  | register reg, wide => if wide then [.core reg 0, .core reg 1] else [.core reg 0]
  | fpuRegister reg, wide => if wide then [.fpu reg 0, .fpu reg 1] else [.fpu reg 0]
  | registerPair low high, _ => [.core low 0, .core high 0]
  | fpuRegisterPair low high, _ => [.fpu low 0, .fpu high 0]
  | simdStackSlot index, _ => [.stack index, .stack (index + 4), .stack (index + 8), .stack (index + 12)]
  | unallocated _, _ => []

/-- A location can hold a value of the given width: it covers distinct cells,
two for a 64-bit value and one for a 32-bit value. -/
def Fits (location : Location) (wide : Bool) : Prop :=
  (location.footprint wide).Nodup ∧ (location.footprint wide).length = if wide then 2 else 1

instance (location : Location) (wide : Bool) : Decidable (location.Fits wide) :=
  inferInstanceAs (Decidable (_ ∧ _))

/-- Two locations share a cell, at the widest footprint of each. -/
def Meets (location other : Location) : Prop :=
  ∃ cell, cell ∈ location.footprint true ∧ cell ∈ other.footprint true

/-- The narrow footprint is part of the wide one. -/
theorem footprint_subset_wide (location : Location) (wide : Bool) :
    location.footprint wide ⊆ location.footprint true := by
  cases location <;> cases wide <;> simp [footprint]

/-- The halves of a pair or double stack slot hold 32-bit words of it. -/
theorem footprint_toLow_subset (location : Location) :
    location.toLow.footprint false ⊆ location.footprint true := by
  cases location <;> simp [toLow, footprint]

theorem footprint_toHigh_subset (location : Location) :
    location.toHigh.footprint false ⊆ location.footprint true := by
  cases location <;> simp [toHigh, footprint]

/-- A valid location that is not an unallocated one covers at least one cell. -/
def Allocated : Location → Prop
  | noLocation => False
  | constant _ _ => True
  | stackSlot _ => True
  | doubleStackSlot _ => True
  | register _ => True
  | fpuRegister _ => True
  | registerPair _ _ => True
  | fpuRegisterPair _ _ => True
  | simdStackSlot _ => True
  | unallocated _ => False

theorem exists_mem_footprint {location : Location} (allocated : location.Allocated) (wide : Bool) :
    ∃ cell, cell ∈ location.footprint wide := by
  cases location <;> cases wide <;> simp_all [Allocated, footprint]

/-- The low and high halves of an allocated pair or double stack slot are
allocated. -/
theorem allocated_toLow {location : Location} (shape : location.isPair || location.isDoubleStackSlot) :
    location.toLow.Allocated := by
  cases location <;> simp_all [isPair, isRegisterPair, isFpuRegisterPair, isDoubleStackSlot, getKind,
    toLow, Allocated]

theorem allocated_toHigh {location : Location} (shape : location.isPair || location.isDoubleStackSlot) :
    location.toHigh.Allocated := by
  cases location <;> simp_all [isPair, isRegisterPair, isFpuRegisterPair, isDoubleStackSlot, getKind,
    toHigh, Allocated]

/-- What `Contains` answers holds in the machine: the 32-bit cells of the
contained location are among the container's. -/
theorem footprint_subset_of_contains {location other : Location} (contained : location.contains other) :
    other.footprint false ⊆ location.footprint true := by
  simp only [contains, equals, Bool.or_eq_true, Bool.and_eq_true, beq_iff_eq] at contained
  rcases contained with rfl | ⟨_, rfl | rfl⟩
  · exact footprint_subset_wide _ false
  · exact footprint_toLow_subset location
  · exact footprint_toHigh_subset location

/-- **`OverlapsWith` is sound.** Allocated locations it relates share a cell. -/
theorem meets_of_overlapsWith {location other : Location} (first : location.Allocated)
    (second : other.Allocated) (overlap : location.overlapsWith other) : location.Meets other := by
  simp only [overlapsWith, Bool.or_eq_true] at overlap
  rcases overlap with contained | contained
  · obtain ⟨cell, member⟩ := exists_mem_footprint second false
    exact ⟨cell, footprint_subset_of_contains contained member, footprint_subset_wide other false member⟩
  · obtain ⟨cell, member⟩ := exists_mem_footprint first false
    exact ⟨cell, footprint_subset_wide location false member, footprint_subset_of_contains contained member⟩

/-- The locations of a list never share a cell without `OverlapsWith` seeing it:
no two pairs and no two double stack slots share exactly one half. This is what
the code asserts in debug builds each time `OverlapsWith` answers no. -/
def OverlapsExactly (locations : List Location) : Prop :=
  ∀ location ∈ locations, ∀ other ∈ locations, location.Meets other → location.overlapsWith other

/-- Two locations are the same or share no cell. -/
def Separate (location other : Location) : Prop :=
  location = other ∨ ¬ location.Meets other

instance (location other : Location) : Decidable (location.Meets other) :=
  decidable_of_iff (∃ cell ∈ location.footprint true, cell ∈ other.footprint true) (by simp [Meets])

instance (location other : Location) : Decidable (location.Separate other) :=
  inferInstanceAs (Decidable (_ ∨ _))

@[simp] theorem overlapsWith_self (location : Location) : location.overlapsWith location = true := by
  simp [overlapsWith, contains, equals]

/-- **Between separate locations `OverlapsWith` is equality.** -/
theorem overlapsWith_iff_eq {location other : Location} (first : location.Allocated)
    (second : other.Allocated) (separate : location.Separate other) :
    location.overlapsWith other = true ↔ location = other := by
  constructor
  · intro overlap
    rcases separate with same | apart
    · exact same
    · exact absurd (meets_of_overlapsWith first second overlap) apart
  · rintro rfl
    exact overlapsWith_self location

end Location

end Art.Compiler.Optimizing
