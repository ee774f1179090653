import Art.Compiler.Optimizing.ParallelMoveResolverNoSwap
import Mathlib.Tactic.SplitIfs

/-!
# The ARM64 half of the parallel move resolver

`ParallelMoveResolverARM64` is the one resolver of this compiler without swaps.
It takes its scratch locations first from `GetScratchLocation` (a free scratch
location, or a destination no move reads) and else from the temporaries of the
VIXL assembler, `ip0`, `ip1` and `d31`; it emits a move with `MoveLocation`,
leaving the type unspecified, so that the width of each move is read off its two
locations.

The 128-bit moves of SIMD stack slots and of `Q` registers are left out: the
cells of the model hold 64-bit registers.
-/

set_option autoImplicit false

namespace Art.Compiler.Optimizing

namespace CodeGeneratorArm64

/-- Whether a constant location holds a long or double constant. -/
def isWideConstant : Location → Bool
  | .constant _ wide => wide
  | _ => false

/-- The width `MoveLocation` chooses when the type is `kPrimVoid`, as `EmitMove`
passes it: `true` for a 64-bit move. -/
def moveLocationWidth (destination source : Location) : Bool :=
  if destination.isRegister || destination.isFpuRegister then
    -- Stack slots and 32-bit constants are loaded with 32 bits, the rest with 64.
    !(source.isStackSlot || (source.isConstant && !isWideConstant source))
  else if source.isRegister || source.isFpuRegister then
    destination.isDoubleStackSlot
  else if source.isConstant then
    isWideConstant source
  else
    destination.isDoubleStackSlot

/-- `CodeGeneratorARM64::MoveLocation(destination, source, kPrimVoid)`: nothing
when the two locations are the same. -/
def moveLocation (destination source : Location) : List EmittedInstruction :=
  if source.equals destination then [] else [.move source destination (moveLocationWidth destination source)]

/-- The locations an ARM64 parallel move uses for a value of the given width: a
core or floating-point register, a stack slot of that width, or, as a source, a
constant of that width. -/
def HoldsWidth (wide : Bool) : Location → Prop
  | .register _ => True
  | .fpuRegister _ => True
  | .stackSlot _ => wide = false
  | .doubleStackSlot _ => wide = true
  | .constant _ constantWide => constantWide = wide
  | _ => False

instance (wide : Bool) (loc : Location) : Decidable (HoldsWidth wide loc) := by
  cases loc <;> unfold HoldsWidth <;> infer_instance

theorem HoldsWidth.allocated {wide : Bool} {loc : Location} (holds : HoldsWidth wide loc) : loc.Allocated := by
  cases loc <;> simp_all [HoldsWidth, Location.Allocated]

theorem HoldsWidth.ne_noLocation {wide : Bool} {loc : Location} (holds : HoldsWidth wide loc) :
    loc ≠ .noLocation := by
  rintro rfl
  exact holds

open Art.Machine

/-- The code of `MoveLocation` writes only cells of its destination. -/
theorem runCode_moveLocation_of_not_mem {V : Type} (store : Location.Cell → V) (destination source : Location)
    {cell : Location.Cell} (outside : cell ∉ destination.footprint true) :
    runCode store (moveLocation destination source) cell = store cell := by
  unfold moveLocation
  split_ifs
  · rfl
  · apply writeCells_apply_of_not_mem
    exact fun inside => outside (Location.footprint_subset_wide destination _ inside)

/-- A location that holds a value of one width covers a cell for each word of it. -/
theorem HoldsWidth.length_footprint {wide : Bool} {loc : Location} (holds : HoldsWidth wide loc) :
    (loc.footprint wide).length = if wide then 2 else 1 := by
  cases loc <;> cases wide <;> simp_all [HoldsWidth, Location.footprint]

/-- The cells of a location that can hold a value are distinct at either width. -/
theorem HoldsWidth.nodup_footprint {wide : Bool} {loc : Location} (holds : HoldsWidth wide loc) (width : Bool) :
    (loc.footprint width).Nodup := by
  cases loc with
  | doubleStackSlot index =>
      -- the two words of a double stack slot are four bytes apart
      have apart : index ≠ index + 4 := by omega
      simp [Location.footprint, apart]
  | _ => cases width <;> simp_all [HoldsWidth, Location.footprint]

/-- The move that `MoveLocation` emits between two locations that hold a value of one width
covers the value's cells first, in both locations: a 64-bit move between registers also
carries a 32-bit value. -/
theorem moveLocationWidth_covers {wide : Bool} {destination source : Location}
    (sourceHolds : HoldsWidth wide source) (destinationHolds : HoldsWidth wide destination)
    (writable : destination.isConstant = false) :
    (∃ more, destination.footprint (moveLocationWidth destination source) = destination.footprint wide ++ more) ∧
      ∃ more, source.footprint (moveLocationWidth destination source) = source.footprint wide ++ more := by
  cases source <;> cases destination <;> cases wide <;>
    simp_all [HoldsWidth, moveLocationWidth, isWideConstant, Location.footprint, Location.isRegister,
      Location.isFpuRegister, Location.isStackSlot, Location.isDoubleStackSlot, Location.isConstant, Location.getKind]

/-- **`MoveLocation` moves the value.** Between two locations that hold a value of
one width, the destination ends with what the source held, read at that width. -/
theorem readCells_runCode_moveLocation {V : Type} (store : Location.Cell → V) {destination source : Location}
    {wide : Bool} (sourceHolds : HoldsWidth wide source) (destinationHolds : HoldsWidth wide destination)
    (writable : destination.isConstant = false) :
    readCells (runCode store (moveLocation destination source)) (destination.footprint wide) =
      readCells store (source.footprint wide) := by
  unfold moveLocation
  split_ifs with same
  · simp only [Location.equals, beq_iff_eq] at same
    subst same
    rfl
  · obtain ⟨⟨destinationMore, destinationCovers⟩, sourceMore, sourceCovers⟩ :=
      moveLocationWidth_covers sourceHolds destinationHolds writable
    have distinct := destinationHolds.nodup_footprint (moveLocationWidth destination source)
    rw [destinationCovers] at distinct
    rw [runCode_cons, runCode_nil, EmittedInstruction.run, destinationCovers, sourceCovers, readCells_append]
    apply readCells_writeCells_append store distinct
    rw [length_readCells, destinationHolds.length_footprint, sourceHolds.length_footprint]

end CodeGeneratorArm64

namespace ParallelMoveResolverARM64

open ParallelMoveResolverNoSwap CodeGeneratorArm64

/-- The temporaries of the VIXL assembler that the resolver may take, in the
order the assembler hands them out. -/
def vixlTemps : List Location := [.register 16, .register 17, .fpuRegister 31]

/-- `AllocateScratchLocationFor`: a free scratch location or destination of the
register class of `kind`, or else a VIXL temporary of that class, which becomes a
scratch location. -/
def allocateScratchLocationFor (state : State) (kind : Location.Kind) : Option (Location × State) :=
  let kind := if kind = .fpuRegister ∨ kind = .simdStackSlot then Location.Kind.fpuRegister else .register
  let scratch := state.getScratchLocation kind
  if scratch ≠ .noLocation then some (scratch, state)
  else
    match state.temps.find? (·.getKind == kind) with
    | none => none
    | some temp => some (temp, { state with temps := state.temps.erase temp }.addScratchLocation temp)

/-- `FreeScratchLocation`: give the temporary back to the assembler. -/
def freeScratchLocation (state : State) (loc : Location) : State :=
  { state with temps := loc :: state.temps }.removeScratchLocation loc

/-- `EmitMove`. -/
def emitMove (move : MoveOperands) : List EmittedInstruction :=
  moveLocation move.destination move.source

/-- The ARM64 backend of the resolver. -/
def backend : Backend where
  allocateScratchLocationFor := allocateScratchLocationFor
  freeScratchLocation := freeScratchLocation
  emitMove := emitMove

@[simp] theorem backend_emitMove (move : MoveOperands) :
    backend.emitMove move = moveLocation move.destination move.source := rfl

@[simp] theorem backend_freeScratchLocation (state : State) (loc : Location) :
    backend.freeScratchLocation state loc = freeScratchLocation state loc := rfl

@[simp] theorem backend_allocateScratchLocationFor (state : State) (kind : Location.Kind) :
    backend.allocateScratchLocationFor state kind = allocateScratchLocationFor state kind := rfl

/-- Where `AllocateScratchLocationFor` takes its location from: a free scratch
location or destination, leaving the state alone, or a VIXL temporary, which
moves from the assembler's temporaries to the scratch locations. Either way it is
a core or floating-point register. -/
theorem allocateScratchLocationFor_spec {state next : State} {kind : Location.Kind} {scratch : Location}
    (allocated : allocateScratchLocationFor state kind = some (scratch, next)) :
    (scratch.isRegister || scratch.isFpuRegister) = true ∧
      (next = state ∧ state.isBlockedByMoves scratch = false ∧
          (scratch ∈ state.scratches ∨ ∃ move ∈ state.moves, move.destination = scratch) ∨
        scratch ∈ state.temps ∧
          next = { state with temps := state.temps.erase scratch, scratches := state.scratches ++ [scratch] }) := by
  unfold allocateScratchLocationFor at allocated
  dsimp only at allocated
  set registerKind : Location.Kind :=
    if kind = .fpuRegister ∨ kind = .simdStackSlot then .fpuRegister else .register with registerKindDef
  have isRegisterKind : ∀ loc : Location, loc.getKind = registerKind →
      (loc.isRegister || loc.isFpuRegister) = true := by
    intro loc same
    rw [registerKindDef] at same
    split_ifs at same <;> simp [Location.isRegister, Location.isFpuRegister, same]
  split_ifs at allocated with found
  · simp only [Option.some.injEq, Prod.mk.injEq] at allocated
    obtain ⟨rfl, rfl⟩ := allocated
    rcases state.getScratchLocation_spec registerKind with none | ⟨kindOf, free, whence⟩
    · exact absurd none found
    · exact ⟨isRegisterKind _ kindOf, Or.inl ⟨rfl, free, whence⟩⟩
  · split at allocated
    · cases allocated
    · rename_i temp taken
      simp only [Option.some.injEq, Prod.mk.injEq] at allocated
      obtain ⟨rfl, rfl⟩ := allocated
      have kindOf : temp.getKind = registerKind := by simpa using List.find?_some taken
      exact ⟨isRegisterKind _ kindOf, Or.inr ⟨List.mem_of_find?_eq_some taken, rfl⟩⟩

/-- `AllocateScratchLocationFor` finds a location whenever the assembler still has a
temporary of each register class. -/
theorem allocateScratchLocationFor_ne_none {state : State} (kind : Location.Kind)
    (core : ∃ temp ∈ state.temps, temp.getKind = .register)
    (fpu : ∃ temp ∈ state.temps, temp.getKind = .fpuRegister) :
    allocateScratchLocationFor state kind ≠ none := by
  unfold allocateScratchLocationFor
  dsimp only
  set registerKind : Location.Kind :=
    if kind = .fpuRegister ∨ kind = .simdStackSlot then .fpuRegister else .register with registerKindDef
  have stocked : ∃ temp ∈ state.temps, temp.getKind = registerKind := by
    rw [registerKindDef]
    split_ifs
    · exact fpu
    · exact core
  split_ifs
  · simp
  · split
    · rename_i none
      obtain ⟨temp, member, kindOf⟩ := stocked
      rw [List.find?_eq_none] at none
      exact absurd (by simp [kindOf]) (none temp member)
    · simp

/-- Two 32-bit values leave the stack slots at offsets 0 and 4 for `w0` and `w2`
while a 64-bit value moves into the double stack slot at 0, which covers both. -/
def crossingMoves : HParallelMove :=
  [⟨.register 0, .register 1, .primLong⟩, ⟨.register 1, .doubleStackSlot 0, .primLong⟩,
    ⟨.stackSlot 0, .register 0, .primInt⟩, ⟨.stackSlot 4, .register 2, .primInt⟩]

/-- What the resolver does with `crossingMoves`: the cycle through `x0`, `x1` and
the double stack slot is broken with `w2`, the destination of the last move, as
scratch location; that move then finds `w2` blocked and is itself broken with
`ip0`, and the pending move from `ip0` back to `w2` is never emitted. -/
theorem emitNativeCode_crossingMoves :
    emitNativeCode backend vixlTemps crossingMoves =
      some
        { moves := []
          pendingMoves := [⟨.register 16, .register 2, .primInt⟩]
          scratches := []
          temps := [.register 17, .fpuRegister 31]
          code := [.move (.stackSlot 0) (.register 2) false, .move (.stackSlot 4) (.register 16) false,
            .move (.register 1) (.doubleStackSlot 0) true, .move (.register 0) (.register 1) true,
            .move (.register 2) (.register 0) true] } := by
  decide

end ParallelMoveResolverARM64

end Art.Compiler.Optimizing
