import Art.Compiler.Optimizing.Locations
import Art.Machine.Store

/-!
# Moves, parallel moves and the code that performs them

A `MoveOperands` is one move of a parallel move: a source, a destination and the
type of the value moved. The resolvers mark a move in progress by clearing its
destination (`MarkPending`) and a performed move by clearing both operands
(`Eliminate`); every test of the code reads those marks off the operands, and so
does this model.

An `HParallelMove` is the list of its moves. `AddMove` admits a move only with
valid operands and a destination that overlaps no earlier destination
(`HParallelMove.WellFormed`).

The resolvers emit moves and swaps. An emitted move copies the cells of its
source into the cells of its destination at the width of the value; a swap
exchanges them. The meaning of a parallel move is the parallel assignment of
its moves: every destination receives what its source held before any of them
(`HParallelMove.meaning`).
-/

set_option autoImplicit false

namespace Art.Compiler.Optimizing

open Art.Machine

/-- `Primitive::Type`. -/
inductive Primitive.Type
  | primNot
  | primBoolean
  | primByte
  | primChar
  | primShort
  | primInt
  | primLong
  | primFloat
  | primDouble
  | primVoid
  deriving DecidableEq, Repr

/-- `Primitive::Is64BitType`. -/
def Primitive.is64BitType : Primitive.Type → Bool
  | .primLong => true
  | .primDouble => true
  | _ => false

/-- `MoveOperands`. The `HInstruction` a move belongs to is read only by debug
checks and is left out. -/
structure MoveOperands where
  source : Location
  destination : Location
  type : Primitive.Type
  deriving DecidableEq, Repr

namespace MoveOperands

/-- `MarkPending`: clear the destination and hand it back. -/
def markPending (move : MoveOperands) : MoveOperands × Location :=
  ({ move with destination := .noLocation }, move.destination)

/-- `ClearPending`: restore the destination. -/
def clearPending (move : MoveOperands) (destination : Location) : MoveOperands :=
  { move with destination := destination }

/-- `IsPending`. -/
def isPending (move : MoveOperands) : Bool :=
  move.destination.isInvalid && move.source.isValid

/-- `IsEliminated`. -/
def isEliminated (move : MoveOperands) : Bool :=
  move.source.isInvalid

/-- `Blocks`: the move still has to read a location that overlaps `location`. -/
def blocks (move : MoveOperands) (location : Location) : Bool :=
  !move.isEliminated && move.source.overlapsWith location

/-- `IsRedundant`: eliminated, with no destination, or from a location to itself. -/
def isRedundant (move : MoveOperands) : Bool :=
  move.isEliminated || move.destination.isInvalid || move.source.equals move.destination

/-- `Eliminate`: clear both operands. -/
def eliminate (move : MoveOperands) : MoveOperands :=
  { move with source := .noLocation, destination := .noLocation }

/-- `Is64BitMove`. -/
def is64BitMove (move : MoveOperands) : Bool :=
  Primitive.is64BitType move.type

/-- `SetSource`. -/
def setSource (move : MoveOperands) (value : Location) : MoveOperands :=
  { move with source := value }

/-- `SetDestination`. -/
def setDestination (move : MoveOperands) (value : Location) : MoveOperands :=
  { move with destination := value }

@[simp] theorem eliminate_isEliminated (move : MoveOperands) : move.eliminate.isEliminated := rfl

@[simp] theorem eliminate_blocks (move : MoveOperands) (location : Location) :
    move.eliminate.blocks location = false := rfl

@[simp] theorem markPending_snd (move : MoveOperands) : move.markPending.2 = move.destination := rfl

@[simp] theorem markPending_fst_source (move : MoveOperands) :
    move.markPending.1.source = move.source := rfl

@[simp] theorem markPending_fst_type (move : MoveOperands) :
    move.markPending.1.type = move.type := rfl

@[simp] theorem clearPending_markPending (move : MoveOperands) :
    move.markPending.1.clearPending move.destination = move := rfl

/-- A move that is not eliminated blocks what its source overlaps. -/
theorem blocks_iff (move : MoveOperands) (location : Location) :
    move.blocks location = true ↔ move.source ≠ .noLocation ∧ move.source.overlapsWith location = true := by
  simp [blocks, isEliminated, Location.isInvalid]

end MoveOperands

/-! ## Parallel moves -/

/-- `HParallelMove`: its moves, in the order they were added. -/
abbrev HParallelMove := List MoveOperands

namespace HParallelMove

/-- What `AddMove` demands of the moves it admits: valid operands, and no two
destinations that overlap. -/
def WellFormed (parallelMove : HParallelMove) : Prop :=
  (∀ move ∈ parallelMove, move.source.isValid = true ∧ move.destination.isValid = true) ∧
    parallelMove.Pairwise fun first second => first.destination.overlapsWith second.destination = false

end HParallelMove

/-- `ParallelMoveResolver::BuildInitialMoveList`: the moves that are not already
redundant. -/
def buildInitialMoveList (parallelMove : HParallelMove) : List MoveOperands :=
  parallelMove.filter fun move => !move.isRedundant

/-! ## The code the resolvers emit -/

/-- An instruction emitted by `EmitMove` or `EmitSwap`, at the width of the move. -/
inductive EmittedInstruction
  | move (source destination : Location) (wide : Bool)
  | swap (source destination : Location) (wide : Bool)
  deriving DecidableEq, Repr

namespace EmittedInstruction

variable {V : Type}

/-- Run one instruction on a store of cells. -/
def run (store : Location.Cell → V) : EmittedInstruction → Location.Cell → V
  | move source destination wide =>
      writeCells store (destination.footprint wide) (readCells store (source.footprint wide))
  | swap source destination wide =>
      swapCells store (source.footprint wide) (destination.footprint wide)

/-- The location an instruction writes; a swap writes both of its operands. -/
def writes : EmittedInstruction → List Location
  | move _ destination _ => [destination]
  | swap source destination _ => [source, destination]

end EmittedInstruction

/-- Run emitted code, first instruction first. -/
def runCode {V : Type} (store : Location.Cell → V) (code : List EmittedInstruction) :
    Location.Cell → V :=
  code.foldl EmittedInstruction.run store

@[simp] theorem runCode_nil {V : Type} (store : Location.Cell → V) : runCode store [] = store := rfl

theorem runCode_append {V : Type} (store : Location.Cell → V) (code more : List EmittedInstruction) :
    runCode store (code ++ more) = runCode (runCode store code) more :=
  List.foldl_append

theorem runCode_cons {V : Type} (store : Location.Cell → V) (instruction : EmittedInstruction)
    (code : List EmittedInstruction) :
    runCode store (instruction :: code) = runCode (instruction.run store) code := rfl

/-- The meaning of a parallel move: every destination receives, at the width of
its move, the contents its source had before any move. -/
def HParallelMove.meaning {V : Type} (store : Location.Cell → V) (parallelMove : HParallelMove) :
    Location.Cell → V :=
  parallelAssign store (parallelMove.map fun move =>
    (move.source.footprint move.is64BitMove, move.destination.footprint move.is64BitMove))

end Art.Compiler.Optimizing
