import Art.Compiler.Optimizing.MoveOperands

/-!
# The parallel move resolver with swaps

`ParallelMoveResolverWithSwap` turns a parallel move into moves and swaps. It
walks the moves depth first (`PerformMove`): a move first performs every move
that still reads its destination and is not on the walk, then is emitted. A move
whose destination is still read once its dependencies are done closes a cycle
with a move on the walk; it is then swapped with its destination instead, and
every move that still reads one of the two swapped locations is redirected to the
other (`UpdateSourceOf`). A swap of a 32-bit move could break a 64-bit move of
the same cycle, so a 32-bit move that closes a cycle on a 64-bit move hands the
swap back to that move: `PerformMove` answers the move that has to swap, the
frames in between return at once, and the frame of that move swaps it and
answers it, so that its caller runs its dependency loop again from the start.

The architecture supplies the code of a move and of a swap (`Backend`). The state
of the model is the resolver's `moves_` and the code emitted so far. A move is
named by its index in `moves_`, which is what the pointers the code compares
stand for. The recursion of `PerformMove` and its dependency loop, which the code
restarts by setting its counter back, carry fuel arguments: the depth of the walk
is bounded by one more than the number of moves, and the dependency loop restarts
only after a swap has eliminated a move.
-/

set_option autoImplicit false

namespace Art.Compiler.Optimizing

namespace ParallelMoveResolverWithSwap

/-- The resolver's state inside `EmitNativeCode`. -/
structure State where
  moves : List MoveOperands
  code : List EmittedInstruction
  deriving DecidableEq, Repr

/-- What an architecture supplies: the code `EmitMove` and `EmitSwap` emit for
a move. -/
structure Backend where
  emitMove : MoveOperands → List EmittedInstruction
  emitSwap : MoveOperands → List EmittedInstruction

/-- The backend the emitted instructions stand for: `EmitMove` copies the source
of the move to its destination and `EmitSwap` exchanges them, both at the width
of the move; a pair or a double stack slot moves as both of its halves. -/
def exchangeBackend : Backend where
  emitMove move := [.move move.source move.destination move.is64BitMove]
  emitSwap move := [.swap move.source move.destination move.is64BitMove]

/-- The operands of an index past the end of `moves_`, which the code never reads. -/
def noMove : MoveOperands := ⟨.noLocation, .noLocation, .primVoid⟩

namespace State

/-- `moves_[index]`. -/
def moveAt (state : State) (index : Nat) : MoveOperands := state.moves.getD index noMove

/-- Change the move at an index in place. -/
def modifyMove (state : State) (index : Nat) (change : MoveOperands → MoveOperands) : State :=
  { state with moves := state.moves.modify index change }

/-- `EmitMove(index)`: append the backend's code for the move at the index. -/
def emitMove (backend : Backend) (state : State) (index : Nat) : State :=
  { state with code := state.code ++ backend.emitMove (state.moveAt index) }

/-- `EmitSwap(index)`: append the backend's code for swapping the operands of the
move at the index. -/
def emitSwap (backend : Backend) (state : State) (index : Nat) : State :=
  { state with code := state.code ++ backend.emitSwap (state.moveAt index) }

end State

/-- `LowOf`: the low half of a pair or double stack slot, and no location for
the other kinds. -/
def lowOf : Location → Location
  | .registerPair low _ => .register low
  | .fpuRegisterPair low _ => .fpuRegister low
  | .doubleStackSlot index => .stackSlot index
  | _ => .noLocation

/-- `HighOf`: the high half of a pair, or the slot `GetHighStackIndex(4)` of a
double stack slot, and no location for the other kinds. -/
def highOf : Location → Location
  | .registerPair _ high => .register high
  | .fpuRegisterPair _ high => .fpuRegister high
  | .doubleStackSlot index => .stackSlot (index + 4)
  | _ => .noLocation

/-- `UpdateSourceOf(move, updated_location, new_source)`: `updated_location` has
been swapped with `new_source`, so a move that read it, or one of its halves,
reads the same part of `new_source`. -/
def updateSourceOf (move : MoveOperands) (updatedLocation newSource : Location) : MoveOperands :=
  let source := move.source
  if (lowOf updatedLocation).equals source then move.setSource (lowOf newSource)
  else if (highOf updatedLocation).equals source then move.setSource (highOf newSource)
  else move.setSource newSource

/-- The loop at the end of a swap: every move that still reads the swapped move's
source or destination now reads the other one. -/
def updateSourcesAfterSwap (moves : List MoveOperands) (source swapDestination : Location) :
    List MoveOperands :=
  moves.map fun otherMove =>
    if otherMove.blocks source then updateSourceOf otherMove source swapDestination
    else if otherMove.blocks swapDestination then updateSourceOf otherMove swapDestination source
    else otherMove

variable (backend : Backend)

open State

/-- The dependency loop of `PerformMove(index)`, from the move at `i` on: perform
every move that reads `destination` and is not on the walk. Its answer is the
move that `required_swap` names when the loop stops: none when it ran to the
end, the move at `index` when that move has to swap (the code's `break`), or
another move when the frame returns at once, its destination restored. A child
that answers itself has swapped, and the loop starts again from the first move
(the code's `i = -1`). `performChild` is `PerformMove` one level deeper. -/
def performDependencies (performChild : Nat → State → Option (Option Nat × State)) (index : Nat)
    (destination : Location) : Nat → Nat → State → Option (Option Nat × State)
  | 0, _, _ => none
  | fuel + 1, i, state =>
      if i < state.moves.length then
        let otherMove := state.moveAt i
        if otherMove.blocks destination && !otherMove.isPending then do
          let (requiredSwap, state) ← performChild i state
          if requiredSwap = some index then some (requiredSwap, state)
          else if requiredSwap = some i then performDependencies performChild index destination fuel 0 state
          else if requiredSwap.isSome then
            some (requiredSwap, state.modifyMove index fun move => move.clearPending destination)
          else performDependencies performChild index destination fuel (i + 1) state
        else performDependencies performChild index destination fuel (i + 1) state
      else some (none, state)

/-- The first move of `moves_` that still reads the location. -/
def findBlockingMove (state : State) (location : Location) : Option Nat :=
  state.moves.findIdx? (·.blocks location)

/-- The swap at the end of `PerformMove(index)`: emit it, eliminate the move and
redirect the moves that read either operand. The answer is `required_swap`. -/
def performSwap (index : Nat) (requiredSwap : Option Nat) (state : State) : Option Nat × State :=
  let move := state.moveAt index
  let state := state.emitSwap backend index
  let source := move.source
  let swapDestination := move.destination
  let state := state.modifyMove index MoveOperands.eliminate
  (requiredSwap, { state with moves := updateSourcesAfterSwap state.moves source swapDestination })

/-- The end of `PerformMove(index)`, once its dependencies are done: emit the
move, or swap it when a move on the walk still reads the destination. A 32-bit
move that a 64-bit move blocks hands the swap to that move. -/
def resolveMove (index : Nat) (destination : Location) (requiredSwap : Option Nat) (state : State) :
    Option Nat × State :=
  let state := state.modifyMove index fun move => move.clearPending destination
  let move := state.moveAt index
  if move.source.equals destination then
    -- The swaps of the dependencies brought the value to its destination.
    (none, state.modifyMove index MoveOperands.eliminate)
  else if requiredSwap.isSome then performSwap backend index requiredSwap state
  else
    match findBlockingMove state destination with
    | some other =>
        if !move.is64BitMove && (state.moveAt other).is64BitMove then (some other, state)
        else performSwap backend index requiredSwap state
    | none => (none, (state.emitMove backend index).modifyMove index MoveOperands.eliminate)

/-- `PerformMove(index)`, with the depth of the walk bounded by the fuel. The
answer is the move that has to swap, if any. It fails only when a fuel runs out. -/
def performMove : Nat → Nat → State → Option (Option Nat × State)
  | 0, _, _ => none
  | fuel + 1, index, state =>
      let move := state.moveAt index
      if move.isRedundant then
        -- Pairs swap first, so a move not yet on the walk may have become redundant.
        some (none, state.modifyMove index MoveOperands.eliminate)
      else do
        let destination := move.destination
        let state := state.modifyMove index fun move => move.markPending.1
        let (requiredSwap, state) ← performDependencies (performMove fuel) index destination
          ((state.moves.length + 1) ^ 2) 0 state
        if requiredSwap.isNone || requiredSwap = some index then
          some (resolveMove backend index destination requiredSwap state)
        else some (requiredSwap, state)

/-- The first loop of `EmitNativeCode`: perform the moves from a stack slot to a
stack slot first, to use a free register on constrained machines. -/
def performStackToStackMoves (fuel : Nat) (state : State) : Option State :=
  (List.range state.moves.length).foldlM (fun state i =>
    let move := state.moveAt i
    if move.isEliminated || move.source.isConstant then some state
    else if (move.source.isStackSlot || move.source.isDoubleStackSlot) &&
        (move.destination.isStackSlot || move.destination.isDoubleStackSlot) then
      (performMove backend fuel i state).map Prod.snd
    else some state) state

/-- The second loop of `EmitNativeCode`: perform every move whose source is not a
constant. -/
def performNonConstantMoves (fuel : Nat) (state : State) : Option State :=
  (List.range state.moves.length).foldlM (fun state i =>
    let move := state.moveAt i
    if !move.isEliminated && !move.source.isConstant then (performMove backend fuel i state).map Prod.snd
    else some state) state

/-- The third loop of `EmitNativeCode`: emit the moves of constants. -/
def performConstantMoves (state : State) : State :=
  (List.range state.moves.length).foldl (fun state i =>
    if !(state.moveAt i).isEliminated then (state.emitMove backend i).modifyMove i MoveOperands.eliminate
    else state) state

/-- `EmitNativeCode`. The result is the state at the return, `moves_` cleared. -/
def emitNativeCode (parallelMove : HParallelMove) : Option State := do
  let moves := buildInitialMoveList parallelMove
  let state : State := { moves, code := [] }
  let state ← performStackToStackMoves backend (moves.length + 1) state
  let state ← performNonConstantMoves backend (moves.length + 1) state
  let state := performConstantMoves backend state
  some { state with moves := [] }

end ParallelMoveResolverWithSwap

end Art.Compiler.Optimizing
