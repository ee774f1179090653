import Art.Compiler.Optimizing.MoveOperands

/-!
# The parallel move resolver without swaps

`ParallelMoveResolverNoSwap` turns a parallel move into moves only. It walks the
moves depth first (`PerformMove`): a move first performs every move that still
reads its destination, then is emitted. A move found on the walk's own path
closes a cycle; the cycle is broken by moving the last source to a scratch
location and deferring the move from the scratch location to the destination to
the list of pending moves, which the walk empties as the destinations they wait
for are read (`GetUnblockedPendingMove`). Each emitted move redirects the moves
that read its source to its destination (`UpdateMoveSource`).

The architecture supplies the scratch locations and the code of a move
(`Backend`). The state of the model is the resolver's: `moves_`,
`pending_moves_` and `scratches_`, the temporaries the backend has not handed
out, and the code emitted so far. The recursion of `PerformMove` and the two
loops that shrink a list as they go carry a fuel argument; the fuel each caller
gives is the length of the list the loop consumes, or for `PerformMove` one more
than the number of moves, which bounds the depth of the walk.
-/

set_option autoImplicit false

namespace Art.Compiler.Optimizing

namespace ParallelMoveResolverNoSwap

/-- The resolver's state inside `EmitNativeCode`. -/
structure State where
  moves : List MoveOperands
  pendingMoves : List MoveOperands
  scratches : List Location
  temps : List Location
  code : List EmittedInstruction
  deriving DecidableEq, Repr

/-- What an architecture supplies: `AllocateScratchLocationFor`, which fails when
the assembler has no temporary left and aborts, `FreeScratchLocation`, and the
code `EmitMove` emits for a move. -/
structure Backend where
  allocateScratchLocationFor : State → Location.Kind → Option (Location × State)
  freeScratchLocation : State → Location → State
  emitMove : MoveOperands → List EmittedInstruction

/-- The operands of an index past the end of `moves_`, which the code never reads. -/
def noMove : MoveOperands := ⟨.noLocation, .noLocation, .primVoid⟩

namespace State

/-- `moves_[index]`. -/
def moveAt (state : State) (index : Nat) : MoveOperands := state.moves.getD index noMove

/-- Change the move at an index in place. -/
def modifyMove (state : State) (index : Nat) (change : MoveOperands → MoveOperands) : State :=
  { state with moves := state.moves.modify index change }

/-- `IsBlockedByMoves`: a pending or unperformed move still reads the location. -/
def isBlockedByMoves (state : State) (loc : Location) : Bool :=
  state.pendingMoves.any (·.blocks loc) || state.moves.any (·.blocks loc)

/-- `GetScratchLocation`: a scratch location, or else a destination of a move,
of the kind asked for and read by no move. -/
def getScratchLocation (state : State) (kind : Location.Kind) : Location :=
  let free := fun loc : Location => loc.getKind == kind && !state.isBlockedByMoves loc
  match state.scratches.find? free with
  | some loc => loc
  | none =>
      match (state.moves.map (·.destination)).find? free with
      | some loc => loc
      | none => .noLocation

/-- `AddScratchLocation`. -/
def addScratchLocation (state : State) (loc : Location) : State :=
  { state with scratches := state.scratches ++ [loc] }

/-- `RemoveScratchLocation`: the first scratch location equal to `loc`. -/
def removeScratchLocation (state : State) (loc : Location) : State :=
  { state with scratches := state.scratches.erase loc }

/-- `UpdateMoveSource(from, to)`: after `from` has been copied to `to`, the moves
that read `from` read `to`. -/
def updateMoveSource (state : State) (fromLocation toLocation : Location) : State :=
  { state with moves := state.moves.map fun move =>
      if move.source.equals fromLocation then move.setSource toLocation else move }

/-- `AddPendingMove`. -/
def addPendingMove (state : State) (source destination : Location) (type : Primitive.Type) : State :=
  { state with pendingMoves := state.pendingMoves ++ [⟨source, destination, type⟩] }

/-- `DeletePendingMove`. -/
def deletePendingMove (state : State) (move : MoveOperands) : State :=
  { state with pendingMoves := state.pendingMoves.erase move }

/-- `GetUnblockedPendingMove`: the first pending move whose destination overlaps
`loc` and is read by no move. -/
def getUnblockedPendingMove (state : State) (loc : Location) : Option MoveOperands :=
  state.pendingMoves.find? fun move =>
    move.destination.overlapsWith loc && !state.isBlockedByMoves move.destination

/-- `EmitMove(index)`: append the backend's code for the move at the index. -/
def emitMove (backend : Backend) (state : State) (index : Nat) : State :=
  { state with code := state.code ++ backend.emitMove (state.moveAt index) }

/-! ### How the operations change the state -/

@[simp] theorem moves_emitMove (backend : Backend) (state : State) (index : Nat) :
    (state.emitMove backend index).moves = state.moves := rfl

@[simp] theorem pendingMoves_emitMove (backend : Backend) (state : State) (index : Nat) :
    (state.emitMove backend index).pendingMoves = state.pendingMoves := rfl

@[simp] theorem scratches_emitMove (backend : Backend) (state : State) (index : Nat) :
    (state.emitMove backend index).scratches = state.scratches := rfl

@[simp] theorem temps_emitMove (backend : Backend) (state : State) (index : Nat) :
    (state.emitMove backend index).temps = state.temps := rfl

@[simp] theorem code_emitMove (backend : Backend) (state : State) (index : Nat) :
    (state.emitMove backend index).code = state.code ++ backend.emitMove (state.moveAt index) := rfl

@[simp] theorem moveAt_emitMove (backend : Backend) (state : State) (index other : Nat) :
    (state.emitMove backend index).moveAt other = state.moveAt other := rfl

@[simp] theorem pendingMoves_modifyMove (state : State) (index : Nat) (change : MoveOperands → MoveOperands) :
    (state.modifyMove index change).pendingMoves = state.pendingMoves := rfl

@[simp] theorem scratches_modifyMove (state : State) (index : Nat) (change : MoveOperands → MoveOperands) :
    (state.modifyMove index change).scratches = state.scratches := rfl

@[simp] theorem temps_modifyMove (state : State) (index : Nat) (change : MoveOperands → MoveOperands) :
    (state.modifyMove index change).temps = state.temps := rfl

@[simp] theorem code_modifyMove (state : State) (index : Nat) (change : MoveOperands → MoveOperands) :
    (state.modifyMove index change).code = state.code := rfl

@[simp] theorem pendingMoves_updateMoveSource (state : State) (fromLocation toLocation : Location) :
    (state.updateMoveSource fromLocation toLocation).pendingMoves = state.pendingMoves := rfl

@[simp] theorem scratches_updateMoveSource (state : State) (fromLocation toLocation : Location) :
    (state.updateMoveSource fromLocation toLocation).scratches = state.scratches := rfl

@[simp] theorem temps_updateMoveSource (state : State) (fromLocation toLocation : Location) :
    (state.updateMoveSource fromLocation toLocation).temps = state.temps := rfl

@[simp] theorem code_updateMoveSource (state : State) (fromLocation toLocation : Location) :
    (state.updateMoveSource fromLocation toLocation).code = state.code := rfl

@[simp] theorem moves_addPendingMove (state : State) (source destination : Location) (type : Primitive.Type) :
    (state.addPendingMove source destination type).moves = state.moves := rfl

@[simp] theorem pendingMoves_addPendingMove (state : State) (source destination : Location)
    (type : Primitive.Type) :
    (state.addPendingMove source destination type).pendingMoves = state.pendingMoves ++ [⟨source, destination, type⟩] :=
  rfl

@[simp] theorem scratches_addPendingMove (state : State) (source destination : Location) (type : Primitive.Type) :
    (state.addPendingMove source destination type).scratches = state.scratches := rfl

@[simp] theorem temps_addPendingMove (state : State) (source destination : Location) (type : Primitive.Type) :
    (state.addPendingMove source destination type).temps = state.temps := rfl

@[simp] theorem code_addPendingMove (state : State) (source destination : Location) (type : Primitive.Type) :
    (state.addPendingMove source destination type).code = state.code := rfl

@[simp] theorem moveAt_addPendingMove (state : State) (source destination : Location) (type : Primitive.Type)
    (index : Nat) : (state.addPendingMove source destination type).moveAt index = state.moveAt index := rfl

@[simp] theorem moveAt_deletePendingMove (state : State) (move : MoveOperands) (index : Nat) :
    (state.deletePendingMove move).moveAt index = state.moveAt index := rfl

@[simp] theorem moves_deletePendingMove (state : State) (move : MoveOperands) :
    (state.deletePendingMove move).moves = state.moves := rfl

@[simp] theorem pendingMoves_deletePendingMove (state : State) (move : MoveOperands) :
    (state.deletePendingMove move).pendingMoves = state.pendingMoves.erase move := rfl

@[simp] theorem scratches_deletePendingMove (state : State) (move : MoveOperands) :
    (state.deletePendingMove move).scratches = state.scratches := rfl

@[simp] theorem temps_deletePendingMove (state : State) (move : MoveOperands) :
    (state.deletePendingMove move).temps = state.temps := rfl

@[simp] theorem code_deletePendingMove (state : State) (move : MoveOperands) :
    (state.deletePendingMove move).code = state.code := rfl

@[simp] theorem length_moves_modifyMove (state : State) (index : Nat) (change : MoveOperands → MoveOperands) :
    (state.modifyMove index change).moves.length = state.moves.length :=
  List.length_modify _ _ _

theorem moveAt_modifyMove (state : State) {index : Nat} (change : MoveOperands → MoveOperands)
    (inRange : index < state.moves.length) (other : Nat) :
    (state.modifyMove index change).moveAt other =
      if index = other then change (state.moveAt index) else state.moveAt other := by
  simp only [moveAt, modifyMove, List.getD_eq_getElem?_getD, List.getElem?_modify]
  split_ifs with same
  · subst same
    simp [List.getElem?_eq_getElem inRange]
  · cases state.moves[other]? <;> rfl

@[simp] theorem moveAt_modifyMove_self (state : State) {index : Nat} (change : MoveOperands → MoveOperands)
    (inRange : index < state.moves.length) :
    (state.modifyMove index change).moveAt index = change (state.moveAt index) := by
  simp [moveAt_modifyMove state change inRange]

theorem moveAt_modifyMove_of_ne (state : State) {index other : Nat} (change : MoveOperands → MoveOperands)
    (different : index ≠ other) :
    (state.modifyMove index change).moveAt other = state.moveAt other := by
  simp only [moveAt, modifyMove, List.getD_eq_getElem?_getD, List.getElem?_modify, if_neg different]
  cases state.moves[other]? <;> rfl

@[simp] theorem length_moves_updateMoveSource (state : State) (fromLocation toLocation : Location) :
    (state.updateMoveSource fromLocation toLocation).moves.length = state.moves.length :=
  List.length_map _

theorem moveAt_updateMoveSource (state : State) (fromLocation toLocation : Location) {index : Nat}
    (inRange : index < state.moves.length) :
    (state.updateMoveSource fromLocation toLocation).moveAt index =
      if (state.moveAt index).source.equals fromLocation then (state.moveAt index).setSource toLocation
      else state.moveAt index := by
  simp [moveAt, updateMoveSource, List.getD_eq_getElem?_getD, List.getElem?_eq_getElem inRange]

theorem moveAt_of_length_le (state : State) {index : Nat} (outOfRange : state.moves.length ≤ index) :
    state.moveAt index = noMove := by
  simp [moveAt, List.getD_eq_getElem?_getD, List.getElem?_eq_none outOfRange]

/-- A move at an index of `moves_` is one of its elements. -/
theorem moveAt_mem (state : State) {index : Nat} (inRange : index < state.moves.length) :
    state.moveAt index ∈ state.moves := by
  simp [moveAt, List.getD_eq_getElem?_getD, List.getElem?_eq_getElem inRange]

theorem exists_moveAt_eq_of_mem (state : State) {move : MoveOperands} (member : move ∈ state.moves) :
    ∃ index < state.moves.length, state.moveAt index = move := by
  obtain ⟨index, inRange, rfl⟩ := List.getElem_of_mem member
  exact ⟨index, inRange, by simp [moveAt, List.getD_eq_getElem?_getD, List.getElem?_eq_getElem inRange]⟩

theorem isBlockedByMoves_iff (state : State) (loc : Location) :
    state.isBlockedByMoves loc = true ↔
      (∃ move ∈ state.pendingMoves, move.blocks loc) ∨ ∃ move ∈ state.moves, move.blocks loc := by
  simp [isBlockedByMoves]

/-- What `GetScratchLocation` answers: no location, or a location of the kind asked
for that no move reads, among the scratch locations or the destinations. -/
theorem getScratchLocation_spec (state : State) (kind : Location.Kind) :
    state.getScratchLocation kind = .noLocation ∨
      (state.getScratchLocation kind).getKind = kind ∧
        state.isBlockedByMoves (state.getScratchLocation kind) = false ∧
        (state.getScratchLocation kind ∈ state.scratches ∨
          ∃ move ∈ state.moves, move.destination = state.getScratchLocation kind) := by
  unfold getScratchLocation
  dsimp only
  split
  · rename_i loc found
    have free := List.find?_some found
    simp only [Bool.and_eq_true, beq_iff_eq, Bool.not_eq_true'] at free
    exact Or.inr ⟨free.1, free.2, Or.inl (List.mem_of_find?_eq_some found)⟩
  · split
    · rename_i loc found
      have free := List.find?_some found
      simp only [Bool.and_eq_true, beq_iff_eq, Bool.not_eq_true'] at free
      obtain ⟨move, member, rfl⟩ := List.mem_map.mp (List.mem_of_find?_eq_some found)
      exact Or.inr ⟨free.1, free.2, Or.inr ⟨move, member, rfl⟩⟩
    · exact Or.inl rfl

/-- A pending move `GetUnblockedPendingMove` answers overlaps the location and is read by no move. -/
theorem getUnblockedPendingMove_spec {state : State} {loc : Location} {move : MoveOperands}
    (found : state.getUnblockedPendingMove loc = some move) :
    move ∈ state.pendingMoves ∧ move.destination.overlapsWith loc = true ∧
      state.isBlockedByMoves move.destination = false := by
  have free := List.find?_some found
  simp only [Bool.and_eq_true, Bool.not_eq_true'] at free
  exact ⟨List.mem_of_find?_eq_some found, free⟩

theorem getUnblockedPendingMove_eq_none {state : State} {loc : Location}
    (blocked : ∀ move ∈ state.pendingMoves, move.destination.overlapsWith loc = true →
      state.isBlockedByMoves move.destination = true) :
    state.getUnblockedPendingMove loc = none := by
  unfold getUnblockedPendingMove
  rw [List.find?_eq_none]
  intro move member
  cases overlap : move.destination.overlapsWith loc
  · simp
  · simp [blocked move member overlap]

end State

variable (backend : Backend)

open State

/-- The loop of `PerformMove` that frees the scratch locations a performed pending
move may have unblocked, from index `i` on. `FreeScratchLocation` may remove the
location at `i` and so skip the next one, as the code's comment says. -/
def freeUnblockedScratches (pendingSource : Location) : Nat → Nat → State → State
  | _, 0, state => state
  | i, fuel + 1, state =>
      if h : i < state.scratches.length then
        let scratch := state.scratches[i]
        let state :=
          if scratch.overlapsWith pendingSource && !state.isBlockedByMoves scratch then
            backend.freeScratchLocation state pendingSource
          else state
        freeUnblockedScratches pendingSource (i + 1) fuel state
      else state

/-- The loop of `PerformMove` that emits the pending moves the move at `index`
unblocked when it read `source`, reusing the operands at `index` for each. -/
def performUnblockedPendingMoves (index : Nat) (source : Location) : Nat → State → State
  | 0, state => state
  | fuel + 1, state =>
      match state.getUnblockedPendingMove source with
      | none => state
      | some pendingMove =>
          let pendingSource := pendingMove.source
          let pendingDestination := pendingMove.destination
          let state := state.deletePendingMove pendingMove
          let state := state.modifyMove index fun move =>
            (move.setSource pendingSource).setDestination pendingDestination
          let state := (state.emitMove backend index).modifyMove index MoveOperands.eliminate
          let state := state.updateMoveSource pendingSource pendingDestination
          let state := freeUnblockedScratches backend pendingSource 0 state.scratches.length state
          performUnblockedPendingMoves index source fuel state

/-- The end of `PerformMove(index)`, once every move that read the destination has
been performed: restore the destination, emit the move, through a scratch location
when the destination is still read, and emit the pending moves this unblocked. -/
def resolveMove (index : Nat) (destination : Location) (state : State) : Option State := do
  let state := state.modifyMove index fun move => move.clearPending destination
  let move := state.moveAt index
  let source := move.source
  let state ←
    if state.isBlockedByMoves destination then do
      -- A cycle: move the source to a scratch location now, and the scratch
      -- location to the destination once the destination is free.
      let (scratch, state) ← backend.allocateScratchLocationFor state source.getKind
      let type := if move.is64BitMove then Primitive.Type.primLong else .primInt
      let state := state.modifyMove index fun move => move.setDestination scratch
      let state := (state.emitMove backend index).modifyMove index MoveOperands.eliminate
      let state := state.updateMoveSource source scratch
      some (state.addPendingMove scratch destination type)
    else
      let state := (state.emitMove backend index).modifyMove index MoveOperands.eliminate
      some (state.updateMoveSource source destination)
  some (performUnblockedPendingMoves backend index source state.pendingMoves.length state)

/-- `PerformMove(index)`, with the depth of the walk bounded by the fuel. It fails
when the fuel runs out or the backend has no scratch location to give. -/
def performMove : Nat → Nat → State → Option State
  | 0, _, _ => none
  | fuel + 1, index, state =>
      let move := state.moveAt index
      if move.isRedundant then
        some (state.modifyMove index MoveOperands.eliminate)
      else do
        let destination := move.destination
        let state := state.modifyMove index fun move => move.markPending.1
        -- Perform every other move that reads the destination and is not on the walk.
        let state ← (List.range state.moves.length).foldlM (fun state i =>
            let otherMove := state.moveAt i
            if otherMove.blocks destination && !otherMove.isPending then performMove fuel i state
            else some state) state
        resolveMove backend index destination state

/-- The first loop of `EmitNativeCode`: perform every move whose source is not a
constant. -/
def performNonConstantMoves (fuel : Nat) (state : State) : Option State :=
  (List.range state.moves.length).foldlM (fun state i =>
    let move := state.moveAt i
    if !move.isEliminated && !move.source.isConstant then performMove backend fuel i state
    else some state) state

/-- The second loop of `EmitNativeCode`: emit the remaining moves into registers,
redirecting later reads of the same constant to the register. -/
def performRegisterMoves (state : State) : State :=
  (List.range state.moves.length).foldl (fun state i =>
    let move := state.moveAt i
    let destination := move.destination
    if !move.isEliminated && !destination.isStackSlot && !destination.isDoubleStackSlot then
      let source := move.source
      let state := (state.emitMove backend i).modifyMove i MoveOperands.eliminate
      state.updateMoveSource source destination
    else state) state

/-- The third loop of `EmitNativeCode`: emit the rest. -/
def performRemainingMoves (state : State) : State :=
  (List.range state.moves.length).foldl (fun state i =>
    if !(state.moveAt i).isEliminated then
      (state.emitMove backend i).modifyMove i MoveOperands.eliminate
    else state) state

/-- `EmitNativeCode`, with the temporaries the backend starts from. The result is
the state at the return: `moves_` and `scratches_` cleared, `pending_moves_` as the
walk left it, and the code emitted. -/
def emitNativeCode (temps : List Location) (parallelMove : HParallelMove) : Option State := do
  let moves := buildInitialMoveList parallelMove
  let state : State := { moves, pendingMoves := [], scratches := [], temps, code := [] }
  let state ← performNonConstantMoves backend (moves.length + 1) state
  let state := performRemainingMoves backend (performRegisterMoves backend state)
  some { state with moves := [], scratches := [] }

end ParallelMoveResolverNoSwap

end Art.Compiler.Optimizing
