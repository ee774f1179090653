import Art.Compiler.Optimizing.ParallelMoveResolverNoSwap.Steps
import Art.Machine.Loop

/-!
# The walk of `PerformMove`

`PerformMove(index)` marks the move, performs every other move that reads its
destination, and then emits it. Under the conditions of `Admissible` the moves
it marks form a path: each reads the destination of one before the last, so that
only the root, the move `EmitNativeCode` started from, may read the destination
of the last one (`OnWalk`). When it does, the walk has met a cycle, which the last
move breaks through a scratch location (`Broken`); the root emits the pending move
this leaves as soon as it has left the destination free. Every other move goes
straight to its destination, and each move performs at most one other: the first
one redirects every other reader of the destination.

`performMove_performed` says so by induction on the fuel: from a state `Ready`
for it, `PerformMove` returns a state `Performed` for its caller.
-/

set_option autoImplicit false

namespace Art.Compiler.Optimizing.ParallelMoveResolverNoSwap

open Art.Machine CodeGeneratorArm64 ParallelMoveResolverARM64 State

/-! ## Where a walk stands -/

section Walk

variable (moves : List MoveOperands)

/-- The move at an index is on the walk: `MarkPending` has cleared its destination
and its source is still to be read. -/
def Marked (state : State) (index : Nat) : Prop :=
  (state.moveAt index).source ≠ .noLocation ∧ (state.moveAt index).destination = .noLocation

/-- The moves on the walk, root first. Each but the root reads the destination of
a move before the last one. -/
structure OnWalk (state : State) (path : List Nat) : Prop where
  nodup : path.Nodup
  bound : ∀ step ∈ path, step < moves.length
  marked : ∀ index < moves.length, Marked state index ↔ index ∈ path
  reads : ∀ later ∈ path.tail, ∃ earlier ∈ path.dropLast,
    (state.moveAt later).source = (origin moves earlier).destination

/-- No pending move and no scratch location: the state between two walks. -/
def Quiet (state : State) : Prop := state.pendingMoves = [] ∧ state.scratches = []

/-- The walk has broken its cycle: the one pending move carries the value of
`carrier` from `scratch` to the carrier's destination, which of all the moves only
the root still reads. -/
structure Broken (temps : List Location) (state : State) (path : List Nat) (scratch : Location) (carrier : Nat) : Prop where
  inRange : carrier < moves.length
  pending : ∃ type, state.pendingMoves = [⟨scratch, (origin moves carrier).destination, type⟩]
  rootReads : ∃ root ∈ path.head?, ∀ other < moves.length,
    (state.moveAt other).source = (origin moves carrier).destination ↔ other = root
  written : Written moves temps scratch
  apart : scratch ≠ (origin moves carrier).destination
  awayFromWalk : ∀ step ∈ path, scratch ≠ (origin moves step).destination
  scratches : state.scratches = [scratch] ∨ state.scratches = []

/-- The assembler has a temporary of each register class to give. -/
def Stocked (temps : List Location) : Prop :=
  (∃ temp ∈ temps, temp.getKind = .register) ∧ ∃ temp ∈ temps, temp.getKind = .fpuRegister

/-- What every step of a walk keeps: a performed move stays performed, a move that
reads a constant is left alone, and no other move comes to read one. -/
structure Advances (state next : State) : Prop where
  performed : ∀ index < moves.length, (state.moveAt index).source = .noLocation →
    (next.moveAt index).source = .noLocation
  constant : ∀ index < moves.length, (state.moveAt index).source.isConstant = true →
    next.moveAt index = state.moveAt index
  notConstant : ∀ index < moves.length, (state.moveAt index).source.isConstant = false →
    (next.moveAt index).source.isConstant = false

end Walk

/-! ## How the steps move the walk along -/

section Advance

variable {moves : List MoveOperands}

theorem Advances.refl (state : State) : Advances moves state state :=
  ⟨fun _ _ performed => performed, fun _ _ _ => rfl, fun _ _ notConstant => notConstant⟩

theorem Advances.trans {state middle next : State} (first : Advances moves state middle)
    (second : Advances moves middle next) : Advances moves state next where
  performed index inRange performed :=
    second.performed index inRange (first.performed index inRange performed)
  constant index inRange constant := by
    rw [second.constant index inRange (first.constant index inRange constant ▸ constant),
      first.constant index inRange constant]
  notConstant index inRange notConstant :=
    second.notConstant index inRange (first.notConstant index inRange notConstant)

/-- Changing a move that does not read a constant, keeping or clearing its source. -/
theorem advances_modifyMove {state : State} {index : Nat} {change : MoveOperands → MoveOperands}
    (inRange : index < state.moves.length)
    (source : (change (state.moveAt index)).source = (state.moveAt index).source ∨
      (change (state.moveAt index)).source = .noLocation)
    (notConstant : (state.moveAt index).source.isConstant = false) :
    Advances moves state (state.modifyMove index change) := by
  have moveAtNext := moveAt_modifyMove state change inRange
  refine ⟨fun other _ performed => ?_, fun other _ constant => ?_, fun other _ otherNotConstant => ?_⟩
  · rw [moveAtNext other]
    split_ifs with same
    · subst same
      rcases source with same | cleared
      · rw [same, performed]
      · exact cleared
    · exact performed
  · rw [moveAtNext other, if_neg]
    rintro rfl
    simp [notConstant] at constant
  · rw [moveAtNext other]
    split_ifs with same
    · subst same
      rcases source with same | cleared
      · rw [same, otherNotConstant]
      · rw [cleared]
        rfl
    · exact otherNotConstant

theorem moveAt_congr {state other : State} (same : state.moves = other.moves) (index : Nat) :
    state.moveAt index = other.moveAt index := by
  simp [moveAt, same]

theorem Advances.of_moves_eq {state next : State} (same : next.moves = state.moves) : Advances moves state next where
  performed index _ performed := by rw [moveAt_congr same]; exact performed
  constant index _ _ := moveAt_congr same index
  notConstant index _ notConstant := by rw [moveAt_congr same]; exact notConstant

variable {state next : State} {index : Nat} {fromLocation toLocation : Location}

theorem Redirects.of_moves_eq {other : State} (redirects : Redirects state next index fromLocation toLocation)
    (same : other.moves = state.moves) : Redirects other next index fromLocation toLocation := by
  intro k
  simp only [moveAt_congr same]
  exact redirects k

theorem Redirects.source_self (redirects : Redirects state next index fromLocation toLocation) :
    (next.moveAt index).source = .noLocation := by
  simp [redirects index, MoveOperands.eliminate]

theorem Redirects.moveAt_of_ne (redirects : Redirects state next index fromLocation toLocation) {other : Nat}
    (different : index ≠ other) (unread : (state.moveAt other).source ≠ fromLocation) :
    next.moveAt other = state.moveAt other := by
  simp [redirects other, different, unread]

/-- After the redirection no move reads the location redirected from. -/
theorem Redirects.source_ne_from (redirects : Redirects state next index fromLocation toLocation)
    (valid : fromLocation ≠ .noLocation) (moved : toLocation ≠ fromLocation) (other : Nat) :
    (next.moveAt other).source ≠ fromLocation := by
  rw [redirects other]
  split_ifs with same reads
  · exact Ne.symm valid
  · exact moved
  · exact reads

/-- Any other location is read by the moves that read it before, but for the move
performed. -/
theorem Redirects.source_eq_iff (redirects : Redirects state next index fromLocation toLocation)
    {loc : Location} (valid : loc ≠ .noLocation) (fromNe : fromLocation ≠ loc) (toNe : toLocation ≠ loc)
    (other : Nat) : (next.moveAt other).source = loc ↔ other ≠ index ∧ (state.moveAt other).source = loc := by
  rw [redirects other]
  split_ifs with same reads
  · subst same
    simp [MoveOperands.eliminate, Ne.symm valid]
  · simp only [MoveOperands.setSource, toNe, reads, fromNe, and_false]
  · simp [Ne.symm same]

/-- The redirection leaves every other move on the walk or off it. -/
theorem Redirects.marked_iff (redirects : Redirects state next index fromLocation toLocation)
    (valid : fromLocation ≠ .noLocation) (toValid : toLocation ≠ .noLocation) {other : Nat}
    (different : index ≠ other) : Marked next other ↔ Marked state other := by
  simp only [Marked, redirects other, if_neg different]
  split_ifs with reads
  · simp [MoveOperands.setSource, toValid, reads, valid]
  · rfl

theorem Redirects.advances (redirects : Redirects state next index fromLocation toLocation)
    (valid : fromLocation ≠ .noLocation) (fromNotConstant : fromLocation.isConstant = false)
    (toNotConstant : toLocation.isConstant = false) (notConstant : (state.moveAt index).source.isConstant = false) :
    Advances moves state next := by
  refine ⟨fun other _ performed => ?_, fun other _ constant => ?_, fun other _ otherNotConstant => ?_⟩
  · rw [redirects other]
    split_ifs with same reads
    · rfl
    · exact absurd (reads.symm.trans performed) valid
    · exact performed
  · have unread : (state.moveAt other).source ≠ fromLocation := by
      rintro same
      simp [same, fromNotConstant] at constant
    refine redirects.moveAt_of_ne ?_ unread
    rintro rfl
    simp [notConstant] at constant
  · rw [redirects other]
    split_ifs
    · rfl
    · exact toNotConstant
    · exact otherNotConstant

end Advance

/-! ## The path of a walk -/

section Path

variable {moves : List MoveOperands} {temps : List Location} {state : State} {path : List Nat}

theorem OnWalk.length_le (onWalk : OnWalk moves state path) : path.length ≤ moves.length := by
  have subset : path ⊆ List.range moves.length := fun step member => List.mem_range.mpr (onWalk.bound step member)
  simpa using onWalk.nodup.length_le_of_subset subset

theorem OnWalk.not_mem (onWalk : OnWalk moves state path) {index : Nat} (inRange : index < moves.length)
    (waiting : (state.moveAt index).destination ≠ .noLocation) : index ∉ path :=
  fun member => waiting ((onWalk.marked index inRange).mpr member).2

theorem OnWalk.last_not_mem_dropLast (onWalk : OnWalk moves state path) {last : Nat}
    (isLast : last ∈ path.getLast?) : last ∉ path.dropLast := by
  have nodup := onWalk.nodup
  rw [← List.dropLast_append_getLast? last isLast, List.nodup_append] at nodup
  exact fun member => nodup.2.2 last member last (List.mem_singleton_self _) rfl

/-- The walk of a state whose marks are those of the walk and whose moves on the
walk but the root are untouched. -/
theorem OnWalk.of_walk {next : State} (onWalk : OnWalk moves state path)
    (marked : ∀ index < moves.length, Marked next index ↔ index ∈ path)
    (walk : ∀ step ∈ path.tail, next.moveAt step = state.moveAt step) : OnWalk moves next path where
  nodup := onWalk.nodup
  bound := onWalk.bound
  marked := marked
  reads later member := by
    rw [walk later member]
    exact onWalk.reads later member

theorem exists_getLast_of_mem_tail {step : Nat} (member : step ∈ path.tail) : ∃ last, last ∈ path.getLast? := by
  have nonempty : path ≠ [] := by
    rintro rfl
    simp at member
  exact Option.isSome_iff_exists.mp (List.getLast?_isSome.mpr nonempty)

/-- **Marking a move that reads the destination of the last move puts it at the end
of the walk.** -/
theorem OnWalk.push (onWalk : OnWalk moves state path) {index : Nat} (inRange : index < moves.length)
    (length : state.moves.length = moves.length) (valid : (state.moveAt index).source ≠ .noLocation)
    (notOnWalk : index ∉ path)
    (readsLast : ∀ last ∈ path.getLast?, (state.moveAt index).source = (origin moves last).destination) :
    OnWalk moves (state.modifyMove index fun move => move.markPending.1) (path ++ [index]) := by
  have stateInRange : index < state.moves.length := length ▸ inRange
  have unchanged : ∀ other, index ≠ other →
      (state.modifyMove index fun move => move.markPending.1).moveAt other = state.moveAt other :=
    fun other different => by rw [moveAt_modifyMove state _ stateInRange, if_neg different]
  refine ⟨?nodup, ?bound, fun other otherInRange => ?_, fun later member => ?_⟩
  case nodup =>
    refine List.nodup_append.mpr ⟨onWalk.nodup, List.nodup_singleton index, fun step member other same => ?_⟩
    rw [List.mem_singleton.mp same]
    rintro rfl
    exact notOnWalk member
  case bound =>
    intro step member
    rcases List.mem_append.mp member with member | member
    · exact onWalk.bound step member
    · rw [List.mem_singleton.mp member]
      exact inRange
  · by_cases same : index = other
    · subst same
      simp [Marked, moveAt_modifyMove_self _ _ stateInRange, valid, MoveOperands.markPending]
    · rw [Marked, unchanged other same, ← Marked, onWalk.marked other otherInRange]
      simp [Ne.symm same]
  · -- The new last move reads the destination of the old one; the others read as before.
    by_cases nonempty : path = []
    · subst nonempty
      simp at member
    rw [List.tail_append_of_ne_nil nonempty, List.mem_append, List.mem_singleton] at member
    rw [List.dropLast_concat]
    rcases member with member | rfl
    · obtain ⟨earlier, earlierMember, reads⟩ := onWalk.reads later member
      refine ⟨earlier, List.dropLast_subset _ earlierMember, ?_⟩
      rw [unchanged later fun same => notOnWalk (same ▸ List.mem_of_mem_tail member)]
      exact reads
    · obtain ⟨last, isLast⟩ := Option.isSome_iff_exists.mp (List.getLast?_isSome.mpr nonempty)
      refine ⟨last, List.mem_of_getLast? isLast, ?_⟩
      rw [moveAt_modifyMove_self _ _ stateInRange, MoveOperands.markPending_fst_source]
      exact readsLast last isLast

/-- Restoring the destination of a move takes it off the walk. -/
theorem marked_clearPending {index : Nat} (inRange : index < state.moves.length) {destination : Location}
    (valid : destination ≠ .noLocation) (other : Nat) :
    Marked (state.modifyMove index fun move => move.clearPending destination) other ↔
      Marked state other ∧ other ≠ index := by
  rw [Marked, Marked, moveAt_modifyMove state _ inRange]
  split_ifs with same
  · subst same
    simp [MoveOperands.clearPending, valid]
  · simp [Ne.symm same]

variable (admissible : Admissible moves temps)
include admissible

/-- A move on the walk but the root reads the destination of no move but those
before the last one. -/
theorem OnWalk.source_ne (onWalk : OnWalk moves state path) {later : Nat} (member : later ∈ path.tail)
    {index : Nat} (inRange : index < moves.length) (notEarlier : index ∉ path.dropLast) :
    (state.moveAt later).source ≠ (origin moves index).destination := by
  obtain ⟨earlier, earlierMember, reads⟩ := onWalk.reads later member
  rw [reads]
  intro same
  rw [origin_destination_injective admissible (onWalk.bound earlier (List.dropLast_subset _ earlierMember))
    inRange same] at earlierMember
  exact notEarlier earlierMember

end Path

/-! ## The frames of `PerformMove` -/

section Frames

variable (moves : List MoveOperands) (temps : List Location) {V : Type} (store : Location.Cell → V)

/-- The move at `index` waits, with its own destination, to be performed from the
walk `path`: it reads the destination of the last move on the walk. -/
structure Waiting (index : Nat) (path : List Nat) (state : State) : Prop where
  invariant : Invariant moves temps store state
  onWalk : OnWalk moves state path
  inRange : index < moves.length
  valid : (state.moveAt index).source ≠ .noLocation
  waiting : (state.moveAt index).destination = (origin moves index).destination
  notConstant : (state.moveAt index).source.isConstant = false
  readsLast : ∀ last ∈ path.getLast?, (state.moveAt index).source = (origin moves last).destination

/-- What `PerformMove(index)` may assume: no cycle has been broken yet, and the fuel
outlasts the walk. -/
structure Ready (fuel index : Nat) (path : List Nat) (state : State) : Prop
    extends Waiting moves temps store index path state where
  quiet : Quiet state
  enoughFuel : moves.length < fuel + path.length

/-- Where `PerformMove(index)`, called on `state`, emits the move: every other move
that read the destination has been performed, and the walk is as it was but for
the root's source. -/
structure Resolving (index : Nat) (path : List Nat) (state cleared : State) : Prop
    extends Waiting moves temps store index path cleared where
  advances : Advances moves state cleared
  walk : ∀ step ∈ path.tail, cleared.moveAt step = state.moveAt step

/-- What emitting the move at `index` leaves its caller: the move performed, the
walk as it was but for the root's source, and no move that reads the destination
of the last move on the walk. -/
structure Emitted (index : Nat) (path : List Nat) (state next : State) : Prop where
  invariant : Invariant moves temps store next
  onWalk : OnWalk moves next path
  performed : (next.moveAt index).source = .noLocation
  advances : Advances moves state next
  walk : ∀ step ∈ path.tail, next.moveAt step = state.moveAt step
  unread : ∀ last ∈ path.getLast?, ∀ other < moves.length,
    (next.moveAt other).source ≠ (origin moves last).destination

/-- What `PerformMove(index)` leaves its caller: the move emitted, and either no
pending move or the cycle of the walk broken. -/
structure Performed (index : Nat) (path : List Nat) (state next : State) : Prop
    extends Emitted moves temps store index path state next where
  settled : Quiet next ∨ ∃ scratch carrier, Broken moves temps next path scratch carrier

end Frames

/-! ## Emitting the move of a frame -/

section Emit

variable {moves : List MoveOperands} {temps : List Location} {V : Type} {store : Location.Cell → V}
  (admissible : Admissible moves temps)
include admissible

/-- **Emitting the move of a frame.** Whatever the move is emitted to, redirecting
its readers there performs it and leaves the walk as it was. -/
theorem Resolving.emitted {index : Nat} {path : List Nat} {state cleared next : State}
    (resolving : Resolving moves temps store index path state cleared) {toLocation : Location}
    (redirects : Redirects cleared next index (cleared.moveAt index).source toLocation)
    (toValid : toLocation ≠ .noLocation) (toNotConstant : toLocation.isConstant = false)
    (toNe : ∀ last ∈ path.getLast?, toLocation ≠ (origin moves last).destination)
    (invariant : Invariant moves temps store next) : Emitted moves temps store index path state next := by
  have inRange := resolving.inRange
  have destinationValid := (relevant_destination inRange : Relevant moves temps _).ne_noLocation admissible
  have notOnWalk : index ∉ path := resolving.onWalk.not_mem inRange (resolving.waiting ▸ destinationValid)
  -- The source of the move is the destination of the last move, which no other
  -- move on the walk reads.
  have walkUnchanged : ∀ step ∈ path.tail, next.moveAt step = cleared.moveAt step := by
    intro step member
    refine redirects.moveAt_of_ne (fun same => notOnWalk (same ▸ List.mem_of_mem_tail member)) ?_
    obtain ⟨last, isLast⟩ := exists_getLast_of_mem_tail member
    rw [resolving.readsLast last isLast]
    exact resolving.onWalk.source_ne admissible member (resolving.onWalk.bound last (List.mem_of_getLast? isLast))
      (resolving.onWalk.last_not_mem_dropLast isLast)
  refine
    { invariant := invariant
      onWalk := resolving.onWalk.of_walk (fun other otherInRange => ?_) walkUnchanged
      performed := redirects.source_self
      advances := resolving.advances.trans
        (redirects.advances resolving.valid resolving.notConstant toNotConstant resolving.notConstant)
      walk := fun step member => (walkUnchanged step member).trans (resolving.walk step member)
      unread := fun last isLast other _ => ?_ }
  · by_cases same : index = other
    · subst same
      simp [Marked, redirects.source_self, notOnWalk]
    · rw [redirects.marked_iff resolving.valid toValid same]
      exact resolving.onWalk.marked other otherInRange
  · rw [← resolving.readsLast last isLast]
    exact redirects.source_ne_from resolving.valid (resolving.readsLast last isLast ▸ toNe last isLast) other

end Emit

/-! ## Unfolding `PerformMove` -/

/-- One turn of the loop of `PerformMove` over the moves that read `destination`. -/
def performDependency (fuel : Nat) (destination : Location) (state : State) (i : Nat) : Option State :=
  if (state.moveAt i).blocks destination && !(state.moveAt i).isPending then performMove backend fuel i state
  else some state

theorem performMove_succ {fuel index : Nat} {state : State}
    (notRedundant : (state.moveAt index).isRedundant = false) :
    performMove backend (fuel + 1) index state =
      ((List.range state.moves.length).foldlM (performDependency fuel (state.moveAt index).destination)
        (state.modifyMove index fun move => move.markPending.1)).bind
          (resolveMove backend index (state.moveAt index).destination) := by
  rw [performMove, if_neg (by simp [notRedundant])]
  simp only [length_moves_modifyMove]
  rfl

theorem resolveMove_of_free {index : Nat} {destination : Location} {state : State}
    (free : (state.modifyMove index fun move => move.clearPending destination).isBlockedByMoves destination = false) :
    resolveMove backend index destination state =
      let cleared := state.modifyMove index fun move => move.clearPending destination
      let next := ((cleared.emitMove backend index).modifyMove index MoveOperands.eliminate).updateMoveSource
        (cleared.moveAt index).source destination
      some (performUnblockedPendingMoves backend index (cleared.moveAt index).source next.pendingMoves.length next) := by
  simp only [resolveMove, free]
  rfl

theorem resolveMove_of_blocked {index : Nat} {destination : Location} {state scratchState : State}
    {scratch : Location}
    (blocked : (state.modifyMove index fun move => move.clearPending destination).isBlockedByMoves destination = true)
    (allocated : allocateScratchLocationFor (state.modifyMove index fun move => move.clearPending destination)
      ((state.modifyMove index fun move => move.clearPending destination).moveAt index).source.getKind =
        some (scratch, scratchState)) :
    resolveMove backend index destination state =
      let cleared := state.modifyMove index fun move => move.clearPending destination
      let next := ((((scratchState.modifyMove index fun move => move.setDestination scratch).emitMove backend
        index).modifyMove index MoveOperands.eliminate).updateMoveSource (cleared.moveAt index).source
          scratch).addPendingMove scratch destination
            (if (cleared.moveAt index).is64BitMove then .primLong else .primInt)
      some (performUnblockedPendingMoves backend index (cleared.moveAt index).source next.pendingMoves.length next) := by
  simp only [resolveMove, blocked, backend_allocateScratchLocationFor, allocated]
  rfl

/-- Marking a move and restoring its destination gives the state back. -/
theorem modifyMove_clearPending_markPending (state : State) {index : Nat} {destination : Location}
    (own : (state.moveAt index).destination = destination) :
    (state.modifyMove index fun move => move.markPending.1).modifyMove index
      (fun move => move.clearPending destination) = state := by
  obtain ⟨list, pendingMoves, scratches, temps, code⟩ := state
  simp only [modifyMove, List.modify_modify_eq, State.mk.injEq, and_true]
  apply List.ext_getElem?
  intro other
  rw [List.getElem?_modify]
  split_ifs with same
  · subst same
    cases found : list[index]? with
    | none => rfl
    | some move =>
        have own : move.destination = destination := by
          simpa [moveAt, List.getD_eq_getElem?_getD, found] using own
        subst own
        simp
  · simp

theorem performUnblockedPendingMoves_of_none {index : Nat} {source : Location} {state : State} (fuel : Nat)
    (none : state.getUnblockedPendingMove source = none) :
    performUnblockedPendingMoves backend index source fuel state = state := by
  cases fuel <;> simp [performUnblockedPendingMoves, none]

theorem performUnblockedPendingMoves_one {index : Nat} {source : Location} {state : State} {pending : MoveOperands}
    (found : state.getUnblockedPendingMove source = some pending) :
    performUnblockedPendingMoves backend index source 1 state =
      let next := ((((state.deletePendingMove pending).modifyMove index fun move =>
        (move.setSource pending.source).setDestination pending.destination).emitMove backend index).modifyMove
          index MoveOperands.eliminate).updateMoveSource pending.source pending.destination
      freeUnblockedScratches backend pending.source 0 next.scratches.length next := by
  simp only [performUnblockedPendingMoves, found]

theorem freeUnblockedScratches_nil {loc : Location} {state : State} (none : state.scratches = []) :
    freeUnblockedScratches backend loc 0 state.scratches.length state = state := by
  rw [none]
  rfl

theorem freeUnblockedScratches_single {scratch : Location} {state : State} (only : state.scratches = [scratch])
    (free : state.isBlockedByMoves scratch = false) :
    freeUnblockedScratches backend scratch 0 state.scratches.length state = freeScratchLocation state scratch := by
  rw [only]
  simp [freeUnblockedScratches, only, free, freeScratchLocation]

/-! ## The frames of a walk -/

section Frame

variable {moves : List MoveOperands} {temps : List Location} {V : Type} {store : Location.Cell → V}

theorem Invariant.source_relevant {state : State} (invariant : Invariant moves temps store state) {index : Nat}
    (inRange : index < moves.length) (valid : (state.moveAt index).source ≠ .noLocation) :
    Relevant moves temps (state.moveAt index).source := by
  have keeps := (invariant.keeps index inRange).1
  rwa [holder_of_source_ne valid] at keeps

/-- The cycle stays broken over a step that keeps the pending moves, the scratch
locations and the readers of the carrier's destination. -/
theorem Broken.of_readers {state next : State} {path shorter : List Nat} {scratch : Location} {carrier : Nat}
    (broken : Broken moves temps state path scratch carrier) (head : shorter.head? = path.head?)
    (sub : ∀ step ∈ shorter, step ∈ path) (pending : next.pendingMoves = state.pendingMoves)
    (scratches : next.scratches = state.scratches)
    (readers : ∀ other < moves.length, (next.moveAt other).source = (origin moves carrier).destination ↔
      (state.moveAt other).source = (origin moves carrier).destination) :
    Broken moves temps next shorter scratch carrier where
  inRange := broken.inRange
  pending := by
    rw [pending]
    exact broken.pending
  rootReads := by
    obtain ⟨root, isRoot, reads⟩ := broken.rootReads
    exact ⟨root, head ▸ isRoot, fun other otherInRange => (readers other otherInRange).trans (reads other otherInRange)⟩
  written := broken.written
  apart := broken.apart
  awayFromWalk step member := broken.awayFromWalk step (sub step member)
  scratches := by
    rw [scratches]
    exact broken.scratches

theorem Emitted.of_moves_eq {index : Nat} {path : List Nat} {state next other : State}
    (emitted : Emitted moves temps store index path state next) (invariant : Invariant moves temps store other)
    (same : other.moves = next.moves) : Emitted moves temps store index path state other := by
  have moveAtSame := moveAt_congr same
  refine
    { invariant := invariant
      onWalk := emitted.onWalk.of_walk (fun index inRange => ?_) fun step _ => moveAtSame step
      performed := by rw [moveAtSame]; exact emitted.performed
      advances := emitted.advances.trans (Advances.of_moves_eq same)
      walk := fun step member => (moveAtSame step).trans (emitted.walk step member)
      unread := fun last isLast index inRange => by rw [moveAtSame]; exact emitted.unread last isLast index inRange }
  simp only [Marked, moveAtSame]
  exact emitted.onWalk.marked index inRange

variable (admissible : Admissible moves temps)
include admissible

variable {fuel index : Nat} {path : List Nat}

/-- A move that blocks a location of the resolution reads it. -/
theorem Invariant.source_eq_of_blocks {state : State} (invariant : Invariant moves temps store state)
    {other : Nat} (inRange : other < moves.length) {loc : Location} (relevant : Relevant moves temps loc)
    (blocks : (state.moveAt other).blocks loc = true) : (state.moveAt other).source = loc := by
  rw [MoveOperands.blocks_iff] at blocks
  exact (overlapsWith_iff admissible (invariant.source_relevant inRange blocks.1) relevant).mp blocks.2

theorem Waiting.notOnWalk {state : State} (waiting : Waiting moves temps store index path state) :
    index ∉ path :=
  waiting.onWalk.not_mem waiting.inRange
    (waiting.waiting ▸ (relevant_destination waiting.inRange : Relevant moves temps _).ne_noLocation admissible)

theorem Waiting.destination_ne_last {state : State} (waiting : Waiting moves temps store index path state) :
    ∀ last ∈ path.getLast?, (origin moves index).destination ≠ (origin moves last).destination := by
  intro last isLast same
  have lastOnWalk := List.mem_of_getLast? isLast
  obtain rfl := origin_destination_injective admissible waiting.inRange (waiting.onWalk.bound last lastOnWalk) same
  exact waiting.notOnWalk admissible lastOnWalk

/-- **Marking the move of a frame** keeps the invariant and puts the move at the
end of the walk. -/
theorem Ready.mark {state : State} (ready : Ready moves temps store (fuel + 1) index path state) :
    Invariant moves temps store (state.modifyMove index fun move => move.markPending.1) ∧
      OnWalk moves (state.modifyMove index fun move => move.markPending.1) (path ++ [index]) ∧
      Advances moves state (state.modifyMove index fun move => move.markPending.1) :=
  ⟨ready.invariant.modifyMove_destination ready.inRange ready.valid rfl rfl (Or.inl rfl),
    ready.onWalk.push ready.inRange ready.invariant.length ready.valid (ready.notOnWalk admissible) ready.readsLast,
    advances_modifyMove (ready.invariant.length ▸ ready.inRange) (Or.inl rfl) ready.notConstant⟩

/-- **A move the loop of a frame performs is ready**: it reads the destination of
the frame's move and waits with its own. -/
theorem Ready.child {state : State} (ready : Ready moves temps store (fuel + 1) index path state)
    {marked : State} (markedDef : marked = state.modifyMove index fun move => move.markPending.1)
    {child : Nat} (childInRange : child < moves.length)
    (blocks : (marked.moveAt child).blocks (origin moves index).destination = true)
    (notPending : (marked.moveAt child).isPending = false) :
    Ready moves temps store fuel child (path ++ [index]) marked := by
  obtain ⟨invariant, onWalk, -⟩ := ready.mark admissible
  rw [← markedDef] at invariant onWalk
  have reads : (marked.moveAt child).source = (origin moves index).destination :=
    invariant.source_eq_of_blocks admissible childInRange (relevant_destination ready.inRange) blocks
  have valid : (marked.moveAt child).source ≠ .noLocation := ((MoveOperands.blocks_iff _ _).mp blocks).1
  have waiting : (marked.moveAt child).destination = (origin moves child).destination := by
    refine (invariant.destination child childInRange).resolve_left fun cleared => ?_
    simp [MoveOperands.isPending, Location.isInvalid, Location.isValid, cleared, valid] at notPending
  refine
    { invariant := invariant
      onWalk := onWalk
      inRange := childInRange
      valid := valid
      waiting := waiting
      notConstant := reads ▸ (written_destination ready.inRange).isConstant admissible
      readsLast := fun last isLast => ?_
      quiet := by
        rw [markedDef]
        exact ready.quiet
      enoughFuel := by
        have := ready.enoughFuel
        simp only [List.length_append, List.length_singleton]
        omega }
  obtain rfl : index = last := by simpa using isLast
  exact reads

/-- **The loop of a frame.** It performs at most one move: the first move that
reads the frame's destination redirects every other reader. -/
theorem Ready.dependencies {state : State} (ready : Ready moves temps store (fuel + 1) index path state)
    {marked : State} (markedDef : marked = state.modifyMove index fun move => move.markPending.1)
    (perform : ∀ child, Ready moves temps store fuel child (path ++ [index]) marked →
      ∃ next, performMove backend fuel child marked = some next ∧
        Performed moves temps store child (path ++ [index]) marked next) :
    ∃ loopState, (List.range state.moves.length).foldlM
        (performDependency fuel (state.moveAt index).destination) marked = some loopState ∧
      ((loopState = marked ∧ ∀ other < moves.length,
          (marked.moveAt other).blocks (origin moves index).destination = true →
            (marked.moveAt other).isPending = true) ∨
        ∃ child, Performed moves temps store child (path ++ [index]) marked loopState) := by
  rw [ready.waiting, ready.invariant.length]
  have destination : Relevant moves temps _ := relevant_destination ready.inRange
  -- The invariant of the loop: nothing performed and nothing to perform so far,
  -- or one move performed, after which no move reads the destination.
  refine foldlM_range_invariant _ (fun done loopState => (loopState = marked ∧ ∀ other < done,
      (marked.moveAt other).blocks (origin moves index).destination = true →
        (marked.moveAt other).isPending = true) ∨
      ∃ child, Performed moves temps store child (path ++ [index]) marked loopState) moves.length marked
    (Or.inl ⟨rfl, fun _ none => absurd none (Nat.not_lt_zero _)⟩) ?_
  intro other loopState otherInRange holds
  rcases holds with ⟨rfl, none⟩ | ⟨child, performed⟩
  · by_cases trigger : (loopState.moveAt other).blocks (origin moves index).destination = true ∧
        (loopState.moveAt other).isPending = false
    · obtain ⟨next, run, performedNext⟩ :=
        perform other (ready.child admissible markedDef otherInRange trigger.1 trigger.2)
      refine ⟨next, ?_, Or.inr ⟨other, performedNext⟩⟩
      simp [performDependency, trigger.1, trigger.2, run]
    · refine ⟨loopState, by rw [performDependency, if_neg (by simpa using trigger)], Or.inl ⟨rfl, ?_⟩⟩
      intro third thirdInRange blocks
      rcases Nat.lt_succ_iff_lt_or_eq.mp thirdInRange with below | rfl
      · exact none third below blocks
      · simpa [blocks] using trigger
  · have unread : (loopState.moveAt other).blocks (origin moves index).destination = false := by
      cases blocks : (loopState.moveAt other).blocks (origin moves index).destination
      · rfl
      · exact absurd (performed.invariant.source_eq_of_blocks admissible otherInRange destination blocks)
          (performed.unread index (by simp) other otherInRange)
    exact ⟨loopState, by simp [performDependency, unread], Or.inr ⟨child, performed⟩⟩

omit admissible in
theorem Ready.source_ne_destination {state : State} (ready : Ready moves temps store (fuel + 1) index path state)
    (notRedundant : (state.moveAt index).isRedundant = false) :
    (state.moveAt index).source ≠ (origin moves index).destination := by
  intro same
  simp [MoveOperands.isRedundant, Location.equals, same, ready.waiting] at notRedundant

/-- In a frame that performed no other move, only the root may read the frame's
destination. -/
theorem Ready.readers_of_leaf {state : State} (ready : Ready moves temps store (fuel + 1) index path state)
    (notRedundant : (state.moveAt index).isRedundant = false) {marked : State}
    (markedDef : marked = state.modifyMove index fun move => move.markPending.1)
    (leaf : ∀ other < moves.length, (marked.moveAt other).blocks (origin moves index).destination = true →
      (marked.moveAt other).isPending = true) :
    ∀ other < moves.length, (state.moveAt other).source = (origin moves index).destination → other ∈ path.head? := by
  intro other otherInRange reads
  have destinationValid := (relevant_destination ready.inRange : Relevant moves temps _).ne_noLocation admissible
  have notOnWalk := ready.notOnWalk admissible
  by_cases same : index = other
  · subst same
    exact absurd reads (ready.source_ne_destination notRedundant)
  by_cases onWalk : other ∈ path
  · -- A move on the walk below the root reads a destination on the walk.
    cases path with
    | nil => simp at onWalk
    | cons root rest =>
        rcases List.mem_cons.mp onWalk with rfl | inRest
        · simp
        · exact absurd reads (ready.onWalk.source_ne admissible (by simpa using inRest) ready.inRange
            fun member => notOnWalk (List.dropLast_subset _ member))
  · -- A move off the walk waits, and the loop would have performed it.
    have valid : (state.moveAt other).source ≠ .noLocation := reads ▸ destinationValid
    have waiting : (state.moveAt other).destination ≠ .noLocation :=
      fun cleared => onWalk ((ready.onWalk.marked other otherInRange).mp ⟨valid, cleared⟩)
    have unchanged : marked.moveAt other = state.moveAt other := by
      rw [markedDef, moveAt_modifyMove state _ (ready.invariant.length ▸ ready.inRange), if_neg same]
    have pending := leaf other otherInRange (by
      rw [unchanged, MoveOperands.blocks_iff, reads]
      exact ⟨destinationValid, Location.overlapsWith_self _⟩)
    rw [unchanged] at pending
    simp [MoveOperands.isPending, Location.isInvalid, waiting] at pending

/-- **A frame without dependencies emits its move**: to its destination when no
move reads it, and otherwise, when the root reads it, to a scratch location, which
breaks the cycle of the walk. -/
theorem Ready.resolveLeaf (stocked : Stocked temps) {state : State}
    (ready : Ready moves temps store (fuel + 1) index path state)
    (notRedundant : (state.moveAt index).isRedundant = false) {marked : State}
    (markedDef : marked = state.modifyMove index fun move => move.markPending.1)
    (leaf : ∀ other < moves.length, (marked.moveAt other).blocks (origin moves index).destination = true →
      (marked.moveAt other).isPending = true) :
    ∃ next, resolveMove backend index (state.moveAt index).destination marked = some next ∧
      Performed moves temps store index path state next := by
  have cleared : (marked.modifyMove index fun move => move.clearPending (state.moveAt index).destination) = state := by
    rw [markedDef]
    exact modifyMove_clearPending_markPending state rfl
  have resolving : Resolving moves temps store index path state state := ⟨ready.toWaiting, Advances.refl state, fun _ _ => rfl⟩
  have stateInRange : index < state.moves.length := ready.invariant.length ▸ ready.inRange
  have destination : Relevant moves temps _ := relevant_destination ready.inRange
  have destinationValid := destination.ne_noLocation admissible
  have notOnWalk := ready.notOnWalk admissible
  have readers := ready.readers_of_leaf admissible notRedundant markedDef leaf
  cases blocked : state.isBlockedByMoves (origin moves index).destination
  · -- No move reads the destination: the move goes straight there.
    have free : (marked.modifyMove index fun move => move.clearPending (state.moveAt index).destination).isBlockedByMoves
        (state.moveAt index).destination = false := by
      rw [cleared, ready.waiting]
      exact blocked
    rw [resolveMove_of_free free]
    simp only [cleared]
    rw [ready.waiting]
    set next := ((state.emitMove backend index).modifyMove index MoveOperands.eliminate).updateMoveSource
      (state.moveAt index).source (origin moves index).destination with nextDef
    refine ⟨next, by rw [performUnblockedPendingMoves_of_none _ (by simp [getUnblockedPendingMove, nextDef, ready.quiet.1])], ?_, ?_⟩
    · exact resolving.emitted admissible (redirects_performed state stateInRange ready.valid) destinationValid
        ((written_destination ready.inRange).isConstant admissible) (ready.destination_ne_last admissible)
        (ready.invariant.performToDestination admissible ready.inRange ready.valid ready.waiting blocked)
    · exact Or.inl ⟨by simp [nextDef, ready.quiet.1], by simp [nextDef, ready.quiet.2]⟩
  · -- Only the root reads the destination: the walk has closed a cycle.
    obtain ⟨root, isRoot, rootReads⟩ :
        ∃ root ∈ path.head?, (state.moveAt root).source = (origin moves index).destination := by
      rcases (isBlockedByMoves_iff_reads admissible ready.invariant destination).mp blocked with
        ⟨other, otherInRange, -, reads⟩ | ⟨pending, member, -⟩
      · exact ⟨other, readers other otherInRange reads, reads⟩
      · simp [ready.quiet.1] at member
    have rootOnWalk : root ∈ path := List.mem_of_mem_head? isRoot
    obtain ⟨last, isLast⟩ := Option.isSome_iff_exists.mp
      (List.getLast?_isSome.mpr (List.ne_nil_of_mem rootOnWalk))
    -- The assembler still has all its temporaries, and the allocation succeeds.
    have tempsPerm : state.temps.Perm temps := by simpa [ready.quiet.2] using ready.invariant.pool
    have core : ∃ temp ∈ state.temps, temp.getKind = .register := by simpa [tempsPerm.mem_iff] using stocked.1
    have fpu : ∃ temp ∈ state.temps, temp.getKind = .fpuRegister := by simpa [tempsPerm.mem_iff] using stocked.2
    obtain ⟨⟨scratch, scratchState⟩, allocated⟩ := Option.ne_none_iff_exists'.mp
      (allocateScratchLocationFor_ne_none (state.moveAt index).source.getKind core fpu)
    obtain ⟨scratchInvariant, movesEq, pendingEq, -, written, vacant, anyWidth, taken, apart, scratchesEq⟩ :=
      ready.invariant.allocateScratchLocationFor admissible allocated
    have sameMoveAt := moveAt_congr movesEq
    have lastBlocked : state.isBlockedByMoves (origin moves last).destination = true :=
      (isBlockedByMoves_iff_reads admissible ready.invariant
        (relevant_destination (ready.onWalk.bound last (List.mem_of_getLast? isLast)))).mpr
        (Or.inl ⟨index, ready.inRange, ready.valid, ready.readsLast last isLast⟩)
    have scratchApart : scratch ≠ (origin moves index).destination := apart index ready.inRange (Or.inr blocked)
    have blockedCleared : (marked.modifyMove index fun move => move.clearPending (state.moveAt index).destination).isBlockedByMoves
        (state.moveAt index).destination = true := by
      rw [cleared, ready.waiting]
      exact blocked
    have allocatedCleared : allocateScratchLocationFor
        (marked.modifyMove index fun move => move.clearPending (state.moveAt index).destination)
        ((marked.modifyMove index fun move => move.clearPending (state.moveAt index).destination).moveAt
          index).source.getKind = some (scratch, scratchState) := by
      rw [cleared]
      exact allocated
    rw [resolveMove_of_blocked blockedCleared allocatedCleared]
    simp only [cleared]
    rw [ready.waiting]
    set type : Primitive.Type := if (state.moveAt index).is64BitMove then .primLong else .primInt with typeDef
    set next := ((((scratchState.modifyMove index fun move => move.setDestination scratch).emitMove backend
      index).modifyMove index MoveOperands.eliminate).updateMoveSource (state.moveAt index).source
        scratch).addPendingMove scratch (origin moves index).destination type with nextDef
    have redirects : Redirects state next index (state.moveAt index).source scratch := by
      have redirects := (redirects_performedToScratch scratchState (movesEq ▸ stateInRange)
        (sameMoveAt index ▸ ready.valid) scratch (origin moves index).destination type).of_moves_eq movesEq.symm
      rwa [sameMoveAt] at redirects
    have invariant : Invariant moves temps store next := by
      have invariant := scratchInvariant.performToScratch admissible ready.inRange (sameMoveAt index ▸ ready.valid)
        written (fun other otherInRange => by
          rw [holder_congr (by rw [sameMoveAt]) pendingEq]
          exact vacant other otherInRange) anyWidth taken
      rwa [sameMoveAt] at invariant
    have pendingNext : next.pendingMoves = [⟨scratch, (origin moves index).destination, type⟩] := by
      simp [nextDef, pendingEq, ready.quiet.1]
    refine ⟨next, ?_, ?_, Or.inr ⟨scratch, index, ?broken⟩⟩
    · -- The pending move waits for the root: it carries nothing to the last destination.
      rw [performUnblockedPendingMoves_of_none]
      refine getUnblockedPendingMove_eq_none fun pending member overlap => absurd ?_ (ready.destination_ne_last admissible last isLast)
      rw [pendingNext, List.mem_singleton] at member
      subst member
      rw [← ready.readsLast last isLast]
      exact (overlapsWith_iff admissible destination (ready.invariant.source_relevant ready.inRange ready.valid)).mp overlap
    · exact resolving.emitted admissible redirects (anyWidth false).ne_noLocation (written.isConstant admissible)
        (fun last isLast => apart last (ready.onWalk.bound last (List.mem_of_getLast? isLast)) (Or.inr
          ((isBlockedByMoves_iff_reads admissible ready.invariant
            (relevant_destination (ready.onWalk.bound last (List.mem_of_getLast? isLast)))).mpr
            (Or.inl ⟨index, ready.inRange, ready.valid, ready.readsLast last isLast⟩)))) invariant
    case broken =>
      refine
        { inRange := ready.inRange
          pending := ⟨type, pendingNext⟩
          rootReads := ⟨root, isRoot, fun other otherInRange => ?_⟩
          written := written
          apart := scratchApart
          awayFromWalk := fun step member => apart step (ready.onWalk.bound step member)
            (Or.inl ((ready.onWalk.marked step (ready.onWalk.bound step member)).mpr member).2)
          scratches := by rcases scratchesEq with same | same <;> simp [nextDef, same, ready.quiet.2] }
      rw [redirects.source_eq_iff destinationValid (ready.source_ne_destination notRedundant) scratchApart other]
      constructor
      · rintro ⟨-, reads⟩
        exact Option.some.inj ((readers other otherInRange reads).symm.trans isRoot)
      · rintro rfl
        exact ⟨fun same => notOnWalk (same ▸ rootOnWalk), rootReads⟩

/-- **The root emits the pending move.** Once the root has performed its move, no
move reads the carrier's destination any more; the pending move goes there, and
the scratch location, read by no move, returns to the assembler. -/
theorem Emitted.performPending {state cleared next : State} (inRange : index < moves.length)
    (emitted : Emitted moves temps store index [] state next)
    (redirects : Redirects cleared next index (cleared.moveAt index).source (origin moves index).destination)
    {scratch : Location} {carrier : Nat} {type : Primitive.Type} (carrierInRange : carrier < moves.length)
    (rootReads : (cleared.moveAt index).source = (origin moves carrier).destination)
    (moved : (origin moves index).destination ≠ (origin moves carrier).destination)
    (pending : next.pendingMoves = [⟨scratch, (origin moves carrier).destination, type⟩])
    (written : Written moves temps scratch) (apart : scratch ≠ (origin moves carrier).destination)
    (scratches : next.scratches = [scratch] ∨ next.scratches = []) :
    Performed moves temps store index [] state
      (performUnblockedPendingMoves backend index (origin moves carrier).destination 1 next) := by
  have carried : Relevant moves temps _ := relevant_destination carrierInRange
  have carriedValid := carried.ne_noLocation admissible
  have scratchValid : scratch ≠ .noLocation := written.relevant.ne_noLocation admissible
  have free : next.isBlockedByMoves (origin moves carrier).destination = false := by
    cases blocked : next.isBlockedByMoves (origin moves carrier).destination
    · rfl
    rcases (isBlockedByMoves_iff_reads admissible emitted.invariant carried).mp blocked with
      ⟨other, -, -, reads⟩ | ⟨move, member, reads⟩
    · rw [← rootReads] at reads
      exact absurd reads (redirects.source_ne_from (rootReads ▸ carriedValid) (rootReads ▸ moved) other)
    · rw [pending, List.mem_singleton] at member
      subst member
      exact absurd reads apart
  have found : next.getUnblockedPendingMove (origin moves carrier).destination =
      some ⟨scratch, (origin moves carrier).destination, type⟩ := by
    simp [getUnblockedPendingMove, pending, free]
  rw [performUnblockedPendingMoves_one found]
  dsimp only
  set performed := (((((next.deletePendingMove ⟨scratch, (origin moves carrier).destination, type⟩).modifyMove index
    fun move => (move.setSource scratch).setDestination (origin moves carrier).destination).emitMove backend
      index).modifyMove index MoveOperands.eliminate).updateMoveSource scratch (origin moves carrier).destination)
    with performedDef
  have member : (⟨scratch, (origin moves carrier).destination, type⟩ : MoveOperands) ∈ next.pendingMoves := by
    simp [pending]
  have redirectsPending : Redirects next performed index scratch (origin moves carrier).destination :=
    redirects_performedPending next (emitted.invariant.length ▸ inRange) scratchValid
  have invariant : Invariant moves temps store performed :=
    emitted.invariant.performPendingMove admissible inRange emitted.performed member free
  have unmarked : ∀ other < moves.length, Marked performed other ↔ other ∈ [] := by
    intro other otherInRange
    by_cases same : index = other
    · subst same
      simp [Marked, redirectsPending.source_self]
    · rw [redirectsPending.marked_iff scratchValid carriedValid same]
      exact emitted.onWalk.marked other otherInRange
  have emittedPending : Emitted moves temps store index [] state performed :=
    { invariant := invariant
      onWalk := ⟨List.nodup_nil, by simp, unmarked, by simp⟩
      performed := redirectsPending.source_self
      advances := emitted.advances.trans (redirectsPending.advances scratchValid (written.isConstant admissible)
        ((written_destination carrierInRange).isConstant admissible) (by rw [emitted.performed]; rfl))
      walk := by simp
      unread := by simp }
  have pendingEmpty : performed.pendingMoves = [] := by simp [performedDef, pending]
  have scratchFree : performed.isBlockedByMoves scratch = false := by
    cases blocked : performed.isBlockedByMoves scratch
    · rfl
    rcases (isBlockedByMoves_iff_reads admissible invariant written.relevant).mp blocked with
      ⟨other, -, -, reads⟩ | ⟨move, member, -⟩
    · exact absurd reads (redirectsPending.source_ne_from scratchValid (Ne.symm apart) other)
    · simp [pendingEmpty] at member
  rcases scratches with single | none
  · -- The scratch location was a temporary: it goes back.
    have inScratches : scratch ∈ performed.scratches := by simp [performedDef, single]
    rw [freeUnblockedScratches_single (by simp [performedDef, single]) scratchFree]
    have temp : scratch ∈ temps := invariant.pool.subset (List.mem_append_left _ inScratches)
    have vacant : Vacant moves performed scratch :=
      invariant.vacant_of_unblocked admissible written.relevant scratchFree fun other otherInRange _ same =>
        absurd same.symm (admissible.fresh scratch temp _ (origin_mem moves otherInRange)).2
    exact ⟨emittedPending.of_moves_eq (invariant.freeScratchLocation inScratches vacant) rfl,
      Or.inl ⟨by simp [freeScratchLocation, removeScratchLocation, pendingEmpty],
        by simp [freeScratchLocation, removeScratchLocation, performedDef, single]⟩⟩
  · -- The scratch location was a destination still to be written: nothing to give back.
    rw [freeUnblockedScratches_nil (by simp [performedDef, none])]
    exact ⟨emittedPending, Or.inl ⟨pendingEmpty, by simp [performedDef, none]⟩⟩

/-- **A frame that performed another move emits its own** to its destination, which
no move reads any more; the root then emits the pending move, if the walk broke a
cycle. -/
theorem Ready.resolveAfter {state : State} (ready : Ready moves temps store (fuel + 1) index path state)
    {marked : State} (markedDef : marked = state.modifyMove index fun move => move.markPending.1)
    {child : Nat} {loopState : State} (performed : Performed moves temps store child (path ++ [index]) marked loopState) :
    ∃ next, resolveMove backend index (state.moveAt index).destination loopState = some next ∧
      Performed moves temps store index path state next := by
  obtain ⟨-, -, markAdvances⟩ := ready.mark admissible
  rw [← markedDef] at markAdvances
  rw [ready.waiting]
  have stateInRange : index < state.moves.length := ready.invariant.length ▸ ready.inRange
  have loopInRange : index < loopState.moves.length := performed.invariant.length ▸ ready.inRange
  have destination : Relevant moves temps _ := relevant_destination ready.inRange
  have destinationValid := destination.ne_noLocation admissible
  have notOnWalk := ready.notOnWalk admissible
  have lastOf : index ∈ (path ++ [index]).getLast? := by simp
  have markedIndex : Marked loopState index := (performed.onWalk.marked index ready.inRange).mpr (by simp)
  -- Below the root, the frame's move reads what it read when the frame began.
  have walkTail : ∀ step ∈ path.tail, step ∈ (path ++ [index]).tail := fun step member => by
    rw [List.tail_append_of_ne_nil (List.ne_nil_of_mem (List.mem_of_mem_tail member))]
    exact List.mem_append_left _ member
  have ownSource : path ≠ [] → (loopState.moveAt index).source = (state.moveAt index).source := by
    intro nonempty
    rw [performed.walk index (by rw [List.tail_append_of_ne_nil nonempty]; simp), markedDef,
      moveAt_modifyMove_self _ _ stateInRange]
    rfl
  set cleared := loopState.modifyMove index fun move => move.clearPending (origin moves index).destination
    with clearedDef
  have sameSource : ∀ other, (cleared.moveAt other).source = (loopState.moveAt other).source := by
    intro other
    rw [clearedDef, moveAt_modifyMove loopState _ loopInRange]
    split_ifs with same
    · rw [same]
      rfl
    · rfl
  have unchanged : ∀ step ∈ path.tail, cleared.moveAt step = state.moveAt step := by
    intro step member
    have different : index ≠ step := fun same => notOnWalk (same ▸ List.mem_of_mem_tail member)
    rw [clearedDef, moveAt_modifyMove loopState _ loopInRange, if_neg different, performed.walk step (walkTail step member),
      markedDef, moveAt_modifyMove state _ stateInRange, if_neg different]
  have notConstant : (loopState.moveAt index).source.isConstant = false :=
    performed.advances.notConstant index ready.inRange (markAdvances.notConstant index ready.inRange ready.notConstant)
  have resolving : Resolving moves temps store index path state cleared :=
    { invariant := performed.invariant.modifyMove_destination ready.inRange markedIndex.1 rfl rfl (Or.inr rfl)
      onWalk := ready.onWalk.of_walk (fun other otherInRange => by
          rw [clearedDef, marked_clearPending loopInRange destinationValid, performed.onWalk.marked other otherInRange,
            List.mem_append, List.mem_singleton]
          constructor
          · rintro ⟨inPath | rfl, different⟩
            · exact inPath
            · exact absurd rfl different
          · intro inPath
            exact ⟨Or.inl inPath, fun same => notOnWalk (same ▸ inPath)⟩) unchanged
      inRange := ready.inRange
      valid := by
        rw [sameSource]
        exact markedIndex.1
      waiting := by simp [clearedDef, moveAt_modifyMove_self _ _ loopInRange, MoveOperands.clearPending]
      notConstant := by
        rw [sameSource]
        exact notConstant
      readsLast := fun last isLast => by
        rw [sameSource, ownSource (List.ne_nil_of_mem (List.mem_of_getLast? isLast))]
        exact ready.readsLast last isLast
      advances := markAdvances.trans (performed.advances.trans (advances_modifyMove loopInRange (Or.inl rfl) notConstant))
      walk := unchanged }
  -- No move reads the destination any more, and a pending move reads a scratch location off the walk.
  have free : cleared.isBlockedByMoves (origin moves index).destination = false := by
    cases blocked : cleared.isBlockedByMoves (origin moves index).destination
    · rfl
    rcases (isBlockedByMoves_iff_reads admissible resolving.invariant destination).mp blocked with
      ⟨other, otherInRange, -, reads⟩ | ⟨pending, member, reads⟩
    · rw [sameSource] at reads
      exact absurd reads (performed.unread index lastOf other otherInRange)
    · rcases performed.settled with quiet | ⟨scratch, carrier, broken⟩
      · simp [clearedDef, quiet.1] at member
      · obtain ⟨type, pendingEq⟩ := broken.pending
        simp only [clearedDef, pendingMoves_modifyMove, pendingEq, List.mem_singleton] at member
        subst member
        exact absurd reads (broken.awayFromWalk index (by simp))
  rw [resolveMove_of_free free]
  dsimp only
  set next := ((cleared.emitMove backend index).modifyMove index MoveOperands.eliminate).updateMoveSource
    (cleared.moveAt index).source (origin moves index).destination with nextDef
  have redirects : Redirects cleared next index (cleared.moveAt index).source (origin moves index).destination :=
    redirects_performed cleared (by simpa [clearedDef] using loopInRange) resolving.valid
  have emitted := resolving.emitted admissible redirects destinationValid
    ((written_destination ready.inRange).isConstant admissible) (ready.destination_ne_last admissible)
    (resolving.invariant.performToDestination admissible ready.inRange resolving.valid resolving.waiting free)
  have pendingNext : next.pendingMoves = loopState.pendingMoves := by simp [nextDef, clearedDef]
  rcases performed.settled with quiet | ⟨scratch, carrier, broken⟩
  · refine ⟨next, ?_, emitted, Or.inl ⟨pendingNext.trans quiet.1, by simp [nextDef, clearedDef, quiet.2]⟩⟩
    rw [performUnblockedPendingMoves_of_none _ (by simp [getUnblockedPendingMove, pendingNext, quiet.1])]
  obtain ⟨root, isRoot, rootReads⟩ := broken.rootReads
  obtain ⟨type, pendingEq⟩ := broken.pending
  have carried : Relevant moves temps _ := relevant_destination broken.inRange
  have rootReadsCarried : (loopState.moveAt root).source = (origin moves carrier).destination :=
    (rootReads root (performed.onWalk.bound root (List.mem_of_mem_head? isRoot))).mpr rfl
  have moved : (origin moves index).destination ≠ (origin moves carrier).destination := fun same =>
    performed.unread index lastOf root (performed.onWalk.bound root (List.mem_of_mem_head? isRoot))
      (same ▸ rootReadsCarried)
  by_cases nonempty : path = []
  · -- The frame is the root: it emits the pending move.
    subst nonempty
    obtain rfl : index = root := by simpa using isRoot
    refine ⟨_, rfl, ?_⟩
    rw [sameSource, rootReadsCarried, pendingNext, pendingEq]
    exact emitted.performPending admissible ready.inRange redirects broken.inRange
      ((sameSource index).trans rootReadsCarried) moved (pendingNext.trans pendingEq) broken.written broken.apart
      (by simpa [nextDef, clearedDef] using broken.scratches)
  · -- Below the root the pending move waits: the frame's move does not read the carrier's destination.
    have notReader : (loopState.moveAt index).source ≠ (origin moves carrier).destination := fun reads => by
      have same := (rootReads index ready.inRange).mp reads
      subst same
      rw [List.head?_append_of_ne_nil _ nonempty] at isRoot
      exact notOnWalk (List.mem_of_mem_head? isRoot)
    refine ⟨next, ?_, emitted, Or.inr ⟨scratch, carrier, broken.of_readers
      (List.head?_append_of_ne_nil _ nonempty).symm (fun step member => List.mem_append_left _ member) pendingNext
      (by simp [nextDef, clearedDef]) fun other otherInRange => ?_⟩⟩
    · rw [performUnblockedPendingMoves_of_none]
      refine getUnblockedPendingMove_eq_none fun pending member overlap => absurd ?_ notReader
      rw [pendingNext, pendingEq, List.mem_singleton] at member
      subst member
      rw [← sameSource]
      exact ((overlapsWith_iff admissible carried (resolving.invariant.source_relevant ready.inRange resolving.valid)).mp
        overlap).symm
    · rw [redirects.source_eq_iff (carried.ne_noLocation admissible) (by rw [sameSource]; exact notReader) moved other,
        sameSource]
      constructor
      · exact And.right
      · intro reads
        exact ⟨fun same => notReader (same ▸ reads), reads⟩

/-- A frame whose move has become redundant drops it; only the root can find its
move so. -/
theorem Ready.eliminate {state : State} (ready : Ready moves temps store (fuel + 1) index path state)
    (redundant : (state.moveAt index).isRedundant = true) :
    Performed moves temps store index path state (state.modifyMove index MoveOperands.eliminate) := by
  have destinationValid := (relevant_destination ready.inRange : Relevant moves temps _).ne_noLocation admissible
  have arrived : (state.moveAt index).source = (origin moves index).destination := by
    simpa [MoveOperands.isRedundant, MoveOperands.isEliminated, Location.isInvalid, Location.equals, ready.valid,
      ready.waiting, destinationValid] using redundant
  have root : path = [] := by
    by_contra nonempty
    obtain ⟨last, isLast⟩ := Option.isSome_iff_exists.mp (List.getLast?_isSome.mpr nonempty)
    exact ready.destination_ne_last admissible last isLast (arrived ▸ ready.readsLast last isLast)
  subst root
  have stateInRange : index < state.moves.length := ready.invariant.length ▸ ready.inRange
  have moveAtNext := moveAt_modifyMove state MoveOperands.eliminate stateInRange
  refine ⟨⟨ready.invariant.eliminateRedundant admissible ready.inRange ready.valid arrived,
    ⟨List.nodup_nil, by simp, fun other otherInRange => ?_, by simp⟩,
    by simp [moveAtNext, MoveOperands.eliminate],
    advances_modifyMove stateInRange (Or.inr rfl) ready.notConstant, by simp, by simp⟩, Or.inl ready.quiet⟩
  by_cases same : index = other
  · subst same
    simp [Marked, moveAtNext, MoveOperands.eliminate]
  · rw [Marked, moveAtNext other, if_neg same, ← Marked]
    exact ready.onWalk.marked other otherInRange

/-- **`PerformMove` performs the move.** From a state ready for it, with a temporary
of each register class at hand, it returns a state that has emitted the move,
keeps the invariant and is as its caller expects. The induction is on the fuel,
which outlasts the walk. -/
theorem performMove_performed (stocked : Stocked temps) (fuel : Nat) :
    ∀ index path state, Ready moves temps store fuel index path state →
      ∃ next, performMove backend fuel index state = some next ∧
        Performed moves temps store index path state next := by
  induction fuel with
  | zero =>
      intro index path state ready
      have := ready.onWalk.length_le
      have := ready.enoughFuel
      omega
  | succ fuel ih =>
      intro index path state ready
      cases redundant : (state.moveAt index).isRedundant
      · rw [performMove_succ redundant]
        obtain ⟨loopState, loop, result⟩ :=
          ready.dependencies admissible rfl fun child childReady => ih child _ _ childReady
        rw [loop]
        rcases result with ⟨rfl, leaf⟩ | ⟨child, performed⟩
        · exact ready.resolveLeaf admissible stocked redundant rfl leaf
        · exact ready.resolveAfter admissible rfl performed
      · exact ⟨_, by simp [performMove, redundant], ready.eliminate admissible redundant⟩

end Frame

end Art.Compiler.Optimizing.ParallelMoveResolverNoSwap
