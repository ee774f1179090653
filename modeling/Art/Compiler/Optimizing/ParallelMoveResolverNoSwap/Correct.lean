import Art.Compiler.Optimizing.ParallelMoveResolverNoSwap.Walk

/-!
# What the code of `EmitNativeCode` does

`EmitNativeCode` of the resolver without swaps runs three loops over the moves
`BuildInitialMoveList` keeps. The first performs, by a walk of `PerformMove`, every
move whose source is not a constant; each walk leaves no pending move and no
scratch location behind (`performNonConstantMoves_settled`). Then every move left
reads a constant and waits with its own destination. The second loop emits those
into registers and redirects the other moves of the same constant to the register,
the third emits the rest; no move reads a destination still to be written, so each
goes straight there (`Remaining`).

`emitNativeCode_correct` puts the three loops together: for moves that meet
`Admissible`, with the temporaries of the VIXL assembler, the resolver returns
with no pending move, and its code leaves every destination holding what its
source held and every other cell but those of the temporaries as it was.

Distinct destinations that do not overlap are not enough. In `crossingMoves` the two
halves of a double stack slot are read by two moves while a third writes the whole
slot: the resolver breaks a cycle with a register that a later move still has to
write, and returns with a pending move (`crossingMoves_leaves_pendingMove`).
-/

set_option autoImplicit false

namespace Art.Compiler.Optimizing.ParallelMoveResolverNoSwap

open Art.Machine CodeGeneratorArm64 ParallelMoveResolverARM64 State

section Loops

variable (moves : List MoveOperands) (temps : List Location) {V : Type} (store : Location.Cell → V)

/-- After the first loop: no pending move, no scratch location, and every move
performed but those that read a constant, which are as they were given. -/
structure Settled (state : State) : Prop where
  invariant : Invariant moves temps store state
  quiet : Quiet state
  constants : ∀ index < moves.length, (state.moveAt index).source = .noLocation ∨
    state.moveAt index = origin moves index ∧ (origin moves index).source.isConstant = true

/-- In the last two loops: every move not yet performed waits with its own
destination and reads a constant or the destination of a performed move. -/
structure Remaining (state : State) : Prop where
  invariant : Invariant moves temps store state
  quiet : Quiet state
  waiting : ∀ index < moves.length, (state.moveAt index).source ≠ .noLocation →
    (state.moveAt index).destination = (origin moves index).destination ∧
      ((state.moveAt index).source.isConstant = true ∨ ∃ other < moves.length,
        (state.moveAt other).source = .noLocation ∧ (state.moveAt index).source = (origin moves other).destination)

end Loops

section Correct

variable {moves : List MoveOperands} {temps : List Location} {V : Type} {store : Location.Cell → V}
  (admissible : Admissible moves temps)
include admissible

/-- **The invariant holds at the start**: every value is in the source of its move. -/
theorem invariant_start : Invariant moves temps store ⟨moves, [], [], temps, []⟩ := by
  have valid : ∀ index < moves.length, (origin moves index).source ≠ .noLocation := fun index inRange =>
    (admissible.holds _ (origin_mem moves inRange)).1.ne_noLocation
  have holderStart : ∀ index < moves.length,
      (⟨moves, [], [], temps, []⟩ : State).holder moves index = (origin moves index).source :=
    fun index inRange => holder_of_source_ne (valid index inRange)
  refine
    { keeps := fun index inRange => ?_
      sameWidth := fun index inRange other otherInRange same => ?_
      frame := fun _ _ _ => rfl
      length := rfl
      type := fun _ _ => rfl
      cleared := fun index inRange performed => absurd performed (valid index inRange)
      destination := fun _ _ => Or.inr rfl
      pending := by simp
      pendingNodup := List.nodup_nil
      freeTemps := fun temp member => ⟨member, fun index inRange same => ?_⟩
      pool := List.Perm.refl _ }
  · rw [holderStart index inRange]
    exact ⟨relevant_source inRange, (admissible.holds _ (origin_mem moves inRange)).1, rfl⟩
  · rw [holderStart index inRange, holderStart other otherInRange] at same
    exact admissible.sameWidth _ (origin_mem moves inRange) _ (origin_mem moves otherInRange) same
  · rw [holderStart index inRange] at same
    exact (admissible.fresh temp member _ (origin_mem moves inRange)).1 same.symm

/-- **The first loop of `EmitNativeCode`** performs every move that does not read a
constant, each by a walk that leaves no pending move behind. -/
theorem performNonConstantMoves_settled (store : Location.Cell → V) (stocked : Stocked temps) :
    ∃ state, performNonConstantMoves backend (moves.length + 1) ⟨moves, [], [], temps, []⟩ = some state ∧
      Settled moves temps store state := by
  set start : State := ⟨moves, [], [], temps, []⟩ with startDef
  have onWalkStart : OnWalk moves start [] :=
    ⟨List.nodup_nil, by simp, fun index inRange => by
      simp only [List.not_mem_nil, iff_false]
      rintro ⟨-, cleared⟩
      exact (admissible.holds _ (origin_mem moves inRange)).2.ne_noLocation cleared, by simp⟩
  -- The invariant of the loop: between two walks, with the moves before the index
  -- performed or reading a constant.
  obtain ⟨state, loop, invariant, onWalk, quiet, advances, done⟩ := foldlM_range_invariant
    (fun state i =>
      let move := state.moveAt i
      if !move.isEliminated && !move.source.isConstant then performMove backend (moves.length + 1) i state
      else some state)
    (fun done state => Invariant moves temps store state ∧ OnWalk moves state [] ∧ Quiet state ∧
      Advances moves start state ∧ ∀ index < done, (state.moveAt index).source = .noLocation ∨
        (state.moveAt index).source.isConstant = true)
    moves.length start
    ⟨invariant_start admissible, onWalkStart, ⟨rfl, rfl⟩, Advances.refl start,
      fun _ none => absurd none (Nat.not_lt_zero _)⟩
    (by
      rintro index state inRange ⟨invariant, onWalk, quiet, advances, done⟩
      have before : ∀ other < index + 1, other ≠ index → other < index := fun other below different => by omega
      by_cases condition : (state.moveAt index).isEliminated = false ∧
          (state.moveAt index).source.isConstant = false
      · have valid : (state.moveAt index).source ≠ .noLocation := by
          simpa [MoveOperands.isEliminated, Location.isInvalid] using condition.1
        have ready : Ready moves temps store (moves.length + 1) index [] state :=
          { invariant := invariant
            onWalk := onWalk
            inRange := inRange
            valid := valid
            waiting := (invariant.destination index inRange).resolve_left fun cleared =>
              by simpa using (onWalk.marked index inRange).mp ⟨valid, cleared⟩
            notConstant := condition.2
            readsLast := by simp
            quiet := quiet
            enoughFuel := by simp }
        obtain ⟨next, run, performed⟩ := performMove_performed admissible stocked _ index [] state ready
        refine ⟨next, by simp [condition.1, condition.2, run], performed.invariant, performed.onWalk, ?_,
          advances.trans performed.advances, fun other otherInRange => ?_⟩
        · -- A walk from the root cannot end with a cycle broken: the root emits the pending move.
          rcases performed.settled with quiet | ⟨_, _, broken⟩
          · exact quiet
          · obtain ⟨_, isRoot, _⟩ := broken.rootReads
            simp at isRoot
        · by_cases same : other = index
          · subst same
            exact Or.inl performed.performed
          · rcases done other (before other otherInRange same) with performedBefore | constant
            · exact Or.inl (performed.advances.performed other (by omega) performedBefore)
            · rw [performed.advances.constant other (by omega) constant]
              exact Or.inr constant
      · refine ⟨state, by dsimp only; rw [if_neg (by simpa using condition)], invariant, onWalk, quiet, advances,
          fun other otherInRange => ?_⟩
        by_cases same : other = index
        · subst same
          simp only [not_and_or, Bool.not_eq_false] at condition
          rcases condition with eliminated | constant
          · exact Or.inl (by simpa [MoveOperands.isEliminated, Location.isInvalid] using eliminated)
          · exact Or.inr constant
        · exact done other (before other otherInRange same))
  refine ⟨state, by rw [performNonConstantMoves]; exact loop, invariant, quiet, fun index inRange => ?_⟩
  rcases done index inRange with performed | constant
  · exact Or.inl performed
  · -- A move that reads a constant now read one from the start, and was left alone.
    cases given : (origin moves index).source.isConstant
    · have notConstant := advances.notConstant index inRange given
      rw [constant] at notConstant
      cases notConstant
    · exact Or.inr ⟨advances.constant index inRange given, rfl⟩

omit admissible in
theorem Settled.remaining {state : State} (settled : Settled moves temps store state) :
    Remaining moves temps store state where
  invariant := settled.invariant
  quiet := settled.quiet
  waiting index inRange valid := by
    rcases settled.constants index inRange with performed | ⟨same, constant⟩
    · exact absurd performed valid
    · rw [same]
      exact ⟨rfl, Or.inl constant⟩

/-- In the last two loops no move reads the destination of a move not yet performed. -/
theorem Remaining.free {state : State} (remaining : Remaining moves temps store state) {index : Nat}
    (inRange : index < moves.length) (valid : (state.moveAt index).source ≠ .noLocation) :
    state.isBlockedByMoves (origin moves index).destination = false := by
  cases blocked : state.isBlockedByMoves (origin moves index).destination
  · rfl
  rcases (isBlockedByMoves_iff_reads admissible remaining.invariant (relevant_destination inRange)).mp blocked with
    ⟨other, otherInRange, otherValid, reads⟩ | ⟨pending, member, -⟩
  · obtain ⟨-, constant | ⟨third, thirdInRange, performed, same⟩⟩ := remaining.waiting other otherInRange otherValid
    · rw [reads, (written_destination inRange).isConstant admissible] at constant
      cases constant
    · rw [reads] at same
      obtain rfl := origin_destination_injective admissible inRange thirdInRange same
      exact absurd performed valid
  · simp [remaining.quiet.1] at member

omit admissible in
/-- A step of the last two loops that performs moves, and redirects readers only to
destinations of performed moves, keeps the moves waiting as `Remaining` asks. -/
theorem Remaining.of_step {state next : State} (remaining : Remaining moves temps store state)
    (invariant : Invariant moves temps store next) (quiet : Quiet next)
    (performed : ∀ index < moves.length, (state.moveAt index).source = .noLocation →
      (next.moveAt index).source = .noLocation)
    (step : ∀ index < moves.length, next.moveAt index = state.moveAt index ∨
      (next.moveAt index).source = .noLocation ∨
        (next.moveAt index).destination = (state.moveAt index).destination ∧ ∃ other < moves.length,
          (next.moveAt other).source = .noLocation ∧ (next.moveAt index).source = (origin moves other).destination) :
    Remaining moves temps store next where
  invariant := invariant
  quiet := quiet
  waiting index inRange valid := by
    rcases step index inRange with same | cleared | ⟨destination, redirected⟩
    · rw [same] at valid ⊢
      obtain ⟨own, constant | ⟨other, otherInRange, otherPerformed, reads⟩⟩ :=
        remaining.waiting index inRange valid
      · exact ⟨own, Or.inl constant⟩
      · exact ⟨own, Or.inr ⟨other, otherInRange, performed other otherInRange otherPerformed, reads⟩⟩
    · exact absurd cleared valid
    · have stateValid : (state.moveAt index).source ≠ .noLocation := fun stateCleared =>
        valid (performed index inRange stateCleared)
      exact ⟨destination.trans (remaining.waiting index inRange stateValid).1, Or.inr redirected⟩

/-- **The second loop** emits a move of a constant into its register and redirects
the other moves of the constant to the register. -/
theorem Remaining.performRegisterMove {state : State} (remaining : Remaining moves temps store state) {index : Nat}
    (inRange : index < moves.length) (valid : (state.moveAt index).source ≠ .noLocation) :
    Remaining moves temps store (((state.emitMove backend index).modifyMove index MoveOperands.eliminate).updateMoveSource
      (state.moveAt index).source (state.moveAt index).destination) := by
  have own := (remaining.waiting index inRange valid).1
  have redirects : Redirects state (((state.emitMove backend index).modifyMove index
      MoveOperands.eliminate).updateMoveSource (state.moveAt index).source (state.moveAt index).destination)
      index (state.moveAt index).source (state.moveAt index).destination :=
    redirects_performed state (remaining.invariant.length ▸ inRange) valid
  rw [own] at redirects ⊢
  refine remaining.of_step (remaining.invariant.performToDestination admissible inRange valid own
    (remaining.free admissible inRange valid)) ⟨remaining.quiet.1, remaining.quiet.2⟩
    (fun other _ performed => ?_) fun other _ => ?_
  · rw [redirects other]
    split_ifs with same reads
    · rfl
    · exact absurd (reads.symm.trans performed) valid
    · exact performed
  · rw [redirects other]
    split_ifs with same reads
    · exact Or.inr (Or.inl rfl)
    · exact Or.inr (Or.inr ⟨rfl, index, inRange, redirects.source_self, rfl⟩)
    · exact Or.inl rfl

/-- **The third loop** emits the move that is left to its destination. -/
theorem Remaining.performRemainingMove {state : State} (remaining : Remaining moves temps store state) {index : Nat}
    (inRange : index < moves.length) (valid : (state.moveAt index).source ≠ .noLocation) :
    Remaining moves temps store ((state.emitMove backend index).modifyMove index MoveOperands.eliminate) := by
  have own := (remaining.waiting index inRange valid).1
  have moveAtNext := moveAt_modifyMove (state.emitMove backend index) MoveOperands.eliminate
    (remaining.invariant.length ▸ inRange)
  refine remaining.of_step (remaining.invariant.emitToDestination admissible inRange valid own
    (remaining.free admissible inRange valid)) ⟨remaining.quiet.1, remaining.quiet.2⟩
    (fun other _ performed => ?_) fun other _ => ?_
  · rw [moveAtNext other]
    split_ifs
    · rfl
    · exact performed
  · rw [moveAtNext other]
    split_ifs
    · exact Or.inr (Or.inl rfl)
    · exact Or.inl rfl

theorem performRegisterMoves_remaining {state : State} (remaining : Remaining moves temps store state) :
    Remaining moves temps store (performRegisterMoves backend state) := by
  rw [performRegisterMoves, remaining.invariant.length]
  refine foldl_range_invariant _ (fun _ state => Remaining moves temps store state) moves.length state remaining ?_
  intro index state inRange remaining
  dsimp only
  split_ifs with condition
  · simp only [Bool.and_eq_true, Bool.not_eq_true', MoveOperands.isEliminated, Location.isInvalid,
      beq_eq_false_iff_ne] at condition
    exact remaining.performRegisterMove admissible inRange condition.1.1
  · exact remaining

/-- After the third loop every move is performed. -/
theorem performRemainingMoves_performed {state : State} (remaining : Remaining moves temps store state) :
    Remaining moves temps store (performRemainingMoves backend state) ∧
      ∀ index < moves.length, ((performRemainingMoves backend state).moveAt index).source = .noLocation := by
  rw [performRemainingMoves, remaining.invariant.length]
  refine foldl_range_invariant _ (fun done state => Remaining moves temps store state ∧
      ∀ index < done, (state.moveAt index).source = .noLocation) moves.length state
    ⟨remaining, fun _ none => absurd none (Nat.not_lt_zero _)⟩ ?_
  rintro index state inRange ⟨remaining, done⟩
  split_ifs with condition
  · have valid : (state.moveAt index).source ≠ .noLocation := by
      simpa [MoveOperands.isEliminated, Location.isInvalid] using condition
    have moveAtNext := moveAt_modifyMove (state.emitMove backend index) MoveOperands.eliminate
      (remaining.invariant.length ▸ inRange)
    refine ⟨remaining.performRemainingMove admissible inRange valid, fun other otherInRange => ?_⟩
    rw [moveAtNext other]
    split_ifs with same
    · rfl
    · exact done other (by omega)
  · refine ⟨remaining, fun other otherInRange => ?_⟩
    rcases Nat.lt_succ_iff_lt_or_eq.mp otherInRange with below | rfl
    · exact done other below
    · simpa [MoveOperands.isEliminated, Location.isInvalid] using condition

omit admissible in
/-- Once every move is performed and no move is pending, every destination holds
the value of its move. -/
theorem Invariant.delivered {state : State} (invariant : Invariant moves temps store state)
    (quiet : Quiet state) (performed : ∀ index < moves.length, (state.moveAt index).source = .noLocation)
    {index : Nat} (inRange : index < moves.length) :
    readCells (runCode store state.code) ((origin moves index).destination.footprint (width moves index)) =
      want moves store index := by
  have keeps := (invariant.keeps index inRange).2.2
  rwa [holder_of_not_pending (performed index inRange) (by simp [quiet.1])] at keeps

omit admissible in
/-- **The three loops of `EmitNativeCode`** perform every move the resolver keeps,
and the state they reach keeps the invariant and has no pending move. -/
theorem emitNativeCode_invariant {parallelMove : HParallelMove}
    (admissible : Admissible (buildInitialMoveList parallelMove) temps) (stocked : Stocked temps)
    (store : Location.Cell → V) :
    ∃ state, emitNativeCode backend temps parallelMove = some { state with moves := [], scratches := [] } ∧
      Invariant (buildInitialMoveList parallelMove) temps store state ∧ Quiet state ∧
      ∀ index < (buildInitialMoveList parallelMove).length, (state.moveAt index).source = .noLocation := by
  obtain ⟨settledState, run, settled⟩ := performNonConstantMoves_settled admissible store stocked
  obtain ⟨remaining, performed⟩ :=
    performRemainingMoves_performed admissible (performRegisterMoves_remaining admissible settled.remaining)
  exact ⟨_, by simp [emitNativeCode, run], remaining.invariant, remaining.quiet, performed⟩

end Correct

/-! ## The resolver without swaps on ARM64 -/

section Arm64

/-- The VIXL temporaries hold a core and a floating-point register. -/
theorem stocked_vixlTemps : Stocked vixlTemps := by
  unfold Stocked vixlTemps
  decide

theorem buildInitialMoveList_sublist (parallelMove : HParallelMove) :
    (buildInitialMoveList parallelMove).Sublist parallelMove :=
  List.filter_sublist

/-- The moves `BuildInitialMoveList` drops read their own destination. -/
theorem source_eq_of_not_mem_buildInitialMoveList {parallelMove : HParallelMove} {temps : List Location}
    (admissible : Admissible parallelMove temps) {move : MoveOperands} (member : move ∈ parallelMove)
    (dropped : move ∉ buildInitialMoveList parallelMove) : move.source = move.destination := by
  have redundant : move.isRedundant = true := by
    simpa [buildInitialMoveList, member] using dropped
  have sourceValid := (admissible.holds move member).1.ne_noLocation
  have destinationValid := (admissible.holds move member).2.ne_noLocation
  simpa [MoveOperands.isRedundant, MoveOperands.isEliminated, Location.isInvalid, Location.equals, sourceValid,
    destinationValid] using redundant

/-- **What the code of `EmitNativeCode` does.** Take a parallel move whose locations
and the VIXL temporaries are pairwise the same or disjoint, each location able to
hold the width of its move, with distinct destinations that are not constants,
temporaries that are none of its locations, and one width for each source. The
resolver without swaps returns with no pending move; its code leaves every
destination holding what its source held, and every cell outside the destinations
and the temporaries as it was. -/
theorem emitNativeCode_correct {parallelMove : HParallelMove} (admissible : Admissible parallelMove vixlTemps) :
    ∃ final, emitNativeCode backend vixlTemps parallelMove = some final ∧ final.pendingMoves = [] ∧
      ∀ {V : Type} (store : Location.Cell → V),
        (∀ move ∈ parallelMove, readCells (runCode store final.code) (move.destination.footprint move.is64BitMove) =
          readCells store (move.source.footprint move.is64BitMove)) ∧
        ∀ cell, (∀ move ∈ parallelMove, cell ∉ move.destination.footprint true) →
          (∀ temp ∈ vixlTemps, cell ∉ temp.footprint true) → runCode store final.code cell = store cell := by
  have sublist := buildInitialMoveList_sublist parallelMove
  have kept := admissible.sublist sublist
  -- The state the loops reach does not depend on the store the code runs on.
  obtain ⟨state, run, -, quiet, -⟩ := emitNativeCode_invariant kept stocked_vixlTemps (fun _ => ())
  refine ⟨_, run, quiet.1, fun store => ?_⟩
  obtain ⟨reached, reachedRun, invariant, reachedQuiet, performed⟩ :=
    emitNativeCode_invariant kept stocked_vixlTemps store
  have code : reached.code = state.code := (State.mk.inj (Option.some.inj (reachedRun.symm.trans run))).2.2.2.2
  -- No cell outside the destinations of the moves kept and the temporaries changes.
  have frame : ∀ cell, (∀ move ∈ buildInitialMoveList parallelMove, cell ∉ move.destination.footprint true) →
      (∀ temp ∈ vixlTemps, cell ∉ temp.footprint true) → runCode store state.code cell = store cell :=
    fun cell outside outsideTemps => by
      simpa [State.current, code] using invariant.frame cell outside outsideTemps
  refine ⟨fun move member => ?_, fun cell outside outsideTemps =>
    frame cell (fun move member => outside move (sublist.subset member)) outsideTemps⟩
  by_cases keptMove : move ∈ buildInitialMoveList parallelMove
  · -- A move the resolver kept is delivered.
    obtain ⟨index, inRange, same⟩ := List.getElem_of_mem keptMove
    have originEq : origin (buildInitialMoveList parallelMove) index = move := by
      simp [origin, List.getD_eq_getElem?_getD, List.getElem?_eq_getElem inRange, same]
    have delivered := invariant.delivered reachedQuiet performed inRange
    simpa [code, want, width, originEq] using delivered
  · -- A move it dropped reads its own destination, which no move kept writes.
    have destination : Relevant parallelMove vixlTemps move.destination := Or.inl ⟨move, member, Or.inr rfl⟩
    rw [source_eq_of_not_mem_buildInitialMoveList admissible member keptMove]
    refine readCells_congr fun cell inFootprint => frame cell (fun other otherMember => ?_) fun temp tempMember => ?_
    · have otherMember' := sublist.subset otherMember
      refine not_mem_footprint_of_ne admissible destination (Or.inl ⟨other, otherMember', Or.inr rfl⟩)
        (fun same => ?_) _ true inFootprint
      rw [List.inj_on_of_nodup_map admissible.distinctDestinations member otherMember' same] at keptMove
      exact keptMove otherMember
    · exact not_mem_footprint_of_ne admissible destination (Or.inr tempMember)
        (admissible.fresh temp tempMember move member).2.symm _ true inFootprint

/-- A cycle of three core registers, a 64-bit move between double stack slots, and
one constant moved both to the stack and to a register. -/
def mixedCycle : HParallelMove :=
  [⟨.register 0, .register 1, .primInt⟩, ⟨.register 1, .register 2, .primInt⟩,
    ⟨.register 2, .register 0, .primInt⟩, ⟨.doubleStackSlot 8, .doubleStackSlot 16, .primLong⟩,
    ⟨.constant 7 false, .stackSlot 24, .primInt⟩, ⟨.constant 7 false, .register 3, .primInt⟩]

example : Admissible mixedCycle vixlTemps ∧
    ∃ final, emitNativeCode backend vixlTemps mixedCycle = some final ∧ final.pendingMoves = [] ∧
      ∀ {V : Type} (store : Location.Cell → V),
        (∀ move ∈ mixedCycle, readCells (runCode store final.code) (move.destination.footprint move.is64BitMove) =
          readCells store (move.source.footprint move.is64BitMove)) ∧
        ∀ cell, (∀ move ∈ mixedCycle, cell ∉ move.destination.footprint true) →
          (∀ temp ∈ vixlTemps, cell ∉ temp.footprint true) → runCode store final.code cell = store cell := by
  have admissible : Admissible mixedCycle vixlTemps :=
    { holds := by decide
      writable := by decide
      separate := fun loc other first second => by
        have pairwise : ∀ loc ∈ mixedCycle.flatMap (fun move => [move.source, move.destination]) ++ vixlTemps,
            ∀ other ∈ mixedCycle.flatMap (fun move => [move.source, move.destination]) ++ vixlTemps,
              loc.Separate other := by decide
        exact pairwise loc (relevant_iff.mp first) other (relevant_iff.mp second)
      distinctDestinations := by decide
      sameWidth := by decide
      fresh := by decide
      tempsHold := by decide
      tempsNodup := by decide }
  exact ⟨admissible, emitNativeCode_correct admissible⟩

end Arm64

end Art.Compiler.Optimizing.ParallelMoveResolverNoSwap
