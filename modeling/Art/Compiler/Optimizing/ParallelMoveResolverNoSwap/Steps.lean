import Art.Compiler.Optimizing.ParallelMoveResolverNoSwap.Invariant

/-!
# The steps of the ARM64 resolver keep the invariant

Each way the resolver changes its state keeps `Invariant`, under the conditions
the code checks before it: marking a move and restoring its destination
(`Invariant.modifyMove_destination`), emitting a move to its own destination
with and without `UpdateMoveSource` (`Invariant.performToDestination`,
`Invariant.emitToDestination`), breaking a cycle through a scratch location
(`Invariant.performToScratch`), emitting a pending move
(`Invariant.performPendingMove`), dropping a redundant move
(`Invariant.eliminateRedundant`), and taking and giving back a VIXL temporary
(`Invariant.allocateScratchLocationFor`, `Invariant.freeScratchLocation`).

Each step that emits code moves one value (`Values.transfer`): the proof of each
says where every value is afterwards (`holder_...`) and that the written
location held none (`Vacant`).
-/

set_option autoImplicit false

namespace Art.Compiler.Optimizing.ParallelMoveResolverNoSwap

open Art.Machine CodeGeneratorArm64 ParallelMoveResolverARM64 State

/-- The operands of `next` are those of `state` with the move at `index` performed
and the moves that read `fromLocation` redirected to `toLocation`. -/
def Redirects (state next : State) (index : Nat) (fromLocation toLocation : Location) : Prop :=
  ∀ other, next.moveAt other =
    if index = other then (state.moveAt index).eliminate
    else if (state.moveAt other).source = fromLocation then (state.moveAt other).setSource toLocation
    else state.moveAt other

/-- The operands after a move is emitted, eliminated and its readers redirected. -/
theorem redirects_performed (state : State) {index : Nat} (inRange : index < state.moves.length)
    {fromLocation toLocation : Location} (valid : fromLocation ≠ .noLocation) :
    Redirects state (((state.emitMove backend index).modifyMove index MoveOperands.eliminate).updateMoveSource
      fromLocation toLocation) index fromLocation toLocation := by
  intro other
  by_cases otherInRange : other < state.moves.length
  · rw [moveAt_updateMoveSource _ _ _ (by simpa using otherInRange),
      moveAt_modifyMove _ _ (by simpa using inRange), moveAt_emitMove, moveAt_emitMove]
    by_cases same : index = other
    · subst same
      simp [MoveOperands.eliminate, Location.equals, Ne.symm valid]
    · simp [same, Location.equals]
  · have outside : state.moves.length ≤ other := by omega
    have different : index ≠ other := by omega
    rw [moveAt_of_length_le _ (by simpa using outside), moveAt_of_length_le _ outside]
    simp [different, noMove, Ne.symm valid]

/-- The operands after a cycle is broken through a scratch location. -/
theorem redirects_performedToScratch (state : State) {index : Nat} (inRange : index < state.moves.length)
    (valid : (state.moveAt index).source ≠ .noLocation) (scratch destination : Location) (type : Primitive.Type) :
    Redirects state (((((state.modifyMove index fun move => move.setDestination scratch).emitMove backend
      index).modifyMove index MoveOperands.eliminate).updateMoveSource (state.moveAt index).source
        scratch).addPendingMove scratch destination type) index (state.moveAt index).source scratch := by
  intro other
  rw [moveAt_addPendingMove, redirects_performed _ (by simpa using inRange) valid other]
  by_cases same : index = other
  · subst same
    simp [moveAt_modifyMove_self _ _ inRange, MoveOperands.eliminate, MoveOperands.setDestination]
  · simp [same, moveAt_modifyMove_of_ne _ _ same]

/-- The operands after a pending move is emitted with the operands at `index`. -/
theorem redirects_performedPending (state : State) {index : Nat} (inRange : index < state.moves.length)
    {pending : MoveOperands} (valid : pending.source ≠ .noLocation) :
    Redirects state (((((state.deletePendingMove pending).modifyMove index fun move =>
      (move.setSource pending.source).setDestination pending.destination).emitMove backend index).modifyMove
        index MoveOperands.eliminate).updateMoveSource pending.source pending.destination)
      index pending.source pending.destination := by
  intro other
  rw [redirects_performed _ (by simpa using inRange) valid other]
  by_cases same : index = other
  · subst same
    simp [moveAt_modifyMove_self (state.deletePendingMove pending) _ (by simpa using inRange),
      MoveOperands.eliminate, MoveOperands.setDestination, MoveOperands.setSource]
  · simp [same, moveAt_modifyMove_of_ne _ _ same]

theorem code_performed (state : State) (index : Nat) (fromLocation toLocation : Location) :
    (((state.emitMove backend index).modifyMove index MoveOperands.eliminate).updateMoveSource
        fromLocation toLocation).code =
      state.code ++ moveLocation (state.moveAt index).destination (state.moveAt index).source := rfl

section Steps

variable {moves : List MoveOperands} {temps : List Location} {V : Type} {store : Location.Cell → V}
  (admissible : Admissible moves temps)
include admissible

/-- A move not yet performed shares its destination with no performed move. -/
theorem origin_destination_ne_of_performed {state : State} {index other : Nat} (inRange : index < moves.length)
    (otherInRange : other < moves.length) (valid : (state.moveAt index).source ≠ .noLocation)
    (performed : (state.moveAt other).source = .noLocation) :
    (origin moves other).destination ≠ (origin moves index).destination := by
  intro same
  rw [origin_destination_injective admissible otherInRange inRange same] at performed
  exact valid performed

/-- No pending move carries a value to the destination of a move not yet performed. -/
theorem Invariant.pending_destination_ne {state : State} (invariant : Invariant moves temps store state)
    {index : Nat} (inRange : index < moves.length) (valid : (state.moveAt index).source ≠ .noLocation) :
    ∀ pending ∈ state.pendingMoves, pending.destination ≠ (origin moves index).destination := by
  intro pending member carries
  obtain ⟨other, otherInRange, performed, otherCarries, -⟩ := invariant.pending pending member
  exact origin_destination_ne_of_performed admissible inRange otherInRange valid performed (otherCarries ▸ carries)

/-- The destination of a move not yet performed holds no value once no value still
to be moved is read from it. -/
theorem Invariant.vacant_destination {state : State} (invariant : Invariant moves temps store state)
    {index : Nat} (inRange : index < moves.length) (valid : (state.moveAt index).source ≠ .noLocation)
    (free : state.isBlockedByMoves (origin moves index).destination = false) :
    Vacant moves state (origin moves index).destination :=
  invariant.vacant_of_unblocked admissible (relevant_destination inRange) free
    fun _ otherInRange performed same =>
      absurd same (origin_destination_ne_of_performed admissible inRange otherInRange valid performed)

/-- **Emitting a move to its own destination, then redirecting its readers.** When
no value still to be moved is read from the destination, the move delivers its
value there and the moves that read its source read the destination instead. -/
theorem Invariant.performToDestination {state : State} (invariant : Invariant moves temps store state)
    {index : Nat} (inRange : index < moves.length) (valid : (state.moveAt index).source ≠ .noLocation)
    (own : (state.moveAt index).destination = (origin moves index).destination)
    (free : state.isBlockedByMoves (origin moves index).destination = false) :
    Invariant moves temps store
      (((state.emitMove backend index).modifyMove index MoveOperands.eliminate).updateMoveSource
        (state.moveAt index).source (origin moves index).destination) := by
  set source := (state.moveAt index).source with sourceDef
  set destination := (origin moves index).destination with destinationDef
  set next := ((state.emitMove backend index).modifyMove index MoveOperands.eliminate).updateMoveSource
    source destination with nextDef
  have stateInRange : index < state.moves.length := invariant.length ▸ inRange
  have moveAtNext : Redirects state next index source destination :=
    redirects_performed state stateInRange valid
  have relevant : Relevant moves temps destination := relevant_destination inRange
  have destinationValid : destination ≠ .noLocation := relevant.ne_noLocation admissible
  have noPending := invariant.pending_destination_ne admissible inRange valid
  have vacant := invariant.vacant_destination admissible inRange valid free
  have holderNext : ∀ other < moves.length, next.holder moves other =
      if index = other ∨ (state.moveAt other).source = source then destination
      else state.holder moves other := by
    intro other otherInRange
    by_cases same : index = other
    · subst same
      simp only [true_or, if_true]
      apply holder_of_not_pending (by simp [moveAtNext index, MoveOperands.eliminate])
      simpa [nextDef] using noPending
    · by_cases reads : (state.moveAt other).source = source
      · rw [if_pos (Or.inr reads), holder_of_source_ne (by simp [moveAtNext other, same, reads,
          MoveOperands.setSource, destinationValid])]
        simp [moveAtNext other, same, reads, MoveOperands.setSource]
      · rw [if_neg (by tauto)]
        exact holder_congr (by simp [moveAtNext other, same, reads]) (by simp [nextDef])
  have code : next.code = state.code ++ moveLocation destination source := by
    rw [nextDef, code_performed, own]
  refine
    { toValues := invariant.toValues.transfer admissible code (Or.inl ⟨_, origin_mem moves inRange, rfl⟩)
        ?fits ?moved
      length := by simp [nextDef, invariant.length]
      type := ?type
      cleared := ?cleared
      destination := ?destination
      pending := ?pending
      pendingNodup := by simpa [nextDef] using invariant.pendingNodup
      freeTemps := ?freeTemps
      pool := by simpa [nextDef] using invariant.pool }
  case fits =>
    intro other otherInRange reads
    have wide : width moves other = width moves index :=
      invariant.sameWidth other otherInRange index inRange (by rw [reads, holder_of_source_ne valid])
    rw [wide]
    exact (admissible.holds _ (origin_mem moves inRange)).2
  case moved =>
    intro other otherInRange
    rw [holderNext other otherInRange]
    by_cases copied : index = other ∨ (state.moveAt other).source = source
    · rw [if_pos copied]
      refine Or.inr ⟨rfl, ?_⟩
      rcases copied with rfl | reads
      · exact holder_of_source_ne valid
      · rw [holder_of_source_ne (reads ▸ valid), reads]
    · rw [if_neg copied]
      exact Or.inl ⟨rfl, vacant other otherInRange⟩
  case type =>
    intro other otherInRange
    rw [moveAtNext other]
    split_ifs <;> simp [MoveOperands.eliminate, MoveOperands.setSource, invariant.type other otherInRange, *]
  case cleared =>
    intro other otherInRange performed
    rw [moveAtNext other] at performed ⊢
    split_ifs at performed ⊢ with same reads
    · rfl
    · simp [MoveOperands.setSource, destinationValid] at performed
    · exact invariant.cleared other otherInRange performed
  case destination =>
    intro other otherInRange
    rw [moveAtNext other]
    split_ifs
    · exact Or.inl rfl
    · exact invariant.destination other otherInRange
    · exact invariant.destination other otherInRange
  case pending =>
    intro pending member
    obtain ⟨other, otherInRange, performed, carries, wide⟩ := invariant.pending pending (by simpa [nextDef] using member)
    refine ⟨other, otherInRange, ?_, carries, wide⟩
    rw [moveAtNext other]
    have different : index ≠ other := fun same => valid (by rw [sourceDef, same]; exact performed)
    simp [different, performed, Ne.symm valid]
  case freeTemps =>
    intro temp member
    obtain ⟨inPool, empty⟩ := invariant.freeTemps temp (by simpa [nextDef] using member)
    refine ⟨inPool, fun other otherInRange => ?_⟩
    rw [holderNext other otherInRange]
    split_ifs
    · exact Ne.symm (admissible.fresh temp inPool _ (origin_mem moves inRange)).2
    · exact empty other otherInRange

/-- **Emitting a move to its own destination.** The move delivers its value there;
the moves that read its source go on reading it. -/
theorem Invariant.emitToDestination {state : State} (invariant : Invariant moves temps store state)
    {index : Nat} (inRange : index < moves.length) (valid : (state.moveAt index).source ≠ .noLocation)
    (own : (state.moveAt index).destination = (origin moves index).destination)
    (free : state.isBlockedByMoves (origin moves index).destination = false) :
    Invariant moves temps store ((state.emitMove backend index).modifyMove index MoveOperands.eliminate) := by
  set next := (state.emitMove backend index).modifyMove index MoveOperands.eliminate with nextDef
  have stateInRange : index < state.moves.length := invariant.length ▸ inRange
  have moveAtNext : ∀ other, next.moveAt other =
      if index = other then (state.moveAt index).eliminate else state.moveAt other := by
    intro other
    rw [nextDef, moveAt_modifyMove _ _ (by simpa using stateInRange), moveAt_emitMove, moveAt_emitMove]
  have vacant := invariant.vacant_destination admissible inRange valid free
  have holderNext : ∀ other < moves.length, next.holder moves other =
      if index = other then (origin moves index).destination else state.holder moves other := by
    intro other otherInRange
    by_cases same : index = other
    · subst same
      rw [if_pos rfl]
      exact holder_of_not_pending (by simp [moveAtNext, MoveOperands.eliminate])
        (by simpa [nextDef] using invariant.pending_destination_ne admissible inRange valid)
    · rw [if_neg same]
      exact holder_congr (by simp [moveAtNext, same]) (by simp [nextDef])
  have code : next.code = state.code ++ moveLocation (origin moves index).destination (state.moveAt index).source := by
    simp [nextDef, own]
  refine
    { toValues := invariant.toValues.transfer admissible code (Or.inl ⟨_, origin_mem moves inRange, rfl⟩)
        ?fits ?moved
      length := by simp [nextDef, invariant.length]
      type := fun other otherInRange => ?_
      cleared := fun other otherInRange performed => ?_
      destination := fun other otherInRange => ?_
      pending := fun waiting member => ?_
      pendingNodup := by simpa [nextDef] using invariant.pendingNodup
      freeTemps := fun temp member => ?_
      pool := by simpa [nextDef] using invariant.pool }
  case fits =>
    intro other otherInRange reads
    rw [invariant.sameWidth other otherInRange index inRange (by rw [reads, holder_of_source_ne valid])]
    exact (admissible.holds _ (origin_mem moves inRange)).2
  case moved =>
    intro other otherInRange
    rw [holderNext other otherInRange]
    split_ifs with same
    · subst same
      exact Or.inr ⟨rfl, holder_of_source_ne valid⟩
    · exact Or.inl ⟨rfl, vacant other otherInRange⟩
  · rw [moveAtNext other]
    split_ifs with same
    · rw [← same]
      exact invariant.type index inRange
    · exact invariant.type other otherInRange
  · rw [moveAtNext other] at performed ⊢
    split_ifs at performed ⊢
    · rfl
    · exact invariant.cleared other otherInRange performed
  · rw [moveAtNext other]
    split_ifs
    · exact Or.inl rfl
    · exact invariant.destination other otherInRange
  · obtain ⟨other, otherInRange, performed, carries, wide⟩ :=
      invariant.pending waiting (by simpa [nextDef] using member)
    refine ⟨other, otherInRange, ?_, carries, wide⟩
    rw [moveAtNext other]
    split_ifs
    · rfl
    · exact performed
  · obtain ⟨inPool, empty⟩ := invariant.freeTemps temp (by simpa [nextDef] using member)
    refine ⟨inPool, fun other otherInRange => ?_⟩
    rw [holderNext other otherInRange]
    split_ifs
    · exact Ne.symm (admissible.fresh temp inPool _ (origin_mem moves inRange)).2
    · exact empty other otherInRange

/-- **Breaking a cycle.** The move goes to a scratch location that holds no value
and fits any width; its readers are redirected there, and a pending move will
carry the value on to the destination. -/
theorem Invariant.performToScratch {state : State} (invariant : Invariant moves temps store state)
    {index : Nat} (inRange : index < moves.length) (valid : (state.moveAt index).source ≠ .noLocation)
    {scratch : Location} (written : Written moves temps scratch) (vacant : Vacant moves state scratch)
    (anyWidth : ∀ wide, HoldsWidth wide scratch) (taken : scratch ∉ state.temps) :
    Invariant moves temps store
      (((((state.modifyMove index fun move => move.setDestination scratch).emitMove backend index).modifyMove
        index MoveOperands.eliminate).updateMoveSource (state.moveAt index).source scratch).addPendingMove
        scratch (origin moves index).destination
        (if (state.moveAt index).is64BitMove then .primLong else .primInt)) := by
  set source := (state.moveAt index).source with sourceDef
  set destination := (origin moves index).destination with destinationDef
  set type : Primitive.Type := if (state.moveAt index).is64BitMove then .primLong else .primInt with typeDef
  set redirected := state.modifyMove index fun move => move.setDestination scratch with redirectedDef
  set next := (((redirected.emitMove backend index).modifyMove index MoveOperands.eliminate).updateMoveSource
    source scratch).addPendingMove scratch destination type with nextDef
  have stateInRange : index < state.moves.length := invariant.length ▸ inRange
  have scratchValid : scratch ≠ .noLocation := (anyWidth false).ne_noLocation
  have moveAtNext : Redirects state next index source scratch :=
    redirects_performedToScratch state stateInRange valid scratch destination type
  have noPending := invariant.pending_destination_ne admissible inRange valid
  have nextNodup : (next.pendingMoves.map (·.destination)).Nodup := by
    simpa [nextDef, redirectedDef, List.nodup_append, invariant.pendingNodup] using noPending
  have holderNext : ∀ other < moves.length, next.holder moves other =
      if index = other ∨ (state.moveAt other).source = source then scratch
      else state.holder moves other := by
    intro other otherInRange
    by_cases same : index = other
    · subst same
      rw [if_pos (Or.inl rfl)]
      have member : (⟨scratch, destination, type⟩ : MoveOperands) ∈ next.pendingMoves := by simp [nextDef]
      exact holder_of_pending nextNodup (by simp [moveAtNext index, MoveOperands.eliminate]) member rfl
    · by_cases reads : (state.moveAt other).source = source
      · rw [if_pos (Or.inr reads), holder_of_source_ne (by simp [moveAtNext other, same, reads,
          MoveOperands.setSource, scratchValid])]
        simp [moveAtNext other, same, reads, MoveOperands.setSource]
      · rw [if_neg (by tauto)]
        by_cases performed : (state.moveAt other).source = .noLocation
        · -- The new pending move carries the value of `index`, not of `other`.
          have apart := origin_destination_ne_of_performed admissible inRange otherInRange valid performed
          refine holder_eq_of_performed invariant.pendingNodup nextNodup performed
            (by simp [moveAtNext other, same, performed, Ne.symm valid]) fun pending => ?_
          simp only [nextDef, pendingMoves_addPendingMove, List.mem_append, List.mem_singleton]
          constructor
          · rintro ⟨member | rfl, carries⟩
            · exact ⟨member, carries⟩
            · exact absurd carries.symm apart
          · rintro ⟨member, carries⟩
            exact ⟨Or.inl member, carries⟩
        · rw [holder_of_source_ne performed, holder_of_source_ne (by simpa [moveAtNext other, same,
            reads] using performed)]
          simp [moveAtNext other, same, reads]
  have code : next.code = state.code ++ moveLocation scratch source := by
    simp [nextDef, redirectedDef, moveAt_modifyMove_self _ _ stateInRange, MoveOperands.setDestination,
      ← sourceDef]
  have wide : (state.moveAt index).is64BitMove = width moves index := by
    simp [MoveOperands.is64BitMove, width, invariant.type index inRange]
  refine
    { toValues := invariant.toValues.transfer admissible code written (fun _ _ _ => anyWidth _) ?moved
      length := by simp [nextDef, redirectedDef, invariant.length]
      type := ?types
      cleared := ?cleared
      destination := ?destinations
      pending := ?pending
      pendingNodup := nextNodup
      freeTemps := ?freeTemps
      pool := by simpa [nextDef, redirectedDef] using invariant.pool }
  case moved =>
    intro other otherInRange
    rw [holderNext other otherInRange]
    by_cases copied : index = other ∨ (state.moveAt other).source = source
    · rw [if_pos copied]
      refine Or.inr ⟨rfl, ?_⟩
      rcases copied with rfl | reads
      · exact holder_of_source_ne valid
      · rw [holder_of_source_ne (reads ▸ valid), reads]
    · rw [if_neg copied]
      exact Or.inl ⟨rfl, vacant other otherInRange⟩
  case types =>
    intro other otherInRange
    rw [moveAtNext other]
    split_ifs <;> simp [MoveOperands.eliminate, MoveOperands.setSource, invariant.type other otherInRange, *]
  case cleared =>
    intro other otherInRange performed
    rw [moveAtNext other] at performed ⊢
    split_ifs at performed ⊢ with same reads
    · rfl
    · simp [MoveOperands.setSource, scratchValid] at performed
    · exact invariant.cleared other otherInRange performed
  case destinations =>
    intro other otherInRange
    rw [moveAtNext other]
    split_ifs
    · exact Or.inl rfl
    · exact invariant.destination other otherInRange
    · exact invariant.destination other otherInRange
  case pending =>
    intro pending member
    simp only [nextDef, pendingMoves_addPendingMove, List.mem_append, List.mem_singleton] at member
    rcases member with member | rfl
    · obtain ⟨other, otherInRange, performed, carries, otherWide⟩ := invariant.pending pending member
      refine ⟨other, otherInRange, ?_, carries, otherWide⟩
      rw [moveAtNext other]
      have different : index ≠ other := fun same => valid (by rw [sourceDef, same]; exact performed)
      simp [different, performed, Ne.symm valid]
    · refine ⟨index, inRange, by simp [moveAtNext index, MoveOperands.eliminate], rfl, ?_⟩
      rw [← wide, typeDef]
      cases (state.moveAt index).is64BitMove <;> rfl
  case freeTemps =>
    intro temp member
    obtain ⟨inPool, empty⟩ := invariant.freeTemps temp (by simpa [nextDef, redirectedDef] using member)
    refine ⟨inPool, fun other otherInRange => ?_⟩
    rw [holderNext other otherInRange]
    split_ifs
    · rintro rfl
      exact taken (by simpa [nextDef, redirectedDef] using member)
    · exact empty other otherInRange

/-- **Emitting a pending move.** A pending move whose destination no value still
to be moved is read from delivers its value there, reusing the operands of a
performed move, and its readers are redirected to the destination. -/
theorem Invariant.performPendingMove {state : State} (invariant : Invariant moves temps store state)
    {index : Nat} (inRange : index < moves.length) (performed : (state.moveAt index).source = .noLocation)
    {pending : MoveOperands} (member : pending ∈ state.pendingMoves)
    (free : state.isBlockedByMoves pending.destination = false) :
    Invariant moves temps store
      (((((state.deletePendingMove pending).modifyMove index fun move =>
        (move.setSource pending.source).setDestination pending.destination).emitMove backend index).modifyMove
          index MoveOperands.eliminate).updateMoveSource pending.source pending.destination) := by
  obtain ⟨carrier, carrierInRange, carrierPerformed, carries, -, holds⟩ :=
    invariant.holder_of_mem_pendingMoves member
  set source := pending.source with sourceDef
  set destination := pending.destination with destinationDef
  set reshaped := (state.deletePendingMove pending).modifyMove index fun move =>
    (move.setSource source).setDestination destination with reshapedDef
  set next := ((reshaped.emitMove backend index).modifyMove index MoveOperands.eliminate).updateMoveSource
    source destination with nextDef
  have stateInRange : index < state.moves.length := invariant.length ▸ inRange
  have sourceValid : source ≠ .noLocation := by
    have keeps := (invariant.keeps carrier carrierInRange).2.1
    rw [holds] at keeps
    exact keeps.ne_noLocation
  have moveAtNext : Redirects state next index source destination :=
    redirects_performedPending state stateInRange sourceValid
  have pendingNodup : (state.pendingMoves.Nodup) := List.Nodup.of_map _ invariant.pendingNodup
  have nextNodup : (next.pendingMoves.map (·.destination)).Nodup := by
    simpa [nextDef, reshapedDef] using ((List.erase_sublist).map _).nodup invariant.pendingNodup
  have relevant : Relevant moves temps destination := carries ▸ relevant_destination carrierInRange
  have vacant : Vacant moves state destination :=
    invariant.vacant_of_unblocked admissible relevant free fun _ _ _ _ => ⟨pending, member, rfl⟩
  have holderNext : ∀ other < moves.length, next.holder moves other =
      if other = carrier ∨ (state.moveAt other).source = source then destination
      else state.holder moves other := by
    intro other otherInRange
    by_cases isCarrier : other = carrier
    · subst isCarrier
      rw [if_pos (Or.inl rfl), carries]
      refine holder_of_not_pending ?_ fun waiting waitingMember same => ?_
      · rw [moveAtNext other]
        split_ifs <;> simp_all [MoveOperands.eliminate]
      · -- The only pending move to this destination was the one emitted.
        simp only [nextDef, reshapedDef, pendingMoves_updateMoveSource, pendingMoves_modifyMove,
          pendingMoves_emitMove, pendingMoves_deletePendingMove] at waitingMember
        have equal := List.inj_on_of_nodup_map invariant.pendingNodup (List.mem_of_mem_erase waitingMember)
          member (same.trans carries.symm)
        subst equal
        exact List.Nodup.not_mem_erase pendingNodup waitingMember
    · by_cases reads : (state.moveAt other).source = source
      · have different : index ≠ other := fun same => sourceValid (by rw [← reads, ← same, performed])
        rw [if_pos (Or.inr reads), holder_of_source_ne (by simp [moveAtNext other, different, reads,
          MoveOperands.setSource, relevant.ne_noLocation admissible])]
        simp [moveAtNext other, different, reads, MoveOperands.setSource]
      · rw [if_neg (by tauto)]
        by_cases otherPerformed : (state.moveAt other).source = .noLocation
        · have apart : (origin moves other).destination ≠ destination := fun same =>
            isCarrier (origin_destination_injective admissible otherInRange carrierInRange (same.trans carries))
          refine holder_eq_of_performed invariant.pendingNodup nextNodup otherPerformed ?_ fun waiting => ?_
          · rw [moveAtNext other]
            split_ifs <;> simp_all [MoveOperands.eliminate]
          · simp only [nextDef, reshapedDef, pendingMoves_updateMoveSource, pendingMoves_modifyMove,
              pendingMoves_emitMove, pendingMoves_deletePendingMove]
            constructor
            · rintro ⟨waitingMember, waitingCarries⟩
              exact ⟨List.mem_of_mem_erase waitingMember, waitingCarries⟩
            · rintro ⟨waitingMember, waitingCarries⟩
              refine ⟨List.mem_erase_of_ne (fun same => apart ?_) |>.mpr waitingMember, waitingCarries⟩
              rw [← waitingCarries, same]
        · have different : index ≠ other := fun same => otherPerformed (same ▸ performed)
          rw [holder_of_source_ne otherPerformed, holder_of_source_ne (by simpa [moveAtNext other,
            different, reads] using otherPerformed)]
          simp [moveAtNext other, different, reads]
  have code : next.code = state.code ++ moveLocation destination source := by
    simp [nextDef, reshapedDef, moveAt_modifyMove_self (state.deletePendingMove pending) _
      (by simpa using stateInRange), MoveOperands.setDestination, MoveOperands.setSource]
  refine
    { toValues := invariant.toValues.transfer admissible code
        (Or.inl ⟨_, origin_mem moves carrierInRange, carries⟩) ?fits ?moved
      length := by simp [nextDef, reshapedDef, invariant.length]
      type := ?types
      cleared := ?cleared
      destination := ?destinations
      pending := ?pending
      pendingNodup := nextNodup
      freeTemps := ?freeTemps
      pool := by simpa [nextDef, reshapedDef] using invariant.pool }
  case fits =>
    intro other otherInRange reads
    have sameWidth : width moves other = width moves carrier :=
      invariant.sameWidth other otherInRange carrier carrierInRange (by rw [reads, holds])
    rw [sameWidth, carries]
    exact (admissible.holds _ (origin_mem moves carrierInRange)).2
  case moved =>
    intro other otherInRange
    rw [holderNext other otherInRange]
    by_cases copied : other = carrier ∨ (state.moveAt other).source = source
    · rw [if_pos copied]
      refine Or.inr ⟨rfl, ?_⟩
      rcases copied with rfl | reads
      · exact holds
      · have valid : (state.moveAt other).source ≠ .noLocation := reads ▸ sourceValid
        rw [holder_of_source_ne valid, reads]
    · rw [if_neg copied]
      exact Or.inl ⟨rfl, vacant other otherInRange⟩
  case types =>
    intro other otherInRange
    rw [moveAtNext other]
    split_ifs <;> simp [MoveOperands.eliminate, MoveOperands.setSource, invariant.type other otherInRange, *]
  case cleared =>
    intro other otherInRange otherPerformed
    rw [moveAtNext other] at otherPerformed ⊢
    split_ifs at otherPerformed ⊢ with same reads
    · rfl
    · simp [MoveOperands.setSource, relevant.ne_noLocation admissible] at otherPerformed
    · exact invariant.cleared other otherInRange otherPerformed
  case destinations =>
    intro other otherInRange
    rw [moveAtNext other]
    split_ifs
    · exact Or.inl rfl
    · exact invariant.destination other otherInRange
    · exact invariant.destination other otherInRange
  case pending =>
    intro waiting waitingMember
    simp only [nextDef, reshapedDef, pendingMoves_updateMoveSource, pendingMoves_modifyMove,
      pendingMoves_emitMove, pendingMoves_deletePendingMove] at waitingMember
    obtain ⟨other, otherInRange, otherPerformed, otherCarries, otherWide⟩ :=
      invariant.pending waiting (List.mem_of_mem_erase waitingMember)
    refine ⟨other, otherInRange, ?_, otherCarries, otherWide⟩
    rw [moveAtNext other]
    split_ifs <;> simp_all [MoveOperands.eliminate]
  case freeTemps =>
    intro temp tempMember
    obtain ⟨inPool, empty⟩ := invariant.freeTemps temp (by simpa [nextDef, reshapedDef] using tempMember)
    refine ⟨inPool, fun other otherInRange => ?_⟩
    rw [holderNext other otherInRange]
    split_ifs
    · rw [carries]
      exact Ne.symm (admissible.fresh temp inPool _ (origin_mem moves carrierInRange)).2
    · exact empty other otherInRange

omit admissible in
/-- **Marking a move and restoring its destination.** Changing only the
destination of a move not yet performed, to nothing or back to its own, moves no
value. -/
theorem Invariant.modifyMove_destination {state : State} (invariant : Invariant moves temps store state)
    {index : Nat} (inRange : index < moves.length) (valid : (state.moveAt index).source ≠ .noLocation)
    {change : MoveOperands → MoveOperands}
    (source : (change (state.moveAt index)).source = (state.moveAt index).source)
    (type : (change (state.moveAt index)).type = (state.moveAt index).type)
    (destination : (change (state.moveAt index)).destination = .noLocation ∨
      (change (state.moveAt index)).destination = (origin moves index).destination) :
    Invariant moves temps store (state.modifyMove index change) := by
  have stateInRange : index < state.moves.length := invariant.length ▸ inRange
  have moveAtNext : ∀ other, (state.modifyMove index change).moveAt other =
      if index = other then change (state.moveAt index) else state.moveAt other :=
    moveAt_modifyMove state change stateInRange
  have sameSource : ∀ other, ((state.modifyMove index change).moveAt other).source = (state.moveAt other).source := by
    intro other
    rw [moveAtNext other]
    split_ifs with same
    · rw [source, same]
    · rfl
  have holderSame : ∀ other < moves.length,
      (state.modifyMove index change).holder moves other = state.holder moves other :=
    fun other _ => holder_congr (sameSource other) rfl
  refine
    { toValues := invariant.toValues.of_holder_eq rfl holderSame
      length := by simp [invariant.length]
      type := fun other otherInRange => ?_
      cleared := fun other otherInRange performed => ?_
      destination := fun other otherInRange => ?_
      pending := fun waiting member => ?_
      pendingNodup := invariant.pendingNodup
      freeTemps := fun temp member => ?_
      pool := invariant.pool }
  · rw [moveAtNext other]
    split_ifs with same
    · rw [type, same, invariant.type other otherInRange]
    · exact invariant.type other otherInRange
  · rw [sameSource other] at performed
    rw [moveAtNext other]
    split_ifs with same
    · exact absurd (same ▸ performed) valid
    · exact invariant.cleared other otherInRange performed
  · rw [moveAtNext other]
    split_ifs with same
    · rw [← same]
      exact destination
    · exact invariant.destination other otherInRange
  · obtain ⟨other, otherInRange, performed, carries, wide⟩ := invariant.pending waiting member
    exact ⟨other, otherInRange, (sameSource other).trans performed, carries, wide⟩
  · obtain ⟨inPool, empty⟩ := invariant.freeTemps temp member
    exact ⟨inPool, fun other otherInRange => holderSame other otherInRange ▸ empty other otherInRange⟩

/-- **Dropping a redundant move.** A move whose source has become its own
destination has delivered its value already. -/
theorem Invariant.eliminateRedundant {state : State} (invariant : Invariant moves temps store state)
    {index : Nat} (inRange : index < moves.length) (valid : (state.moveAt index).source ≠ .noLocation)
    (arrived : (state.moveAt index).source = (origin moves index).destination) :
    Invariant moves temps store (state.modifyMove index MoveOperands.eliminate) := by
  have stateInRange : index < state.moves.length := invariant.length ▸ inRange
  have moveAtNext : ∀ other, (state.modifyMove index MoveOperands.eliminate).moveAt other =
      if index = other then (state.moveAt index).eliminate else state.moveAt other :=
    moveAt_modifyMove state _ stateInRange
  have holderSame : ∀ other < moves.length,
      (state.modifyMove index MoveOperands.eliminate).holder moves other = state.holder moves other := by
    intro other otherInRange
    by_cases same : index = other
    · subst same
      rw [holder_of_source_ne valid, arrived]
      exact holder_of_not_pending (by simp [moveAtNext, MoveOperands.eliminate])
        (invariant.pending_destination_ne admissible inRange valid)
    · exact holder_congr (by simp [moveAtNext, same]) rfl
  refine
    { toValues := invariant.toValues.of_holder_eq rfl holderSame
      length := by simp [invariant.length]
      type := fun other otherInRange => ?_
      cleared := fun other otherInRange performed => ?_
      destination := fun other otherInRange => ?_
      pending := fun waiting member => ?_
      pendingNodup := invariant.pendingNodup
      freeTemps := fun temp member => ?_
      pool := invariant.pool }
  · rw [moveAtNext other]
    split_ifs with same
    · rw [← same]
      exact invariant.type index inRange
    · exact invariant.type other otherInRange
  · rw [moveAtNext other] at performed ⊢
    split_ifs at performed ⊢
    · rfl
    · exact invariant.cleared other otherInRange performed
  · rw [moveAtNext other]
    split_ifs
    · exact Or.inl rfl
    · exact invariant.destination other otherInRange
  · obtain ⟨other, otherInRange, performed, carries, wide⟩ := invariant.pending waiting member
    refine ⟨other, otherInRange, ?_, carries, wide⟩
    rw [moveAtNext other]
    split_ifs
    · rfl
    · exact performed
  · obtain ⟨inPool, empty⟩ := invariant.freeTemps temp member
    exact ⟨inPool, fun other otherInRange => holderSame other otherInRange ▸ empty other otherInRange⟩

omit admissible in
/-- **Giving a temporary back.** A scratch location that holds no value returns to
the assembler's temporaries. -/
theorem Invariant.freeScratchLocation {state : State} (invariant : Invariant moves temps store state)
    {scratch : Location} (member : scratch ∈ state.scratches) (vacant : Vacant moves state scratch) :
    Invariant moves temps store (freeScratchLocation state scratch) := by
  have pool : (state.scratches.erase scratch ++ scratch :: state.temps).Perm (state.scratches ++ state.temps) :=
    List.perm_middle.trans ((List.perm_cons_erase member).symm.append_right state.temps)
  refine
    { toValues := invariant.toValues.of_holder_eq rfl fun _ _ => rfl
      length := invariant.length
      type := invariant.type
      cleared := invariant.cleared
      destination := invariant.destination
      pending := invariant.pending
      pendingNodup := invariant.pendingNodup
      freeTemps := fun temp tempMember => ?_
      pool := pool.trans invariant.pool }
  simp only [ParallelMoveResolverARM64.freeScratchLocation, State.removeScratchLocation, List.mem_cons]
    at tempMember
  rcases tempMember with rfl | tempMember
  · exact ⟨invariant.pool.subset (List.mem_append_left _ member), vacant⟩
  · exact invariant.freeTemps temp tempMember

/-- **Taking a scratch location.** `AllocateScratchLocationFor` keeps the invariant
and hands out a register that holds no value, is a destination or a temporary,
fits any width, and is not left among the free temporaries. It is not the
destination of a move on the walk or performed, nor a destination still read,
and it joins the scratch locations only when it comes from the temporaries. -/
theorem Invariant.allocateScratchLocationFor {state next : State} (invariant : Invariant moves temps store state)
    {kind : Location.Kind} {scratch : Location}
    (allocated : allocateScratchLocationFor state kind = some (scratch, next)) :
    Invariant moves temps store next ∧ next.moves = state.moves ∧ next.pendingMoves = state.pendingMoves ∧
      next.code = state.code ∧ Written moves temps scratch ∧ Vacant moves state scratch ∧
      (∀ wide, HoldsWidth wide scratch) ∧ scratch ∉ next.temps ∧
      (∀ other < moves.length, ((state.moveAt other).destination = .noLocation ∨
        state.isBlockedByMoves (origin moves other).destination = true) →
          scratch ≠ (origin moves other).destination) ∧
      (next.scratches = state.scratches ∨ next.scratches = state.scratches ++ [scratch]) := by
  obtain ⟨register, whence⟩ := allocateScratchLocationFor_spec allocated
  have anyWidth : ∀ wide, HoldsWidth wide scratch := by
    intro wide
    cases scratch <;> simp_all [Location.isRegister, Location.isFpuRegister, Location.getKind, HoldsWidth]
  have tempsNodup : (state.scratches ++ state.temps).Nodup := invariant.pool.nodup_iff.mpr admissible.tempsNodup
  -- A temporary is the destination of no move at all.
  have freshApart : scratch ∈ temps → ∀ other < moves.length, scratch ≠ (origin moves other).destination :=
    fun temp other otherInRange => (admissible.fresh scratch temp _ (origin_mem moves otherInRange)).2
  rcases whence with ⟨rfl, free, inScratches | ⟨move, member, rfl⟩⟩ | ⟨inTemps, rfl⟩
  · -- A scratch location the resolver holds already: a temporary no move reads.
    have temp := invariant.pool.subset (List.mem_append_left _ inScratches)
    have vacant : Vacant moves next scratch :=
      invariant.vacant_of_unblocked admissible (Or.inr temp) free fun _ otherInRange _ same =>
        absurd same.symm (freshApart temp _ otherInRange)
    exact ⟨invariant, rfl, rfl, rfl, Or.inr temp, vacant, anyWidth,
      List.disjoint_of_nodup_append tempsNodup inScratches, fun other otherInRange _ => freshApart temp other otherInRange,
      Or.inl rfl⟩
  · -- The destination of a move not yet performed, which no move reads.
    obtain ⟨other, otherStateInRange, rfl⟩ := next.exists_moveAt_eq_of_mem member
    have otherInRange : other < moves.length := invariant.length ▸ otherStateInRange
    have valid : (next.moveAt other).destination ≠ .noLocation := by
      intro none
      simp [none, Location.isRegister, Location.isFpuRegister, Location.getKind] at register
    have own : (next.moveAt other).destination = (origin moves other).destination :=
      (invariant.destination other otherInRange).resolve_left valid
    have notPerformed : (next.moveAt other).source ≠ .noLocation :=
      fun performed => valid (invariant.cleared other otherInRange performed)
    have apart : ∀ third < moves.length, ((next.moveAt third).destination = .noLocation ∨
        next.isBlockedByMoves (origin moves third).destination = true) →
          (next.moveAt other).destination ≠ (origin moves third).destination := by
      rintro third thirdInRange (cleared | blocked) same
      · obtain rfl := origin_destination_injective admissible otherInRange thirdInRange (own ▸ same)
        exact valid cleared
      · rw [same] at free
        simp [free] at blocked
    rw [own] at anyWidth free apart ⊢
    refine ⟨invariant, rfl, rfl, rfl, Or.inl ⟨_, origin_mem moves otherInRange, rfl⟩,
      invariant.vacant_destination admissible otherInRange notPerformed free, anyWidth, fun inTemps => ?_, apart,
      Or.inl rfl⟩
    exact (admissible.fresh _ (invariant.freeTemps _ inTemps).1 _ (origin_mem moves otherInRange)).2 rfl
  · -- A VIXL temporary, which holds no value.
    obtain ⟨temp, empty⟩ := invariant.freeTemps scratch inTemps
    have tempsDistinct : state.temps.Nodup := (List.nodup_append.mp tempsNodup).2.1
    have pool : (state.scratches ++ [scratch] ++ state.temps.erase scratch).Perm (state.scratches ++ state.temps) := by
      rw [List.append_assoc, List.singleton_append]
      exact (List.perm_cons_erase inTemps).symm.append_left state.scratches
    refine ⟨{ toValues := invariant.toValues.of_holder_eq rfl fun _ _ => rfl
              length := invariant.length
              type := invariant.type
              cleared := invariant.cleared
              destination := invariant.destination
              pending := invariant.pending
              pendingNodup := invariant.pendingNodup
              freeTemps := fun other member => invariant.freeTemps other (List.mem_of_mem_erase member)
              pool := pool.trans invariant.pool },
      rfl, rfl, rfl, Or.inr temp, empty, anyWidth, List.Nodup.not_mem_erase tempsDistinct,
      fun other otherInRange _ => freshApart temp other otherInRange, Or.inr rfl⟩

end Steps

end Art.Compiler.Optimizing.ParallelMoveResolverNoSwap
