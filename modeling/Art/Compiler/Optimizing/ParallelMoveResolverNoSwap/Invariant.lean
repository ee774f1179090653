import Art.Compiler.Optimizing.CodeGeneratorArm64
import Art.Machine.Loop

/-!
# What the resolver without swaps keeps true

The resolver starts from a list of moves (`BuildInitialMoveList`) and rewrites it
in place. Throughout, the move at each index is performed (both operands
cleared), on the walk (destination cleared), or waiting with its own destination;
its source may have been redirected by `UpdateMoveSource`. What makes the code it
emits right is that the current source of every move still to be performed holds
the value the move must deliver, as does the source of every pending move, and
that every performed move whose value is not waiting in a pending move has
delivered it (`Invariant`).

The invariant rests on a condition on the moves (`Admissible`): each location
holds the value of its move at the move's width, the destinations
are distinct, and any two of the locations involved, temporaries included, are
the same or share no cell. Under the last condition `OverlapsWith` is equality
(`overlapsWith_iff`), and writing one location leaves every other alone.
-/

set_option autoImplicit false

namespace Art.Compiler.Optimizing.ParallelMoveResolverNoSwap

open Art.Machine CodeGeneratorArm64

/-! ## The moves the resolver may be given -/

section Admissible

variable (moves : List MoveOperands) (temps : List Location)

/-- The move at an index of the list the resolver started from. -/
def origin (index : Nat) : MoveOperands := moves.getD index noMove

/-- A location the resolution may touch: an operand of a move or a temporary of
the backend. -/
def Relevant (loc : Location) : Prop :=
  (∃ move ∈ moves, loc = move.source ∨ loc = move.destination) ∨ loc ∈ temps

/-- Moves on which the resolver is right, with the backend's temporaries: each
operand holds the width of its move, destinations are distinct and not constants,
any two locations involved are the same or share no cell, each source is read at
one width, and no temporary is an operand. -/
structure Admissible : Prop where
  holds : ∀ move ∈ moves, HoldsWidth move.is64BitMove move.source ∧ HoldsWidth move.is64BitMove move.destination
  writable : ∀ move ∈ moves, move.destination.isConstant = false
  separate : ∀ loc other, Relevant moves temps loc → Relevant moves temps other → loc.Separate other
  distinctDestinations : (moves.map (·.destination)).Nodup
  sameWidth : ∀ move ∈ moves, ∀ other ∈ moves, move.source = other.source → move.is64BitMove = other.is64BitMove
  fresh : ∀ temp ∈ temps, ∀ move ∈ moves, temp ≠ move.source ∧ temp ≠ move.destination
  tempsHold : ∀ temp ∈ temps, ∀ wide, HoldsWidth wide temp
  tempsNodup : temps.Nodup

/-- The locations the resolution moves values to: destinations and temporaries. -/
def Written (target : Location) : Prop :=
  (∃ move ∈ moves, target = move.destination) ∨ target ∈ temps

end Admissible

/-- The locations of a resolution, listed. -/
theorem relevant_iff {moves : List MoveOperands} {temps : List Location} {loc : Location} :
    Relevant moves temps loc ↔ loc ∈ moves.flatMap (fun move => [move.source, move.destination]) ++ temps := by
  simp only [Relevant, List.mem_append, List.mem_flatMap, List.mem_cons, List.not_mem_nil, or_false]

/-- What is asked of a list of moves is asked of every part of it, in particular of
the moves `BuildInitialMoveList` keeps. -/
theorem Admissible.sublist {moves part : List MoveOperands} {temps : List Location}
    (admissible : Admissible moves temps) (sublist : part.Sublist moves) : Admissible part temps where
  holds move member := admissible.holds move (sublist.subset member)
  writable move member := admissible.writable move (sublist.subset member)
  separate loc other first second := by
    have widen : ∀ {loc : Location}, Relevant part temps loc → Relevant moves temps loc := by
      rintro loc (⟨move, member, same⟩ | temp)
      · exact Or.inl ⟨move, sublist.subset member, same⟩
      · exact Or.inr temp
    exact admissible.separate loc other (widen first) (widen second)
  distinctDestinations := admissible.distinctDestinations.sublist (sublist.map _)
  sameWidth move member other otherMember :=
    admissible.sameWidth move (sublist.subset member) other (sublist.subset otherMember)
  fresh temp member move moveMember := admissible.fresh temp member move (sublist.subset moveMember)
  tempsHold := admissible.tempsHold
  tempsNodup := admissible.tempsNodup

theorem Written.relevant {moves : List MoveOperands} {temps : List Location} {target : Location}
    (written : Written moves temps target) : Relevant moves temps target := by
  rcases written with ⟨move, member, rfl⟩ | temp
  · exact Or.inl ⟨move, member, Or.inr rfl⟩
  · exact Or.inr temp

section Relevant

variable {moves : List MoveOperands} {temps : List Location} (admissible : Admissible moves temps)
include admissible

theorem Relevant.allocated {loc : Location} (relevant : Relevant moves temps loc) : loc.Allocated := by
  rcases relevant with ⟨move, member, rfl | rfl⟩ | temp
  · exact HoldsWidth.allocated (admissible.holds move member).1
  · exact HoldsWidth.allocated (admissible.holds move member).2
  · exact HoldsWidth.allocated (admissible.tempsHold loc temp false)

theorem Relevant.ne_noLocation {loc : Location} (relevant : Relevant moves temps loc) : loc ≠ .noLocation := by
  rintro rfl
  exact relevant.allocated admissible

/-- **Between the locations of a resolution `OverlapsWith` is equality.** -/
theorem overlapsWith_iff {loc other : Location} (first : Relevant moves temps loc)
    (second : Relevant moves temps other) : loc.overlapsWith other = true ↔ loc = other :=
  Location.overlapsWith_iff_eq (first.allocated admissible) (second.allocated admissible)
    (admissible.separate loc other first second)

/-- Two different locations of a resolution share no cell, at any widths. -/
theorem not_mem_footprint_of_ne {loc other : Location} (first : Relevant moves temps loc)
    (second : Relevant moves temps other) (different : loc ≠ other) (wide otherWide : Bool)
    {cell : Location.Cell} (inFirst : cell ∈ loc.footprint wide) : cell ∉ other.footprint otherWide := by
  intro inSecond
  rcases admissible.separate loc other first second with same | apart
  · exact different same
  · exact apart ⟨cell, Location.footprint_subset_wide loc wide inFirst,
      Location.footprint_subset_wide other otherWide inSecond⟩

theorem Written.isConstant {target : Location} (written : Written moves temps target) :
    target.isConstant = false := by
  rcases written with ⟨move, member, rfl⟩ | temp
  · exact admissible.writable move member
  · have narrow := admissible.tempsHold target temp false
    have wide := admissible.tempsHold target temp true
    cases target <;> simp_all [HoldsWidth, Location.isConstant, Location.getKind]

/-- Writing a location of the resolution leaves every other one alone. -/
theorem readCells_runCode_moveLocation_of_ne {V : Type} (store : Location.Cell → V)
    {loc target source : Location} (locRelevant : Relevant moves temps loc)
    (targetRelevant : Relevant moves temps target) (different : loc ≠ target) (wide : Bool) :
    readCells (runCode store (moveLocation target source)) (loc.footprint wide) =
      readCells store (loc.footprint wide) :=
  readCells_congr fun _ member => runCode_moveLocation_of_not_mem store target source
    (not_mem_footprint_of_ne admissible locRelevant targetRelevant different wide true member)

end Relevant

section Origin

variable (moves : List MoveOperands) (temps : List Location)

theorem origin_mem {index : Nat} (inRange : index < moves.length) : origin moves index ∈ moves := by
  simp [origin, List.getD_eq_getElem?_getD, List.getElem?_eq_getElem inRange]

variable {moves temps}

/-- The destinations of two different moves are different locations. -/
theorem origin_destination_injective (admissible : Admissible moves temps) {index other : Nat}
    (first : index < moves.length) (second : other < moves.length)
    (same : (origin moves index).destination = (origin moves other).destination) : index = other := by
  have nodup := admissible.distinctDestinations
  rw [List.nodup_iff_injective_get] at nodup
  have equal := @nodup ⟨index, by simpa using first⟩ ⟨other, by simpa using second⟩
    (by simpa [origin, List.getD_eq_getElem?_getD, List.getElem?_eq_getElem first,
      List.getElem?_eq_getElem second] using same)
  simpa using congrArg Fin.val equal

theorem relevant_source {index : Nat} (inRange : index < moves.length) :
    Relevant moves temps (origin moves index).source :=
  Or.inl ⟨_, origin_mem moves inRange, Or.inl rfl⟩

theorem relevant_destination {index : Nat} (inRange : index < moves.length) :
    Relevant moves temps (origin moves index).destination :=
  Or.inl ⟨_, origin_mem moves inRange, Or.inr rfl⟩

theorem written_destination {index : Nat} (inRange : index < moves.length) :
    Written moves temps (origin moves index).destination :=
  Or.inl ⟨_, origin_mem moves inRange, rfl⟩

end Origin

/-! ## Where each value is -/

section Values

variable (moves : List MoveOperands) (temps : List Location) {V : Type} (store : Location.Cell → V)

/-- The width of the move at an index of the starting list. -/
def width (index : Nat) : Bool := (origin moves index).is64BitMove

/-- What the move at an index must deliver: its source read at its width before
any code ran. -/
def want (index : Nat) : List V :=
  readCells store ((origin moves index).source.footprint (width moves index))

namespace State

/-- The machine after the code emitted so far. -/
def current (state : State) : Location.Cell → V := runCode store state.code

/-- Where the value of the move at an index is now: its source while it has one;
once performed, the source of the pending move that carries the value, or else
its destination. -/
def holder (state : State) (index : Nat) : Location :=
  if (state.moveAt index).source = .noLocation then
    match state.pendingMoves.find? (·.destination == (origin moves index).destination) with
    | some pending => pending.source
    | none => (origin moves index).destination
  else (state.moveAt index).source

/-- A location of the resolution holds a value at a width. -/
def Keeps (state : State) (loc : Location) (wide : Bool) (value : List V) : Prop :=
  Relevant moves temps loc ∧ HoldsWidth wide loc ∧ readCells (state.current store) (loc.footprint wide) = value

end State

/-- The machine part of the invariant: every value sits where `holder` says, all
the values in one location have one width, and no cell outside the destinations
and the temporaries has changed. -/
structure Values (state : State) : Prop where
  keeps : ∀ index < moves.length,
    state.Keeps moves temps store (state.holder moves index) (width moves index) (want moves store index)
  sameWidth : ∀ index < moves.length, ∀ other < moves.length,
    state.holder moves index = state.holder moves other → width moves index = width moves other
  frame : ∀ cell, (∀ move ∈ moves, cell ∉ move.destination.footprint true) →
    (∀ temp ∈ temps, cell ∉ temp.footprint true) → state.current store cell = store cell

/-- **The invariant of the resolver.** Besides `Values`: the list of moves keeps
its length and types; a move is performed (both operands cleared), on the walk
(destination cleared) or waiting with its own destination; each pending move
carries the value of a performed move, at its width, to its destination, and no
two pending moves share a destination; the free temporaries hold no value; and
the scratch locations and the free temporaries are the temporaries. -/
structure Invariant (state : State) : Prop extends Values moves temps store state where
  length : state.moves.length = moves.length
  type : ∀ index < moves.length, (state.moveAt index).type = (origin moves index).type
  cleared : ∀ index < moves.length, (state.moveAt index).source = .noLocation →
    (state.moveAt index).destination = .noLocation
  destination : ∀ index < moves.length, (state.moveAt index).destination = .noLocation ∨
    (state.moveAt index).destination = (origin moves index).destination
  pending : ∀ move ∈ state.pendingMoves, ∃ index < moves.length, (state.moveAt index).source = .noLocation ∧
    move.destination = (origin moves index).destination ∧ move.is64BitMove = width moves index
  pendingNodup : (state.pendingMoves.map (·.destination)).Nodup
  freeTemps : ∀ temp ∈ state.temps, temp ∈ temps ∧ ∀ index < moves.length, state.holder moves index ≠ temp
  pool : (state.scratches ++ state.temps).Perm temps

/-- No value of the resolution lives in the location. -/
def Vacant (state : State) (loc : Location) : Prop :=
  ∀ index < moves.length, state.holder moves index ≠ loc

end Values

namespace State

variable {moves : List MoveOperands} {state : State} {index : Nat}

theorem holder_congr {next : State} (source : (next.moveAt index).source = (state.moveAt index).source)
    (pending : next.pendingMoves = state.pendingMoves) : next.holder moves index = state.holder moves index := by
  simp only [holder, source, pending]

theorem holder_of_source_ne (valid : (state.moveAt index).source ≠ .noLocation) :
    state.holder moves index = (state.moveAt index).source := by
  simp [holder, valid]

theorem holder_of_pending (valid : (state.pendingMoves.map (·.destination)).Nodup)
    (performed : (state.moveAt index).source = .noLocation) {pending : MoveOperands}
    (member : pending ∈ state.pendingMoves) (carries : pending.destination = (origin moves index).destination) :
    state.holder moves index = pending.source := by
  have found : state.pendingMoves.find? (·.destination == (origin moves index).destination) = some pending := by
    cases firstFound : state.pendingMoves.find? (·.destination == (origin moves index).destination) with
    | none =>
        rw [List.find?_eq_none] at firstFound
        exact absurd (by simp [carries]) (firstFound pending member)
    | some first =>
        have same : first.destination = (origin moves index).destination := by
          simpa using List.find?_some firstFound
        rw [List.inj_on_of_nodup_map valid (List.mem_of_find?_eq_some firstFound) member (same.trans carries.symm)]
  simp [holder, performed, found]

theorem holder_of_not_pending (performed : (state.moveAt index).source = .noLocation)
    (none : ∀ pending ∈ state.pendingMoves, pending.destination ≠ (origin moves index).destination) :
    state.holder moves index = (origin moves index).destination := by
  have found : state.pendingMoves.find? (·.destination == (origin moves index).destination) = Option.none := by
    rw [List.find?_eq_none]
    intro pending member
    simpa using none pending member
  simp [holder, performed, found]

/-- The value of a performed move stays put when the pending moves to its
destination are the same. -/
theorem holder_eq_of_performed {next : State} (nodup : (state.pendingMoves.map (·.destination)).Nodup)
    (nextNodup : (next.pendingMoves.map (·.destination)).Nodup)
    (performed : (state.moveAt index).source = .noLocation) (nextPerformed : (next.moveAt index).source = .noLocation)
    (carried : ∀ pending, pending ∈ next.pendingMoves ∧ pending.destination = (origin moves index).destination ↔
      pending ∈ state.pendingMoves ∧ pending.destination = (origin moves index).destination) :
    next.holder moves index = state.holder moves index := by
  by_cases waiting : ∃ pending ∈ state.pendingMoves, pending.destination = (origin moves index).destination
  · obtain ⟨pending, member, carries⟩ := waiting
    rw [holder_of_pending nodup performed member carries,
      holder_of_pending nextNodup nextPerformed ((carried pending).mpr ⟨member, carries⟩).1 carries]
  · simp only [not_exists, not_and] at waiting
    rw [holder_of_not_pending performed waiting, holder_of_not_pending nextPerformed
      fun pending member carries => waiting pending ((carried pending).mp ⟨member, carries⟩).1 carries]

end State

/-! ## Steps that move a value -/

section Transfer

variable {moves : List MoveOperands} {temps : List Location} {V : Type} {store : Location.Cell → V}
  (admissible : Admissible moves temps)
include admissible

/-- **What one emitted move does to the values.** When every value either stays
where it was, away from the written location, or is copied along the move, the
machine part of the invariant survives the move. -/
theorem Values.transfer {state next : State} (values : Values moves temps store state)
    {source target : Location} (code : next.code = state.code ++ moveLocation target source)
    (written : Written moves temps target)
    (fits : ∀ index < moves.length, state.holder moves index = source → HoldsWidth (width moves index) target)
    (moved : ∀ index < moves.length,
      next.holder moves index = state.holder moves index ∧ state.holder moves index ≠ target ∨
        next.holder moves index = target ∧ state.holder moves index = source) :
    Values moves temps store next := by
  have relevant := written.relevant
  have now : next.current store = runCode (state.current store) (moveLocation target source) := by
    simp [State.current, code, runCode_append]
  refine ⟨fun index inRange => ?_, fun index inRange other otherInRange same => ?_,
    fun cell outside outsideTemps => ?_⟩
  · obtain ⟨keepRelevant, keepHolds, keepValue⟩ := values.keeps index inRange
    rcases moved index inRange with ⟨stays, apart⟩ | ⟨arrives, copied⟩
    · refine ⟨stays ▸ keepRelevant, stays ▸ keepHolds, ?_⟩
      rw [stays, now, readCells_runCode_moveLocation_of_ne admissible _ keepRelevant relevant apart]
      exact keepValue
    · refine ⟨arrives ▸ relevant, arrives ▸ fits index inRange copied, ?_⟩
      rw [arrives, now, readCells_runCode_moveLocation _ (copied ▸ keepHolds) (fits index inRange copied)
        (written.isConstant admissible), ← copied]
      exact keepValue
  · rcases moved index inRange with ⟨stays, apart⟩ | ⟨arrives, copied⟩ <;>
      rcases moved other otherInRange with ⟨otherStays, otherApart⟩ | ⟨otherArrives, otherCopied⟩
    · exact values.sameWidth index inRange other otherInRange (by rw [← stays, ← otherStays, same])
    · exact absurd (stays ▸ otherArrives ▸ same) apart
    · exact absurd (otherStays ▸ arrives ▸ same.symm) otherApart
    · exact values.sameWidth index inRange other otherInRange (copied.trans otherCopied.symm)
  · rw [now, runCode_moveLocation_of_not_mem]
    · exact values.frame cell outside outsideTemps
    · rcases written with ⟨move, member, rfl⟩ | temp
      · exact outside move member
      · exact outsideTemps target temp

omit admissible in
/-- A step that emits nothing and moves no value keeps the machine part of the invariant. -/
theorem Values.of_holder_eq {state next : State} (values : Values moves temps store state)
    (code : next.code = state.code)
    (same : ∀ index < moves.length, next.holder moves index = state.holder moves index) :
    Values moves temps store next := by
  have now : next.current store = state.current store := by simp [State.current, code]
  refine ⟨fun index inRange => ?_, fun index inRange other otherInRange equal => ?_,
    fun cell outside outsideTemps => ?_⟩
  · rw [State.Keeps, now, same index inRange]
    exact values.keeps index inRange
  · rw [same index inRange, same other otherInRange] at equal
    exact values.sameWidth index inRange other otherInRange equal
  · rw [now]
    exact values.frame cell outside outsideTemps

omit admissible in
/-- The source of a pending move holds the value of the performed move it carries. -/
theorem Invariant.holder_of_mem_pendingMoves {state : State} (invariant : Invariant moves temps store state)
    {pending : MoveOperands} (member : pending ∈ state.pendingMoves) :
    ∃ index < moves.length, (state.moveAt index).source = .noLocation ∧
      pending.destination = (origin moves index).destination ∧ pending.is64BitMove = width moves index ∧
        state.holder moves index = pending.source := by
  obtain ⟨index, inRange, performed, carries, wide⟩ := invariant.pending pending member
  exact ⟨index, inRange, performed, carries, wide,
    State.holder_of_pending invariant.pendingNodup performed member carries⟩

/-- **Under the invariant `IsBlockedByMoves` asks whether a value still to be moved
is read from the location**: by a move not yet performed or by a pending move. -/
theorem isBlockedByMoves_iff_reads {state : State} (invariant : Invariant moves temps store state)
    {loc : Location} (relevant : Relevant moves temps loc) :
    state.isBlockedByMoves loc = true ↔
      (∃ index < moves.length, (state.moveAt index).source ≠ .noLocation ∧ (state.moveAt index).source = loc) ∨
        ∃ pending ∈ state.pendingMoves, pending.source = loc := by
  rw [State.isBlockedByMoves_iff]
  constructor
  · rintro (⟨pending, member, blocks⟩ | ⟨move, member, blocks⟩)
    · obtain ⟨index, inRange, -, -, -, holds⟩ := invariant.holder_of_mem_pendingMoves member
      have keeps := (invariant.keeps index inRange).1
      rw [holds] at keeps
      rw [MoveOperands.blocks_iff, overlapsWith_iff admissible keeps relevant] at blocks
      exact Or.inr ⟨pending, member, blocks.2⟩
    · obtain ⟨index, inRange, rfl⟩ := state.exists_moveAt_eq_of_mem member
      rw [MoveOperands.blocks_iff] at blocks
      have keeps := (invariant.keeps index (invariant.length ▸ inRange)).1
      rw [State.holder_of_source_ne blocks.1] at keeps
      rw [overlapsWith_iff admissible keeps relevant] at blocks
      exact Or.inl ⟨index, invariant.length ▸ inRange, blocks⟩
  · rintro (⟨index, inRange, valid, rfl⟩ | ⟨pending, member, rfl⟩)
    · refine Or.inr ⟨_, state.moveAt_mem (invariant.length ▸ inRange), ?_⟩
      rw [MoveOperands.blocks_iff]
      exact ⟨valid, Location.overlapsWith_self _⟩
    · obtain ⟨index, inRange, -, -, -, holds⟩ := invariant.holder_of_mem_pendingMoves member
      have keeps := (invariant.keeps index inRange).2.1
      rw [holds] at keeps
      refine Or.inl ⟨pending, member, ?_⟩
      rw [MoveOperands.blocks_iff]
      exact ⟨keeps.ne_noLocation, Location.overlapsWith_self _⟩

/-- A location is vacant when no move still to be performed and no pending move
reads it, and it is the destination of no performed move whose value has arrived. -/
theorem Invariant.vacant_of_unblocked {state : State} (invariant : Invariant moves temps store state)
    {loc : Location} (relevant : Relevant moves temps loc) (free : state.isBlockedByMoves loc = false)
    (undelivered : ∀ index < moves.length, (state.moveAt index).source = .noLocation →
      (origin moves index).destination = loc → ∃ pending ∈ state.pendingMoves, pending.destination = loc) :
    Vacant moves state loc := by
  have unread : ¬ ((∃ index < moves.length, (state.moveAt index).source ≠ .noLocation ∧
      (state.moveAt index).source = loc) ∨ ∃ pending ∈ state.pendingMoves, pending.source = loc) :=
    fun reads => by simp [(isBlockedByMoves_iff_reads admissible invariant relevant).mpr reads] at free
  intro index inRange same
  by_cases performed : (state.moveAt index).source = .noLocation
  · by_cases carried : ∃ pending ∈ state.pendingMoves, pending.destination = (origin moves index).destination
    · obtain ⟨pending, member, carries⟩ := carried
      rw [State.holder_of_pending invariant.pendingNodup performed member carries] at same
      exact unread (Or.inr ⟨pending, member, same⟩)
    · simp only [not_exists, not_and] at carried
      rw [State.holder_of_not_pending performed carried] at same
      obtain ⟨pending, member, carries⟩ := undelivered index inRange performed same
      exact carried pending member (carries.trans same.symm)
  · rw [State.holder_of_source_ne performed] at same
    exact unread (Or.inl ⟨index, inRange, performed, same⟩)

end Transfer

end Art.Compiler.Optimizing.ParallelMoveResolverNoSwap
