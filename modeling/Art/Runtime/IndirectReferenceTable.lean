import Mathlib
import Art.Machine.RangeCount

/-!
# The indirect reference table

An `IndirectReferenceTable` holds the objects that JNI local, global and weak
global references stand for. Its entries up to the top index are in use; a null
entry below the top is a hole. References are added and removed in segments: a
segment starts at the top index of the moment it is pushed, its cookie, and every
`Add` and `Remove` receives the cookie of the current segment. Popping a segment
sets the top back to its cookie.

The table counts the holes of the current segment so that `Add` knows whether to
scan for one. The count is not saved with a segment: `RecoverHoles` counts the
nulls again unless `last_known_previous_state_` says that the cached count is that
of the current segment. After `RecoverHoles` the count is the number of nulls
from the cookie to the top (`recoverHoles_eq`), `Add` fills the highest hole or
appends (`add_spec`), and `Remove` nulls an entry and, for the top one, lowers the
top over the holes below it (`remove_spec`).

An entry keeps a serial that `Add` advances, and an indirect reference carries
the index of its entry, the serial and the kind of the table; a reference whose
serial is not its entry's is stale and rejected. The word of an indirect reference
packs the three fields without overlap, so it is modelled by them. An entry keeps
the references of its last `kIRTPrevCount` serials for debugging, but only the one
at its serial is ever read, so an entry here is its serial and that reference.

A failed check aborts the runtime without `-Xcheck:jni` and makes the operation
fail with it; an abort, like every `LOG(FATAL)`, is `none`.
-/

set_option autoImplicit false

namespace Art.Runtime

open Art.Machine

variable {α : Type}

/-- `kIRTPrevCount` of a release build. -/
def kIRTPrevCount : Nat := 3

/-- `kMaxTableSizeInBytes / sizeof(IrtEntry)`: 128 MiB of entries of four words. -/
def kMaxEntries : Nat := 128 * 1024 * 1024 / ((1 + kIRTPrevCount) * 4)

/-- `IndirectRefKind`. -/
inductive IndirectRefKind
  | handleScopeOrInvalid
  | localReference
  | globalReference
  | weakGlobalReference
  deriving DecidableEq, Repr

/-- An indirect reference: the index of its entry, a serial and a kind. -/
structure IndirectRef where
  index : Nat
  serial : Nat
  kind : IndirectRefKind
  deriving DecidableEq, Repr

/-- The cookie of the first segment. -/
def kIRTFirstSegment : Nat := 0

/-- The null reference. -/
def IndirectRef.null : IndirectRef := ⟨0, 0, .handleScopeOrInvalid⟩

/-- `IrtEntry`: a serial below `kIRTPrevCount` and the reference at that serial. -/
structure IrtEntry (α : Type) where
  serial : Nat
  reference : Option α
  serial_lt : serial < kIRTPrevCount

namespace IrtEntry

/-- The entry of a fresh table, mapped as zeroes. -/
def zero : IrtEntry α := ⟨0, none, by decide⟩

/-- `IrtEntry::Add`: advance the serial, wrapping at `kIRTPrevCount`, and put `obj`
at it. -/
def add (entry : IrtEntry α) (obj : α) : IrtEntry α :=
  if wrap : entry.serial + 1 = kIRTPrevCount then ⟨0, some obj, by decide⟩
  else ⟨entry.serial + 1, some obj, by have := entry.serial_lt; omega⟩

/-- `IrtEntry::SetReference`, and the null that `Remove` stores. -/
def setReference (entry : IrtEntry α) (obj : Option α) : IrtEntry α :=
  { entry with reference := obj }

@[simp] theorem reference_add (entry : IrtEntry α) (obj : α) : (entry.add obj).reference = some obj := by
  unfold add
  split <;> rfl

@[simp] theorem reference_setReference (entry : IrtEntry α) (obj : Option α) :
    (entry.setReference obj).reference = obj := rfl

@[simp] theorem serial_setReference (entry : IrtEntry α) (obj : Option α) :
    (entry.setReference obj).serial = entry.serial := rfl

end IrtEntry

/-- The state of an `IndirectReferenceTable`: the top index (`segment_state_`), the
entries, the kind of its references, the capacity, the cached hole count and the
cookie it was counted for. -/
structure IndirectReferenceTable (α : Type) where
  segmentState : Nat
  table : Nat → IrtEntry α
  kind : IndirectRefKind
  maxEntries : Nat
  resizable : Bool
  currentNumHoles : Nat
  lastKnownPreviousState : Nat

namespace IndirectReferenceTable

/-- The constructor: no entry in use, on freshly mapped zeroes. A table of no
reference kind, or of more than `kMaxEntries` entries, fails its `CHECK`. -/
def create (maxCount : Nat) (desiredKind : IndirectRefKind) (resizable : Bool) :
    Option (IndirectReferenceTable α) :=
  if desiredKind = .handleScopeOrInvalid then none
  else if maxCount > kMaxEntries then none
  else some
    { segmentState := kIRTFirstSegment
      table := fun _ => IrtEntry.zero
      kind := desiredKind
      maxEntries := maxCount
      resizable := resizable
      currentNumHoles := 0
      lastKnownPreviousState := kIRTFirstSegment }

/-- `CountNullEntries`: the null entries from `from` up to `to`. -/
def countNullEntries (table : Nat → IrtEntry α) (fromIndex toIndex : Nat) : Nat :=
  (List.range' fromIndex (toIndex - fromIndex)).countP fun index => (table index).reference.isNone

/-- `RecoverHoles`: count the holes again unless the cached count is known to be
that of the segment from `prevState`. -/
def recoverHoles (irt : IndirectReferenceTable α) (prevState : Nat) : IndirectReferenceTable α :=
  if irt.lastKnownPreviousState ≥ irt.segmentState ∨ irt.lastKnownPreviousState < prevState then
    { irt with
      currentNumHoles := countNullEntries irt.table prevState irt.segmentState
      lastKnownPreviousState := prevState }
  else irt

/-- `ToIndirectRef`. -/
def toIndirectRef (irt : IndirectReferenceTable α) (tableIndex : Nat) : IndirectRef :=
  ⟨tableIndex, (irt.table tableIndex).serial, irt.kind⟩

/-- `CheckEntry`: `iref` is the reference of the entry at `idx`. -/
def checkEntry (irt : IndirectReferenceTable α) (iref : IndirectRef) (idx : Nat) : Bool :=
  irt.toIndirectRef idx == iref

/-- `AbortIfNoCheckJNI` on a failed check: abort, or fail with `-Xcheck:jni`. -/
def abortIfNoCheckJni (checkJni : Bool) : Option Bool :=
  if checkJni then some false else none

/-- `Resize`, which only grows the table: a size not above the capacity fails its
`CHECK`, and one above `kMaxEntries` is refused (`some none`, its `false`). The new
entries are fresh zeroes, as the entries past the old capacity always are; mapping them
is taken to succeed. -/
def resize (irt : IndirectReferenceTable α) (newSize : Nat) : Option (Option (IndirectReferenceTable α)) :=
  if newSize ≤ irt.maxEntries then none
  else if newSize > kMaxEntries then some none
  else some (some { irt with maxEntries := newSize })

/-- The scan of `Add` for a hole, down from the entry below `index`. -/
def scanForHole (table : Nat → IrtEntry α) : Nat → Nat
  | 0 => 0
  | index + 1 => if (table index).reference.isNone then index else scanForHole table index

/-- The start of `Add`: a full table doubles its capacity. One that may not grow, or
cannot, is a `LOG(FATAL)`. -/
def growIfFull (irt : IndirectReferenceTable α) : Option (IndirectReferenceTable α) :=
  if irt.segmentState = irt.maxEntries then
    if !irt.resizable then none
    else if (2 ^ 64 - 1) / 2 < irt.maxEntries then none
    -- a refused resize is as fatal as a failed check
    else (irt.resize (irt.maxEntries * 2)).join
  else some irt

/-- `Add` with the cookie `previousState`: the table and the new reference. -/
def add (irt : IndirectReferenceTable α) (previousState : Nat) (obj : α) :
    Option (IndirectReferenceTable α × IndirectRef) := do
  let topIndex := irt.segmentState
  let irt ← irt.growIfFull
  let irt := irt.recoverHoles previousState
  if irt.currentNumHoles > 0 then
    -- the first hole below the top
    let index := scanForHole irt.table (topIndex - 1)
    let irt := { irt with
      currentNumHoles := irt.currentNumHoles - 1
      table := Function.update irt.table index ((irt.table index).add obj) }
    some (irt, irt.toIndirectRef index)
  else
    let index := topIndex
    let irt := { irt with
      segmentState := topIndex + 1
      table := Function.update irt.table index ((irt.table index).add obj) }
    some (irt, irt.toIndirectRef index)

/-- The loop of `Remove` that lowers the top over the holes below a removed top
entry, from `collapse_top_index` before its decrement and the holes left. Its
first argument is never `0`, since it starts above the removed entry. -/
def collapseHoles (table : Nat → IrtEntry α) (bottomIndex : Nat) : Nat → Nat → Nat × Nat
  | 0, holes => (0, holes)
  | collapseTopIndex + 1, holes =>
      if collapseTopIndex > bottomIndex ∧ holes ≠ 0 then
        if (table (collapseTopIndex - 1)).reference.isSome then (collapseTopIndex, holes)
        else collapseHoles table bottomIndex collapseTopIndex (holes - 1)
      else (collapseTopIndex, holes)

/-- `Remove` with the cookie `previousState`: the table and whether an entry was
removed. `inHandleScope` says whether a reference of no table kind is a handle of
the current thread. -/
def remove (irt : IndirectReferenceTable α) (checkJni : Bool) (inHandleScope : IndirectRef → Bool)
    (previousState : Nat) (iref : IndirectRef) : Option (IndirectReferenceTable α × Bool) :=
  let topIndex := irt.segmentState
  let bottomIndex := previousState
  if iref.kind = .handleScopeOrInvalid ∧ inHandleScope iref then some (irt, true)
  else
    let idx := iref.index
    -- wrong segment, or a stale reference
    if idx < bottomIndex then some (irt, false)
    else if idx ≥ topIndex then some (irt, false)
    else
      let irt := irt.recoverHoles previousState
      if idx = topIndex - 1 then
        if !irt.checkEntry iref idx then (abortIfNoCheckJni checkJni).map fun removed => (irt, removed)
        else
          let table := Function.update irt.table idx ((irt.table idx).setReference none)
          let (collapseTopIndex, holes) := collapseHoles table bottomIndex topIndex irt.currentNumHoles
          some ({ irt with table, segmentState := collapseTopIndex, currentNumHoles := holes }, true)
      else if (irt.table idx).reference.isNone then some (irt, false)
      else if !irt.checkEntry iref idx then (abortIfNoCheckJni checkJni).map fun removed => (irt, removed)
      else
        some ({ irt with
          table := Function.update irt.table idx ((irt.table idx).setReference none)
          currentNumHoles := irt.currentNumHoles + 1 }, true)

/-- `GetChecked`. -/
def getChecked (irt : IndirectReferenceTable α) (checkJni : Bool) (iref : IndirectRef) : Option Bool :=
  if iref = .null then some false
  else if iref.kind = .handleScopeOrInvalid then abortIfNoCheckJni checkJni
  else if iref.index ≥ irt.segmentState then abortIfNoCheckJni checkJni
  else if (irt.table iref.index).reference.isNone then abortIfNoCheckJni checkJni
  else if !irt.checkEntry iref iref.index then abortIfNoCheckJni checkJni
  else some true

/-- `Get`: the object, null when the check fails. -/
def get (irt : IndirectReferenceTable α) (checkJni : Bool) (iref : IndirectRef) : Option (Option α) :=
  (irt.getChecked checkJni iref).map fun valid => if valid then (irt.table iref.index).reference else none

/-- `Update` to the object `obj`; its callers never pass null. -/
def update (irt : IndirectReferenceTable α) (checkJni : Bool) (iref : IndirectRef) (obj : α) :
    Option (IndirectReferenceTable α) :=
  (irt.getChecked checkJni iref).map fun valid =>
    if valid then { irt with table := Function.update irt.table iref.index ((irt.table iref.index).setReference obj) }
    else irt

/-- `GetSegmentState`. -/
def getSegmentState (irt : IndirectReferenceTable α) : Nat := irt.segmentState

/-- `SetSegmentState`. -/
def setSegmentState (irt : IndirectReferenceTable α) (newState : Nat) : IndirectReferenceTable α :=
  { irt with segmentState := newState }

/-- `EnsureFreeCapacity`: room for `freeCapacity` more entries above the top, growing a
resizable table to exactly that when it has not. -/
def ensureFreeCapacity (irt : IndirectReferenceTable α) (freeCapacity : Nat) :
    Option (Bool × IndirectReferenceTable α) :=
  let topIndex := irt.segmentState
  if topIndex < irt.maxEntries ∧ topIndex + freeCapacity ≤ irt.maxEntries then some (true, irt)
  else if !irt.resizable then some (false, irt)
  -- would this overflow?
  else if 2 ^ 64 - 1 - freeCapacity < topIndex then some (false, irt)
  else (irt.resize (topIndex + freeCapacity)).map fun
    | some resized => (true, resized)
    | none => (false, irt)

/-- `FreeCapacity`. -/
def freeCapacity (irt : IndirectReferenceTable α) : Nat := irt.maxEntries - irt.segmentState

/-! ## Counting the holes -/

section Counting

variable (table : Nat → IrtEntry α)

/-- `CountNullEntries` counts the indices of the range whose entry is null. -/
theorem countNullEntries_eq_countRange (low high : Nat) :
    countNullEntries table low high = countRange (fun index => (table index).reference.isNone) low high := rfl

@[simp] theorem countNullEntries_self (index : Nat) : countNullEntries table index index = 0 :=
  countRange_self _ index

/-- The count over a range is the sum of the counts over its two parts. -/
theorem countNullEntries_add {low middle high : Nat} (lower : low ≤ middle) (upper : middle ≤ high) :
    countNullEntries table low high = countNullEntries table low middle + countNullEntries table middle high :=
  countRange_add _ lower upper

/-- The count over one entry. -/
theorem countNullEntries_single (index : Nat) :
    countNullEntries table index (index + 1) = if (table index).reference.isNone then 1 else 0 :=
  countRange_single _ index

/-- The count depends only on the entries it looks at. -/
theorem countNullEntries_congr {table' : Nat → IrtEntry α} {low high : Nat}
    (same : ∀ index, low ≤ index → index < high → (table index).reference.isNone = (table' index).reference.isNone) :
    countNullEntries table low high = countNullEntries table' low high :=
  countRange_congr _ same

/-- No hole in a range: every entry of it is in use. -/
theorem countNullEntries_eq_zero_iff {low high : Nat} :
    countNullEntries table low high = 0 ↔ ∀ index, low ≤ index → index < high → (table index).reference.isSome := by
  rw [countNullEntries_eq_countRange, countRange_eq_zero_iff]
  simp only [Option.isNone_eq_false_iff]

/-- A range with holes has one. -/
theorem exists_null_of_countNullEntries_pos {low high : Nat} (positive : 0 < countNullEntries table low high) :
    ∃ index, low ≤ index ∧ index < high ∧ (table index).reference = none := by
  obtain ⟨index, low_le, lt_high, null⟩ := exists_of_countRange_pos _ positive
  exact ⟨index, low_le, lt_high, Option.isNone_iff_eq_none.1 null⟩

/-- The count after one entry of the range is replaced. -/
theorem countNullEntries_update {low high index : Nat} (lower : low ≤ index) (upper : index < high)
    (entry : IrtEntry α) :
    countNullEntries (Function.update table index entry) low high =
      countNullEntries table low index + (if entry.reference.isNone then 1 else 0) +
        countNullEntries table (index + 1) high := by
  have replaced := countRange_update (fun i => (table i).reference.isNone) lower upper
    (q := fun i => (Function.update table index entry i).reference.isNone)
    (fun i other => by simp only [Function.update_of_ne other])
  simp only [Function.update_self] at replaced
  exact replaced

end Counting

/-! ## The segment invariant and `RecoverHoles` -/

/-- What holds of the segment from `bottom` to `top`, for the current segment with
the top of the table and for each enclosing one with the cookie of the segment
above it: when the cached count is marked as counted from this segment's cookie,
below its top, it is the number of holes of the segment; and the entry below its
top is in use. -/
structure SegmentInv (irt : IndirectReferenceTable α) (bottom top : Nat) : Prop where
  le : bottom ≤ top
  cached : bottom ≤ irt.lastKnownPreviousState → irt.lastKnownPreviousState < top →
    irt.lastKnownPreviousState = bottom ∧ irt.currentNumHoles = countNullEntries irt.table bottom top
  topInUse : bottom < top → (irt.table (top - 1)).reference.isSome

/-- The invariant does not read the capacity. -/
theorem SegmentInv.withMaxEntries {irt : IndirectReferenceTable α} {bottom top : Nat} (inv : SegmentInv irt bottom top)
    (maxEntries : Nat) : SegmentInv { irt with maxEntries } bottom top :=
  ⟨inv.le, inv.cached, inv.topInUse⟩

/-- The invariant of a segment below `limit` survives a change that writes no entry
below `limit` and marks the cached count as counted from `limit` or above: the
count is then not this segment's. -/
theorem SegmentInv.of_below {irt irt' : IndirectReferenceTable α} {bottom top limit : Nat}
    (inv : SegmentInv irt bottom top) (below : top ≤ limit) (kept : ∀ i < limit, irt'.table i = irt.table i)
    (known : limit ≤ irt'.lastKnownPreviousState) : SegmentInv irt' bottom top where
  le := inv.le
  cached := fun _ above => absurd above (by omega)
  topInUse := fun nonempty => by
    rw [kept _ (by omega)]
    exact inv.topInUse nonempty

/-- The invariant reads which entries are null, not what they hold. -/
theorem SegmentInv.of_isNone {irt irt' : IndirectReferenceTable α} {bottom top : Nat} (inv : SegmentInv irt bottom top)
    (nulls : ∀ i, (irt'.table i).reference.isNone = (irt.table i).reference.isNone)
    (holes : irt'.currentNumHoles = irt.currentNumHoles)
    (known : irt'.lastKnownPreviousState = irt.lastKnownPreviousState) : SegmentInv irt' bottom top where
  le := inv.le
  cached := fun low high => by
    rw [known] at low high ⊢
    obtain ⟨same, counted⟩ := inv.cached low high
    exact ⟨same, by rw [holes, counted]; exact countNullEntries_congr _ fun i _ _ => (nulls i).symm⟩
  topInUse := fun nonempty => by
    rw [← Option.not_isNone, nulls, Option.not_isNone]
    exact inv.topInUse nonempty

/-- After `RecoverHoles` from the cookie of the current segment, the cached count is
its number of holes: either it is counted again, or the cookie it was counted from
is this segment's. -/
theorem recoverHoles_eq {irt : IndirectReferenceTable α} {bottom : Nat} (inv : SegmentInv irt bottom irt.segmentState) :
    irt.recoverHoles bottom =
      { irt with
        currentNumHoles := countNullEntries irt.table bottom irt.segmentState
        lastKnownPreviousState := bottom } := by
  unfold recoverHoles
  split_ifs with recount
  · rfl
  · simp only [not_or, not_le, not_lt] at recount
    obtain ⟨known, holes⟩ := inv.cached recount.2 recount.1
    subst known
    rw [← holes]

@[simp] theorem table_recoverHoles (irt : IndirectReferenceTable α) (prevState : Nat) :
    (irt.recoverHoles prevState).table = irt.table := by
  unfold recoverHoles
  split <;> rfl

@[simp] theorem segmentState_recoverHoles (irt : IndirectReferenceTable α) (prevState : Nat) :
    (irt.recoverHoles prevState).segmentState = irt.segmentState := by
  unfold recoverHoles
  split <;> rfl

@[simp] theorem kind_recoverHoles (irt : IndirectReferenceTable α) (prevState : Nat) :
    (irt.recoverHoles prevState).kind = irt.kind := by
  unfold recoverHoles
  split <;> rfl

/-- `RecoverHoles` from the cookie of the current segment keeps its invariant, and
marks the count as that of the segment. -/
theorem SegmentInv.recoverHoles {irt : IndirectReferenceTable α} {bottom : Nat}
    (inv : SegmentInv irt bottom irt.segmentState) :
    SegmentInv (irt.recoverHoles bottom) bottom irt.segmentState ∧
      (irt.recoverHoles bottom).lastKnownPreviousState = bottom ∧
      (irt.recoverHoles bottom).currentNumHoles = countNullEntries irt.table bottom irt.segmentState := by
  rw [recoverHoles_eq inv]
  exact ⟨⟨inv.le, fun _ _ => ⟨rfl, rfl⟩, inv.topInUse⟩, rfl, rfl⟩

/-- Growing changes only the capacity. -/
theorem growIfFull_eq {irt grown : IndirectReferenceTable α} (grew : irt.growIfFull = some grown) :
    grown = { irt with maxEntries := grown.maxEntries } := by
  unfold growIfFull resize at grew
  split_ifs at grew <;> cases grew <;> rfl

/-! ## `Add` -/

section Add

variable (table : Nat → IrtEntry α)

/-- The scan finds a hole below `index` when there is one at or above `low`. -/
theorem scanForHole_spec {low index : Nat} (hole : ∃ i, low ≤ i ∧ i < index ∧ (table i).reference = none) :
    low ≤ scanForHole table index ∧ scanForHole table index < index ∧
      (table (scanForHole table index)).reference = none := by
  induction index with
  | zero =>
      obtain ⟨i, _, below, _⟩ := hole
      omega
  | succ index ih =>
      obtain ⟨i, above, below, isNull⟩ := hole
      by_cases null : (table index).reference = none
      · have found : (table index).reference.isNone = true := by simp [null]
        simp only [scanForHole, found, if_true]
        exact ⟨by omega, by omega, null⟩
      · have inUse : (table index).reference.isNone = false := by
          simpa [← Option.ne_none_iff_isSome] using null
        simp only [scanForHole, inUse, Bool.false_eq_true, if_false]
        have other : i ≠ index := fun same => null (same ▸ isNull)
        obtain ⟨low_le, lt_index, found⟩ := ih ⟨i, above, by omega, isNull⟩
        exact ⟨low_le, by omega, found⟩

end Add

/-- **`Add`.** From the current segment, `Add` writes `obj` into a hole of the
segment or into the entry at the top, raising the top; it writes no other entry,
and it leaves the cached count at the number of holes of the segment, marked as
counted from its cookie. -/
theorem add_spec {irt irt' : IndirectReferenceTable α} {bottom : Nat} {obj : α} {iref : IndirectRef}
    (inv : SegmentInv irt bottom irt.segmentState) (added : irt.add bottom obj = some (irt', iref)) :
    ∃ index, bottom ≤ index ∧ index ≤ irt.segmentState ∧
      (index < irt.segmentState → (irt.table index).reference = none) ∧
      irt'.table = Function.update irt.table index ((irt.table index).add obj) ∧
      irt'.segmentState = (if index = irt.segmentState then irt.segmentState + 1 else irt.segmentState) ∧
      irt'.currentNumHoles = countNullEntries irt'.table bottom irt'.segmentState ∧
      irt'.lastKnownPreviousState = bottom ∧ irt'.kind = irt.kind ∧ iref = irt'.toIndirectRef index := by
  simp only [add, Option.bind_eq_bind, Option.bind_eq_some_iff] at added
  obtain ⟨grown, grew, added⟩ := added
  rw [growIfFull_eq grew, recoverHoles_eq (inv.withMaxEntries grown.maxEntries)] at added
  by_cases positive : 0 < countNullEntries irt.table bottom irt.segmentState
  · -- a hole below the entry at the top, which is in use
    rw [if_pos positive] at added
    cases added
    have nonempty : bottom < irt.segmentState := by
      by_contra empty
      have zero : irt.segmentState - bottom = 0 := by omega
      simp only [countNullEntries, zero, List.range'_zero, List.countP_nil] at positive
      omega
    have inUse := inv.topInUse nonempty
    have lower : countNullEntries irt.table bottom irt.segmentState =
        countNullEntries irt.table bottom (irt.segmentState - 1) := by
      have last := countNullEntries_single irt.table (irt.segmentState - 1)
      rw [Nat.sub_add_cancel (by omega : 1 ≤ irt.segmentState)] at last
      rw [countNullEntries_add irt.table (Nat.le_sub_one_of_lt nonempty) (Nat.sub_le _ 1), last]
      simp [Option.isSome_iff_ne_none.1 inUse]
    obtain ⟨low_le, lt_top, null⟩ := scanForHole_spec irt.table
      (exists_null_of_countNullEntries_pos irt.table (lower ▸ positive))
    refine ⟨_, low_le, by omega, fun _ => null, rfl, by simp only; rw [if_neg (by omega)], ?_, rfl, rfl, rfl⟩
    -- the filled hole is one hole less
    have filled := countNullEntries_update irt.table low_le (show _ < irt.segmentState by omega)
      ((irt.table (scanForHole irt.table (irt.segmentState - 1))).add obj)
    have lowerPart := countNullEntries_add irt.table low_le (show _ ≤ irt.segmentState by omega)
    have upperPart := countNullEntries_add irt.table (Nat.le_add_right (scanForHole irt.table (irt.segmentState - 1)) 1)
      (show _ + 1 ≤ irt.segmentState by omega)
    have hole := countNullEntries_single irt.table (scanForHole irt.table (irt.segmentState - 1))
    simp only [IrtEntry.reference_add, Option.isNone_some, Bool.false_eq_true, if_false] at filled
    simp only [null, Option.isNone_none, if_true] at hole
    simp only
    omega
  · -- no hole: the entry at the top
    rw [if_neg positive] at added
    cases added
    refine ⟨irt.segmentState, inv.le, le_refl _, fun below => absurd below (Nat.lt_irrefl _), rfl, by simp, ?_, rfl,
      rfl, rfl⟩
    have appended := countNullEntries_update irt.table inv.le (Nat.lt_add_one _)
      ((irt.table irt.segmentState).add obj)
    simp only [IrtEntry.reference_add, Option.isNone_some, Bool.false_eq_true, if_false, countNullEntries_self]
      at appended
    simp only
    omega

/-! ## `Remove` -/

/-- The loop of `Remove` stops at the first entry in use below the removed one, or
at the cookie, with the count of the holes below where it stops. At each round the
entries from `collapseTopIndex - 1` up are holes already passed, and `holes` counts
the holes below them; the induction is on `collapseTopIndex`. -/
theorem collapseHoles_spec (table : Nat → IrtEntry α) (bottom : Nat) :
    ∀ collapseTopIndex holes, bottom < collapseTopIndex →
      holes = countNullEntries table bottom (collapseTopIndex - 1) →
      bottom ≤ (collapseHoles table bottom collapseTopIndex holes).1 ∧
        (collapseHoles table bottom collapseTopIndex holes).1 < collapseTopIndex ∧
        (collapseHoles table bottom collapseTopIndex holes).2 =
          countNullEntries table bottom (collapseHoles table bottom collapseTopIndex holes).1 ∧
        (∀ i, (collapseHoles table bottom collapseTopIndex holes).1 ≤ i → i < collapseTopIndex - 1 →
          (table i).reference = none) ∧
        (bottom < (collapseHoles table bottom collapseTopIndex holes).1 →
          (table ((collapseHoles table bottom collapseTopIndex holes).1 - 1)).reference.isSome)
  | 0, _, positive, _ => absurd positive (Nat.not_lt_zero _)
  | collapseTopIndex + 1, holes, above, counted => by
      rw [Nat.add_sub_cancel] at counted
      simp only [collapseHoles]
      by_cases going : collapseTopIndex > bottom ∧ holes ≠ 0
      · rw [if_pos going]
        by_cases inUse : (table (collapseTopIndex - 1)).reference.isSome
        · -- stop at an entry in use
          rw [if_pos inUse]
          exact ⟨by omega, by omega, counted, fun i low high => absurd high (by omega), fun _ => inUse⟩
        · -- pass a hole
          rw [if_neg inUse]
          have null : (table (collapseTopIndex - 1)).reference = none := by simpa using inUse
          have last := countNullEntries_single table (collapseTopIndex - 1)
          rw [Nat.sub_add_cancel (by omega : 1 ≤ collapseTopIndex)] at last
          have split := countNullEntries_add table (show bottom ≤ collapseTopIndex - 1 by omega)
            (Nat.sub_le collapseTopIndex 1)
          simp only [null, Option.isNone_none, if_true] at last
          obtain ⟨low, lt, count, holesPassed, stop⟩ :=
            collapseHoles_spec table bottom collapseTopIndex (holes - 1) going.1 (by omega)
          refine ⟨low, by omega, count, fun i from_ below => ?_, stop⟩
          by_cases at_last : i = collapseTopIndex - 1
          · rw [at_last]
            exact null
          · exact holesPassed i from_ (by omega)
      · -- the cookie is reached, or no hole is left
        rw [if_neg going]
        refine ⟨by omega, by omega, counted, fun i low high => absurd high (by omega), fun nonempty => ?_⟩
        have none : countNullEntries table bottom collapseTopIndex = 0 := by omega
        exact (countNullEntries_eq_zero_iff table).1 none _ (by omega) (by omega)

/-- A failed check gives `false` when it does not abort. -/
theorem eq_false_of_abortIfNoCheckJni {checkJni removed : Bool} (failed : abortIfNoCheckJni checkJni = some removed) :
    removed = false := by
  unfold abortIfNoCheckJni at failed
  split at failed <;> cases failed
  rfl

/-- `CheckEntry` passes exactly on the reference of the entry. -/
theorem checkEntry_eq_true_iff {irt : IndirectReferenceTable α} {iref : IndirectRef} {idx : Nat} :
    irt.checkEntry iref idx = true ↔ irt.toIndirectRef idx = iref :=
  beq_iff_eq

/-- `iref` is the reference of an entry in use below the top, which holds `obj`. -/
def Holds (irt : IndirectReferenceTable α) (iref : IndirectRef) (obj : α) : Prop :=
  iref.index < irt.segmentState ∧ irt.toIndirectRef iref.index = iref ∧ (irt.table iref.index).reference = some obj

namespace Holds

variable {irt irt' : IndirectReferenceTable α} {iref iref' : IndirectRef} {obj obj' : α}

theorem kind_eq (holds : Holds irt iref obj) : iref.kind = irt.kind := by
  rw [← holds.2.1]
  rfl

/-- Two references that hold objects at one index are one reference. -/
theorem eq_of_index (holds : Holds irt iref obj) (holds' : Holds irt iref' obj') (same : iref.index = iref'.index) :
    iref = iref' :=
  calc iref = irt.toIndirectRef iref.index := holds.2.1.symm
    _ = irt.toIndirectRef iref'.index := by rw [same]
    _ = iref' := holds'.2.1

/-- A reference keeps its object where its entry, the kind and its place below the
top are kept. -/
theorem of_agree (holds : Holds irt iref obj) (below : iref.index < irt'.segmentState)
    (entry : irt'.table iref.index = irt.table iref.index) (kind : irt'.kind = irt.kind) : Holds irt' iref obj := by
  obtain ⟨_, named, stored⟩ := holds
  refine ⟨below, ?_, by rw [entry]; exact stored⟩
  rw [← named]
  simp only [toIndirectRef, entry, kind]

end Holds

section Remove

variable {irt irt' : IndirectReferenceTable α} {checkJni : Bool} {inHandleScope : IndirectRef → Bool}
  {bottom : Nat} {iref : IndirectRef} {removed : Bool}

/-- A handle of the current thread is removed without a look at the table. -/
theorem remove_of_handle (handle : iref.kind = .handleScopeOrInvalid ∧ inHandleScope iref = true) :
    irt.remove checkJni inHandleScope bottom iref = some (irt, true) := by
  rw [remove, if_pos handle]

/-- A reference of another segment, or above the top, is rejected before the count
is recovered. -/
theorem remove_of_outside (notHandle : ¬(iref.kind = .handleScopeOrInvalid ∧ inHandleScope iref = true))
    (outside : iref.index < bottom ∨ irt.segmentState ≤ iref.index) :
    irt.remove checkJni inHandleScope bottom iref = some (irt, false) := by
  unfold remove
  simp only [if_neg notHandle]
  by_cases below : iref.index < bottom
  · rw [if_pos below]
  · rw [if_neg below, if_pos (outside.resolve_left below)]

/-- What `Remove` leaves when it removes `iref`, the reference of an entry in use of
the segment from `bottom`: that entry nulled and no other written, the top lowered
over the holes below a removed top entry, to the cookie at the lowest, and the
cached count that of the segment. -/
structure Removed (irt irt' : IndirectReferenceTable α) (bottom : Nat) (iref : IndirectRef) : Prop where
  inside : bottom ≤ iref.index
  holds : ∃ obj, Holds irt iref obj
  table : irt'.table = Function.update irt.table iref.index ((irt.table iref.index).setReference none)
  top_ge : bottom ≤ irt'.segmentState
  top_le : irt'.segmentState ≤ irt.segmentState
  collapsed : ∀ i, irt'.segmentState ≤ i → i < irt.segmentState → (irt'.table i).reference = none
  counted : irt'.currentNumHoles = countNullEntries irt'.table bottom irt'.segmentState
  known : irt'.lastKnownPreviousState = bottom
  kind : irt'.kind = irt.kind
  topInUse : bottom < irt'.segmentState → (irt'.table (irt'.segmentState - 1)).reference.isSome

/-- **`Remove`** of a reference inside the current segment. Either the reference
holds no object and is rejected, after the count is recovered; or it holds one and
is removed. -/
theorem remove_spec (inv : SegmentInv irt bottom irt.segmentState)
    (notHandle : ¬(iref.kind = .handleScopeOrInvalid ∧ inHandleScope iref = true))
    (inside : bottom ≤ iref.index) (belowTop : iref.index < irt.segmentState)
    (result : irt.remove checkJni inHandleScope bottom iref = some (irt', removed)) :
    (removed = false ∧ (∀ obj, ¬Holds irt iref obj) ∧ irt' = irt.recoverHoles bottom) ∨
      (removed = true ∧ Removed irt irt' bottom iref) := by
  have notBelow : ¬iref.index < bottom := Nat.not_lt.2 inside
  have notAbove : ¬iref.index ≥ irt.segmentState := Nat.not_le.2 belowTop
  unfold remove at result
  simp only [if_neg notHandle, if_neg notBelow, if_neg notAbove, recoverHoles_eq inv] at result
  -- a rejected reference holds no object: its entry is null, or its serial is another's
  have rejected : (irt.table iref.index).reference = none ∨ irt.toIndirectRef iref.index ≠ iref →
      ∀ obj, ¬Holds irt iref obj := by
    rintro (null | stale) obj ⟨_, named, stored⟩
    · rw [null] at stored
      cases stored
    · exact stale named
  have notNamed : irt.checkEntry iref iref.index = false → irt.toIndirectRef iref.index ≠ iref :=
    fun stale named => by
      rw [checkEntry_eq_true_iff.2 named] at stale
      exact Bool.noConfusion stale
  by_cases top : iref.index = irt.segmentState - 1
  · rw [if_pos top] at result
    by_cases stale : irt.checkEntry iref iref.index = false
    · have other := notNamed stale
      simp only [checkEntry, toIndirectRef] at stale result
      simp only [stale, Bool.not_false, if_true, Option.map_eq_some_iff] at result
      obtain ⟨removedValue, failed, same⟩ := result
      cases same
      exact .inl ⟨eq_false_of_abortIfNoCheckJni failed, rejected (.inr other), (recoverHoles_eq inv).symm⟩
    have named : irt.toIndirectRef iref.index = iref := checkEntry_eq_true_iff.1 (by simpa using stale)
    simp only [checkEntry, toIndirectRef] at stale result
    simp only [stale, Bool.not_true, Bool.false_eq_true, if_false] at result
    -- the entry below the top is in use, and nulling it adds it to the holes below
    have inUse := inv.topInUse (by omega)
    rw [← top] at inUse
    obtain ⟨obj, stored⟩ := Option.isSome_iff_exists.1 inUse
    set table' := Function.update irt.table iref.index ((irt.table iref.index).setReference none)
    have counted : countNullEntries irt.table bottom irt.segmentState =
        countNullEntries table' bottom (irt.segmentState - 1) := by
      have last := countNullEntries_single irt.table iref.index
      rw [top, Nat.sub_add_cancel (by omega : 1 ≤ irt.segmentState)] at last
      rw [countNullEntries_add irt.table (by omega : bottom ≤ irt.segmentState - 1) (Nat.sub_le _ 1), last, ← top]
      simp only [Option.isSome_iff_ne_none.1 inUse, Option.isNone_iff_eq_none, if_false, Nat.add_zero]
      exact countNullEntries_congr _ fun i _ below => by
        simp only [table', Function.update_of_ne (show i ≠ iref.index by omega)]
    obtain ⟨low, lt, holes, passed, stop⟩ :=
      collapseHoles_spec table' bottom irt.segmentState _ (by omega) counted
    generalize collapseHoles table' bottom irt.segmentState (countNullEntries irt.table bottom irt.segmentState) =
      collapsed at low lt holes passed stop result
    obtain ⟨collapseTopIndex, holesLeft⟩ := collapsed
    simp only at low lt holes passed stop result
    cases result
    refine .inr ⟨rfl, inside, ⟨obj, belowTop, named, stored⟩, rfl, low, by dsimp only; omega,
      fun i from_ below => ?_, holes, rfl, rfl, stop⟩
    by_cases removedEntry : i = iref.index
    · rw [removedEntry]
      simp [table']
    · exact passed i from_ (by omega)
  · rw [if_neg top] at result
    by_cases null : (irt.table iref.index).reference.isNone
    · rw [if_pos null] at result
      cases result
      exact .inl ⟨rfl, rejected (.inl (Option.isNone_iff_eq_none.1 null)), (recoverHoles_eq inv).symm⟩
    rw [if_neg null] at result
    by_cases stale : irt.checkEntry iref iref.index = false
    · have other := notNamed stale
      simp only [checkEntry, toIndirectRef] at stale result
      simp only [stale, Bool.not_false, if_true, Option.map_eq_some_iff] at result
      obtain ⟨removedValue, failed, same⟩ := result
      cases same
      exact .inl ⟨eq_false_of_abortIfNoCheckJni failed, rejected (.inr other), (recoverHoles_eq inv).symm⟩
    have named : irt.toIndirectRef iref.index = iref := checkEntry_eq_true_iff.1 (by simpa using stale)
    simp only [checkEntry, toIndirectRef] at stale result
    simp only [stale, Bool.not_true, Bool.false_eq_true, if_false] at result
    cases result
    have inUse : (irt.table iref.index).reference.isSome := by simpa [Option.isSome_iff_ne_none] using null
    obtain ⟨obj, stored⟩ := Option.isSome_iff_exists.1 inUse
    -- a hole more below the top, whose entry stays in use
    have created := countNullEntries_update irt.table inside (belowTop) ((irt.table iref.index).setReference none)
    have split := countNullEntries_add irt.table inside (Nat.le_of_lt belowTop)
    have upper := countNullEntries_add irt.table (Nat.le_add_right iref.index 1) belowTop
    have entry := countNullEntries_single irt.table iref.index
    simp only [IrtEntry.reference_setReference, Option.isNone_none, if_true] at created
    simp only [Option.isSome_iff_ne_none.1 inUse, Option.isNone_iff_eq_none, if_false] at entry
    refine .inr ⟨rfl, inside, ⟨obj, belowTop, named, stored⟩, rfl, by dsimp only; omega, le_refl _,
      fun i low high => absurd high (by dsimp only at low; omega), ?_, rfl, rfl, fun nonempty => ?_⟩
    · dsimp only
      omega
    simp only
    rw [Function.update_of_ne (by omega)]
    exact inv.topInUse nonempty

/-- **`Remove`**, in its four outcomes: a handle is removed and a reference outside
the segment rejected, with nothing changed; a reference of the segment that holds
no object is rejected after the count is recovered; one that holds an object is
removed. -/
theorem remove_cases (inv : SegmentInv irt bottom irt.segmentState)
    (result : irt.remove checkJni inHandleScope bottom iref = some (irt', removed)) :
    (irt' = irt ∧ removed = true ∧ iref.kind = .handleScopeOrInvalid) ∨
      (irt' = irt ∧ removed = false ∧ (iref.index < bottom ∨ irt.segmentState ≤ iref.index)) ∨
      (bottom ≤ iref.index ∧ iref.index < irt.segmentState ∧ removed = false ∧ (∀ obj, ¬Holds irt iref obj) ∧
        irt' = irt.recoverHoles bottom) ∨
      (removed = true ∧ Removed irt irt' bottom iref) := by
  by_cases handle : iref.kind = .handleScopeOrInvalid ∧ inHandleScope iref = true
  · rw [remove_of_handle handle] at result
    cases result
    exact .inl ⟨rfl, rfl, handle.1⟩
  by_cases outside : iref.index < bottom ∨ irt.segmentState ≤ iref.index
  · rw [remove_of_outside handle outside] at result
    cases result
    exact .inr (.inl ⟨rfl, rfl, outside⟩)
  rcases remove_spec inv handle (by omega) (by omega) result with ⟨rejected, stale, recovered⟩ | removedCase
  · exact .inr (.inr (.inl ⟨by omega, by omega, rejected, stale, recovered⟩))
  · exact .inr (.inr (.inr removedCase))

end Remove

/-! ## `Get` and `Update` -/

section Checked

variable {irt : IndirectReferenceTable α} {checkJni : Bool} {iref : IndirectRef}

/-- The checks pass on a reference that holds an object, in a table of one of the
three kinds. -/
theorem getChecked_of_holds {obj : α} (kindValid : irt.kind ≠ .handleScopeOrInvalid) (holds : Holds irt iref obj) :
    irt.getChecked checkJni iref = some true := by
  obtain ⟨below, named, stored⟩ := holds
  have kind : iref.kind = irt.kind := by rw [← named]; rfl
  have notNull : iref ≠ .null := fun null => kindValid (by rw [← kind, null]; rfl)
  unfold getChecked
  rw [if_neg notNull, if_neg (kind ▸ kindValid), if_neg (by omega), stored]
  simp [checkEntry, named]

variable (checkJni) in
/-- The checks fail, or abort, on a reference that holds no object. -/
theorem getChecked_of_not_holds (stale : ∀ obj : α, ¬Holds irt iref obj) :
    irt.getChecked checkJni iref = none ∨ irt.getChecked checkJni iref = some false := by
  have failed : abortIfNoCheckJni checkJni = none ∨ abortIfNoCheckJni checkJni = some false := by
    cases checkJni <;> simp [abortIfNoCheckJni]
  unfold getChecked
  split_ifs with null _ above isNone named
  · exact .inr rfl
  · exact failed
  · exact failed
  · exact failed
  · exact failed
  -- all checks pass: the reference holds the object of its entry
  obtain ⟨obj, stored⟩ := Option.ne_none_iff_exists'.1 (by simpa using isNone)
  exact absurd ⟨by omega, by simpa [checkEntry] using named, stored⟩ (stale obj)

/-- `Get` of a reference that holds an object returns it. -/
theorem get_of_holds {obj : α} (kindValid : irt.kind ≠ .handleScopeOrInvalid) (holds : Holds irt iref obj) :
    irt.get checkJni iref = some (some obj) := by
  rw [get, getChecked_of_holds kindValid holds]
  simp [holds.2.2]

variable (checkJni) in
/-- `Get` of a reference that holds no object returns null, or aborts. -/
theorem get_of_not_holds (stale : ∀ obj : α, ¬Holds irt iref obj) :
    irt.get checkJni iref = none ∨ irt.get checkJni iref = some none := by
  rcases getChecked_of_not_holds checkJni stale with aborted | failed
  · exact .inl (by rw [get, aborted]; rfl)
  · exact .inr (by rw [get, failed]; rfl)

/-- `Update` of a reference that holds an object replaces that object. -/
theorem update_of_holds {obj₀ : α} (obj : α) (kindValid : irt.kind ≠ .handleScopeOrInvalid)
    (holds : Holds irt iref obj₀) :
    irt.update checkJni iref obj =
      some { irt with table := Function.update irt.table iref.index ((irt.table iref.index).setReference obj) } := by
  rw [update, getChecked_of_holds kindValid holds]
  rfl

variable (checkJni) in
/-- `Update` of a reference that holds no object changes nothing, or aborts. -/
theorem update_of_not_holds (obj : α) (stale : ∀ obj : α, ¬Holds irt iref obj) :
    irt.update checkJni iref obj = none ∨ irt.update checkJni iref obj = some irt := by
  rcases getChecked_of_not_holds checkJni stale with aborted | failed
  · exact .inl (by rw [update, aborted]; rfl)
  · exact .inr (by rw [update, failed]; rfl)

end Checked

/-! ## Reserving room -/

/-- When `EnsureFreeCapacity` returns, `true` leaves room for `freeCapacity` entries above
the top, with only the capacity changed, and `false` leaves the table as it was. -/
theorem ensureFreeCapacity_spec {irt irt' : IndirectReferenceTable α} {freeCapacity : Nat} {ensured : Bool}
    (run : irt.ensureFreeCapacity freeCapacity = some (ensured, irt')) :
    (ensured = true → irt.segmentState + freeCapacity ≤ irt'.maxEntries ∧
        irt' = { irt with maxEntries := irt'.maxEntries }) ∧
      (ensured = false → irt' = irt) := by
  dsimp only [ensureFreeCapacity] at run
  split_ifs at run with fits
  · cases run
    exact ⟨fun _ => ⟨fits.2, rfl⟩, nofun⟩
  · cases run
    exact ⟨nofun, fun _ => rfl⟩
  · cases run
    exact ⟨nofun, fun _ => rfl⟩
  · -- the resize: a failed check returns nothing, a refusal keeps the table
    unfold resize at run
    split_ifs at run
    · cases run
    · cases run
      exact ⟨nofun, fun _ => rfl⟩
    · cases run
      exact ⟨fun _ => ⟨Nat.le_refl _, rfl⟩, nofun⟩

/-- A full table asked for no room at all: one that may grow resizes to its own capacity
and fails the `CHECK` of `Resize`, and one that may not answers `false`, although its top
plus nothing is within its capacity. -/
theorem ensureFreeCapacity_full_zero (irt : IndirectReferenceTable α) (full : irt.segmentState = irt.maxEntries)
    (bounded : irt.maxEntries ≤ kMaxEntries) :
    irt.ensureFreeCapacity 0 = if irt.resizable then none else some (false, irt) := by
  have noOverflow : ¬2 ^ 64 - 1 - 0 < irt.segmentState := by
    rw [full]
    exact Nat.not_lt.2 (Nat.le_trans bounded (by decide))
  dsimp only [ensureFreeCapacity]
  rw [if_neg (fun fits => Nat.lt_irrefl _ (full ▸ fits.1))]
  cases resizes : irt.resizable
  · rfl
  · rw [if_neg (by decide), if_neg noOverflow, resize, if_pos (by omega)]
    rfl

/-- A resizable table of one local reference, filled by one `Add`, aborts when asked for
no room. -/
theorem oneLocal_ensureFreeCapacity_zero :
    ∃ irt : IndirectReferenceTable Unit,
      ((create 1 .localReference true).bind fun irt => (irt.add kIRTFirstSegment ()).map Prod.fst) = some irt ∧
        irt.ensureFreeCapacity 0 = none :=
  ⟨_, rfl, (ensureFreeCapacity_full_zero _ rfl (by decide)).trans (if_pos rfl)⟩

end IndirectReferenceTable

end Art.Runtime
