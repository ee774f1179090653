import Art.Runtime.IndirectReferenceTable

/-!
# Runs over nested segments

A run calls `Add`, `Remove`, `Get` and `Update` on one table, and pushes and pops
segments in nested order: a push saves `GetSegmentState()` as the cookie of a new
segment, a pop hands the innermost cookie back to `SetSegmentState`, and every
`Add` and `Remove` receives the innermost cookie. `Frames` is the table with the
cookies of its live segments, innermost first.

Along every run from a new table (`Reachable`) the segment invariant holds of the
current segment and of each enclosing one (`Reachable.invariant`): the cached hole
count, where it is marked as counted from a segment's cookie below the segment's
top, is that segment's number of holes, and the entry below each segment's top is
in use. The count of an enclosing segment is never so marked, since `Add` and
`Remove` mark it with the current cookie, at or above the top of every enclosing
segment (`Frames.Invariant.outer_top_le`); a push starts an empty segment, and a
pop makes the innermost enclosing segment current again with its top restored.

From the invariant follows what each call does (`step_guarantees`). `Update` and
`Get` take no cookie and reach every live reference, also one of an enclosing
segment, which `Remove` with the current cookie rejects.
-/

set_option autoImplicit false

namespace Art.Runtime.IndirectReferenceTable

variable {α : Type}

/-- The calls of a run. -/
inductive Operation (α : Type)
  | add (obj : α)
  | remove (iref : IndirectRef)
  | get (iref : IndirectRef)
  | update (iref : IndirectRef) (obj : α)
  | pushSegment
  | popSegment

/-- What a call returns. -/
inductive Response (α : Type)
  | added (iref : IndirectRef)
  | removed (removed : Bool)
  | got (obj : Option α)
  | done
  deriving DecidableEq

/-- A table with the cookies of its live segments, innermost first. -/
@[ext] structure Frames (α : Type) where
  irt : IndirectReferenceTable α
  cookies : List Nat

/-- The cookie of the innermost live segment. -/
def Frames.cookie (frames : Frames α) : Nat := frames.cookies.headD kIRTFirstSegment

/-- One call of a run. A pop with no segment pushed is not a matching pop, and no
run makes it. -/
def step (checkJni : Bool) (inHandleScope : IndirectRef → Bool) (frames : Frames α) :
    Operation α → Option (Frames α × Response α)
  | .add obj => (frames.irt.add frames.cookie obj).map fun (irt, iref) => (⟨irt, frames.cookies⟩, .added iref)
  | .remove iref => (frames.irt.remove checkJni inHandleScope frames.cookie iref).map
      fun (irt, removed) => (⟨irt, frames.cookies⟩, .removed removed)
  | .get iref => (frames.irt.get checkJni iref).map fun obj => (frames, .got obj)
  | .update iref obj => (frames.irt.update checkJni iref obj).map fun irt => (⟨irt, frames.cookies⟩, .done)
  | .pushSegment => some (⟨frames.irt, frames.irt.getSegmentState :: frames.cookies⟩, .done)
  | .popSegment =>
      match frames.cookies with
      | [] => none
      | cookie :: outer => some (⟨frames.irt.setSegmentState cookie, outer⟩, .done)

/-- A run of calls, and what each returns. -/
def run (checkJni : Bool) (inHandleScope : IndirectRef → Bool) (frames : Frames α) :
    List (Operation α) → Option (Frames α × List (Response α))
  | [] => some (frames, [])
  | op :: ops => do
      let (frames, response) ← step checkJni inHandleScope frames op
      let (frames, responses) ← run checkJni inHandleScope frames ops
      some (frames, response :: responses)

/-- The states of the runs from a new table. -/
inductive Reachable (checkJni : Bool) (inHandleScope : IndirectRef → Bool) : Frames α → Prop
  | create {maxCount : Nat} {kind : IndirectRefKind} {resizable : Bool} {irt : IndirectReferenceTable α} :
      IndirectReferenceTable.create maxCount kind resizable = some irt → Reachable checkJni inHandleScope ⟨irt, []⟩
  | step {frames frames' : Frames α} {op : Operation α} {response : Response α} :
      Reachable checkJni inHandleScope frames → step checkJni inHandleScope frames op = some (frames', response) →
      Reachable checkJni inHandleScope frames'

/-- A run from a reachable state reaches a state. -/
theorem Reachable.run {checkJni : Bool} {inHandleScope : IndirectRef → Bool} {frames frames' : Frames α}
    {responses : List (Response α)} (reachable : Reachable checkJni inHandleScope frames) :
    ∀ {ops : List (Operation α)}, IndirectReferenceTable.run checkJni inHandleScope frames ops = some (frames', responses) →
      Reachable checkJni inHandleScope frames'
  | [], ran => by
      cases ran
      exact reachable
  | op :: ops, ran => by
      simp only [IndirectReferenceTable.run, Option.bind_eq_bind, Option.bind_eq_some_iff] at ran
      obtain ⟨⟨middle, response⟩, stepped, ⟨final, rest⟩, ran, same⟩ := ran
      simp only [Option.some.injEq, Prod.mk.injEq] at same
      obtain ⟨rfl, -⟩ := same
      exact (reachable.step stepped).run ran

/-! ## What one call does -/

section Inversion

variable {checkJni : Bool} {inHandleScope : IndirectRef → Bool} {frames frames' : Frames α} {response : Response α}

theorem step_add {obj : α} (stepped : step checkJni inHandleScope frames (.add obj) = some (frames', response)) :
    ∃ iref, frames.irt.add frames.cookie obj = some (frames'.irt, iref) ∧ frames'.cookies = frames.cookies ∧
      response = .added iref := by
  simp only [step, Option.map_eq_some_iff] at stepped
  obtain ⟨⟨irt, iref⟩, added, same⟩ := stepped
  cases same
  exact ⟨iref, added, rfl, rfl⟩

theorem step_remove {iref : IndirectRef}
    (stepped : step checkJni inHandleScope frames (.remove iref) = some (frames', response)) :
    ∃ removed, frames.irt.remove checkJni inHandleScope frames.cookie iref = some (frames'.irt, removed) ∧
      frames'.cookies = frames.cookies ∧ response = .removed removed := by
  simp only [step, Option.map_eq_some_iff] at stepped
  obtain ⟨⟨irt, removed⟩, result, same⟩ := stepped
  cases same
  exact ⟨removed, result, rfl, rfl⟩

theorem step_get {iref : IndirectRef} (stepped : step checkJni inHandleScope frames (.get iref) = some (frames', response)) :
    ∃ obj, frames.irt.get checkJni iref = some obj ∧ frames' = frames ∧ response = .got obj := by
  simp only [step, Option.map_eq_some_iff] at stepped
  obtain ⟨obj, got, same⟩ := stepped
  cases same
  exact ⟨obj, got, rfl, rfl⟩

theorem step_update {iref : IndirectRef} {obj : α}
    (stepped : step checkJni inHandleScope frames (.update iref obj) = some (frames', response)) :
    frames.irt.update checkJni iref obj = some frames'.irt ∧ frames'.cookies = frames.cookies ∧ response = .done := by
  simp only [step, Option.map_eq_some_iff] at stepped
  obtain ⟨irt, updated, same⟩ := stepped
  cases same
  exact ⟨updated, rfl, rfl⟩

theorem step_pushSegment (stepped : step checkJni inHandleScope frames .pushSegment = some (frames', response)) :
    frames' = ⟨frames.irt, frames.irt.segmentState :: frames.cookies⟩ ∧ response = .done := by
  simp only [step, getSegmentState, Option.some.injEq, Prod.mk.injEq] at stepped
  exact ⟨stepped.1.symm, stepped.2.symm⟩

theorem step_popSegment (stepped : step checkJni inHandleScope frames .popSegment = some (frames', response)) :
    ∃ outer, frames.cookies = frames.cookie :: outer ∧
      frames' = ⟨frames.irt.setSegmentState frames.cookie, outer⟩ ∧ response = .done := by
  obtain ⟨irt, cookies⟩ := frames
  cases cookies with
  | nil => cases stepped
  | cons cookie outer =>
      simp only [step, Option.some.injEq, Prod.mk.injEq] at stepped
      exact ⟨outer, rfl, stepped.1.symm, stepped.2.symm⟩

end Inversion

/-! ## The invariant of the segments -/

/-- The enclosing segments of a stack of cookies, innermost first: each from its
own cookie to the cookie of the segment above it. -/
def outerSegments : List Nat → List (Nat × Nat)
  | [] => []
  | cookie :: outer => (outer.headD kIRTFirstSegment, cookie) :: outerSegments outer

/-- Enclosing segments lie below the innermost cookie, when each starts at or below
its top. The induction is on the stack. -/
theorem outerSegments_top_le {cookies : List Nat}
    (ordered : ∀ segment ∈ outerSegments cookies, segment.1 ≤ segment.2) :
    ∀ segment ∈ outerSegments cookies, segment.2 ≤ cookies.headD kIRTFirstSegment := by
  induction cookies with
  | nil => simp [outerSegments]
  | cons cookie outer ih =>
      simp only [outerSegments, List.mem_cons, forall_eq_or_imp] at ordered ⊢
      refine ⟨Nat.le_refl _, fun segment member => ?_⟩
      have below := ih ordered.2 segment member
      have first := ordered.1
      simp only [List.headD_cons]
      omega

/-- What holds along every run: the table has a reference kind, and the segment
invariant holds of the current segment, up to the top, and of each enclosing one,
up to the cookie above it. -/
structure Frames.Invariant (frames : Frames α) : Prop where
  kindValid : frames.irt.kind ≠ .handleScopeOrInvalid
  current : SegmentInv frames.irt frames.cookie frames.irt.segmentState
  outer : ∀ segment ∈ outerSegments frames.cookies, SegmentInv frames.irt segment.1 segment.2

namespace Frames.Invariant

variable {frames : Frames α}

theorem outer_top_le (inv : frames.Invariant) {segment : Nat × Nat} (member : segment ∈ outerSegments frames.cookies) :
    segment.2 ≤ frames.cookie :=
  outerSegments_top_le (fun segment member => (inv.outer segment member).le) segment member

/-- The enclosing segments survive a call that writes no entry below the cookie and
marks the count as counted from the cookie or above. -/
theorem outer_of_below (inv : frames.Invariant) {irt' : IndirectReferenceTable α}
    (kept : ∀ i < frames.cookie, irt'.table i = frames.irt.table i)
    (known : frames.cookie ≤ irt'.lastKnownPreviousState) :
    ∀ segment ∈ outerSegments frames.cookies, SegmentInv irt' segment.1 segment.2 :=
  fun segment member => (inv.outer segment member).of_below (inv.outer_top_le member) kept known

/-- A call that keeps which entries are null, the count and its mark keeps every
segment's invariant. -/
theorem of_isNone (inv : frames.Invariant) {irt' : IndirectReferenceTable α}
    (nulls : ∀ i, (irt'.table i).reference.isNone = (frames.irt.table i).reference.isNone)
    (holes : irt'.currentNumHoles = frames.irt.currentNumHoles)
    (known : irt'.lastKnownPreviousState = frames.irt.lastKnownPreviousState)
    (top : irt'.segmentState = frames.irt.segmentState) (kind : irt'.kind = frames.irt.kind) :
    Invariant ⟨irt', frames.cookies⟩ where
  kindValid := kind ▸ inv.kindValid
  current := top ▸ inv.current.of_isNone nulls holes known
  outer := fun segment member => (inv.outer segment member).of_isNone nulls holes known

end Frames.Invariant

section Preservation

variable {checkJni : Bool} {inHandleScope : IndirectRef → Bool} {frames frames' : Frames α} {response : Response α}

/-- `Add` keeps the invariant: it writes a hole of the current segment or the entry
at the top, which is in use afterwards, and marks the count with the cookie. -/
theorem Frames.Invariant.add {obj : α} (inv : frames.Invariant)
    (stepped : step checkJni inHandleScope frames (.add obj) = some (frames', response)) : frames'.Invariant := by
  obtain ⟨iref, added, cookies, -⟩ := step_add stepped
  obtain ⟨index, low, high, free, table, top, counted, known, kind, -⟩ := add_spec inv.current added
  have cookie : frames'.cookie = frames.cookie := by rw [Frames.cookie, cookies]; rfl
  refine ⟨kind ▸ inv.kindValid, ?_, ?_⟩
  · refine ⟨by rw [cookie, top]; split <;> omega, fun _ _ => ⟨by rw [known, cookie], by rw [counted, cookie]⟩,
      fun nonempty => ?_⟩
    rw [table]
    by_cases appended : index = frames.irt.segmentState
    · -- the new top entry is the one written
      rw [top, if_pos appended, Nat.add_sub_cancel, ← appended, Function.update_self, IrtEntry.reference_add]
      rfl
    · -- a hole below the top, which is not the entry below the top
      rw [top, if_neg appended] at nonempty ⊢
      have inUse := inv.current.topInUse (by omega)
      have other : frames.irt.segmentState - 1 ≠ index := by
        intro same
        rw [same, free (by omega)] at inUse
        cases inUse
      rw [Function.update_of_ne other]
      exact inUse
  · rw [cookies]
    exact inv.outer_of_below (fun i below => by rw [table, Function.update_of_ne (by omega)]) (by rw [known])

/-- `Remove` keeps the invariant, in each of its outcomes. -/
theorem Frames.Invariant.remove {iref : IndirectRef} (inv : frames.Invariant)
    (stepped : step checkJni inHandleScope frames (.remove iref) = some (frames', response)) : frames'.Invariant := by
  obtain ⟨removed, result, cookies, -⟩ := step_remove stepped
  have same : frames' = ⟨frames'.irt, frames.cookies⟩ := by rw [← cookies]
  rcases remove_cases inv.current result with ⟨unchanged, -⟩ | ⟨unchanged, -⟩ | ⟨-, -, -, -, recovered⟩ | ⟨-, gone⟩
  · rw [same, unchanged]
    exact inv
  · rw [same, unchanged]
    exact inv
  · -- rejected after the count is recovered
    obtain ⟨current, known, -⟩ := inv.current.recoverHoles
    rw [same, recovered]
    exact ⟨by simpa using inv.kindValid, by rw [segmentState_recoverHoles]; exact current,
      inv.outer_of_below (fun i _ => by simp) (by rw [known])⟩
  · -- removed: the entry nulled is at or above the cookie
    rw [same]
    refine ⟨gone.kind ▸ inv.kindValid, ⟨gone.top_ge, fun _ _ => ⟨gone.known, gone.counted⟩, gone.topInUse⟩, ?_⟩
    exact inv.outer_of_below (fun i below => by rw [gone.table, Function.update_of_ne (by have := gone.inside; omega)])
      (by rw [gone.known])

/-- `Update` keeps the invariant: it writes an object over an object. -/
theorem Frames.Invariant.update {iref : IndirectRef} {obj : α} (inv : frames.Invariant)
    (stepped : step checkJni inHandleScope frames (.update iref obj) = some (frames', response)) : frames'.Invariant := by
  obtain ⟨updated, cookies, -⟩ := step_update stepped
  have same : frames' = ⟨frames'.irt, frames.cookies⟩ := by rw [← cookies]
  rw [same]
  by_cases holds : ∃ obj₀, Holds frames.irt iref obj₀
  · obtain ⟨obj₀, holds⟩ := holds
    rw [update_of_holds obj inv.kindValid holds, Option.some.injEq] at updated
    rw [← updated]
    refine inv.of_isNone (fun i => ?_) rfl rfl rfl rfl
    by_cases written : i = iref.index
    · subst written
      simp [holds.2.2]
    · simp [Function.update_of_ne written]
  · rcases update_of_not_holds checkJni obj (fun obj₀ held => holds ⟨obj₀, held⟩) with aborted | unchanged
    · rw [aborted] at updated
      cases updated
    · rw [unchanged, Option.some.injEq] at updated
      rw [← updated]
      exact inv

/-- A push starts an empty segment at the top, and the current one becomes its
innermost enclosing segment. -/
theorem Frames.Invariant.pushSegment (inv : frames.Invariant)
    (stepped : step checkJni inHandleScope frames .pushSegment = some (frames', response)) : frames'.Invariant := by
  obtain ⟨rfl, -⟩ := step_pushSegment stepped
  refine ⟨inv.kindValid, ⟨Nat.le_refl _, fun low high => by simp only [Frames.cookie, List.headD_cons] at low high; omega,
    fun empty => absurd empty (Nat.lt_irrefl _)⟩, ?_⟩
  simp only [outerSegments, List.mem_cons, forall_eq_or_imp]
  exact ⟨inv.current, inv.outer⟩

/-- A pop makes the innermost enclosing segment current, with its top restored. -/
theorem Frames.Invariant.popSegment (inv : frames.Invariant)
    (stepped : step checkJni inHandleScope frames .popSegment = some (frames', response)) : frames'.Invariant := by
  obtain ⟨outer, cookies, rfl, -⟩ := step_popSegment stepped
  have enclosing := inv.outer
  rw [cookies] at enclosing
  simp only [outerSegments, List.mem_cons, forall_eq_or_imp] at enclosing
  exact ⟨inv.kindValid, ⟨enclosing.1.le, enclosing.1.cached, enclosing.1.topInUse⟩,
    fun segment member => ⟨(enclosing.2 segment member).le, (enclosing.2 segment member).cached,
      (enclosing.2 segment member).topInUse⟩⟩

/-- Every call keeps the invariant. -/
theorem Frames.Invariant.step {op : Operation α} (inv : frames.Invariant)
    (stepped : IndirectReferenceTable.step checkJni inHandleScope frames op = some (frames', response)) :
    frames'.Invariant := by
  cases op with
  | add obj => exact inv.add stepped
  | remove iref => exact inv.remove stepped
  | get iref =>
      obtain ⟨obj, -, rfl, -⟩ := step_get stepped
      exact inv
  | update iref obj => exact inv.update stepped
  | pushSegment => exact inv.pushSegment stepped
  | popSegment => exact inv.popSegment stepped

/-- A new table holds the invariant: its one segment is empty. -/
theorem Frames.Invariant.create {maxCount : Nat} {kind : IndirectRefKind} {resizable : Bool}
    {irt : IndirectReferenceTable α} (created : IndirectReferenceTable.create maxCount kind resizable = some irt) :
    Frames.Invariant ⟨irt, []⟩ := by
  unfold IndirectReferenceTable.create at created
  split_ifs at created with invalid
  cases created
  exact ⟨invalid, ⟨Nat.le_refl _, fun _ high => absurd high (Nat.lt_irrefl _), fun empty => absurd empty (Nat.lt_irrefl _)⟩,
    fun _ member => absurd member (List.not_mem_nil)⟩

/-- **The invariant along runs.** Every state of a run from a new table holds it. -/
theorem Reachable.invariant {frames : Frames α} (reachable : Reachable checkJni inHandleScope frames) :
    frames.Invariant := by
  induction reachable with
  | create created => exact .create created
  | step _ stepped ih => exact ih.step stepped

end Preservation

/-! ## What each call guarantees -/

/-- What a call from a state of a run does. -/
structure StepGuarantees (frames : Frames α) (op : Operation α) (frames' : Frames α) (response : Response α) :
    Prop where
  /-- After `Add` the cached count is the number of holes of the current segment. -/
  addCounted : ∀ obj, op = .add obj →
    frames'.irt.currentNumHoles = countNullEntries frames'.irt.table frames'.cookie frames'.irt.segmentState
  /-- So it is after a `Remove` of a reference of a table kind that passes the index
  checks. -/
  removeCounted : ∀ iref, op = .remove iref → iref.kind ≠ .handleScopeOrInvalid →
    frames.cookie ≤ iref.index → iref.index < frames.irt.segmentState →
    frames'.irt.currentNumHoles = countNullEntries frames'.irt.table frames'.cookie frames'.irt.segmentState
  /-- The entry below the top is in use while the current segment is not empty. -/
  topInUse : frames'.cookie < frames'.irt.segmentState →
    (frames'.irt.table (frames'.irt.segmentState - 1)).reference.isSome
  /-- `Add` writes one entry: a hole of the current segment, or the entry at the top. -/
  addWritesFree : ∀ obj, op = .add obj → ∃ index, frames.cookie ≤ index ∧ index ≤ frames.irt.segmentState ∧
    (index < frames.irt.segmentState → (frames.irt.table index).reference = none) ∧
    frames'.irt.table = Function.update frames.irt.table index ((frames.irt.table index).add obj)
  /-- No call but `Update` writes an entry below the cookie of the current segment. -/
  belowCookieKept : (∀ iref obj, op ≠ .update iref obj) →
    ∀ i < frames.cookie, frames'.irt.table i = frames.irt.table i
  /-- `Update` writes only the entry of its reference. -/
  updateWritesOne : ∀ iref obj, op = .update iref obj → ∀ i ≠ iref.index, frames'.irt.table i = frames.irt.table i
  /-- The reference `Add` returns holds the object. -/
  addedHolds : ∀ obj iref, op = .add obj → response = .added iref → Holds frames'.irt iref obj
  /-- A reference keeps its object until it is removed or its segment popped, or
  `Update` replaces the object. -/
  keepsHolding : ∀ iref obj, Holds frames.irt iref obj → Holds frames'.irt iref obj ∨
    (op = .remove iref ∨ op = .popSegment) ∧ frames.cookie ≤ iref.index ∨
    ∃ obj', op = .update iref obj' ∧ Holds frames'.irt iref obj'
  /-- `Get` returns the object of a reference that holds one. -/
  getHolding : ∀ iref obj, Holds frames.irt iref obj → op = .get iref → response = .got (some obj)
  /-- `Remove` of a reference that holds an object nulls exactly its entry when the
  reference is of the current segment, and rejects it with nothing changed when it
  is of an enclosing one. -/
  removeHolding : ∀ iref obj, Holds frames.irt iref obj → op = .remove iref →
    (frames.cookie ≤ iref.index → response = .removed true ∧
      frames'.irt.table = Function.update frames.irt.table iref.index ((frames.irt.table iref.index).setReference none)) ∧
    (iref.index < frames.cookie → response = .removed false ∧ frames' = frames)
  /-- `Get` of a reference that holds no object returns null. -/
  getStale : ∀ iref, (∀ obj, ¬Holds frames.irt iref obj) → op = .get iref → response = .got none
  /-- `Remove` of a reference of a table kind that holds no object returns false and
  changes no entry and not the top. -/
  removeStale : ∀ iref, iref.kind ≠ .handleScopeOrInvalid → (∀ obj, ¬Holds frames.irt iref obj) →
    op = .remove iref →
    response = .removed false ∧ frames'.irt.table = frames.irt.table ∧ frames'.irt.segmentState = frames.irt.segmentState

section Guarantees

variable {checkJni : Bool} {inHandleScope : IndirectRef → Bool} {frames frames' : Frames α} {response : Response α}

theorem step_add_counted {obj : α} (inv : frames.Invariant)
    (stepped : step checkJni inHandleScope frames (.add obj) = some (frames', response)) :
    frames'.irt.currentNumHoles = countNullEntries frames'.irt.table frames'.cookie frames'.irt.segmentState := by
  obtain ⟨iref, added, cookies, -⟩ := step_add stepped
  obtain ⟨index, -, -, -, -, -, counted, -⟩ := add_spec inv.current added
  rw [Frames.cookie, cookies]
  exact counted

theorem step_add_writes {obj : α} (inv : frames.Invariant)
    (stepped : step checkJni inHandleScope frames (.add obj) = some (frames', response)) :
    ∃ index, frames.cookie ≤ index ∧ index ≤ frames.irt.segmentState ∧
      (index < frames.irt.segmentState → (frames.irt.table index).reference = none) ∧
      frames'.irt.table = Function.update frames.irt.table index ((frames.irt.table index).add obj) := by
  obtain ⟨iref, added, -, -⟩ := step_add stepped
  obtain ⟨index, low, high, free, table, -⟩ := add_spec inv.current added
  exact ⟨index, low, high, free, table⟩

theorem step_add_holds {obj : α} {iref : IndirectRef} (inv : frames.Invariant)
    (stepped : step checkJni inHandleScope frames (.add obj) = some (frames', response))
    (responded : response = .added iref) : Holds frames'.irt iref obj := by
  obtain ⟨iref', added, -, rfl⟩ := step_add stepped
  cases responded
  obtain ⟨index, -, high, -, table, top, -, -, -, named⟩ := add_spec inv.current added
  subst named
  refine ⟨?_, rfl, ?_⟩
  · show index < frames'.irt.segmentState
    rw [top]
    split <;> omega
  · show (frames'.irt.table index).reference = some obj
    rw [table, Function.update_self, IrtEntry.reference_add]

theorem step_update_writes {iref : IndirectRef} {obj : α} (inv : frames.Invariant)
    (stepped : step checkJni inHandleScope frames (.update iref obj) = some (frames', response)) :
    ∀ i ≠ iref.index, frames'.irt.table i = frames.irt.table i := by
  obtain ⟨updated, -, -⟩ := step_update stepped
  intro i other
  by_cases holds : ∃ obj₀, Holds frames.irt iref obj₀
  · obtain ⟨obj₀, holds⟩ := holds
    rw [update_of_holds obj inv.kindValid holds, Option.some.injEq] at updated
    rw [← updated]
    exact Function.update_of_ne other _ _
  · rcases update_of_not_holds checkJni obj (fun obj₀ held => holds ⟨obj₀, held⟩) with aborted | unchanged
    · rw [aborted] at updated
      cases updated
    · rw [unchanged, Option.some.injEq] at updated
      rw [← updated]

/-- No call but `Update` writes below the cookie: `Add` and `Remove` write at or above
it, and the others write nothing. -/
theorem step_keeps_below_cookie {op : Operation α} (inv : frames.Invariant)
    (stepped : step checkJni inHandleScope frames op = some (frames', response))
    (notUpdate : ∀ iref obj, op ≠ .update iref obj) : ∀ i < frames.cookie, frames'.irt.table i = frames.irt.table i := by
  intro i below
  cases op with
  | add obj =>
      obtain ⟨index, low, -, -, table⟩ := step_add_writes inv stepped
      rw [table, Function.update_of_ne (by omega)]
  | remove iref =>
      obtain ⟨removed, result, -, -⟩ := step_remove stepped
      rcases remove_cases inv.current result with ⟨unchanged, -⟩ | ⟨unchanged, -⟩ | ⟨-, -, -, -, recovered⟩ | ⟨-, gone⟩
      · rw [unchanged]
      · rw [unchanged]
      · rw [recovered, table_recoverHoles]
      · rw [gone.table, Function.update_of_ne (by have := gone.inside; omega)]
  | get iref =>
      obtain ⟨obj, -, rfl, -⟩ := step_get stepped
      rfl
  | update iref obj => exact absurd rfl (notUpdate iref obj)
  | pushSegment =>
      obtain ⟨rfl, -⟩ := step_pushSegment stepped
      rfl
  | popSegment =>
      obtain ⟨outer, -, rfl, -⟩ := step_popSegment stepped
      rfl

/-- `Remove` of a reference that holds an object, in the outcomes `remove_cases`
leaves possible for it. -/
theorem step_remove_holding {iref : IndirectRef} {obj : α} (inv : frames.Invariant)
    (stepped : step checkJni inHandleScope frames (.remove iref) = some (frames', response))
    (holds : Holds frames.irt iref obj) :
    (frames.cookie ≤ iref.index → response = .removed true ∧
      frames'.irt.table = Function.update frames.irt.table iref.index ((frames.irt.table iref.index).setReference none)) ∧
    (iref.index < frames.cookie → response = .removed false ∧ frames' = frames) := by
  obtain ⟨removed, result, cookies, rfl⟩ := step_remove stepped
  rcases remove_cases inv.current result with ⟨-, -, handle⟩ | ⟨unchanged, rfl, outside⟩ | ⟨-, -, -, stale, -⟩ | ⟨rfl, gone⟩
  · exact absurd (holds.kind_eq.symm.trans handle) inv.kindValid
  · have below : iref.index < frames.cookie := by have := holds.1; omega
    exact ⟨fun inside => absurd inside (by omega), fun _ => ⟨rfl, Frames.ext unchanged cookies⟩⟩
  · exact absurd holds (stale obj)
  · exact ⟨fun _ => ⟨rfl, gone.table⟩, fun below => absurd gone.inside (by omega)⟩

/-- `Remove` of a reference of a table kind that holds no object changes no entry and
not the top. -/
theorem step_remove_stale {iref : IndirectRef} (inv : frames.Invariant)
    (stepped : step checkJni inHandleScope frames (.remove iref) = some (frames', response))
    (kind : iref.kind ≠ .handleScopeOrInvalid) (stale : ∀ obj, ¬Holds frames.irt iref obj) :
    response = .removed false ∧ frames'.irt.table = frames.irt.table ∧
      frames'.irt.segmentState = frames.irt.segmentState := by
  obtain ⟨removed, result, -, rfl⟩ := step_remove stepped
  rcases remove_cases inv.current result with ⟨-, -, handle⟩ | ⟨unchanged, rfl, -⟩ | ⟨-, -, rfl, -, recovered⟩ | ⟨-, gone⟩
  · exact absurd handle kind
  · exact ⟨rfl, by rw [unchanged], by rw [unchanged]⟩
  · exact ⟨rfl, by rw [recovered, table_recoverHoles], by rw [recovered, segmentState_recoverHoles]⟩
  · obtain ⟨obj, holds⟩ := gone.holds
    exact absurd holds (stale obj)

/-- After a `Remove` that passes the index checks the count is recovered, or the
removal keeps it. -/
theorem step_remove_counted {iref : IndirectRef} (inv : frames.Invariant)
    (stepped : step checkJni inHandleScope frames (.remove iref) = some (frames', response))
    (kind : iref.kind ≠ .handleScopeOrInvalid) (inside : frames.cookie ≤ iref.index)
    (belowTop : iref.index < frames.irt.segmentState) :
    frames'.irt.currentNumHoles = countNullEntries frames'.irt.table frames'.cookie frames'.irt.segmentState := by
  obtain ⟨removed, result, cookies, -⟩ := step_remove stepped
  rw [Frames.cookie, cookies]
  rcases remove_cases inv.current result with ⟨-, -, handle⟩ | ⟨-, -, outside⟩ | ⟨-, -, -, -, recovered⟩ | ⟨-, gone⟩
  · exact absurd handle kind
  · exact absurd outside (by omega)
  · obtain ⟨-, -, counted⟩ := inv.current.recoverHoles
    rw [recovered, counted, table_recoverHoles, segmentState_recoverHoles]
    rfl
  · exact gone.counted

theorem step_get_holding {iref : IndirectRef} {obj : α} (inv : frames.Invariant)
    (stepped : step checkJni inHandleScope frames (.get iref) = some (frames', response))
    (holds : Holds frames.irt iref obj) : response = .got (some obj) := by
  obtain ⟨obj', got, -, rfl⟩ := step_get stepped
  rw [get_of_holds inv.kindValid holds, Option.some.injEq] at got
  rw [got]

theorem step_get_stale {iref : IndirectRef}
    (stepped : step checkJni inHandleScope frames (.get iref) = some (frames', response))
    (stale : ∀ obj, ¬Holds frames.irt iref obj) : response = .got none := by
  obtain ⟨obj', got, -, rfl⟩ := step_get stepped
  rcases get_of_not_holds checkJni stale with aborted | null
  · rw [aborted] at got
    cases got
  · rw [null, Option.some.injEq] at got
    rw [← got]

/-- A reference keeps its object across every call but a `Remove` of it, the pop of
its segment and an `Update` of it. -/
theorem step_keeps_holding {op : Operation α} {iref : IndirectRef} {obj : α} (inv : frames.Invariant)
    (stepped : step checkJni inHandleScope frames op = some (frames', response)) (holds : Holds frames.irt iref obj) :
    Holds frames'.irt iref obj ∨ (op = .remove iref ∨ op = .popSegment) ∧ frames.cookie ≤ iref.index ∨
      ∃ obj', op = .update iref obj' ∧ Holds frames'.irt iref obj' := by
  have inUse := holds.1
  cases op with
  | add added =>
      obtain ⟨iref', result, -, -⟩ := step_add stepped
      obtain ⟨index, -, high, free, table, top, -, -, kind, -⟩ := add_spec inv.current result
      -- `Add` writes a free entry, and the reference's entry is in use
      have other : iref.index ≠ index := by
        intro same
        have stored := holds.2.2
        rw [same, free (by omega)] at stored
        cases stored
      exact .inl (holds.of_agree (by rw [top]; split <;> omega) (by rw [table, Function.update_of_ne other]) kind)
  | remove removedRef =>
      obtain ⟨removed, result, -, -⟩ := step_remove stepped
      rcases remove_cases inv.current result with ⟨unchanged, -⟩ | ⟨unchanged, -⟩ | ⟨-, -, -, -, recovered⟩ | ⟨-, gone⟩
      · exact .inl (by rw [unchanged]; exact holds)
      · exact .inl (by rw [unchanged]; exact holds)
      · exact .inl (holds.of_agree (by rw [recovered, segmentState_recoverHoles]; exact inUse)
          (by rw [recovered, table_recoverHoles]) (by rw [recovered, kind_recoverHoles]))
      · by_cases same : iref.index = removedRef.index
        · -- the removed entry is the reference's own
          obtain ⟨obj', holds'⟩ := gone.holds
          obtain rfl := holds.eq_of_index holds' same
          exact .inr (.inl ⟨.inl rfl, gone.inside⟩)
        · -- another entry: the top stays above the reference's entry, which is in use
          have entry : frames'.irt.table iref.index = frames.irt.table iref.index := by
            rw [gone.table, Function.update_of_ne same]
          have below : iref.index < frames'.irt.segmentState := by
            by_contra above
            have null := gone.collapsed iref.index (by omega) inUse
            rw [entry, holds.2.2] at null
            cases null
          exact .inl (holds.of_agree below entry gone.kind)
  | get gotRef =>
      obtain ⟨_, -, rfl, -⟩ := step_get stepped
      exact .inl holds
  | update updatedRef obj' =>
      obtain ⟨updated, -, -⟩ := step_update stepped
      by_cases live : ∃ obj₀, Holds frames.irt updatedRef obj₀
      · obtain ⟨obj₀, holds'⟩ := live
        rw [update_of_holds obj' inv.kindValid holds', Option.some.injEq] at updated
        rw [← updated]
        by_cases same : iref.index = updatedRef.index
        · -- the reference's own entry now holds the new object
          obtain rfl := holds.eq_of_index holds' same
          refine .inr (.inr ⟨obj', rfl, inUse, ?_, by simp⟩)
          simp only [toIndirectRef, Function.update_self, IrtEntry.serial_setReference]
          exact holds.2.1
        · exact .inl (holds.of_agree inUse (Function.update_of_ne same _ _) rfl)
      · rcases update_of_not_holds checkJni obj' (fun obj₀ held => live ⟨obj₀, held⟩) with
          aborted | unchanged
        · rw [aborted] at updated
          cases updated
        · rw [unchanged, Option.some.injEq] at updated
          rw [← updated]
          exact .inl holds
  | pushSegment =>
      obtain ⟨rfl, -⟩ := step_pushSegment stepped
      exact .inl holds
  | popSegment =>
      obtain ⟨outer, -, rfl, -⟩ := step_popSegment stepped
      by_cases below : iref.index < frames.cookie
      · exact .inl ⟨below, holds.2.1, holds.2.2⟩
      · exact .inr (.inl ⟨.inr rfl, by omega⟩)

end Guarantees

/-- **Runs over nested segments.** Every call from a state of a run from a new table
does what `StepGuarantees` says. -/
theorem step_guarantees {checkJni : Bool} {inHandleScope : IndirectRef → Bool} {frames frames' : Frames α}
    {op : Operation α} {response : Response α} (reachable : Reachable checkJni inHandleScope frames)
    (stepped : step checkJni inHandleScope frames op = some (frames', response)) :
    StepGuarantees frames op frames' response := by
  have inv := reachable.invariant
  exact
    { addCounted := by
        rintro obj rfl
        exact step_add_counted inv stepped
      removeCounted := by
        rintro iref rfl kind inside belowTop
        exact step_remove_counted inv stepped kind inside belowTop
      topInUse := (inv.step stepped).current.topInUse
      addWritesFree := by
        rintro obj rfl
        exact step_add_writes inv stepped
      belowCookieKept := step_keeps_below_cookie inv stepped
      updateWritesOne := by
        rintro iref obj rfl
        exact step_update_writes inv stepped
      addedHolds := by
        rintro obj iref rfl responded
        exact step_add_holds inv stepped responded
      keepsHolding := fun _ _ holds => step_keeps_holding inv stepped holds
      getHolding := by
        rintro iref obj holds rfl
        exact step_get_holding inv stepped holds
      removeHolding := by
        rintro iref obj holds rfl
        exact step_remove_holding inv stepped holds
      getStale := by
        rintro iref stale rfl
        exact step_get_stale stepped stale
      removeStale := by
        rintro iref kind stale rfl
        exact step_remove_stale inv stepped kind stale }

/-- The first `Add` on a new table of local references. -/
theorem firstAdd_stepGuarantees :
    ∃ irt frames' response, IndirectReferenceTable.create 16 .localReference false = some irt ∧
      step false (fun _ => false) ⟨irt, []⟩ (.add (7 : Nat)) = some (frames', response) ∧
      StepGuarantees ⟨irt, []⟩ (.add 7) frames' response :=
  ⟨_, _, _, rfl, rfl, step_guarantees (@Reachable.create Nat false (fun _ => false) 16 .localReference false _ rfl) rfl⟩

/-! ## References of an enclosing segment -/

/-- Two objects added in the first segment, the first removed again; then a pushed
segment, in which the second object's reference is updated, read and removed. -/
def nestedRun : List (Operation Nat) :=
  [.add 1, .add 2, .remove ⟨0, 1, .localReference⟩, .pushSegment, .update ⟨1, 1, .localReference⟩ 3,
    .get ⟨1, 1, .localReference⟩, .remove ⟨1, 1, .localReference⟩]

/-- In the pushed segment, `Update` replaces the object of the first segment's entry
1, below the cookie 2, and `Get` returns the new object; `Remove` of the same
reference returns false and leaves the entry in use; and the cached count after
that `Remove` is the hole of the first segment, while the current segment has
none. -/
theorem nestedRun_counterexample :
    ∃ irt frames, IndirectReferenceTable.create 16 .localReference false = some irt ∧
      run false (fun _ => false) ⟨irt, []⟩ nestedRun =
        some (frames, [.added ⟨0, 1, .localReference⟩, .added ⟨1, 1, .localReference⟩, .removed true, .done, .done,
          .got (some 3), .removed false]) ∧
      frames.cookie = 2 ∧ (frames.irt.table 1).reference = some 3 ∧ frames.irt.currentNumHoles = 1 ∧
      countNullEntries frames.irt.table frames.cookie frames.irt.segmentState = 0 :=
  ⟨_, _, rfl, rfl, rfl, rfl, rfl, rfl⟩

end Art.Runtime.IndirectReferenceTable
