import Mathlib.Data.List.AList
import Art.Machine.Loop

/-!
# Merging register lines

The method verifier keeps a register line for each instruction (`register_line.h`): the
type of each register (`line_`), the stack of monitors held (`monitors_`), for each
register that holds a locked object the depths of that stack at which it was locked
(`reg_to_lock_depths_`), and whether `this` is initialized. Where paths meet,
`MergeRegisters` merges the line that flows in into the stored one and returns whether
the stored line changed. `UpdateRegisters` marks the instruction changed on that answer,
and the data-flow loop verifies again exactly the instructions so marked.

`MergeRegisters` reads its answer off the register types and `this_initialized_` only
(`mergeRegisters_eq`). When the stack depths agree but the lock maps differ, a
register locked on one path only, or at other depths on the two, is dropped from the
stored map when it has an alias on both (`mergeLockDepths_of_aliased`), and that loss is
not reported: with the types and `this` the same, the stored line loses the lock entry
and the instruction keeps its flags, so it is not verified again with the new line
(`updateRegisters_drops_lock_unmarked`).
-/

set_option autoImplicit false

namespace Art.Runtime.Verifier

open Art.Machine

/-- `RegisterLine::RegToLockDepthsMap`: for a register that holds a locked object, the
bit vector of the depths of the monitor stack at which it was locked. -/
abbrev RegToLockDepthsMap := AList fun _ : Nat => BitVec 32

/-- A `RegisterLine`. Every line of one method has `num_regs_` registers. -/
structure RegisterLine where
  /-- `line_`: the id of the type of each register. -/
  line : List (BitVec 16)
  /-- `monitors_`: the dex pcs of the `monitor-enter`s held, innermost last. -/
  monitors : List (BitVec 32)
  regToLockDepths : RegToLockDepthsMap
  thisInitialized : Bool

/-- `num_regs_`. -/
def RegisterLine.numRegs (line : RegisterLine) : Nat := line.line.length

/-- `FindLockAliasedRegister`: `src` is not locked in `srcMap`, or some other register of
`searchMap` is locked at the same depths. -/
def findLockAliasedRegister (src : Nat) (srcMap searchMap : RegToLockDepthsMap) : Bool :=
  match srcMap.lookup src with
  | none => true
  | some srcLockLevels =>
    if srcLockLevels = 0 then true
    else searchMap.entries.any fun pair => pair.1 != src && pair.2 == srcLockLevels

/-- One register of the first loop of `MergeRegisters`: a register whose type id differs
from the incoming one takes the merge of the two types, and `changed` is set when that is
not its old type (`RegType::Equals` compares ids). `merge` is `RegType::Merge` on type
ids, through the type cache. -/
def mergeRegisterType (merge : BitVec 16 → BitVec 16 → BitVec 16) (incoming : List (BitVec 16))
    (state : Bool × List (BitVec 16)) (idx : Nat) : Bool × List (BitVec 16) :=
  let (changed, line) := state
  let cur := line.getD idx 0
  let incomingType := incoming.getD idx 0
  if cur ≠ incomingType then
    let newType := merge cur incomingType
    (changed || newType != cur, line.set idx newType)
  else (changed, line)

/-- The first loop of `MergeRegisters`, over every register. -/
def mergeRegisterTypes (merge : BitVec 16 → BitVec 16 → BitVec 16) (line incoming : List (BitVec 16)) :
    Bool × List (BitVec 16) :=
  (List.range line.length).foldl (mergeRegisterType merge incoming) (false, line)

/-- One register of the loop of `MergeRegisters` over the lock depths. A register locked
on one path only, or at other depths on the two, is dropped when its depths on both
paths have an alias in the stored map; otherwise the merge fails with
`VERIFY_ERROR_LOCKING` and the loop breaks. The flag is that failure. -/
def mergeLockDepth (incoming : RegToLockDepthsMap) (state : Bool × RegToLockDepthsMap) (idx : Nat) :
    Bool × RegToLockDepthsMap :=
  let (failed, depths) := state
  let dropIfAliased : Bool × RegToLockDepthsMap :=
    if !findLockAliasedRegister idx depths depths || !findLockAliasedRegister idx incoming depths then
      (true, depths)
    else (false, depths.erase idx)
  -- after the `break`, no other register is looked at
  if failed then state
  else if (depths.lookup idx).isSome ≠ (incoming.lookup idx).isSome then dropIfAliased
  else match depths.lookup idx, incoming.lookup idx with
    | some lockedLevels, some incomingLockedLevels =>
      if lockedLevels ≠ incomingLockedLevels then dropIfAliased else state
    | _, _ => state

/-- The loop of `MergeRegisters` over the lock depths of every register. -/
def mergeLockDepths (numRegs : Nat) (depths incoming : RegToLockDepthsMap) : Bool × RegToLockDepthsMap :=
  (List.range numRegs).foldl (mergeLockDepth incoming) (false, depths)

/-- The lock half of `MergeRegisters`: whether it failed with `VERIFY_ERROR_LOCKING`, and
the merged lock map. The maps are merged only when the monitor stacks are as deep on
both paths and the maps differ (`!=` of `std::map`). -/
def mergeLocks (line incoming : RegisterLine) : Bool × RegToLockDepthsMap :=
  if 0 < line.monitors.length ∨ 0 < incoming.monitors.length then
    if line.monitors.length ≠ incoming.monitors.length then (true, line.regToLockDepths)
    else if ¬line.regToLockDepths.entries.Perm incoming.regToLockDepths.entries then
      mergeLockDepths line.numRegs line.regToLockDepths incoming.regToLockDepths
    else (false, line.regToLockDepths)
  else (false, line.regToLockDepths)

/-- `RegisterLine::MergeRegisters`: whether the line changed, the merged line, and whether
the merge failed with `VERIFY_ERROR_LOCKING`. -/
def mergeRegisters (merge : BitVec 16 → BitVec 16 → BitVec 16) (line incoming : RegisterLine) :
    Bool × RegisterLine × Bool :=
  let (changed, types) := mergeRegisterTypes merge line.line incoming.line
  let (lockingFailed, regToLockDepths) := mergeLocks line incoming
  if line.thisInitialized && !incoming.thisInitialized then
    (true, { line with line := types, regToLockDepths := regToLockDepths, thisInitialized := false },
      lockingFailed)
  else (changed, { line with line := types, regToLockDepths := regToLockDepths }, lockingFailed)

/-! ## Aliases and the lock loop -/

section Aliases

variable {src : Nat} {srcMap searchMap : RegToLockDepthsMap}

theorem findLockAliasedRegister_of_lookup_eq_none (free : srcMap.lookup src = none) :
    findLockAliasedRegister src srcMap searchMap = true := by
  rw [findLockAliasedRegister, free]

/-- A register locked at the depths another register of `searchMap` holds is aliased. -/
theorem findLockAliasedRegister_of_twin {other : Nat} {levels : BitVec 32}
    (locked : srcMap.lookup src = some levels) (distinct : other ≠ src)
    (twin : searchMap.lookup other = some levels) :
    findLockAliasedRegister src srcMap searchMap = true := by
  have found : (⟨other, levels⟩ : Sigma fun _ : Nat => BitVec 32) ∈ searchMap.entries :=
    AList.mem_lookup_iff.1 twin
  by_cases zero : levels = 0
  · simp [findLockAliasedRegister, locked, zero]
  · simp only [findLockAliasedRegister, locked, if_neg zero]
    exact List.any_eq_true.2 ⟨_, found, by simp [distinct]⟩

end Aliases

section LockDepths

variable {depths incoming : RegToLockDepthsMap}

/-- A register whose entries agree on the two maps leaves the loop as it was. -/
theorem mergeLockDepth_of_lookup_eq {idx : Nat} (same : depths.lookup idx = incoming.lookup idx) :
    mergeLockDepth incoming (false, depths) idx = (false, depths) := by
  simp only [mergeLockDepth, same]
  cases incoming.lookup idx <;> simp

/-- A register locked on the stored path only is dropped when another register of the
stored map is locked at its depths. -/
theorem mergeLockDepth_of_aliased {idx other : Nat} {levels : BitVec 32}
    (locked : depths.lookup idx = some levels) (free : incoming.lookup idx = none)
    (distinct : other ≠ idx) (twin : depths.lookup other = some levels) :
    mergeLockDepth incoming (false, depths) idx = (false, depths.erase idx) := by
  have stored := findLockAliasedRegister_of_twin locked distinct twin
  have flowing : findLockAliasedRegister idx incoming depths = true :=
    findLockAliasedRegister_of_lookup_eq_none free
  simp [mergeLockDepth, locked, free, stored, flowing]

/-- One register of the loop keeps the map, or drops that register from it. -/
theorem mergeLockDepth_snd (state : Bool × RegToLockDepthsMap) (idx : Nat) :
    (mergeLockDepth incoming state idx).2 = state.2 ∨
      (mergeLockDepth incoming state idx).2 = state.2.erase idx := by
  rcases state with ⟨failed, depths⟩
  cases failed
  · simp only [mergeLockDepth, Bool.false_eq_true, if_false]
    split
    · split <;> simp
    · split
      · split
        · split <;> simp
        · simp
      · simp
  · simp [mergeLockDepth]

/-- The loop over the lock depths only forgets: every entry of the merged map is an entry
of the stored one. -/
theorem lookup_mergeLockDepths {numRegs idx : Nat} {levels : BitVec 32}
    (kept : (mergeLockDepths numRegs depths incoming).2.lookup idx = some levels) :
    depths.lookup idx = some levels := by
  have step : ∀ i (state : Bool × RegToLockDepthsMap), i < numRegs →
      (∀ idx levels, state.2.lookup idx = some levels → depths.lookup idx = some levels) →
      ∀ idx levels, (mergeLockDepth incoming state i).2.lookup idx = some levels →
        depths.lookup idx = some levels := by
    intro i state _ sub idx levels found
    rcases mergeLockDepth_snd state i with same | dropped
    · rw [same] at found
      exact sub idx levels found
    · rw [dropped] at found
      have other : idx ≠ i := by
        rintro rfl
        rw [AList.lookup_erase] at found
        cases found
      rw [AList.lookup_erase_ne other] at found
      exact sub idx levels found
  exact foldl_range_invariant (mergeLockDepth incoming)
    (fun _ state => ∀ idx levels, state.2.lookup idx = some levels → depths.lookup idx = some levels)
    numRegs (false, depths) (fun _ _ found => found) step idx levels kept

/-- The loop over the lock depths, when the maps agree on every register but one, locked
on the stored path only with a twin there: that register is dropped and nothing fails. -/
theorem mergeLockDepths_of_aliased {numRegs v0 other : Nat} {levels : BitVec 32} (inRange : v0 < numRegs)
    (locked : depths.lookup v0 = some levels) (free : incoming.lookup v0 = none)
    (distinct : other ≠ v0) (twin : depths.lookup other = some levels)
    (agree : ∀ idx, idx ≠ v0 → depths.lookup idx = incoming.lookup idx) :
    mergeLockDepths numRegs depths incoming = (false, depths.erase v0) := by
  -- the invariant: `v0` is dropped once the loop has passed it, and nothing else changes
  have step : ∀ i state, i < numRegs → state = (false, if v0 < i then depths.erase v0 else depths) →
      mergeLockDepth incoming state i = (false, if v0 < i + 1 then depths.erase v0 else depths) := by
    intro i state _ holds
    subst holds
    by_cases here : i = v0
    · subst here
      rw [if_neg (Nat.lt_irrefl i), if_pos (Nat.lt_succ_self i),
        mergeLockDepth_of_aliased locked free distinct twin]
    · by_cases passed : v0 < i
      · have same : (depths.erase v0).lookup i = incoming.lookup i := by
          rw [AList.lookup_erase_ne here]
          exact agree i here
        rw [if_pos passed, if_pos (by omega), mergeLockDepth_of_lookup_eq same]
      · rw [if_neg passed, if_neg (by omega), mergeLockDepth_of_lookup_eq (agree i here)]
  have loop := foldl_range_invariant (mergeLockDepth incoming)
    (fun i state => state = (false, if v0 < i then depths.erase v0 else depths)) numRegs (false, depths)
    (by simp) step
  rwa [if_pos inRange] at loop

end LockDepths

/-! ## The merge -/

/-- Equal types merge to themselves, with no change. -/
theorem mergeRegisterTypes_self (merge : BitVec 16 → BitVec 16 → BitVec 16) (types : List (BitVec 16)) :
    mergeRegisterTypes merge types types = (false, types) :=
  foldl_range_invariant (mergeRegisterType merge types) (fun _ state => state = (false, types)) types.length
    (false, types) rfl fun i state _ holds => by
      subst holds
      simp [mergeRegisterType]

/-- `MergeRegisters` at once: the answer is read off the types and `this_initialized_`
only, whatever becomes of the lock depths. -/
theorem mergeRegisters_eq (merge : BitVec 16 → BitVec 16 → BitVec 16) (line incoming : RegisterLine) :
    mergeRegisters merge line incoming =
      ((mergeRegisterTypes merge line.line incoming.line).1 || (line.thisInitialized && !incoming.thisInitialized),
        { line with line := (mergeRegisterTypes merge line.line incoming.line).2,
                    regToLockDepths := (mergeLocks line incoming).2,
                    thisInitialized := line.thisInitialized && incoming.thisInitialized },
        (mergeLocks line incoming).1) := by
  rcases types : mergeRegisterTypes merge line.line incoming.line with ⟨changed, merged⟩
  rcases locks : mergeLocks line incoming with ⟨failed, depths⟩
  unfold mergeRegisters
  rw [types, locks]
  cases kept : line.thisInitialized <;> cases flowing : incoming.thisInitialized <;> simp

section Aliased

variable {line incoming : RegisterLine} {v0 other : Nat} {levels : BitVec 32}
  (held : 0 < line.monitors.length) (sameDepth : line.monitors.length = incoming.monitors.length)
  (inRange : v0 < line.numRegs) (locked : line.regToLockDepths.lookup v0 = some levels)
  (free : incoming.regToLockDepths.lookup v0 = none) (distinct : other ≠ v0)
  (twin : line.regToLockDepths.lookup other = some levels)
  (agree : ∀ idx, idx ≠ v0 → line.regToLockDepths.lookup idx = incoming.regToLockDepths.lookup idx)
include held sameDepth inRange locked free distinct twin agree

/-- Stacks as deep on both paths, and lock maps that differ at one register only, locked
on the stored path with a twin there: the lock half drops that register. -/
theorem mergeLocks_of_aliased : mergeLocks line incoming = (false, line.regToLockDepths.erase v0) := by
  have differ : ¬line.regToLockDepths.entries.Perm incoming.regToLockDepths.entries := fun same => by
    have looked : line.regToLockDepths.lookup v0 = incoming.regToLockDepths.lookup v0 := AList.perm_lookup same
    rw [locked, free] at looked
    cases looked
  rw [mergeLocks, if_pos (Or.inl held), if_neg (fun unequal => unequal sameDepth), if_pos differ]
  exact mergeLockDepths_of_aliased inRange locked free distinct twin agree

/-- With the types and `this` the same on both paths, the merge drops the register and
answers that nothing changed. -/
theorem mergeRegisters_of_aliased (merge : BitVec 16 → BitVec 16 → BitVec 16)
    (sameTypes : line.line = incoming.line) (sameThis : line.thisInitialized = incoming.thisInitialized) :
    mergeRegisters merge line incoming =
      (false, { line with regToLockDepths := line.regToLockDepths.erase v0 }, false) := by
  rw [mergeRegisters_eq, ← sameTypes, mergeRegisterTypes_self,
    mergeLocks_of_aliased held sameDepth inRange locked free distinct twin agree, ← sameThis]
  cases line.thisInitialized <;> rfl

end Aliased

/-! ## Updating the line of an instruction -/

/-- The flags of an instruction that `UpdateRegisters` reads and sets. -/
structure InstructionFlags where
  visited : Bool
  changed : Bool
  isReturn : Bool
  deriving DecidableEq

/-- `InstructionFlags::IsVisitedOrChanged`. -/
def InstructionFlags.isVisitedOrChanged (flags : InstructionFlags) : Bool := flags.visited || flags.changed

/-- The state of a `MethodVerifier` that `UpdateRegisters` reads and writes: the table of
register lines, the flags of the instructions, the kinds of failure met so far
(`encountered_failure_types_`) and `have_pending_hard_failure_`. -/
structure VerifierState where
  regTable : List RegisterLine
  insnFlags : List InstructionFlags
  encounteredFailureTypes : BitVec 32
  havePendingHardFailure : Bool

/-- `VERIFY_ERROR_LOCKING`. -/
def kVerifyErrorLocking : BitVec 32 := 2048

/-- `Fail(VERIFY_ERROR_LOCKING)`. The failure is recorded; it becomes a soft failure ahead
of time and a runtime throw otherwise, so it never makes a hard failure pending. -/
def VerifierState.failLocking (state : VerifierState) : VerifierState :=
  { state with encounteredFailureTypes := state.encounteredFailureTypes ||| kVerifyErrorLocking }

/-- `RegisterLine::VerifyMonitorStackEmpty`. -/
def VerifierState.verifyMonitorStackEmpty (state : VerifierState) (line : RegisterLine) : VerifierState :=
  if line.monitors.length ≠ 0 then state.failLocking else state

/-- The stored line of instruction `insn` replaced by `line`. -/
def VerifierState.setLine (state : VerifierState) (insn : Nat) (line : RegisterLine) : VerifierState :=
  { state with regTable := state.regTable.set insn line }

/-- `GetInstructionFlags(insn).SetChanged()`. -/
def VerifierState.setChanged (state : VerifierState) (insn : Nat) : VerifierState :=
  { state with insnFlags := state.insnFlags.modify insn fun flags => { flags with changed := true } }

/-- `MethodVerifier::UpdateRegisters`: flows `mergeLine` into the stored line of
`nextInsn`. An instruction not reached before takes a copy of it; a return also needs an
empty monitor stack and keeps only the register it returns (`adjustReturnLine`, the
`AdjustReturnLine` of its opcode). One reached before merges it in, and the merge line
takes the merged line when `updateMergeLine` and the merge changed it. The instruction is
marked changed when it was new or the merge said so. The result is the returned flag, the
state and the merge line; `none` for an instruction out of the table. -/
def updateRegisters (merge : BitVec 16 → BitVec 16 → BitVec 16) (adjustReturnLine : RegisterLine → RegisterLine)
    (state : VerifierState) (nextInsn : Nat) (mergeLine : RegisterLine) (updateMergeLine : Bool) :
    Option (Bool × VerifierState × RegisterLine) := do
  let targetLine ← state.regTable[nextInsn]?
  let flags ← state.insnFlags[nextInsn]?
  if !flags.isVisitedOrChanged then
    let state := state.setLine nextInsn mergeLine
    if flags.isReturn then
      let state := (state.verifyMonitorStackEmpty mergeLine).setLine nextInsn (adjustReturnLine mergeLine)
      if state.havePendingHardFailure then some (false, state, mergeLine)
      else some (true, state.setChanged nextInsn, mergeLine)
    else some (true, state.setChanged nextInsn, mergeLine)
  else
    let (changed, merged, lockingFailed) := mergeRegisters merge targetLine mergeLine
    let state := (if lockingFailed then state.failLocking else state).setLine nextInsn merged
    if state.havePendingHardFailure then some (false, state, mergeLine)
    else
      let mergeLine := if updateMergeLine && changed then merged else mergeLine
      some (true, if changed then state.setChanged nextInsn else state, mergeLine)

@[simp] theorem VerifierState.failLocking_havePendingHardFailure (state : VerifierState) :
    state.failLocking.havePendingHardFailure = state.havePendingHardFailure := rfl

@[simp] theorem VerifierState.setLine_havePendingHardFailure (state : VerifierState) (insn : Nat)
    (line : RegisterLine) : (state.setLine insn line).havePendingHardFailure = state.havePendingHardFailure := rfl

/-- `UpdateRegisters` into an instruction reached before, with no hard failure pending:
the stored line becomes the merged one, and the instruction is marked changed exactly
when `MergeRegisters` says so. A locking failure of the merge is recorded and does not
stop it. -/
theorem updateRegisters_of_reached {merge : BitVec 16 → BitVec 16 → BitVec 16}
    {adjustReturnLine : RegisterLine → RegisterLine} {state : VerifierState} {nextInsn : Nat}
    {targetLine mergeLine merged : RegisterLine} {updateMergeLine changed lockingFailed : Bool}
    {flags : InstructionFlags} (storedLine : state.regTable[nextInsn]? = some targetLine)
    (found : state.insnFlags[nextInsn]? = some flags) (reached : flags.isVisitedOrChanged = true)
    (noHardFailure : state.havePendingHardFailure = false)
    (merging : mergeRegisters merge targetLine mergeLine = (changed, merged, lockingFailed)) :
    updateRegisters merge adjustReturnLine state nextInsn mergeLine updateMergeLine =
      let after := (if lockingFailed then state.failLocking else state).setLine nextInsn merged
      some (true, if changed then after.setChanged nextInsn else after,
        if updateMergeLine && changed then merged else mergeLine) := by
  have pending : ((if lockingFailed then state.failLocking else state).setLine nextInsn merged).havePendingHardFailure
      = false := by
    split <;> simpa using noHardFailure
  simp only [updateRegisters, storedLine, found, reached, merging, Option.bind_eq_bind, Option.bind_some,
    Bool.not_true, Bool.false_eq_true, if_false, pending]

/-- `UpdateRegisters` into an instruction reached before, whose stored line holds a lock
entry that the incoming line lacks while another register of the stored line holds the
same depths, with the register types, `this`, and the depth of the monitor stack the same
on both: the stored line loses that entry, while the instruction's flags stay as they
were, so it is not marked to be verified again. -/
theorem updateRegisters_drops_lock_unmarked (merge : BitVec 16 → BitVec 16 → BitVec 16)
    (adjustReturnLine : RegisterLine → RegisterLine) (state : VerifierState) (nextInsn : Nat)
    (stored mergeLine : RegisterLine) (updateMergeLine : Bool) (flags : InstructionFlags) (v0 other : Nat)
    (levels : BitVec 32) (found : state.insnFlags[nextInsn]? = some flags)
    (reached : flags.isVisitedOrChanged = true) (storedLine : state.regTable[nextInsn]? = some stored)
    (noHardFailure : state.havePendingHardFailure = false) (sameTypes : stored.line = mergeLine.line)
    (sameThis : stored.thisInitialized = mergeLine.thisInitialized) (held : 0 < stored.monitors.length)
    (sameDepth : stored.monitors.length = mergeLine.monitors.length) (inRange : v0 < stored.numRegs)
    (locked : stored.regToLockDepths.lookup v0 = some levels)
    (free : mergeLine.regToLockDepths.lookup v0 = none) (distinct : other ≠ v0)
    (twin : stored.regToLockDepths.lookup other = some levels)
    (agree : ∀ idx, idx ≠ v0 → stored.regToLockDepths.lookup idx = mergeLine.regToLockDepths.lookup idx) :
    updateRegisters merge adjustReturnLine state nextInsn mergeLine updateMergeLine =
      some (true, state.setLine nextInsn { stored with regToLockDepths := stored.regToLockDepths.erase v0 },
        mergeLine) := by
  rw [updateRegisters_of_reached storedLine found reached noHardFailure
    (mergeRegisters_of_aliased held sameDepth inRange locked free distinct twin agree merge sameTypes sameThis)]
  simp

/-- The source's own example of a dropped alias: `v1` locked at depth 0, then `v0 = v1` on
one path and `v0 = v2` on the other. -/
def aliasedLine : RegisterLine := ⟨[0, 0, 0], [0], ((∅ : RegToLockDepthsMap).insert 1 1).insert 0 1, true⟩

/-- The line of the path where `v0` was overwritten. -/
def unaliasedLine : RegisterLine := ⟨[0, 0, 0], [0], (∅ : RegToLockDepthsMap).insert 1 1, true⟩

/-- One instruction, verified once with `aliasedLine`. -/
def aliasedState : VerifierState := ⟨[aliasedLine], [⟨true, false, false⟩], 0, false⟩

theorem aliasedState_drops_v0 :
    updateRegisters (fun cur _ => cur) id aliasedState 0 unaliasedLine false =
      some (true, aliasedState.setLine 0 { aliasedLine with regToLockDepths := aliasedLine.regToLockDepths.erase 0 },
        unaliasedLine) :=
  updateRegisters_drops_lock_unmarked (fun cur _ => cur) id aliasedState 0 aliasedLine unaliasedLine false
    ⟨true, false, false⟩ 0 1 1 rfl rfl rfl rfl rfl rfl (by decide) rfl (by decide) rfl rfl (by decide) rfl
    fun _ other => AList.lookup_insert_ne other

example : (aliasedState.setLine 0 { aliasedLine with regToLockDepths := aliasedLine.regToLockDepths.erase 0 }).regTable.map
    (fun line => line.regToLockDepths.lookup 0) ≠ aliasedState.regTable.map (fun line => line.regToLockDepths.lookup 0) := by
  decide

end Art.Runtime.Verifier
