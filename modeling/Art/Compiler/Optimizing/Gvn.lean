import Mathlib.Data.List.Basic
import Art.Machine.Loop
import Art.Runtime.TypeLookupTable

/-!
# The value sets of global value numbering

A `ValueSet` (`gvn.cc`) is a hash table of instructions: `num_buckets_` buckets, each the head
of a list of nodes that the arena holds. An instruction that depends on side effects goes to
an even bucket and a pure one to an odd bucket, so that `Kill` and `IntersectWith` walk only
the even buckets (`DeleteAllImpureWhich`). A copy with as many buckets as its source takes the
source's bucket heads and owns none of them; before it changes a bucket it does not own, it
clones the bucket's nodes (`CloneBucket`). A copy with more buckets rehashes fresh nodes.

The arena is a list of nodes: a node's address is its index, and `new Node` takes the next
address. What a set holds is the instructions of the nodes reachable from its buckets
(`Holds`). `Add` puts a new node in front of a bucket that the set owns: the set then holds
the instruction and what it held (`add_holds`), and no other set sees the node (`add_frame`).
`DeleteAllImpureWhich` unlinks a node by setting the `next_` of the node before it. Only a copy
records that it shares nodes; its source still owns them, and `gvn.cc` only reads or
repopulates a set after copying it.

**A stale count.** `DeleteAllImpureWhich` unlinks nodes but never decrements `num_entries_`
(`deleteAllImpureWhich_numEntries`): after a `Kill` that removes every member, `IsEmpty()` is
still false (`kill_leaves_stale_count`).

An `HInstruction` is what the set reads of it: its address, `ComputeHashCode()`, its side
effects, and the class of the instructions it `Equals`. `HasIrreducibleLoops()` of the graph
is the parameter `irreducible`. Each loop over a bucket runs for at most as many nodes as the
arena holds. A failed `DCHECK` is `none`.
-/

set_option autoImplicit false

namespace Art.Compiler.Optimizing.Gvn

/-- `SideEffects`, by its `flags_`. -/
structure SideEffects where
  flags : Nat
  deriving DecidableEq, Repr

namespace SideEffects

/-- `kChangeBits`: the write bits of fields and of arrays, and `kCanTriggerGCBit`. -/
def kChangeBits : Nat := 19

/-- `kDependOnBits`. -/
def kDependOnBits : Nat := 19

/-- `kAllDependOnBits`. -/
def kAllDependOnBits : Nat := (2 ^ kDependOnBits - 1) <<< kChangeBits

/-- `HasDependencies()`. -/
def hasDependencies (e : SideEffects) : Bool := e.flags &&& kAllDependOnBits != 0

/-- `MayDependOn(other)`: `this` may read something that `other` writes. -/
def mayDependOn (e other : SideEffects) : Bool :=
  other.flags &&& ((e.flags &&& kAllDependOnBits) >>> kChangeBits) != 0

end SideEffects

/-- What a `ValueSet` reads of an `HInstruction`: its address, `ComputeHashCode()`,
`GetSideEffects()`, and the class of the instructions it `Equals`. -/
structure Instruction where
  address : Nat
  computeHashCode : Nat
  sideEffects : SideEffects
  equalsClass : Nat
  deriving DecidableEq, Repr

/-- `Equals(other)`. -/
def Instruction.equals (a b : Instruction) : Bool := a.equalsClass == b.equalsClass

/-- `ValueSet::Node`. -/
structure Node where
  instruction : Instruction
  hashCode : Nat
  next : Option Nat
  deriving DecidableEq, Repr

/-- A `ValueSet`: `num_buckets_`, the heads `buckets_`, `buckets_owned_` and `num_entries_`. -/
structure ValueSet where
  numBuckets : Nat
  buckets : List (Option Nat)
  bucketsOwned : List Bool
  numEntries : Nat
  deriving DecidableEq, Repr

/-- `kMinimumNumberOfBuckets`. -/
def kMinimumNumberOfBuckets : Nat := 8

/-- `new (allocator_) Node(...)`: the node at the next address of the arena. -/
def newNode (heap : List Node) (node : Node) : List Node × Nat := (heap ++ [node], heap.length)

/-- `SetNext(next)` of the node at `p`. -/
def setNext (heap : List Node) (p : Nat) (next : Option Nat) : List Node :=
  heap.modify p fun node => { node with next }

namespace ValueSet

/-- `ValueSet(allocator)`: empty, owning all its buckets. -/
def create : ValueSet :=
  ⟨kMinimumNumberOfBuckets, List.replicate kMinimumNumberOfBuckets none,
    List.replicate kMinimumNumberOfBuckets true, 0⟩

/-- `IdealBucketCount()`: one and a half buckets an entry, as a power of two, and at least
`kMinimumNumberOfBuckets`. -/
def idealBucketCount (s : ValueSet) : Nat :=
  let bucketCount := Art.Runtime.TypeLookupTable.roundUpToPowerOfTwo (s.numEntries + (s.numEntries >>> 1))
  if bucketCount > kMinimumNumberOfBuckets then bucketCount else kMinimumNumberOfBuckets

/-- `BucketIndex(hash_code)`. -/
def bucketIndex (s : ValueSet) (hashCode : Nat) : Nat := hashCode &&& (s.numBuckets - 1)

/-- `IsEmpty()`. -/
def isEmpty (s : ValueSet) : Bool := s.numEntries == 0

/-- `Clear()`. -/
def clear (s : ValueSet) : ValueSet :=
  { s with
    numEntries := 0
    buckets := List.replicate s.numBuckets none
    bucketsOwned := List.replicate s.numBuckets true }

section Operations

variable (irreducible : Bool)

/-- `HashCode(instruction)`: a pure instruction goes to an odd bucket, unless the graph has
irreducible loops. -/
def hashCode (instruction : Instruction) : Nat :=
  let hashCode := instruction.computeHashCode
  if instruction.sideEffects.hasDependencies || irreducible then (hashCode <<< 1) % 2 ^ 64
  else (hashCode <<< 1) % 2 ^ 64 ||| 1

/-- The loop of `Lookup` from `node`. -/
def lookupFrom (hashCode : Nat) (instruction : Instruction) (heap : List Node) : Nat → Option Nat → Option Instruction
  | 0, _ | _, none => none
  | fuel + 1, some p =>
      match heap[p]? with
      | none => none
      | some node =>
          if node.hashCode = hashCode ∧ node.instruction.equals instruction then some node.instruction
          else lookupFrom hashCode instruction heap fuel node.next

/-- `Lookup(instruction)`: a member that `Equals` it. -/
def lookup (heap : List Node) (s : ValueSet) (instruction : Instruction) : Option Instruction :=
  let hashCode := hashCode irreducible instruction
  lookupFrom hashCode instruction heap heap.length (s.buckets.getD (s.bucketIndex hashCode) none)

/-- The loop of `Contains` from `node`. -/
def containsFrom (instruction : Instruction) (heap : List Node) : Nat → Option Nat → Bool
  | 0, _ | _, none => false
  | fuel + 1, some p =>
      match heap[p]? with
      | none => false
      | some node => node.instruction.address == instruction.address || containsFrom instruction heap fuel node.next

/-- `Contains(instruction)`: the instruction itself is a member. -/
def contains (heap : List Node) (s : ValueSet) (instruction : Instruction) : Bool :=
  containsFrom instruction heap heap.length (s.buckets.getD (s.bucketIndex (hashCode irreducible instruction)) none)

/-- The loop of `CloneBucket(index, iterator)` from `node`: each node is duplicated, and each
clone is linked after the one before; the clone of `iterator` is returned. -/
def cloneFrom (index : Nat) (iterator : Option Nat) :
    Nat → List Node × ValueSet → Option Nat → Option Nat → Option Nat → List Node × ValueSet × Option Nat
  | 0, (heap, s), _, cloneIterator, _ | _, (heap, s), _, cloneIterator, none => (heap, s, cloneIterator)
  | fuel + 1, (heap, s), clonePrevious, cloneIterator, some p =>
      match heap[p]? with
      | none => (heap, s, cloneIterator)
      | some node =>
          let (heap, cloneCurrent) := newNode heap { node with next := none }
          let cloneIterator := if some p = iterator then some cloneCurrent else cloneIterator
          let (heap, s) := match clonePrevious with
            | none => (heap, { s with buckets := s.buckets.set index (some cloneCurrent) })
            | some q => (setNext heap q (some cloneCurrent), s)
          cloneFrom index iterator fuel (heap, s) (some cloneCurrent) cloneIterator node.next

/-- `CloneBucket(index, iterator)`. -/
def cloneBucket (heap : List Node) (s : ValueSet) (index : Nat) (iterator : Option Nat) :
    Option (List Node × ValueSet × Option Nat) :=
  if s.bucketsOwned.getD index false then none
  else
    let (heap, s, cloneIterator) := cloneFrom index iterator heap.length (heap, s) none none (s.buckets.getD index none)
    some (heap, { s with bucketsOwned := s.bucketsOwned.set index true }, cloneIterator)

/-- `Add(instruction)`. -/
def add (heap : List Node) (s : ValueSet) (instruction : Instruction) : Option (List Node × ValueSet) := do
  if (lookup irreducible heap s instruction).isSome then none
  let hashCode := hashCode irreducible instruction
  let index := s.bucketIndex hashCode
  let (heap, s) ← if !s.bucketsOwned.getD index false then
      (cloneBucket heap s index none).map fun (heap, s, _) => (heap, s)
    else some (heap, s)
  let (heap, node) := newNode heap ⟨instruction, hashCode, s.buckets.getD index none⟩
  some (heap, { s with buckets := s.buckets.set index (some node), numEntries := s.numEntries + 1 })

/-- The rehashing loop of `PopulateFromInternal` over the bucket of `other` from `node`. -/
def rehashFrom : Nat → List Node × ValueSet → Option Nat → List Node × ValueSet
  | 0, state, _ | _, state, none => state
  | fuel + 1, (heap, s), some p =>
      match heap[p]? with
      | none => (heap, s)
      | some node =>
          let newIndex := s.bucketIndex node.hashCode
          let (heap, dup) := newNode heap { node with next := s.buckets.getD newIndex none }
          rehashFrom fuel (heap, { s with buckets := s.buckets.set newIndex (some dup) }) node.next

/-- `PopulateFromInternal(other, is_dirty)`: with as many buckets, share the heads of `other`;
otherwise copy and rehash all its entries. -/
def populateFromInternal (heap : List Node) (s other : ValueSet) (isDirty : Bool) : Option (List Node × ValueSet) :=
  if ¬other.idealBucketCount ≤ s.numBuckets then none
  else if s.numBuckets = other.numBuckets then
    -- `DCHECK_EQ(buckets_owned_.NumSetBits(), 0u)`
    if !isDirty && s.bucketsOwned.any id then none
    else some (heap, { s with
      buckets := other.buckets
      bucketsOwned := List.replicate s.numBuckets false
      numEntries := other.numEntries })
  else if !isDirty && s.buckets.any Option.isSome then none
  else
    let s := { s with buckets := List.replicate s.numBuckets none }
    let (heap, s) := (List.range other.numBuckets).foldl
      (fun (heap, s) i => rehashFrom heap.length (heap, s) (other.buckets.getD i none)) (heap, s)
    some (heap, { s with bucketsOwned := List.replicate s.numBuckets true, numEntries := other.numEntries })

/-- `ValueSet(allocator, other)`: a copy with `IdealBucketCount()` buckets. -/
def copy (heap : List Node) (other : ValueSet) : Option (List Node × ValueSet) :=
  let numBuckets := other.idealBucketCount
  populateFromInternal heap ⟨numBuckets, List.replicate numBuckets none, List.replicate numBuckets false, 0⟩ other false

/-- `PopulateFrom(other)` of a set that is not `other`. -/
def populateFrom (heap : List Node) (s other : ValueSet) : Option (List Node × ValueSet) :=
  populateFromInternal heap s other true

/-- The first loop of `DeleteAllImpureWhich` over a bucket it does not own: it walks on while no
entry satisfies `cond`; at the first that does, it clones the bucket and goes on in the clone. -/
def scanUnowned (cond : List Node → Node → Bool) (i : Nat) :
    Nat → List Node × ValueSet → Option Nat → Option Nat → Option (List Node × ValueSet × Option Nat × Option Nat)
  | 0, (heap, s), previous, node | _, (heap, s), previous, node@none => some (heap, s, previous, node)
  | fuel + 1, (heap, s), previous, some p =>
      match heap[p]? with
      | none => some (heap, s, previous, some p)
      | some node =>
          if cond heap node then do
            let (heap, s, previous) ← cloneBucket heap s i previous
            let node := match previous with
              | none => s.buckets.getD i none
              | some q => heap[q]?.bind (·.next)
            some (heap, s, previous, node)
          else scanUnowned cond i fuel (heap, s) (some p) node.next

/-- The second loop of `DeleteAllImpureWhich`: it unlinks each entry from `node` on that
satisfies `cond`. -/
def deleteFrom (cond : List Node → Node → Bool) (i : Nat) :
    Nat → List Node × ValueSet → Option Nat → Option Nat → List Node × ValueSet
  | 0, state, _, _ | _, state, _, none => state
  | fuel + 1, (heap, s), previous, some p =>
      match heap[p]? with
      | none => (heap, s)
      | some node =>
          let next := node.next
          if cond heap node then
            match previous with
            | none => deleteFrom cond i fuel (heap, { s with buckets := s.buckets.set i next }) none next
            | some q => deleteFrom cond i fuel (setNext heap q next, s) (some q) next
          else deleteFrom cond i fuel (heap, s) (some p) next

/-- `DeleteAllImpureWhich(cond)` on the even bucket `i`. -/
def deleteInBucket (cond : List Node → Node → Bool) (state : List Node × ValueSet) (i : Nat) :
    Option (List Node × ValueSet) :=
  let (heap, s) := state
  match s.buckets.getD i none with
  | none => some (heap, s)
  | some head => do
      let (heap, s, previous, node) ← if !s.bucketsOwned.getD i false then
          scanUnowned cond i heap.length (heap, s) none (some head)
        else some (heap, s, none, some head)
      -- `DCHECK(buckets_owned_.IsBitSet(i) || node == nullptr)`
      if !(s.bucketsOwned.getD i false || node.isNone) then none
      else some (deleteFrom cond i heap.length (heap, s) previous node)

/-- `DeleteAllImpureWhich(cond)`: the even buckets, in order. -/
def deleteAllImpureWhich (cond : List Node → Node → Bool) (heap : List Node) (s : ValueSet) :
    Option (List Node × ValueSet) :=
  (List.range' 0 ((s.numBuckets + 1) / 2) 2).foldlM (deleteInBucket cond) (heap, s)

/-- `Kill(side_effects)`. -/
def kill (heap : List Node) (s : ValueSet) (sideEffects : SideEffects) : Option (List Node × ValueSet) :=
  deleteAllImpureWhich (fun _ node => node.instruction.sideEffects.mayDependOn sideEffects) heap s

/-- `IntersectWith(predecessor)`. -/
def intersectWith (heap : List Node) (s predecessor : ValueSet) : Option (List Node × ValueSet) :=
  if s.isEmpty then some (heap, s)
  else if predecessor.isEmpty then some (heap, s.clear)
  else deleteAllImpureWhich (fun heap node => !predecessor.contains irreducible heap node.instruction) heap s

end Operations

end ValueSet

/-! ## What a set holds -/

/-- The instructions of the nodes reachable from the node at `p`. -/
inductive Reaches (heap : List Node) : Nat → Instruction → Prop
  | here {p : Nat} {node : Node} : heap[p]? = some node → Reaches heap p node.instruction
  | next {p q : Nat} {node : Node} {x : Instruction} :
      heap[p]? = some node → node.next = some q → Reaches heap q x → Reaches heap p x

/-- **What a set holds**: the instructions reachable from its buckets. -/
def Holds (heap : List Node) (s : ValueSet) (x : Instruction) : Prop :=
  ∃ p, some p ∈ s.buckets ∧ Reaches heap p x

/-- Every `next_` of the arena points into it. -/
def Closed (heap : List Node) : Prop := ∀ node ∈ heap, ∀ q, node.next = some q → q < heap.length

/-- Every bucket head of the set points into the arena. -/
def PointsInto (heap : List Node) (s : ValueSet) : Prop := ∀ p, some p ∈ s.buckets → p < heap.length

/-- `heap'` keeps every node of `heap` as it was. -/
def Extends (heap heap' : List Node) : Prop := ∀ p < heap.length, heap'[p]? = heap[p]?

namespace Extends

theorem refl (heap : List Node) : Extends heap heap := fun _ _ => rfl

theorem trans {heap heap' heap'' : List Node} (first : Extends heap heap') (second : Extends heap' heap'') :
    Extends heap heap'' := by
  intro p below
  have kept := first p below
  have below' : p < heap'.length := by
    obtain ⟨node, stored⟩ : ∃ node, heap[p]? = some node := ⟨heap[p], List.getElem?_eq_getElem below⟩
    rw [← kept] at stored
    exact (List.getElem?_eq_some_iff.1 stored).1
  rw [second p below', kept]

theorem length_le {heap heap' : List Node} (extends' : Extends heap heap') : heap.length ≤ heap'.length := by
  rcases Nat.eq_zero_or_pos heap.length with empty | nonempty
  · omega
  · have kept := extends' (heap.length - 1) (by omega)
    rw [List.getElem?_eq_getElem (by omega : heap.length - 1 < heap.length)] at kept
    have := (List.getElem?_eq_some_iff.1 kept).1
    omega

theorem newNode (heap : List Node) (node : Node) : Extends heap (Gvn.newNode heap node).1 :=
  fun _ below => List.getElem?_append_left below

/-- Setting the `next_` of a node beyond `heap` keeps `heap`. -/
theorem setNext {heap heap' : List Node} (extends' : Extends heap heap') {q : Nat} (beyond : heap.length ≤ q)
    (next : Option Nat) : Extends heap (Gvn.setNext heap' q next) := by
  intro p below
  have other : q ≠ p := by omega
  simp [Gvn.setNext, other, extends' p below]

end Extends

/-- **What is reachable in the old arena is reachable in one that extends it**, and nothing more
from an old node: its links lead to old nodes. -/
theorem reaches_of_extends {heap heap' : List Node} (closed : Closed heap) (extends' : Extends heap heap')
    {p : Nat} (below : p < heap.length) {x : Instruction} : Reaches heap' p x ↔ Reaches heap p x := by
  constructor
  · intro reaches
    induction reaches with
    | here stored =>
        rw [extends' _ below] at stored
        exact .here stored
    | next stored linked _ ih =>
        rw [extends' _ below] at stored
        have linkedBelow := closed _ (List.mem_of_getElem? stored) _ linked
        exact .next stored linked (ih linkedBelow)
  · intro reaches
    induction reaches with
    | here stored => exact .here (by rw [extends' _ below, stored])
    | next stored linked _ ih =>
        have linkedBelow := closed _ (List.mem_of_getElem? stored) _ linked
        exact .next (by rw [extends' _ below, stored]) linked (ih linkedBelow)

/-- A set whose buckets point into a closed arena holds the same in every extension of it. -/
theorem holds_of_extends {heap heap' : List Node} {s : ValueSet} (closed : Closed heap)
    (points : PointsInto heap s) (extends' : Extends heap heap') (x : Instruction) :
    Holds heap' s x ↔ Holds heap s x :=
  exists_congr fun p => and_congr_right fun head => reaches_of_extends closed extends' (points p head)

/-- From a node put at the end of the arena, its own instruction and those its link reaches are
reachable. -/
theorem reaches_newNode {heap : List Node} (closed : Closed heap) {node : Node}
    (linked : ∀ q, node.next = some q → q < heap.length) {x : Instruction} :
    Reaches (heap ++ [node]) heap.length x ↔ x = node.instruction ∨ ∃ q, node.next = some q ∧ Reaches heap q x := by
  have stored : (heap ++ [node])[heap.length]? = some node := by simp
  have kept : Extends heap (heap ++ [node]) := Extends.newNode heap node
  constructor
  · rintro (⟨stored'⟩ | ⟨stored', next, rest⟩)
    · rw [stored] at stored'
      cases stored'
      exact .inl rfl
    · rw [stored] at stored'
      cases stored'
      exact .inr ⟨_, next, (reaches_of_extends closed kept (linked _ next)).1 rest⟩
  · rintro (rfl | ⟨q, next, rest⟩)
    · exact .here stored
    · exact .next stored next ((reaches_of_extends closed kept (linked _ next)).2 rest)

namespace ValueSet

section Operations

variable (irreducible : Bool)

/-- Cloning a bucket only appends nodes and links the new ones. -/
theorem cloneFrom_extends (index : Nat) (iterator : Option Nat) {heap₀ : List Node} (fuel : Nat) :
    ∀ {heap s clonePrevious cloneIterator node}, Extends heap₀ heap →
      (∀ q, clonePrevious = some q → heap₀.length ≤ q) →
      Extends heap₀ (cloneFrom index iterator fuel (heap, s) clonePrevious cloneIterator node).1 := by
  induction fuel with
  | zero =>
      intro heap s clonePrevious cloneIterator node kept _
      simpa [cloneFrom] using kept
  | succ fuel ih =>
      intro heap s clonePrevious cloneIterator node kept fresh
      cases node with
      | none => simpa [cloneFrom] using kept
      | some p =>
          cases stored : heap[p]? with
          | none => simpa [cloneFrom, stored] using kept
          | some n =>
              have appended := kept.trans (Extends.newNode heap { n with next := none })
              have beyond : heap₀.length ≤ heap.length := kept.length_le
              cases clonePrevious with
              | none =>
                  simp only [cloneFrom, stored, newNode]
                  exact ih appended (by simpa using beyond)
              | some q =>
                  simp only [cloneFrom, stored, newNode]
                  exact ih (appended.setNext (fresh q rfl) _) (by simpa using beyond)

theorem cloneBucket_extends {heap heap' : List Node} {s s' : ValueSet} {index : Nat}
    {iterator cloneIterator : Option Nat}
    (cloned : cloneBucket heap s index iterator = some (heap', s', cloneIterator)) : Extends heap heap' := by
  unfold cloneBucket at cloned
  split at cloned
  · contradiction
  · simp only [Option.some.injEq, Prod.mk.injEq] at cloned
    rw [← cloned.1]
    exact cloneFrom_extends index iterator _ (Extends.refl heap) (by simp)

/-- What `Lookup` walks from a node and finds is reachable from it and `Equals` the instruction. -/
theorem lookupFrom_sound {hashCode : Nat} {instruction found : Instruction} {heap : List Node} (fuel : Nat) :
    ∀ {node}, lookupFrom hashCode instruction heap fuel node = some found →
      ∃ p, node = some p ∧ Reaches heap p found ∧ found.equals instruction = true := by
  induction fuel with
  | zero => intro node looked; simp [lookupFrom] at looked
  | succ fuel ih =>
      intro node looked
      cases node with
      | none => simp [lookupFrom] at looked
      | some p =>
          cases stored : heap[p]? with
          | none => simp [lookupFrom, stored] at looked
          | some n =>
              simp only [lookupFrom, stored] at looked
              split at looked
              next hit =>
                cases looked
                exact ⟨p, rfl, .here stored, hit.2⟩
              next =>
                obtain ⟨q, linked, reaches, equal⟩ := ih looked
                exact ⟨p, rfl, .next stored linked reaches, equal⟩

/-- **`Lookup` finds only members**, and only ones that `Equals` the instruction. -/
theorem lookup_sound {heap : List Node} {s : ValueSet} {instruction found : Instruction}
    (looked : lookup irreducible heap s instruction = some found) :
    Holds heap s found ∧ found.equals instruction = true := by
  obtain ⟨p, head, reaches, equal⟩ := lookupFrom_sound _ looked
  refine ⟨⟨p, ?_, reaches⟩, equal⟩
  rw [List.getD_eq_getElem?_getD] at head
  cases entry : s.buckets[s.bucketIndex (hashCode irreducible instruction)]? with
  | none => simp [entry] at head
  | some head' =>
      rw [entry, Option.getD_some] at head
      exact head ▸ List.mem_of_getElem? entry

/-- `Add` only appends nodes and links the new ones. -/
theorem add_extends {heap heap' : List Node} {s s' : ValueSet} {instruction : Instruction}
    (added : add irreducible heap s instruction = some (heap', s')) : Extends heap heap' := by
  simp only [add] at added
  split at added
  · contradiction
  split at added
  · -- a bucket the set does not own is cloned first
    cases cloned : cloneBucket heap s (s.bucketIndex (hashCode irreducible instruction)) none with
    | none => simp [cloned] at added
    | some result =>
        obtain ⟨heap₁, s₁, _⟩ := result
        simp only [cloned, Option.map_some, Option.bind_eq_bind, Option.bind_some, Option.some.injEq,
          Prod.mk.injEq] at added
        rw [← added.1]
        exact (cloneBucket_extends cloned).trans (Extends.newNode _ _)
  · simp only [Option.bind_eq_bind, Option.bind_some, Option.some.injEq, Prod.mk.injEq] at added
    rw [← added.1]
    exact Extends.newNode _ _

/-- **`Add` leaves every other set as it was**, when its buckets point into a closed arena. -/
theorem add_frame {heap heap' : List Node} {s s' other : ValueSet} {instruction : Instruction}
    (closed : Closed heap) (points : PointsInto heap other)
    (added : add irreducible heap s instruction = some (heap', s')) (x : Instruction) :
    Holds heap' other x ↔ Holds heap other x :=
  holds_of_extends closed points (add_extends irreducible added) x

/-- `Add` to a bucket that the set owns puts a new node in front of the bucket. -/
theorem add_of_owned {heap heap' : List Node} {s s' : ValueSet} {instruction : Instruction}
    (owned : s.bucketsOwned.getD (s.bucketIndex (hashCode irreducible instruction)) false = true)
    (added : add irreducible heap s instruction = some (heap', s')) :
    heap' = heap ++ [⟨instruction, hashCode irreducible instruction,
        s.buckets.getD (s.bucketIndex (hashCode irreducible instruction)) none⟩] ∧
      s'.buckets = s.buckets.set (s.bucketIndex (hashCode irreducible instruction)) (some heap.length) := by
  simp only [add] at added
  split at added
  · contradiction
  split at added
  next notOwned => simp only [owned, Bool.not_true, Bool.false_eq_true] at notOwned
  next =>
    simp only [Option.bind_eq_bind, Option.bind_some, Option.some.injEq, Prod.mk.injEq] at added
    obtain ⟨rfl, rfl⟩ := added
    exact ⟨rfl, rfl⟩

/-- **`Add` inserts** into a bucket that the set owns: afterwards the set holds the instruction
and what it held before, and nothing else. -/
theorem add_holds {heap heap' : List Node} {s s' : ValueSet} {instruction : Instruction}
    (closed : Closed heap) (points : PointsInto heap s)
    (owned : s.bucketsOwned.getD (s.bucketIndex (hashCode irreducible instruction)) false = true)
    (inRange : s.bucketIndex (hashCode irreducible instruction) < s.buckets.length)
    (added : add irreducible heap s instruction = some (heap', s')) (x : Instruction) :
    Holds heap' s' x ↔ x = instruction ∨ Holds heap s x := by
  obtain ⟨rfl, buckets⟩ := add_of_owned irreducible owned added
  set index := s.bucketIndex (hashCode irreducible instruction)
  -- the old head of the bucket is what the new node links to
  have linked : ∀ q, s.buckets.getD index none = some q → some q ∈ s.buckets ∧ q < heap.length := by
    intro q head
    rw [List.getD_eq_getElem?_getD] at head
    have listed : some q ∈ s.buckets := by
      cases entry : s.buckets[index]? with
      | none => simp [entry] at head
      | some head' =>
          rw [entry, Option.getD_some] at head
          exact head ▸ List.mem_of_getElem? entry
    exact ⟨listed, points q listed⟩
  have kept := Extends.newNode heap ⟨instruction, hashCode irreducible instruction, s.buckets.getD index none⟩
  have reachesNew : Reaches (heap ++ [⟨instruction, hashCode irreducible instruction, s.buckets.getD index none⟩])
      heap.length x ↔ _ := reaches_newNode closed fun q next => (linked q next).2
  simp only [Holds, buckets]
  constructor
  · rintro ⟨p, member, reaches⟩
    rcases List.mem_or_eq_of_mem_set member with old | new
    · exact .inr ⟨p, old, (reaches_of_extends closed kept (points p old)).1 reaches⟩
    · obtain rfl := Option.some.inj new
      rcases reachesNew.1 reaches with rfl | ⟨q, next, rest⟩
      · exact .inl rfl
      · exact .inr ⟨q, (linked q next).1, rest⟩
  · rintro (rfl | ⟨p, member, reaches⟩)
    · exact ⟨heap.length, List.mem_set inRange _, reachesNew.2 (.inl rfl)⟩
    · obtain ⟨j, entry⟩ := List.mem_iff_getElem?.1 member
      by_cases head : j = index
      · -- `p` heads the bucket: it is reached through the new node
        subst head
        have next : s.buckets.getD index none = some p := by simp [List.getD_eq_getElem?_getD, entry]
        exact ⟨heap.length, List.mem_set inRange _, reachesNew.2 (.inr ⟨p, next, reaches⟩)⟩
      · have still : (s.buckets.set index (some heap.length))[j]? = some (some p) := by
          rw [List.getElem?_set_ne (Ne.symm head), entry]
        exact ⟨p, List.mem_of_getElem? still, (reaches_of_extends closed kept (points p member)).2 reaches⟩

/-! ### `num_entries_` under `DeleteAllImpureWhich`

The loops of `DeleteAllImpureWhich` unlink nodes and clone buckets, but none of them touches
`num_entries_`: only `Add`, `Clear` and `PopulateFromInternal` write it. -/

theorem cloneFrom_numEntries (index : Nat) (iterator : Option Nat) (fuel : Nat) :
    ∀ {heap s clonePrevious cloneIterator node},
      (cloneFrom index iterator fuel (heap, s) clonePrevious cloneIterator node).2.1.numEntries = s.numEntries := by
  induction fuel with
  | zero => intros; rfl
  | succ fuel ih =>
      intro heap s clonePrevious cloneIterator node
      cases node with
      | none => rfl
      | some p =>
          cases stored : heap[p]? with
          | none => simp only [cloneFrom, stored]
          | some n =>
              -- the clone of the first node is the new head of the bucket, the others are linked
              cases clonePrevious <;> simp only [cloneFrom, stored, newNode] <;> rw [ih]

theorem cloneBucket_numEntries {heap heap' : List Node} {s s' : ValueSet} {index : Nat}
    {iterator cloneIterator : Option Nat}
    (cloned : cloneBucket heap s index iterator = some (heap', s', cloneIterator)) : s'.numEntries = s.numEntries := by
  unfold cloneBucket at cloned
  split at cloned
  · contradiction
  · simp only [Option.some.injEq, Prod.mk.injEq] at cloned
    rw [← cloned.2.1, cloneFrom_numEntries]

theorem scanUnowned_numEntries (cond : List Node → Node → Bool) (i fuel : Nat) :
    ∀ {heap s previous node heap' s' previous' node'},
      scanUnowned cond i fuel (heap, s) previous node = some (heap', s', previous', node') →
      s'.numEntries = s.numEntries := by
  induction fuel with
  | zero =>
      intro heap s previous node heap' s' previous' node' scanned
      cases scanned
      rfl
  | succ fuel ih =>
      intro heap s previous node heap' s' previous' node' scanned
      cases node with
      | none => cases scanned; rfl
      | some p =>
          cases stored : heap[p]? with
          | none => simp only [scanUnowned, stored, Option.some.injEq, Prod.mk.injEq] at scanned; rw [← scanned.2.1]
          | some n =>
              simp only [scanUnowned, stored] at scanned
              split at scanned
              · -- the first entry to delete: the bucket is cloned, and the scan stops
                obtain ⟨⟨heap₁, s₁, clonePrevious⟩, cloned, found⟩ := Option.bind_eq_some_iff.1 scanned
                simp only [Option.some.injEq, Prod.mk.injEq] at found
                rw [← found.2.1, cloneBucket_numEntries cloned]
              · exact ih scanned

theorem deleteFrom_numEntries (cond : List Node → Node → Bool) (i fuel : Nat) :
    ∀ {heap s previous node}, (deleteFrom cond i fuel (heap, s) previous node).2.numEntries = s.numEntries := by
  induction fuel with
  | zero => intros; rfl
  | succ fuel ih =>
      intro heap s previous node
      cases node with
      | none => rfl
      | some p =>
          cases stored : heap[p]? with
          | none => simp only [deleteFrom, stored]
          | some n =>
              -- an unlinked head changes `buckets_`, an unlinked inner node the arena
              simp only [deleteFrom, stored]
              split
              · split <;> rw [ih]
              · rw [ih]

theorem deleteInBucket_numEntries {cond : List Node → Node → Bool} {state final : List Node × ValueSet} {i : Nat}
    (deleted : deleteInBucket cond state i = some final) : final.2.numEntries = state.2.numEntries := by
  obtain ⟨heap, s⟩ := state
  cases head : s.buckets.getD i none with
  | none =>
      simp only [deleteInBucket, head, Option.some.injEq] at deleted
      rw [← deleted]
  | some p =>
    simp only [deleteInBucket, head] at deleted
    -- the bucket is scanned for a first entry to delete only when the set does not own it
    split at deleted
    · obtain ⟨⟨heap₁, s₁, previous, node⟩, scanned, checked⟩ := Option.bind_eq_some_iff.1 deleted
      split at checked
      · contradiction
      · cases checked
        rw [deleteFrom_numEntries, scanUnowned_numEntries cond i _ scanned]
    · simp only [Option.bind_eq_bind, Option.bind_some] at deleted
      split at deleted
      · contradiction
      · cases deleted
        rw [deleteFrom_numEntries]

/-- **`DeleteAllImpureWhich` keeps `num_entries_`**, whatever it unlinks. -/
theorem deleteAllImpureWhich_numEntries {cond : List Node → Node → Bool} {heap heap' : List Node}
    {s s' : ValueSet} (deleted : deleteAllImpureWhich cond heap s = some (heap', s')) :
    s'.numEntries = s.numEntries :=
  Art.Machine.foldlM_preserves (fun state => state.2.numEntries = s.numEntries)
    (fun _ _ _ step kept => (deleteInBucket_numEntries step).trans kept) _ deleted rfl

end Operations

end ValueSet

/-! ## A count that `Kill` leaves behind -/

/-- The side effects of an `InstanceFieldSet` of a reference field: it writes `kPrimNot` fields. -/
def writeReference : SideEffects := ⟨1⟩

/-- An `InstanceFieldGet` of a reference field: it reads `kPrimNot` fields. -/
def loadReference : Instruction := ⟨0x100, 0, ⟨1 <<< 19⟩, 0⟩

/-- **`Kill` leaves `num_entries_` behind.** After `Add` of the reference load, a `Kill` of a
reference write unlinks its node, and the set holds no instruction. `DeleteAllImpureWhich`
keeps `num_entries_` (`deleteAllImpureWhich_numEntries`), so it is still 1 and `IsEmpty()` is
false. -/
theorem kill_leaves_stale_count :
    ∃ heap₁ s₁ s₂, ValueSet.add false [] ValueSet.create loadReference = some (heap₁, s₁) ∧
      ValueSet.kill heap₁ s₁ writeReference = some (heap₁, s₂) ∧ (∀ x, ¬Holds heap₁ s₂ x) ∧
      s₂.numEntries = 1 ∧ s₂.isEmpty = false := by
  refine ⟨[⟨loadReference, 0, none⟩], _, ⟨8, List.replicate 8 none, List.replicate 8 true, 1⟩,
    rfl, rfl, ?_, rfl, rfl⟩
  -- every bucket of the killed set is empty
  rintro x ⟨p, head, -⟩
  simp at head

end Art.Compiler.Optimizing.Gvn
