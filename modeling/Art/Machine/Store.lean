import Mathlib.Logic.Function.Basic
import Mathlib.Data.List.Nodup

/-!
# Stores of cells

A machine state is a store: a function from cells to the values they hold. An
instruction reads a list of cells and writes a list of cells. Writing goes from
left to right, one cell at a time, and reading is pointwise, so a write of
distinct cells followed by a read of the same cells returns what was written
(`readCells_writeCells`), and a write leaves every other cell alone
(`writeCells_apply_of_not_mem`).

A swap exchanges the contents of two lists of cells of one length. When the two
lists are disjoint and each has distinct cells, the swap is the write of each
list with the old contents of the other (`swapCells_readCells_left`,
`swapCells_readCells_right`).

The parallel assignment of a list of transfers writes each destination list with
the contents that its source list had before any of them. It is the meaning of a
parallel move, and it leaves every cell of no destination alone
(`parallelAssign_apply_of_not_mem`).
-/

set_option autoImplicit false

namespace Art.Machine

variable {Cell V : Type}

/-! ## Reading and writing lists of cells -/

/-- The contents of a list of cells. -/
def readCells (store : Cell → V) (cells : List Cell) : List V :=
  cells.map store

@[simp] theorem readCells_nil (store : Cell → V) : readCells store [] = [] := rfl

@[simp] theorem readCells_cons (store : Cell → V) (cell : Cell) (cells : List Cell) :
    readCells store (cell :: cells) = store cell :: readCells store cells := rfl

@[simp] theorem length_readCells (store : Cell → V) (cells : List Cell) :
    (readCells store cells).length = cells.length :=
  List.length_map _

/-- Stores that agree on some cells read the same contents there. -/
theorem readCells_congr {store store' : Cell → V} {cells : List Cell}
    (agree : ∀ cell ∈ cells, store cell = store' cell) : readCells store cells = readCells store' cells :=
  List.map_congr_left agree

theorem readCells_append (store : Cell → V) (cells more : List Cell) :
    readCells store (cells ++ more) = readCells store cells ++ readCells store more :=
  List.map_append

variable [DecidableEq Cell]

/-- Write values into cells, pairwise, from left to right. Cells or values left
over when the other list runs out are ignored. -/
def writeCells (store : Cell → V) : List Cell → List V → Cell → V
  | cell :: cells, value :: values => writeCells (Function.update store cell value) cells values
  | _, _ => store

/-- Exchange the contents of two lists of cells. -/
def swapCells (store : Cell → V) (left right : List Cell) : Cell → V :=
  writeCells (writeCells store left (readCells store right)) right (readCells store left)

@[simp] theorem writeCells_nil_left (store : Cell → V) (values : List V) :
    writeCells store [] values = store := rfl

@[simp] theorem writeCells_nil_right (store : Cell → V) (cells : List Cell) :
    writeCells store cells [] = store := by
  cases cells <;> rfl

theorem writeCells_cons_cons (store : Cell → V) (cell : Cell) (cells : List Cell) (value : V)
    (values : List V) :
    writeCells store (cell :: cells) (value :: values) =
      writeCells (Function.update store cell value) cells values := rfl

/-- A write leaves every cell outside the written list alone. -/
theorem writeCells_apply_of_not_mem (store : Cell → V) (cells : List Cell) (values : List V)
    {cell : Cell} (outside : cell ∉ cells) : writeCells store cells values cell = store cell := by
  induction cells generalizing store values with
  | nil => rfl
  | cons head tail ih =>
      cases values with
      | nil => rfl
      | cons value values =>
          have different : cell ≠ head := fun same => outside (same ▸ List.mem_cons_self)
          have notTail : cell ∉ tail := fun member => outside (List.mem_cons_of_mem _ member)
          rw [writeCells_cons_cons, ih _ _ notTail, Function.update_of_ne different]

/-- Two stores that agree on a cell still agree on it after the same write. -/
theorem writeCells_congr_apply {store store' : Cell → V} (cells : List Cell) (values : List V)
    {cell : Cell} (same : store cell = store' cell) :
    writeCells store cells values cell = writeCells store' cells values cell := by
  induction cells generalizing store store' values with
  | nil => exact same
  | cons head tail ih =>
      cases values with
      | nil => exact same
      | cons value values =>
          apply ih
          by_cases here : cell = head
          · subst here
            simp only [Function.update_self]
          · simp only [Function.update_of_ne here, same]

/-- The cell at a position of a list of distinct cells receives the value at that
position. -/
theorem writeCells_apply_getElem (store : Cell → V) {cells : List Cell} {values : List V}
    (distinct : cells.Nodup) (index : Nat) (inCells : index < cells.length)
    (inValues : index < values.length) :
    writeCells store cells values cells[index] = values[index] := by
  induction cells generalizing store values index with
  | nil => simp at inCells
  | cons head tail ih =>
      cases values with
      | nil => simp at inValues
      | cons value values =>
          obtain ⟨headFresh, tailDistinct⟩ := List.nodup_cons.mp distinct
          rw [writeCells_cons_cons]
          cases index with
          | zero =>
              rw [List.getElem_cons_zero, writeCells_apply_of_not_mem _ _ _ headFresh]
              simp
          | succ index =>
              simp only [List.getElem_cons_succ]
              exact ih _ tailDistinct index (by simpa using inCells) (by simpa using inValues)

/-- **Reading back a write.** Writing distinct cells and reading them returns the
values written. -/
theorem readCells_writeCells (store : Cell → V) {cells : List Cell} {values : List V}
    (distinct : cells.Nodup) (lengths : cells.length = values.length) :
    readCells (writeCells store cells values) cells = values := by
  apply List.ext_getElem (by simp [lengths])
  intro index inRead inValues
  simp only [readCells, List.getElem_map]
  exact writeCells_apply_getElem store distinct index (by simpa using inRead) inValues

/-- Reading cells that a write does not touch. -/
theorem readCells_writeCells_of_disjoint (store : Cell → V) (cells read : List Cell)
    (values : List V) (apart : ∀ cell ∈ read, cell ∉ cells) :
    readCells (writeCells store cells values) read = readCells store read := by
  simp only [readCells]
  exact List.map_congr_left fun cell member => writeCells_apply_of_not_mem _ _ _ (apart cell member)

/-- A write of a list that goes on past some cells is the write of those cells, then of the rest. -/
theorem writeCells_append (store : Cell → V) {cells : List Cell} {values : List V} (more : List Cell)
    (others : List V) (lengths : cells.length = values.length) :
    writeCells store (cells ++ more) (values ++ others) = writeCells (writeCells store cells values) more others := by
  induction cells generalizing store values with
  | nil =>
      cases values with
      | nil => rfl
      | cons _ _ => simp at lengths
  | cons cell cells ih =>
      cases values with
      | nil => simp at lengths
      | cons value values =>
          simp only [List.cons_append, writeCells_cons_cons]
          exact ih _ (by simpa using lengths)

/-- Reading the first cells of a write of distinct cells returns the first values. -/
theorem readCells_writeCells_append (store : Cell → V) {cells more : List Cell} {values others : List V}
    (distinct : (cells ++ more).Nodup) (lengths : cells.length = values.length) :
    readCells (writeCells store (cells ++ more) (values ++ others)) cells = values := by
  rw [writeCells_append store more others lengths,
    readCells_writeCells_of_disjoint _ _ _ _ fun cell member => List.disjoint_of_nodup_append distinct member]
  exact readCells_writeCells store distinct.of_append_left lengths

/-- A cell is written with a value exactly when it sits in the written list. -/
theorem writeCells_apply_mem (store : Cell → V) {cells : List Cell} {values : List V}
    (distinct : cells.Nodup) (lengths : cells.length = values.length) {cell : Cell}
    (member : cell ∈ cells) : ∃ index, ∃ inCells : index < cells.length,
      ∃ inValues : index < values.length,
        cells[index] = cell ∧ writeCells store cells values cell = values[index] := by
  obtain ⟨index, inCells, rfl⟩ := List.getElem_of_mem member
  exact ⟨index, inCells, lengths ▸ inCells, rfl,
    writeCells_apply_getElem store distinct index inCells (lengths ▸ inCells)⟩

/-! ## Swaps -/

/-- A swap leaves every cell outside both lists alone. -/
theorem swapCells_apply_of_not_mem (store : Cell → V) (left right : List Cell) {cell : Cell}
    (notLeft : cell ∉ left) (notRight : cell ∉ right) : swapCells store left right cell = store cell := by
  simp only [swapCells]
  rw [writeCells_apply_of_not_mem _ _ _ notRight, writeCells_apply_of_not_mem _ _ _ notLeft]

/-- After a swap of disjoint lists, the right list holds the old contents of the
left one. -/
theorem swapCells_readCells_right (store : Cell → V) {left right : List Cell}
    (distinct : right.Nodup) (lengths : right.length = left.length) :
    readCells (swapCells store left right) right = readCells store left := by
  simp only [swapCells]
  exact readCells_writeCells _ distinct (by simpa using lengths)

/-- After a swap of disjoint lists, the left list holds the old contents of the
right one. -/
theorem swapCells_readCells_left (store : Cell → V) {left right : List Cell}
    (distinct : left.Nodup) (lengths : left.length = right.length)
    (apart : ∀ cell ∈ left, cell ∉ right) :
    readCells (swapCells store left right) left = readCells store right := by
  simp only [swapCells]
  rw [readCells_writeCells_of_disjoint _ _ _ _ apart]
  exact readCells_writeCells _ distinct (by simpa using lengths)

/-! ## Parallel assignment -/

/-- The parallel assignment of a list of transfers `(source, destination)`: every
destination list is written with the contents its source list had in `store`. -/
def parallelAssign (store : Cell → V) (transfers : List (List Cell × List Cell)) : Cell → V :=
  transfers.foldr (fun transfer result => writeCells result transfer.2 (readCells store transfer.1))
    store

@[simp] theorem parallelAssign_nil (store : Cell → V) : parallelAssign store [] = store := rfl

theorem parallelAssign_cons (store : Cell → V) (transfer : List Cell × List Cell)
    (transfers : List (List Cell × List Cell)) :
    parallelAssign store (transfer :: transfers) =
      writeCells (parallelAssign store transfers) transfer.2 (readCells store transfer.1) := rfl

/-- A parallel assignment leaves every cell of no destination alone. -/
theorem parallelAssign_apply_of_not_mem (store : Cell → V) (transfers : List (List Cell × List Cell))
    {cell : Cell} (outside : ∀ transfer ∈ transfers, cell ∉ transfer.2) :
    parallelAssign store transfers cell = store cell := by
  induction transfers with
  | nil => rfl
  | cons transfer transfers ih =>
      rw [parallelAssign_cons, writeCells_apply_of_not_mem _ _ _ (outside transfer List.mem_cons_self)]
      exact ih fun other member => outside other (List.mem_cons_of_mem _ member)

end Art.Machine
