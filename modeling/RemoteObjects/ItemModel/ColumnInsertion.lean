import Mathlib.Data.Nat.Basic
import RemoteObjects.Agreement
import RemoteObjects.ItemModel.ColumnPlacement

/-! What a replica of a table has cached, against a source that gets new columns. -/
namespace RemoteObjects.ItemModel
open Agreement

section Model
variable {V : Type}

/-- The index that a cell had before columns were inserted below the root, but for the cells in these. -/
def beforeColumns (start count : Nat) : IndexList → Option IndexList
  | [] => some []
  | cell :: rest => (placeBefore start count cell.column).map fun column => ⟨cell.row, column⟩ :: rest

namespace SourceModel
variable (m_model after : SourceModel V)

/-- A model without items below its rows. -/
structure IsTable (rows columns : Nat) : Prop where
  rowCount : m_model.rowCount [] = rows
  columnCount : m_model.columnCount [] = columns
  childless : ∀ index ≠ [], m_model.hasChildren index = false ∧ m_model.rowCount index = 0

/-- The new columns have what the second model says. -/
def insertColumns (start count : Nat) : SourceModel V where
  rowCount index := (beforeColumns start count index).elim (after.rowCount index) m_model.rowCount
  columnCount index := if index = [] then m_model.columnCount [] + count
    else (beforeColumns start count index).elim (after.columnCount index) m_model.columnCount
  hasChildren index := (beforeColumns start count index).elim (after.hasChildren index) m_model.hasChildren
  flags index := (beforeColumns start count index).elim (after.flags index) m_model.flags
  data index := (beforeColumns start count index).elim (after.data index) m_model.data
  headerData position
    | .vertical => m_model.headerData position .vertical
    | .horizontal => (placeBefore start count position).elim (after.headerData position .horizontal)
      fun before => m_model.headerData before .horizontal
  setData := after.setData

def cellAt (cell : ModelIndex × Role) : V := m_model.data [cell.1] cell.2

def headerAt (orientation : Orientation) (place : Nat × Role) : V := m_model.headerData place.1 orientation place.2

end SourceModel

namespace Replica
variable (config : Config) (s : Replica V)

/-- What is cached for a cell of a table. -/
def cachedData? (cell : ModelIndex × Role) : Option V :=
  (s.m_rootItem.item? [cell.1.row]).bind fun item => item.findData cell.1.column cell.2

/-- What `data` returns from the cache for a cell, whose index has to be valid. -/
def cellData? (cell : ModelIndex × Role) : Option V :=
  if cell.1.row < s.m_rootItem.item.rowCount ∧ cell.1.column < s.m_rootItem.item.columnCount ∧ config.availableRoles.contains cell.2
  then s.cachedData? cell else none

/-- What `headerData` returns from its list. -/
def headerData? (orientation : Orientation) (place : Nat × Role) : Option V :=
  (s.m_headerData orientation)[place.1]?.bind fun entry => entry.find? place.2

end Replica
end Model

section Statement
variable {V : Type}
namespace Replica

/-- What the replica serves from its cache for cells and columns is what the source has. -/
structure Truthful (config : Config) (s : Replica V) (m_model : SourceModel V) : Prop where
  cells : Agrees (s.cellData? config) m_model.cellAt
  header : Agrees (s.headerData? .horizontal) (m_model.headerAt .horizontal)

/-- Nothing is cached for the columns from one on. -/
structure NothingFrom (config : Config) (s : Replica V) (start count : Nat) : Prop where
  cells : ∀ cell role, start ≤ cell.column → cell.column < s.m_rootItem.item.columnCount + count →
    cell.row < s.m_rootItem.item.rowCount → config.availableRoles.contains role → s.cachedData? (cell, role) = none
  header : ∀ position role, start ≤ position → s.headerData? .horizontal (position, role) = none

end Replica
end Statement

section Lists
variable {α β : Type} {a : α} {f : α → Option β}

/-- Elements at the end that have nothing. -/
theorem bind_append_replicate (empty : f a = none) (l : List α) (n i : Nat) :
    (l ++ List.replicate n a)[i]?.bind f = l[i]?.bind f := by
  rw [List.getElem?_append]
  split
  · rfl
  · rename_i outside
    rw [List.getElem?_replicate, List.getElem?_eq_none (Nat.not_lt.mp outside)]
    split
    · exact empty
    · rfl

end Lists

section Handler
variable {V : Type} {config : Config} {s : Replica V} {start finish : Nat}
namespace Replica

/-- The replica behind new columns: its rows are as they were. -/
def withColumns (s : Replica V) (start finish : Nat) : Replica V :=
  (s.setRoot { s.m_rootItem with item := { s.m_rootItem.item with
    columnCount := s.m_rootItem.item.columnCount + (finish + 1 - start)
    hasChildren := s.m_rootItem.item.hasChildren || s.m_rootItem.children.cachedItems.length ≠ 0 } }).setHeader .horizontal
      (s.m_headerData .horizontal ++ List.replicate (finish + 1 - start) .empty)

theorem onColumnsInserted_root (config : Config) (s : Replica V) (start finish : Nat) :
    s.onColumnsInserted config [] start finish = .ok (s.withColumns start finish) := rfl

/-- Empty entries at the end have no values. -/
theorem headerData?_append (s : Replica V) (orientation : Orientation) (entries : Nat) (place : Nat × Role) :
    (s.setHeader orientation (s.m_headerData orientation ++ List.replicate entries .empty)).headerData? orientation place =
      s.headerData? orientation place := by
  simp only [headerData?, setHeader, Function.update_self]
  apply bind_append_replicate
  rfl

end Replica
end Handler

section Main
variable {V : Type} {config : Config} {s : Replica V} {start finish : Nat}

theorem cellAt_insertColumns (m_model after : SourceModel V) (start count : Nat) :
    (m_model.insertColumns after start count).cellAt = moved
      (fun cell : ModelIndex × Role => (placeBefore start count cell.1.column).map fun column => (⟨cell.1.row, column⟩, cell.2))
      after.cellAt m_model.cellAt := by
  funext cell
  simp only [SourceModel.cellAt, SourceModel.insertColumns, beforeColumns, moved]
  cases placeBefore start count cell.1.column <;> rfl

theorem headerAt_insertColumns (m_model after : SourceModel V) (start count : Nat) :
    (m_model.insertColumns after start count).headerAt .horizontal = moved
      (fun place : Nat × Role => (placeBefore start count place.1).map fun position => (position, place.2))
      (after.headerAt .horizontal) (m_model.headerAt .horizontal) := by
  funext place
  simp only [SourceModel.headerAt, SourceModel.insertColumns, moved]
  cases placeBefore start count place.1 <;> rfl

/-- A table with any cells and headers. -/
def SourceModel.tableOf (rows columns : Nat) (cells : ModelIndex × Role → V) (header : Nat × Role → V) : SourceModel V where
  rowCount index := if index = [] then rows else 0
  columnCount index := if index = [] then columns else 0
  hasChildren index := index = []
  flags _ := 0
  data index role := cells (index.headD ⟨0, 0⟩, role)
  headerData position _ role := header (position, role)
  setData _ _ _ := false

theorem SourceModel.tableOf_isTable (rows columns : Nat) (cells : ModelIndex × Role → V) (header : Nat × Role → V) :
    (tableOf rows columns cells header).IsTable rows columns where
  rowCount := rfl
  columnCount := rfl
  childless index nested := by simp [tableOf, nested]

namespace Replica

theorem cellData?_withColumns (cell : ModelIndex × Role) : (s.withColumns start finish).cellData? config cell =
    if cell.1.row < s.m_rootItem.item.rowCount ∧ cell.1.column < s.m_rootItem.item.columnCount + (finish + 1 - start) ∧
      config.availableRoles.contains cell.2 then s.cachedData? cell else none := rfl

/-- What is served of a row for one role, before and behind the insertion. -/
theorem row_known_iff (ordered : start ≤ finish) (inside : start ≤ s.m_rootItem.item.columnCount) (row : Nat) (role : Role) :
    (∀ column v, (s.withColumns start finish).cellData? config (⟨row, column⟩, role) = some v →
      ∃ before, placeBefore start (finish + 1 - start) column = some before ∧ s.cellData? config (⟨row, before⟩, role) = some v) ↔
      ∀ column ≥ start, (s.withColumns start finish).cellData? config (⟨row, column⟩, role) = none := by
  refine known_before_iff (by omega) (fun column before => ?_) fun column _ nothing => ?_
  · have both : column < s.m_rootItem.item.columnCount + (finish + 1 - start) ↔ column < s.m_rootItem.item.columnCount :=
      iff_of_true (by omega) (by omega)
    rw [cellData?_withColumns, cellData?]
    simp only [both]
  · rw [cellData?_withColumns] at nothing
    rw [cellData?]
    grind

theorem cells_known_iff (ordered : start ≤ finish) (inside : start ≤ s.m_rootItem.item.columnCount) :
    (∀ cell v, (s.withColumns start finish).cellData? config cell = some v → ∃ before, ((placeBefore start (finish + 1 - start)
      cell.1.column).map fun column => ((⟨cell.1.row, column⟩, cell.2) : ModelIndex × Role)) = some before ∧
        s.cellData? config before = some v) ↔
      ∀ cell role, start ≤ cell.column → cell.column < s.m_rootItem.item.columnCount + (finish + 1 - start) →
        cell.row < s.m_rootItem.item.rowCount → config.availableRoles.contains role → s.cachedData? (cell, role) = none := by
  constructor
  · intro known cell role behind column row available
    have nothing := (row_known_iff ordered inside cell.row role).mp (fun column v there => by
      obtain ⟨before, comes, held⟩ := known _ v there
      obtain ⟨column', same, rfl⟩ := Option.map_eq_some_iff.mp comes
      exact ⟨column', same, held⟩) cell.column behind
    rwa [cellData?_withColumns, if_pos ⟨row, column, available⟩] at nothing
  · rintro nothing ⟨⟨row, column⟩, role⟩ v there
    obtain ⟨before, comes, held⟩ := (row_known_iff ordered inside row role).mpr (fun column behind => by
      rw [cellData?_withColumns]
      split
      · rename_i served
        exact nothing ⟨row, column⟩ role behind served.2.1 served.1 served.2.2
      · rfl) column v there
    exact ⟨(⟨row, before⟩, role), congrArg (Option.map _) comes, held⟩

theorem header_known_iff (ordered : start ≤ finish) :
    (∀ place v, (s.withColumns start finish).headerData? .horizontal place = some v →
      ∃ before, ((placeBefore start (finish + 1 - start) place.1).map fun position => (position, place.2)) = some before ∧
        s.headerData? .horizontal before = some v) ↔
      ∀ position role, start ≤ position → s.headerData? .horizontal (position, role) = none := by
  have served : ∀ place, (s.withColumns start finish).headerData? .horizontal place = s.headerData? .horizontal place :=
    fun place => headerData?_append _ _ _ place
  have row (role : Role) := @known_before_iff V (fun position => s.headerData? .horizontal (position, role))
    (fun position => s.headerData? .horizontal (position, role)) start (finish + 1 - start) (by omega) (fun _ _ => rfl)
    fun _ _ nothing => nothing
  simp only [served]
  constructor
  · intro known position role behind
    refine (row role).mp (fun position v there => ?_) position behind
    obtain ⟨before, comes, held⟩ := known _ v there
    obtain ⟨position', same, rfl⟩ := Option.map_eq_some_iff.mp comes
    exact ⟨position', same, held⟩
  · rintro nothing ⟨position, role⟩ v there
    obtain ⟨before, comes, held⟩ := (row role).mpr (fun position => nothing position role) position v there
    exact ⟨(before, role), congrArg (Option.map _) comes, held⟩

/-- Behind the insertion the replica is truthful to each table to which it was truthful before, if it has nothing cached
from the new columns on. -/
theorem columns_inserted_iff [Nontrivial V] (config : Config) (s : Replica V) (ordered : start ≤ finish)
    (inside : start ≤ s.m_rootItem.item.columnCount) :
    (∀ m_model after : SourceModel V, m_model.IsTable s.m_rootItem.item.rowCount s.m_rootItem.item.columnCount →
      s.Truthful config m_model → ∃ t, s.onColumnsInserted config [] start finish = .ok t ∧
        t.Truthful config (m_model.insertColumns after start (finish + 1 - start))) ↔
      s.NothingFrom config start (finish + 1 - start) := by
  constructor
  · intro kept
    obtain ⟨other⟩ : Nonempty V := inferInstance
    constructor
    · apply (cells_known_iff ordered inside).mp
      apply agrees_moved_iff.mp
      intro held new agrees
      obtain ⟨t, made, truthful⟩ := kept (.tableOf _ _ held (completed (s.headerData? .horizontal) other))
        (.tableOf 0 0 new fun _ => other) (SourceModel.tableOf_isTable _ _ _ _) ⟨agrees, agrees_completed _ _⟩
      cases made
      have cells := truthful.cells
      rw [cellAt_insertColumns] at cells
      exact cells
    · apply (header_known_iff ordered).mp
      apply agrees_moved_iff.mp
      intro held new agrees
      obtain ⟨t, made, truthful⟩ := kept (.tableOf _ _ (completed (s.cellData? config) other) held)
        (.tableOf 0 0 (fun _ => other) new) (SourceModel.tableOf_isTable _ _ _ _) ⟨agrees_completed _ _, agrees⟩
      cases made
      have header := truthful.header
      rw [headerAt_insertColumns] at header
      exact header
  · intro nothing m_model after _ truthful
    refine ⟨_, onColumnsInserted_root config s start finish, ?_, ?_⟩
    · rw [cellAt_insertColumns]
      exact agrees_moved_iff.mpr ((cells_known_iff ordered inside).mpr nothing.cells) _ _ truthful.cells
    · rw [headerAt_insertColumns]
      exact agrees_moved_iff.mpr ((header_known_iff ordered).mpr nothing.header) _ _ truthful.header

end Replica
end Main

section Example
namespace Replica

def tableConfig : Config := ⟨1000, .fetchRootSize, [], [0]⟩

/-- A replica of a table with one cell, which is cached. -/
def cachedCell : Replica Nat :=
  { initial 1000 with
    m_rootItem := ⟨⟨[], true, 1, 1⟩, ⟨[(0, ⟨⟨[⟨[(0, 7)], 0⟩], false, 0, 0⟩, .empty 1000⟩)], 1000⟩⟩ }

def oneCell (value : Nat) : SourceModel Nat := .tableOf 1 1 (fun _ => value) fun _ => 0

theorem cachedCell_truthful : cachedCell.Truthful tableConfig (oneCell 7) := by
  refine ⟨?_, nofun⟩
  rintro ⟨⟨row, column⟩, role⟩ v there
  rw [cellData?] at there
  split at there
  · rename_i served
    obtain ⟨inRow, inColumn, available⟩ := served
    obtain rfl : row = 0 := Nat.lt_one_iff.mp inRow
    obtain rfl : column = 0 := Nat.lt_one_iff.mp inColumn
    obtain rfl : role = 0 := by simpa [tableConfig] using available
    exact Option.some.inj there
  · contradiction

theorem column_appended : ∃ t, cachedCell.onColumnsInserted tableConfig [] 1 1 = .ok t ∧
    t.Truthful tableConfig ((oneCell 7).insertColumns (oneCell 9) 1 1) := by
  refine (columns_inserted_iff tableConfig cachedCell (Nat.le_refl 1) (Nat.le_refl 1)).mpr ⟨?_, fun _ _ _ => rfl⟩ _ _
    (SourceModel.tableOf_isTable _ _ _ _) cachedCell_truthful
  rintro ⟨row, column⟩ role behind _ inRow _
  obtain rfl : row = 0 := Nat.lt_one_iff.mp inRow
  obtain ⟨column, rfl⟩ := Nat.exists_eq_add_of_le' behind
  rfl

/-- The replica has the old first column where the source has a new one. -/
theorem first_column_stale : cachedCell.Truthful tableConfig (oneCell 7) ∧
    ∃ t, cachedCell.onColumnsInserted tableConfig [] 0 0 = .ok t ∧
      ¬ t.Truthful tableConfig ((oneCell 7).insertColumns (oneCell 9) 0 1) := by
  refine ⟨cachedCell_truthful, _, rfl, fun truthful => ?_⟩
  have held := truthful.cells (⟨0, 0⟩, 0) 7 rfl
  revert held
  decide

end Replica
end Example
end RemoteObjects.ItemModel
