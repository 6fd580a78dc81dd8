import RemoteObjects.ItemModel.ColumnInsertion
import RemoteObjects.ItemModel.ListModel

/-! A move of rows at the source of a table, and what its replica has cached then. -/
namespace RemoteObjects.ItemModel
open Agreement

section Model
variable {V : Type}

/-- The arguments of `rowsMoved`, by the names of the handler. -/
structure RowsMoved where
  srcParent : IndexList
  srcRow : Nat
  count : Nat
  destParent : IndexList
  destRow : Nat
deriving DecidableEq, Repr

/-- The slot is called with the last row of the move in the place of a count, and passes that on. -/
def Adapter.sourceRowsMoved (sourceParent : IndexList) (sourceRow count : Nat) (destinationParent : IndexList)
    (destinationChild : Nat) : RowsMoved := ⟨sourceParent, sourceRow, count, destinationParent, destinationChild⟩

/-- What `beginMoveRows` asserts and allows of rows of one parent. -/
def beginMoveRows (sourceFirst sourceLast destinationChild : Nat) : Bool :=
  sourceFirst ≤ sourceLast && !(sourceFirst ≤ destinationChild && destinationChild ≤ sourceLast + 1)

/-- Without columns the first index of a range is not valid, whatever its last column is. -/
def Replica.onRowsMoved (config : Config) (s : Replica V) (moved : RowsMoved) : Except Failure (Replica V) := do
  let m_rootItem ← s.m_rootItem.validQModelIndex config.nodesCacheSize moved.srcParent
  let m_rootItem ← m_rootItem.validQModelIndex config.nodesCacheSize moved.destParent
  if moved.srcParent = [] ∧ moved.destParent = [] ∧ beginMoveRows moved.srcRow moved.count moved.destRow then
    let lastColumn := m_rootItem.item.columnCount - 1
    let (_, m_rootItem) ← clearCache config [⟨moved.srcRow, 0⟩] [⟨moved.srcRow + moved.count, lastColumn⟩] [] m_rootItem
    let (_, m_rootItem) ← clearCache config [⟨moved.destRow, 0⟩] [⟨moved.destRow + moved.count, lastColumn⟩] [] m_rootItem
    pure (s.setRoot m_rootItem)
  else .error .assertion

/-- The row that a row was before the rows from the start to the finish moved in front of the one at the destination. -/
def rowBefore (start finish dest row : Nat) : Nat :=
  let n := finish + 1 - start
  if finish < dest then
    if row < start ∨ dest ≤ row then row else if row < dest - n then row + n else row - (dest - n) + start
  else
    if row < dest ∨ finish < row then row else if row < dest + n then row - dest + start else row - n

example : (List.range 6).map (rowBefore 1 2 5) = [0, 3, 4, 1, 2, 5] := by decide

example : (List.range 6).map (rowBefore 3 4 1) = [0, 3, 4, 1, 2, 5] := by decide

def movedFrom (start finish dest : Nat) : IndexList → IndexList
  | [] => []
  | cell :: rest => ⟨rowBefore start finish dest cell.row, cell.column⟩ :: rest

def SourceModel.moveRows (m_model : SourceModel V) (start finish dest : Nat) : SourceModel V where
  rowCount index := m_model.rowCount (movedFrom start finish dest index)
  columnCount index := m_model.columnCount (movedFrom start finish dest index)
  hasChildren index := m_model.hasChildren (movedFrom start finish dest index)
  flags index := m_model.flags (movedFrom start finish dest index)
  data index := m_model.data (movedFrom start finish dest index)
  headerData position
    | .horizontal => m_model.headerData position .horizontal
    | .vertical => m_model.headerData (rowBefore start finish dest position) .vertical
  setData index := m_model.setData (movedFrom start finish dest index)

end Model

section Statement
variable {V : Type}

/-- A move that a table of some rows may make. -/
structure LegalMove (rowCount start finish dest : Nat) : Prop where
  ordered : start ≤ finish
  rows : finish < rowCount
  destination : dest < start ∨ finish + 1 < dest
  inside : dest ≤ rowCount

/-- The ranges that the handler clears, each as long as the number of the last row that moves and one more. A range that
does not end in the table is left as it is. -/
def ClearedByMove (rowCount start finish dest row : Nat) : Prop :=
  start + finish < rowCount ∧ start ≤ row ∧ row ≤ start + finish ∨
    dest + finish < rowCount ∧ dest ≤ row ∧ row ≤ dest + finish

instance (rowCount start finish dest row : Nat) : Decidable (ClearedByMove rowCount start finish dest row) := by
  unfold ClearedByMove
  infer_instance

/-- What stays cached in a row was cached, too, in the row that has moved there. -/
def Replica.StaysRight (config : Config) (s : Replica V) (start finish dest : Nat) : Prop :=
  ∀ cell role v, ¬ ClearedByMove s.m_rootItem.item.rowCount start finish dest cell.row →
    s.cellData? config (cell, role) = some v →
      s.cellData? config (⟨rowBefore start finish dest cell.row, cell.column⟩, role) = some v

end Statement

section Clear
variable {V : Type} {config : Config} {c : CacheData V} {rows : List Nat}
open Replica

theorem removeColumns_ok {columns : List Nat} {columnCount : Nat} (inside : ∀ column ∈ columns, column < columnCount)
    (entries : List (CacheEntry V)) : ∃ cleared, columns.foldlM (fun entries column => removeIndexFromRow column [] columnCount entries)
      entries = .ok cleared ∧ ∀ i, cleared[i]? = entries[i]?.map fun entry => if i ∈ columns then { entry with data := [] } else entry := by
  induction columns generalizing entries with
  | nil => exact ⟨entries, rfl, fun i => by simp⟩
  | cons column columns ih =>
    obtain ⟨here, later⟩ := List.forall_mem_cons.mp inside
    obtain ⟨cleared, made, values⟩ := ih later (entries.modify column fun entry => { entry with data := [] })
    refine ⟨cleared, bind_ok.mpr ⟨_, if_neg (Nat.not_le.mpr here), made⟩, fun i => ?_⟩
    rw [values, List.getElem?_modify]
    cases entries[i]? with
    | none => rfl
    | some entry =>
      by_cases same : column = i
      · simp [same]
      · simp [same, Ne.symm same]

/-- Rows that are cleared have no values. -/
theorem clearRows_table (columns : 0 < c.item.columnCount) (inside : ∀ row ∈ rows, row < c.item.rowCount) :
    ∃ d, clearRows 0 (c.item.columnCount - 1) [] rows c = .ok d ∧ d.item = c.item ∧
      ∀ row column role, column < c.item.columnCount → ((d.item? [row]).bind fun item => item.findData column role) =
        if row ∈ rows then none else (c.item? [row]).bind fun item => item.findData column role := by
  induction rows generalizing c with
  | nil => exact ⟨c, rfl, rfl, fun _ _ _ _ => by simp⟩
  | cons first rows ih =>
    obtain ⟨here, later⟩ := List.forall_mem_cons.mp inside
    rw [clearRows, if_pos here]
    cases found : c.children.find? first with
    | none =>
      obtain ⟨d, made, item, values⟩ := ih columns later
      refine ⟨d, made, item, fun row column role fits => ?_⟩
      rw [values row column role fits]
      by_cases same : row = first
      · subst same
        simp [item?_cons, found]
      · simp [same]
    | some child =>
      have range : ∀ column ∈ List.range' 0 (c.item.columnCount - 1 + 1 - 0), column < c.item.columnCount := by
        intro column listed
        rw [List.mem_range'_1] at listed
        omega
      obtain ⟨cleared, removed, entries⟩ := removeColumns_ok range child.item.cachedRowEntry
      obtain ⟨d, made, item, values⟩ := @ih (c.setChild first { child with item := { child.item with cachedRowEntry := cleared } })
        columns later
      refine ⟨d, bind_ok.mpr ⟨cleared, removed, made⟩, item, fun row column role fits => ?_⟩
      rw [values row column role fits, item?_cons, setChild_find?]
      by_cases same : row = first
      · subst same
        have listed : column ∈ List.range' 0 (c.item.columnCount - 1 + 1 - 0) := by
          rw [List.mem_range'_1]
          omega
        have nothing : ItemData.findData { child.item with cachedRowEntry := cleared } column role = none := by
          rw [ItemData.findData, entries column]
          cases child.item.cachedRowEntry[column]? with
          | none => rfl
          | some entry =>
            rw [Option.map_some, if_pos listed]
            rfl
        simp [nothing]
      · simp [same, item?_cons]

/-- `clearCache` for all columns of a range of rows of a table: it is cleared if it ends in the table. -/
theorem clearCache_table (config : Config) (c : CacheData V) {start finish : Nat} (ordered : start ≤ finish) :
    ∃ cleared d, clearCache config [⟨start, 0⟩] [⟨finish, c.item.columnCount - 1⟩] [] c = .ok (cleared, d) ∧ d.item = c.item ∧
      ∀ row column role, column < c.item.columnCount → ((d.item? [row]).bind fun item => item.findData column role) =
        if finish < c.item.rowCount ∧ start ≤ row ∧ row ≤ finish then none
        else (c.item? [row]).bind fun item => item.findData column role := by
  by_cases first : c.Fits ⟨start, 0⟩
  · by_cases last : c.Fits ⟨finish, c.item.columnCount - 1⟩
    · have rows : ∀ row ∈ List.range' start (finish + 1 - start), row < c.item.rowCount := by
        intro row listed
        rw [List.mem_range'_1] at listed
        have inside : finish < c.item.rowCount := last.1
        omega
      obtain ⟨d, made, item, values⟩ := clearRows_table first.2 rows
      refine ⟨true, d, ?_, item, fun row column role fits => ?_⟩
      · rw [clearCache, if_neg (by simp)]
        refine bind_ok.mpr ⟨_, toQModelIndex_inside first, bind_ok.mpr ⟨_, toQModelIndex_inside last, ?_⟩⟩
        exact bind_ok.mpr ⟨d, made, rfl⟩
      · rw [values row column role fits]
        have inside : finish < c.item.rowCount := last.1
        have listed : row ∈ List.range' start (finish + 1 - start) ↔ start ≤ row ∧ row ≤ finish := by
          rw [List.mem_range'_1]
          omega
        simp [listed, inside]
    · refine ⟨false, c, ?_, rfl, fun row column role fits => ?_⟩
      · rw [clearCache, if_neg (by simp)]
        exact bind_ok.mpr ⟨_, toQModelIndex_inside first, bind_ok.mpr ⟨_, toQModelIndex_outside last, rfl⟩⟩
      · have outside : ¬ finish < c.item.rowCount := fun inside => last ⟨inside, Nat.sub_lt (Nat.zero_lt_of_lt fits) Nat.one_pos⟩
        rw [if_neg fun cleared => outside cleared.1]
  · refine ⟨false, c, ?_, rfl, fun row column role fits => ?_⟩
    · rw [clearCache, if_neg (by simp)]
      exact bind_ok.mpr ⟨_, toQModelIndex_outside first, rfl⟩
    · have outside : ¬ finish < c.item.rowCount := fun inside =>
        first ⟨Nat.lt_of_le_of_lt ordered inside, Nat.zero_lt_of_lt fits⟩
      rw [if_neg fun cleared => outside cleared.1]

end Clear

section Main
variable {V : Type} {config : Config} {s : Replica V} {start finish dest : Nat}
namespace Replica

/-- The handler ends, and serves the cells that it has not cleared. -/
theorem onRowsMoved_spec (config : Config) (s : Replica V) (legal : LegalMove s.m_rootItem.item.rowCount start finish dest) :
    ∃ t, s.onRowsMoved config (Adapter.sourceRowsMoved [] start finish [] dest) = .ok t ∧ ∀ cell, t.cellData? config cell =
      if ClearedByMove s.m_rootItem.item.rowCount start finish dest cell.1.row then none else s.cellData? config cell := by
  obtain ⟨first, c, made, item, values⟩ := clearCache_table config s.m_rootItem (Nat.le_add_right start finish)
  obtain ⟨second, d, made', item', values'⟩ := clearCache_table config c (Nat.le_add_right dest finish)
  rw [item] at made' values'
  have allowed : beginMoveRows start finish dest := by
    have destination := legal.destination
    simp only [beginMoveRows, legal.ordered, decide_true, Bool.true_and, Bool.not_eq_true', Bool.and_eq_false_iff,
      decide_eq_false_iff_not]
    omega
  refine ⟨s.setRoot d, ?_, ?_⟩
  · refine bind_ok.mpr ⟨s.m_rootItem, rfl, bind_ok.mpr ⟨s.m_rootItem, rfl, ?_⟩⟩
    rw [if_pos ⟨rfl, rfl, allowed⟩]
    exact bind_ok.mpr ⟨_, made, bind_ok.mpr ⟨_, made', rfl⟩⟩
  · rintro ⟨⟨row, column⟩, role⟩
    simp only [cellData?, cachedData?, setRoot, item'.trans item]
    split
    · rename_i served
      rw [values' row column role served.2.1, values row column role served.2.1]
      simp only [ClearedByMove]
      grind
    · rw [ite_self]

theorem cellAt_moveRows (m_model : SourceModel V) (start finish dest : Nat) (new : ModelIndex × Role → V) :
    (m_model.moveRows start finish dest).cellAt = Agreement.moved
      (fun cell : ModelIndex × Role => some (⟨rowBefore start finish dest cell.1.row, cell.1.column⟩, cell.2)) new m_model.cellAt := rfl

/-- Behind a move the cells that are served are right, for each table for which they were before, if what stays in a row
was cached in the row that has moved there. -/
theorem rows_moved_iff [Nontrivial V] (config : Config) (s : Replica V)
    (legal : LegalMove s.m_rootItem.item.rowCount start finish dest) :
    (∀ m_model : SourceModel V, m_model.IsTable s.m_rootItem.item.rowCount s.m_rootItem.item.columnCount →
      Agrees (s.cellData? config) m_model.cellAt → ∃ t, s.onRowsMoved config (Adapter.sourceRowsMoved [] start finish [] dest) = .ok t ∧
        Agrees (t.cellData? config) (m_model.moveRows start finish dest).cellAt) ↔ s.StaysRight config start finish dest := by
  obtain ⟨t, handled, served⟩ := onRowsMoved_spec config s legal
  have right : (∀ cell v, t.cellData? config cell = some v → ∃ before, some ((⟨rowBefore start finish dest cell.1.row, cell.1.column⟩,
      cell.2) : ModelIndex × Role) = some before ∧ s.cellData? config before = some v) ↔ s.StaysRight config start finish dest := by
    simp only [served, Option.some.injEq, exists_eq_left', Prod.forall, StaysRight]
    grind
  rw [← right, ← agrees_moved_iff]
  constructor
  · intro kept held new agrees
    obtain ⟨other⟩ : Nonempty V := inferInstance
    obtain ⟨t', made, agrees'⟩ := kept (.tableOf _ _ held fun _ => other) (SourceModel.tableOf_isTable _ _ _ _) agrees
    obtain rfl := Except.ok.inj (handled.symm.trans made)
    rw [cellAt_moveRows _ _ _ _ new] at agrees'
    exact agrees'
  · intro kept m_model _ agrees
    refine ⟨t, handled, ?_⟩
    rw [cellAt_moveRows m_model start finish dest m_model.cellAt]
    exact kept _ _ agrees

end Replica
end Main

section Example
namespace Replica

/-- A replica of a table of one column, whose three rows are cached. -/
def cachedRows : Replica Nat :=
  { initial 1000 with
    m_rootItem := ⟨⟨[], true, 1, 3⟩, ⟨[5, 6, 7].mapIdx fun row v => (row, ⟨⟨[⟨[(0, v)], 0⟩], false, 0, 0⟩, .empty 1000⟩), 1000⟩⟩ }

def threeRows : SourceModel Nat := .tableOf 3 1 (fun cell => 5 + cell.1.row) fun _ => 0

theorem cachedRows_agrees : Agrees (cachedRows.cellData? tableConfig) threeRows.cellAt := by
  rintro ⟨⟨row, column⟩, role⟩ v there
  rw [cellData?] at there
  split at there
  · rename_i served
    obtain ⟨inRow, inColumn, available⟩ := served
    obtain rfl : column = 0 := Nat.lt_one_iff.mp inColumn
    obtain rfl : role = 0 := by simpa [tableConfig] using available
    obtain rfl | rfl | rfl : row = 0 ∨ row = 1 ∨ row = 2 := by
      have inRow : row < 3 := inRow
      omega
    all_goals exact Option.some.inj there
  · contradiction

theorem second_row_first : ∃ t, cachedRows.onRowsMoved tableConfig (Adapter.sourceRowsMoved [] 1 1 [] 0) = .ok t ∧
    Agrees (t.cellData? tableConfig) (threeRows.moveRows 1 1 0).cellAt := by
  refine (rows_moved_iff tableConfig cachedRows ⟨by decide, by decide, by decide, by decide⟩).mpr ?_ threeRows
    (SourceModel.tableOf_isTable _ _ _ _) cachedRows_agrees
  intro cell role v stays there
  rw [cellData?] at there
  split at there
  · rename_i served
    have inRow : cell.row < 3 := served.1
    have cleared : ∀ row < 3, ClearedByMove 3 1 1 0 row := by decide
    exact absurd (cleared cell.row inRow) stays
  · contradiction

/-- The first row moves to the end, and the others step up: they keep what they had. -/
theorem first_row_last_stale : LegalMove 3 0 0 3 ∧ Agrees (cachedRows.cellData? tableConfig) threeRows.cellAt ∧
    ∃ t, cachedRows.onRowsMoved tableConfig (Adapter.sourceRowsMoved [] 0 0 [] 3) = .ok t ∧
      ¬ Agrees (t.cellData? tableConfig) (threeRows.moveRows 0 0 3).cellAt := by
  refine ⟨⟨by decide, by decide, by decide, by decide⟩, cachedRows_agrees, _, rfl, fun agrees => ?_⟩
  have held := agrees (⟨1, 0⟩, 0) 6 rfl
  revert held
  decide

end Replica
end Example
end RemoteObjects.ItemModel
