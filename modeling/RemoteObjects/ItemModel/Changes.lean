import RemoteObjects.ItemModel.Requests
import RemoteObjects.ItemModel.Replica

/-! Changes of a source model, and the signals of its adapter. -/
namespace RemoteObjects.ItemModel

section Model
variable {V : Type}

/-- The index that a cell had before rows were inserted below the parent, but for the cells in these. -/
def beforeInsertion (start count : Nat) : IndexList → IndexList → Option IndexList
  | _, [] => some []
  | [], cell :: rest =>
    if cell.row < start then some (cell :: rest)
    else if cell.row < start + count then none
    else some (⟨cell.row - count, cell.column⟩ :: rest)
  | index :: parent, cell :: rest =>
    if cell = index then (beforeInsertion start count parent rest).map (cell :: ·) else some (cell :: rest)

/-- The index that a cell had before rows were removed. -/
def beforeRemoval (start count : Nat) : IndexList → IndexList → IndexList
  | _, [] => []
  | [], cell :: rest => (if cell.row < start then cell else ⟨cell.row + count, cell.column⟩) :: rest
  | index :: parent, cell :: rest => cell :: if cell = index then beforeRemoval start count parent rest else rest

/-- The cells from the start to the finish of a change of data. -/
def inRange (start finish index : IndexList) : Bool :=
  match start.getLast?, finish.getLast?, index.getLast? with
  | some first, some last, some cell => index.dropLast = start.dropLast && first.row ≤ cell.row && cell.row ≤ last.row &&
    first.column ≤ cell.column && cell.column ≤ last.column
  | _, _, _ => false

namespace SourceModel
variable (m_model after : SourceModel V)

def changeData (start finish : IndexList) (roles : List Role) : SourceModel V :=
  { m_model with
    data := fun index role =>
      if inRange start finish index ∧ (roles = [] ∨ role ∈ roles) then after.data index role else m_model.data index role }

/-- The new rows have what the second model says, and the cells behind them what they had. -/
def insertRows (parent : IndexList) (start count : Nat) : SourceModel V where
  rowCount index := if index = parent then m_model.rowCount parent + count
    else (beforeInsertion start count parent index).elim (after.rowCount index) m_model.rowCount
  columnCount index := (beforeInsertion start count parent index).elim (after.columnCount index) m_model.columnCount
  hasChildren index := if index = parent then after.hasChildren parent
    else (beforeInsertion start count parent index).elim (after.hasChildren index) m_model.hasChildren
  flags index := (beforeInsertion start count parent index).elim (after.flags index) m_model.flags
  data index := (beforeInsertion start count parent index).elim (after.data index) m_model.data
  headerData := after.headerData
  setData := after.setData

def removeRows (parent : IndexList) (start count : Nat) : SourceModel V where
  rowCount index := if index = parent then m_model.rowCount parent - count
    else m_model.rowCount (beforeRemoval start count parent index)
  columnCount index := m_model.columnCount (beforeRemoval start count parent index)
  hasChildren index := if index = parent then after.hasChildren parent
    else m_model.hasChildren (beforeRemoval start count parent index)
  flags index := m_model.flags (beforeRemoval start count parent index)
  data index := m_model.data (beforeRemoval start count parent index)
  headerData := after.headerData
  setData := after.setData

end SourceModel

/-- A change, with a model that says what it does not settle itself. -/
inductive SourceChange (V : Type)
  | dataChanged (start finish : IndexList) (roles : List Role) (after : SourceModel V)
  | rowsInserted (parent : IndexList) (start finish : Nat) (after : SourceModel V)
  | rowsRemoved (parent : IndexList) (start finish : Nat) (after : SourceModel V)

namespace SourceModel
variable (m_model : SourceModel V)

def apply : SourceChange V → SourceModel V
  | .dataChanged start finish roles after => m_model.changeData after start finish roles
  | .rowsInserted parent start finish after => m_model.insertRows after parent start (finish + 1 - start)
  | .rowsRemoved parent start finish after => m_model.removeRows after parent start (finish + 1 - start)

/-- The changes that a model may announce. -/
def allows : SourceChange V → Bool
  | .dataChanged start finish _ _ =>
    start ≠ [] && start.dropLast = finish.dropLast && m_model.HasPath [] start && m_model.HasPath [] finish && finish ≠ []
  | .rowsInserted parent start finish _ => m_model.HasPath [] parent && start ≤ finish && start ≤ m_model.rowCount parent
  | .rowsRemoved parent start finish _ => m_model.HasPath [] parent && start ≤ finish && finish < m_model.rowCount parent

end SourceModel

/-- A role is taken as often as it is available. -/
def filterRoles (roles availableRoles : List Role) : List Role :=
  if roles.isEmpty then availableRoles
  else roles.flatMap fun inRole => availableRoles.filter fun availableRole => inRole = availableRole

namespace Adapter
variable (adapter : Adapter)

def sourceDataChanged (start finish : IndexList) (roles : List Role) : List Signal :=
  let neededRoles := filterRoles roles adapter.m_availableRoles
  if neededRoles.isEmpty then [] else [.dataChanged start finish neededRoles]

/-- What is emitted for a change. `sourceRowsInserted` and `sourceRowsRemoved` pass their arguments on. -/
def emitted : SourceChange V → List Signal
  | .dataChanged start finish roles _ => adapter.sourceDataChanged start finish roles
  | .rowsInserted parent start finish _ => [.rowsInserted parent start finish]
  | .rowsRemoved parent start finish _ => [.rowsRemoved parent start finish]

end Adapter
end Model
end RemoteObjects.ItemModel
