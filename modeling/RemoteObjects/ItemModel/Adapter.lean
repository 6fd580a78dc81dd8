import RemoteObjects.ItemModel.LruCache

/-! The source side of a replicated item model: the adapter that answers the requests of replicas from its model. An
index is the path to it from the root. -/
namespace RemoteObjects.ItemModel

abbrev Role := Int

structure ModelIndex where
  row : Nat
  column : Nat
deriving DecidableEq, Repr

abbrev IndexList := List ModelIndex

/-- The rows of a path, which is what the cache of a replica has as keys. -/
def rowsOf (list : IndexList) : List Nat := list.map ModelIndex.row

structure Size where
  width : Nat
  height : Nat
deriving DecidableEq, Repr

/-- The size of an entry in the reply to a row request is not read. -/
structure IndexValuePair (V : Type) where
  index : IndexList
  data : List V
  hasChildren : Bool
  flags : Nat
  children : List (IndexValuePair V)
  size : Size

structure MetaAndDataEntries (V : Type) where
  data : List (IndexValuePair V)
  roles : List Role
  size : Size

inductive Orientation
  | horizontal
  | vertical
deriving DecidableEq, Repr

inductive Request (V : Type)
  | size (parentList : IndexList)
  | row (start finish : IndexList) (roles : List Role)
  | header (orientations : List Orientation) (sections : List Nat) (roles : List Role)
  | cache (size : Nat) (roles : List Role)
  | setData (index : IndexList) (value : V) (role : Role)
  | setCurrentIndex (index : IndexList)

inductive Reply (V : Type)
  | size (size : Size)
  | entries (entries : List (IndexValuePair V))
  | header (data : List V)
  | cache (entries : MetaAndDataEntries V)

/-- `QAbstractItemModel` as the adapter uses it, at one time. `setData` says whether the model takes a value. -/
structure SourceModel (V : Type) where
  rowCount : IndexList → Nat
  columnCount : IndexList → Nat
  hasChildren : IndexList → Bool
  flags : IndexList → Nat
  data : IndexList → Role → V
  headerData : Nat → Orientation → Role → V
  setData : IndexList → V → Role → Bool

/-- `QAbstractItemModelSourceAdapter`, but for its model. -/
structure Adapter where
  m_availableRoles : List Role
  m_selectionModel : Bool

section Model
variable {V : Type}

namespace SourceModel
variable (m_model : SourceModel V)

def hasIndex (index : ModelIndex) (parent : IndexList) : Bool :=
  index.row < m_model.rowCount parent && index.column < m_model.columnCount parent

/-- `toQModelIndex` without `ok`, behind the part of the list that is resolved. -/
def resolve (parent : IndexList) : IndexList → Except Failure IndexList
  | [] => .ok parent
  | index :: rest =>
    if m_model.hasIndex index parent then resolve (parent ++ [index]) rest else .error .qFatal

def toQModelIndex (list : IndexList) : Except Failure IndexList := m_model.resolve [] list

/-- The cells of some rows, in the order of the adapter's loops. -/
def cells (rows columns : List Nat) : List ModelIndex :=
  rows.flatMap fun row => columns.map fun column => ⟨row, column⟩

def collectData (roles : List Role) (index : IndexList) : List V := roles.map (m_model.data index)

section Tree
variable (roles : List Role)

/-- The inner loop of `fetchTree` over what is left of the cells, with the budget that is left. -/
def fetchCells (below : IndexList → Nat → List (IndexValuePair V) × Nat) (parent : IndexList) :
    List ModelIndex → Nat → List (IndexValuePair V) × Nat
  | [], size => ([], size)
  | _, 0 => ([], 0)
  | cell :: cells, size + 1 =>
    let index := parent ++ [cell]
    let hasChildren := m_model.hasChildren index
    let (children, size) := if hasChildren then below index size else ([], size)
    let (entries, size) := fetchCells below parent cells size
    (⟨index, m_model.collectData roles index, hasChildren, m_model.flags index, children,
      ⟨m_model.columnCount index, m_model.rowCount index⟩⟩ :: entries, size)

/-- The first argument bounds the depth. A level takes one of the budget at least, so that the budget is enough. -/
def fetchTree : Nat → IndexList → Nat → List (IndexValuePair V) × Nat
  | 0, _, size => ([], size)
  | depth + 1, parent, size =>
    m_model.fetchCells roles (fetchTree depth) parent
      (cells (List.range (m_model.rowCount parent)) (List.range (m_model.columnCount parent))) size

end Tree
end SourceModel

namespace Adapter
variable (adapter : Adapter) (m_model : SourceModel V)

def replicaSizeRequest (parentList : IndexList) : Except Failure Size := do
  let parent ← m_model.toQModelIndex parentList
  pure ⟨m_model.columnCount parent, m_model.rowCount parent⟩

def replicaSetData (index : IndexList) (value : V) (role : Role) : Except Failure Unit := do
  let modelIndex ← m_model.toQModelIndex index
  if modelIndex ≠ [] ∧ m_model.setData modelIndex value role then pure () else .error .assertion

/-- `replicaRowRequest` behind the parent: what it returns for the rows and columns from the start to the finish. -/
def rowEntries (parent : IndexList) (start finish : ModelIndex) (roles : List Role) :
    Except Failure (List (IndexValuePair V)) :=
  let rowCount := m_model.rowCount parent
  let columnCount := m_model.columnCount parent
  if rowCount = 0 then .ok []
  else
    let endRow := min (finish.row : Int) (rowCount - 1)
    let endColumn := min (finish.column : Int) (columnCount - 1)
    if 0 ≤ endRow ∧ endRow < rowCount ∧ 0 ≤ endColumn ∧ endColumn < columnCount then
      let current := SourceModel.cells (List.range' start.row (endRow.toNat + 1 - start.row))
        (List.range' start.column (endColumn.toNat + 1 - start.column))
      if current.all fun cell => m_model.hasIndex cell parent then
        .ok (current.map fun cell =>
          let index := parent ++ [cell]
          ⟨index, m_model.collectData roles index, m_model.hasChildren index, m_model.flags index, [], ⟨0, 0⟩⟩)
      else .error .assertion
    else .error .assertion

def replicaRowRequest (start finish : IndexList) (roles : List Role) : Except Failure (List (IndexValuePair V)) :=
  if start.length ≠ finish.length then .error .assertion
  else match start.getLast?, finish.getLast? with
    | some first, some last => do
      let parent ← m_model.toQModelIndex start.dropLast
      rowEntries m_model parent first last (if roles.isEmpty then adapter.m_availableRoles else roles)
    | _, _ => .error .assertion

def replicaCacheRequest (size : Nat) (roles : List Role) : MetaAndDataEntries V :=
  let roles := if roles.isEmpty then adapter.m_availableRoles else roles
  ⟨(m_model.fetchTree roles size [] size).1, roles, ⟨m_model.columnCount [], m_model.rowCount []⟩⟩

def replicaHeaderRequest (orientations : List Orientation) (sections : List Nat) (roles : List Role) :
    Except Failure (List V) :=
  if roles.length = sections.length ∧ roles.length = orientations.length then
    .ok ((sections.zip (orientations.zip roles)).map fun (row, orientation, role) => m_model.headerData row orientation role)
  else .error .assertion

def replicaSetCurrentIndex (index : IndexList) : Except Failure Unit :=
  if adapter.m_selectionModel then do
    let _ ← m_model.toQModelIndex index
    pure ()
  else .ok ()

/-- A request is handled; the two last kinds have no reply. -/
def serve : Request V → Except Failure (Option (Reply V))
  | .size parentList => do pure (some (.size (← replicaSizeRequest m_model parentList)))
  | .row start finish roles => do pure (some (.entries (← adapter.replicaRowRequest m_model start finish roles)))
  | .header orientations sections roles => do
    pure (some (.header (← replicaHeaderRequest m_model orientations sections roles)))
  | .cache size roles => pure (some (.cache (adapter.replicaCacheRequest m_model size roles)))
  | .setData index value role => do
    replicaSetData m_model index value role
    pure none
  | .setCurrentIndex index => do
    adapter.replicaSetCurrentIndex m_model index
    pure none

/-- The list that is emitted for the parents of a layout change. -/
def sourceLayoutChanged (parents : List IndexList) : IndexList :=
  parents.foldl (fun indexes parent => indexes ++ parent) []

end Adapter
end Model
end RemoteObjects.ItemModel
