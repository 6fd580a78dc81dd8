import RemoteObjects.ItemModel.Adapter

/-! The tree of cached items of a replica. An item is known by the rows from the root down to it. -/
namespace RemoteObjects.ItemModel

section Model
variable (V : Type)

structure CacheEntry where
  data : List (Role × V)
  flags : Nat

/-- What an item has besides the items below it. -/
structure ItemData where
  cachedRowEntry : List (CacheEntry V)
  hasChildren : Bool
  columnCount : Nat
  rowCount : Nat

structure CacheData where
  item : ItemData V
  children : LruCache CacheData

variable {V}

def CacheEntry.empty : CacheEntry V := ⟨[], 0⟩

def ItemData.empty : ItemData V := ⟨[], false, 0, 0⟩

/-- A hash: the last value of a role is the one it has. -/
def CacheEntry.find? (entry : CacheEntry V) (role : Role) : Option V :=
  (entry.data.find? fun cell => cell.1 = role).map Prod.snd

def CacheEntry.remove (entry : CacheEntry V) (role : Role) : CacheEntry V :=
  { entry with data := entry.data.filter fun cell => cell.1 ≠ role }

def CacheEntry.insert (entry : CacheEntry V) (role : Role) (value : V) : CacheEntry V :=
  { entry with data := (role, value) :: (entry.remove role).data }

namespace CacheData
-- What `LRUCache` takes from the environment as its size.
variable (nodesCacheSize : Nat)

/-- `CacheData` as constructed. -/
def new (nodesCacheSize : Nat) : CacheData V := ⟨.empty, .empty nodesCacheSize⟩

/-- The item at the rows, where nothing moves. -/
def find? : List Nat → CacheData V → Option (CacheData V)
  | [], c => some c
  | row :: rows, c => (c.children.find? row).bind (find? rows)

def item? (c : CacheData V) (rows : List Nat) : Option (ItemData V) := (c.find? rows).map CacheData.item

def setChild (c : CacheData V) (row : Nat) (child : CacheData V) : CacheData V :=
  { c with children := c.children.front row child }

/-- `ensureChildren(row, row)`, which is what all its callers call. -/
def ensureChildren (row : Nat) (c : CacheData V) : Except Failure (CacheData V) :=
  if c.children.contains row then .ok c
  else do
    let (children, _) ← c.children.ensure (fun child => child.item.hasChildren) row (new nodesCacheSize)
    pure { c with children }

def ensureWhen (ensures : Bool) (row : Nat) (c : CacheData V) : Except Failure (CacheData V) :=
  if ensures then c.ensureChildren nodesCacheSize row else .ok c

def insertChild (row : Nat) (c : CacheData V) : Except Failure (CacheData V) := do
  let child : CacheData V := ⟨{ ItemData.empty with columnCount := c.item.columnCount }, .empty nodesCacheSize⟩
  let (children, _) ← c.children.insert (fun child => child.item.hasChildren) row child
  pure ⟨{ c.item with rowCount := c.item.rowCount + 1 }, children⟩

def insertChildren (start finish : Nat) (c : CacheData V) : Except Failure (CacheData V) :=
  if start ≤ finish then do
    let c ← (List.range' start (finish + 1 - start)).foldlM (fun c row => c.insertChild nodesCacheSize row) c
    pure { c with item := { c.item with hasChildren := c.item.hasChildren || c.item.rowCount ≠ 0 } }
  else .error .assertion

def removeChild (c : CacheData V) (row : Nat) : CacheData V :=
  ⟨{ c.item with rowCount := c.item.rowCount - 1 }, c.children.remove row⟩

def removeChildren (start finish : Nat) (c : CacheData V) : Except Failure (CacheData V) :=
  if start ≤ finish ∧ finish < c.item.rowCount then
    let c := (List.range' start (finish + 1 - start)).reverse.foldl removeChild c
    .ok { c with item := { c.item with hasChildren := c.item.rowCount ≠ 0 } }
  else .error .assertion

def clear (c : CacheData V) : CacheData V := ⟨.empty, .empty c.children.cacheSize⟩

/-- `toQModelIndex` on the replica with the part of the list below an item, and whether that is valid. `index` reaches the
item through the cache of its parent, where it moves to the front, and ensures the child in an item that is not the
root. With `ensureItem`, `setData` ensures the child before, in the root as well. -/
def resolve (ensureItem : Bool) : Bool → IndexList → CacheData V → Except Failure (Bool × CacheData V)
  | _, [], c => .ok (true, c)
  | isRoot, index :: rest, c => do
    let c ← c.ensureWhen nodesCacheSize ensureItem index.row
    if index.row < c.item.rowCount ∧ index.column < c.item.columnCount then do
      let c ← c.ensureWhen nodesCacheSize (!isRoot) index.row
      match rest with
      | [] => pure (true, c)
      | _ :: _ =>
        match c.children.find? index.row with
        | none => pure (false, c)
        | some child => do
          let (ok, child) ← resolve ensureItem false rest child
          pure (ok, c.setChild index.row child)
    else pure (false, c)

/-- The effect of `get` on the caches along the rows. -/
def touch : List Nat → CacheData V → CacheData V
  | [], c => c
  | row :: rows, c =>
    match c.children.find? row with
    | none => c
    | some child => c.setChild row (touch rows child)

/-- What the code does with the item that `cacheData` finds through the cache of its parent. -/
def modify (f : CacheData V → Except Failure (CacheData V)) : List Nat → CacheData V → Except Failure (CacheData V)
  | [], c => f c
  | row :: rows, c =>
    match c.children.find? row with
    | none => .error .nullItem
    | some child => do
      let child ← modify f rows child
      pure (c.setChild row child)

/-- The same where the item may be missing. -/
def modifyCached (f : CacheData V → Except Failure (CacheData V)) (rows : List Nat) (c : CacheData V) :
    Except Failure (CacheData V) :=
  if (c.find? rows).isSome then c.modify f rows else .ok c

/-- `toQModelIndex` with `ok`. -/
def toQModelIndex (list : IndexList) (m_rootItem : CacheData V) : Except Failure (Bool × CacheData V) :=
  m_rootItem.resolve nodesCacheSize false true list

/-- `toQModelIndex` without `ok`. -/
def validQModelIndex (list : IndexList) (m_rootItem : CacheData V) : Except Failure (CacheData V) := do
  let (ok, m_rootItem) ← m_rootItem.toQModelIndex nodesCacheSize list
  if ok then pure m_rootItem else .error .qFatal

/-- `createCacheData`, and whether it finds an item then: `cleanCache` may have deleted the new one. -/
def createCacheData (list : IndexList) (m_rootItem : CacheData V) : Except Failure (Bool × CacheData V) := do
  let (ok, m_rootItem) ← m_rootItem.toQModelIndex nodesCacheSize list
  match ok, list.getLast? with
  | true, some index =>
    let m_rootItem ← m_rootItem.modify (fun c => c.ensureChildren nodesCacheSize index.row) (rowsOf list.dropLast)
    pure ((m_rootItem.find? (rowsOf list)).isSome, m_rootItem.touch (rowsOf list))
  | true, none => .error .assertion
  | false, _ => pure (false, m_rootItem)

def fillCacheEntry (pair : IndexValuePair V) (roles : List Role) (entry : CacheEntry V) : Except Failure (CacheEntry V) :=
  if roles.length = pair.data.length then
    .ok ((roles.zip pair.data).foldl (fun entry cell => entry.insert cell.1 cell.2) { entry with flags := pair.flags })
  else .error .assertion

/-- `fillRow` on the item; a column behind those that are filled is appended. -/
def fillItem (pair : IndexValuePair V) (roles : List Role) (column : Nat) (item : ItemData V) :
    Except Failure (ItemData V) := do
  let item := if column = 0 then { item with hasChildren := pair.hasChildren } else item
  match item.cachedRowEntry[column]? with
  | some entry =>
    let entry ← fillCacheEntry pair roles entry
    pure { item with cachedRowEntry := item.cachedRowEntry.set column entry }
  | none =>
    let entry ← fillCacheEntry pair roles .empty
    pure { item with cachedRowEntry := item.cachedRowEntry ++ [entry] }

def mapItem (f : ItemData V → Except Failure (ItemData V)) (c : CacheData V) : Except Failure (CacheData V) := do
  let item ← f c.item
  pure { c with item }

/-- `createCacheData` and, where that finds an item, `fillRow` and what follows it. -/
def fillWith (pair : IndexValuePair V) (roles : List Role) (size : ItemData V → ItemData V) (m_rootItem : CacheData V) :
    Except Failure (CacheData V) := do
  let (created, m_rootItem) ← m_rootItem.createCacheData nodesCacheSize pair.index
  match created, pair.index.getLast? with
  | true, some index =>
    let m_rootItem ← m_rootItem.validQModelIndex nodesCacheSize pair.index
    m_rootItem.modify (mapItem fun item => do pure (size (← fillItem pair roles index.column item))) (rowsOf pair.index)
  | _, _ => pure m_rootItem

mutual
def fillCache (roles : List Role) : IndexValuePair V → CacheData V → Except Failure (CacheData V)
  | ⟨index, data, hasChildren, flags, children, size⟩, m_rootItem => do
    let m_rootItem ← m_rootItem.fillWith nodesCacheSize ⟨index, data, hasChildren, flags, children, size⟩ roles
      fun item => { item with rowCount := size.height, columnCount := size.width }
    fillCaches roles children m_rootItem

def fillCaches (roles : List Role) : List (IndexValuePair V) → CacheData V → Except Failure (CacheData V)
  | [], m_rootItem => .ok m_rootItem
  | pair :: pairs, m_rootItem => do fillCaches roles pairs (← fillCache roles pair m_rootItem)
end

end CacheData
end Model
end RemoteObjects.ItemModel
