import RemoteObjects.ItemModel.CacheData

/-! The replica of an item model: its slots for the signals of the source, its requests and the handlers of their replies.
A signal is handled when it is read. The handler of a reply is called through the event queue, since watchers are
connected to their calls with queued connections. -/
namespace RemoteObjects.ItemModel

section Types
variable (V : Type)

inductive InitialAction
  | fetchRootSize
  | prefetchData
deriving DecidableEq

/-- What does not change in a replica. -/
structure Config where
  nodesCacheSize : Nat
  m_initialAction : InitialAction
  m_initialFetchRolesHint : List Role
  availableRoles : List Role

structure RequestedData where
  start : IndexList
  finish : IndexList
  roles : List Role
deriving DecidableEq

structure RequestedHeaderData where
  role : Role
  sectionIndex : Nat
  orientation : Orientation

/-- A watcher by the handler that it is connected to, with what that reads from it. -/
inductive Watcher
  | init
  | reset
  | size (parentList : IndexList)
  | row (start finish : IndexList) (roles : List Role)
  | header (orientations : List Orientation) (sections : List Nat) (roles : List Role)
  | layout (indexes : List IndexList)
deriving DecidableEq

inductive Posted
  | fetchPendingData
  | fetchPendingHeaderData
  | finished (serial : Nat) (reply : Reply V)

inductive Signal
  | dataChanged (start finish : IndexList) (roles : List Role)
  | rowsInserted (parent : IndexList) (start finish : Nat)
  | rowsRemoved (parent : IndexList) (start finish : Nat)
  | columnsInserted (parent : IndexList) (start finish : Nat)
  | headerDataChanged (orientation : Orientation) (first last : Nat)
  | modelReset
  | layoutChanged (parents : IndexList)

/-- What the source sends, in its order. -/
inductive Packet
  | signal (signal : Signal)
  | reply (serial : Nat) (reply : Reply V)

/-- `QAbstractItemModelReplicaImplementation`, with its watchers, the events that are posted to it and the requests it has
sent. Requests are numbered in their order; `m_pendingCalls` has those without a reply. -/
structure Replica where
  m_rootItem : CacheData V
  m_headerData : Orientation → List (CacheEntry V)
  m_initDone : Bool
  m_requestedData : List RequestedData
  m_requestedHeaderData : List RequestedHeaderData
  m_pendingRequests : List Nat
  watchers : List (Nat × Watcher)
  posted : List (Posted V)
  sent : List (Nat × Request V)
  m_pendingCalls : List Nat
  serial : Nat

end Types

section Model
variable {V : Type}

def Posted.of (serial : Nat) : Posted V → Bool
  | .finished other _ => other = serial
  | _ => false

/-- What `parent` makes of an index: those above it are in column 0. -/
def toModelIndexList (index : IndexList) : IndexList :=
  match index.getLast? with
  | none => []
  | some last => index.dropLast.map (fun above => ⟨above.row, 0⟩) ++ [last]

/-- `handleSizeDone` on the item. -/
def sizeDone (size : Size) (item : ItemData V) : Except Failure (ItemData V) :=
  if size.width < item.columnCount ∨ size.height < item.rowCount then .error .assertion
  else if item.rowCount = 0 then .ok { item with columnCount := size.width, rowCount := size.height }
  else if item.rowCount = size.height then .ok { item with columnCount := size.width }
  else .error .assertion

def removeIndexFromRow (column : Nat) (roles : List Role) (columnCount : Nat) (row : List (CacheEntry V)) :
    Except Failure (List (CacheEntry V)) :=
  if columnCount ≤ column then
    -- The index is not valid then, and its column is -1.
    if row.isEmpty then .ok row else .error .outOfRange
  else .ok (row.modify column fun entry =>
    if roles.isEmpty then { entry with data := [] } else roles.foldl CacheEntry.remove entry)

/-- A rectangle of cells as `QRect` with its corners in order. -/
def intersects (start finish start' finish' : ModelIndex) : Bool :=
  max start.row start'.row ≤ min finish.row finish'.row && max start.column start'.column ≤ min finish.column finish'.column

def adjacent (a b : Nat) : Bool := a = b + 1 || b = a + 1

/-- The body of the loop in `fetchPendingData`: the request at hand is merged with the next one, or it is final. -/
def mergeRequest (current next : RequestedData) : List RequestedData × RequestedData :=
  if current.start.length ≠ next.start.length then ([current], next)
  else
    -- The rest of the comparison goes on with the new request at hand once one index differs.
    let (final, current) := (List.range (next.start.length - 1)).foldl (fun (final, current) i =>
      if current.start[i]? = next.start[i]? then (final, current) else (final ++ [current], next)) ([], current)
    match current.start.getLast?, current.finish.getLast?, next.start.getLast?, next.finish.getLast? with
    | some curStart, some curEnd, some dataStart, some dataEnd =>
      let resStart : ModelIndex := ⟨min curStart.row dataStart.row, min curStart.column dataStart.column⟩
      let resEnd : ModelIndex := ⟨max curEnd.row dataEnd.row, max curEnd.column dataEnd.column⟩
      let borders := adjacent curStart.row dataStart.row || adjacent curStart.column dataStart.column ||
        adjacent curEnd.row dataEnd.row || adjacent curEnd.column dataEnd.column
      if resEnd.row < resStart.row + 100 ∧ (intersects curStart curEnd dataStart dataEnd ∨ borders) then
        let roles := if current.roles.isEmpty then []
          else current.roles ++ next.roles.filter fun role => !current.roles.contains role
        (final, ⟨current.start.dropLast ++ [resStart], current.finish.dropLast ++ [resEnd], roles⟩)
      else (final ++ [current], next)
    | _, _, _, _ => (final, current)

def mergeRequests : RequestedData → List RequestedData → List RequestedData
  | current, [] => [current]
  | current, next :: rest =>
    let (final, current) := mergeRequest current next
    final ++ mergeRequests current rest

namespace Replica
variable (config : Config) (s : Replica V)

def initial (rootCacheSize : Nat) : Replica V where
  m_rootItem := ⟨.empty, .empty rootCacheSize⟩
  m_headerData _ := []
  m_initDone := false
  m_requestedData := []
  m_requestedHeaderData := []
  m_pendingRequests := []
  watchers := []
  posted := []
  sent := []
  m_pendingCalls := []
  serial := 0

def setRoot (m_rootItem : CacheData V) : Replica V := { s with m_rootItem }

def setHeader (orientation : Orientation) (entries : List (CacheEntry V)) : Replica V :=
  { s with m_headerData := Function.update s.m_headerData orientation entries }

def post (event : Posted V) : Replica V := { s with posted := s.posted ++ [event] }

/-- A request is sent, and a watcher made for its call. -/
def request (request : Request V) (watcher : Watcher) : Replica V :=
  { s with
    sent := s.sent ++ [(s.serial, request)]
    watchers := s.watchers ++ [(s.serial, watcher)]
    m_pendingCalls := s.m_pendingCalls ++ [s.serial]
    serial := s.serial + 1 }

/-- As `request`, with the watcher in `m_pendingRequests`. -/
def pendingRequest (call : Request V) (watcher : Watcher) : Replica V :=
  { s.request call watcher with m_pendingRequests := s.m_pendingRequests ++ [s.serial] }

/-- What is posted for a watcher goes with it. -/
def deleteWatcher (serial : Nat) : Replica V :=
  { s with
    watchers := s.watchers.filter fun watcher => watcher.1 ≠ serial
    posted := s.posted.filter fun event => !event.of serial }

/-- `m_pendingRequests.removeAll(watcher); delete watcher`. -/
def release (serial : Nat) : Replica V :=
  deleteWatcher { s with m_pendingRequests := s.m_pendingRequests.filter (· ≠ serial) } serial

def doModelReset (watcher : Watcher) : Replica V :=
  let s := { s.m_pendingRequests.foldl deleteWatcher s with m_pendingRequests := [] }
  s.pendingRequest (match config.m_initialAction with
    | .fetchRootSize => .size []
    | .prefetchData => .cache s.m_rootItem.children.cacheSize config.m_initialFetchRolesHint) watcher

def init : Replica V := s.doModelReset config .init

section Signals

/-- `clearCache` on the rows behind the two indexes, in the item that is their parent. -/
def clearRows (startColumn lastColumn : Nat) (roles : List Role) : List Nat → CacheData V → Except Failure (CacheData V)
  | [], c => .ok c
  | row :: rows, c =>
    if row < c.item.rowCount then
      match c.children.find? row with
      | none => clearRows startColumn lastColumn roles rows c
      | some child => do
        let cachedRowEntry ← (List.range' startColumn (lastColumn + 1 - startColumn)).foldlM
          (fun entries column => removeIndexFromRow column roles c.item.columnCount entries) child.item.cachedRowEntry
        clearRows startColumn lastColumn roles rows
          (c.setChild row { child with item := { child.item with cachedRowEntry } })
    else .error .assertion

/-- `clearCache`: whether both indexes are valid, and what is cached then. -/
def clearCache (start finish : IndexList) (roles : List Role) (m_rootItem : CacheData V) :
    Except Failure (Bool × CacheData V) :=
  if start.length ≠ finish.length then .error .assertion
  else do
    let (ok, m_rootItem) ← m_rootItem.toQModelIndex config.nodesCacheSize start
    if !ok then return (false, m_rootItem)
    let (ok, m_rootItem) ← m_rootItem.toQModelIndex config.nodesCacheSize finish
    if !ok then return (false, m_rootItem)
    match start.getLast?, finish.getLast? with
    | some first, some last =>
      if rowsOf start.dropLast = rowsOf finish.dropLast then do
        let m_rootItem ← m_rootItem.modify (clearRows first.column last.column roles
          (List.range' first.row (last.row + 1 - first.row))) (rowsOf start.dropLast)
        pure (true, m_rootItem)
      else .error .assertion
    | _, _ => .error .assertion

/-- The ranges of rows that the item has cached among the ones given, which follow each other. -/
def cachedRanges (cached : Nat → Bool) : List Nat → List (Nat × Nat)
  | [] => []
  | row :: rows =>
    if cached row then
      match cachedRanges cached rows with
      | (first, last) :: ranges => if first = row + 1 then (row, last) :: ranges else (row, row) :: (first, last) :: ranges
      | [] => [(row, row)]
    else cachedRanges cached rows

def onDataChanged (start finish : IndexList) (roles : List Role) : Except Failure (Replica V) := do
  let (cleared, m_rootItem) ← clearCache config start finish roles s.m_rootItem
  if !cleared then return s.setRoot m_rootItem
  let (ok, m_rootItem) ← m_rootItem.toQModelIndex config.nodesCacheSize start
  if !ok then return s.setRoot m_rootItem
  let (ok, m_rootItem) ← m_rootItem.toQModelIndex config.nodesCacheSize finish
  if !ok then return s.setRoot m_rootItem
  match start.getLast?, finish.getLast?, m_rootItem.find? (rowsOf start.dropLast) with
  | some first, some last, some parentItem =>
    let ranges := cachedRanges parentItem.children.contains (List.range' first.row (last.row + 1 - first.row))
    let s := { s.setRoot m_rootItem with
      m_requestedData := s.m_requestedData ++ ranges.map fun range =>
        ⟨start.dropLast ++ [⟨range.1, first.column⟩], finish.dropLast ++ [⟨range.2, last.column⟩], roles⟩ }
    pure (if ranges.isEmpty then s else s.post .fetchPendingData)
  | _, _, _ => .error .nullItem

def onRowsInserted (parent : IndexList) (start finish : Nat) : Except Failure (Replica V) := do
  let (treeFullyLazyLoaded, m_rootItem) ← s.m_rootItem.resolve config.nodesCacheSize true true parent
  if !treeFullyLazyLoaded then return s.setRoot m_rootItem
  -- The item has rows and so it has children: what follows in the code for one without them is not reached.
  let m_rootItem ← m_rootItem.modify (CacheData.insertChildren config.nodesCacheSize start finish) (rowsOf parent)
  pure ((s.setRoot m_rootItem).setHeader .vertical
    (s.m_headerData .vertical ++ List.replicate (finish + 1 - start) .empty))

def onColumnsInserted (parent : IndexList) (start finish : Nat) : Except Failure (Replica V) := do
  let (treeFullyLazyLoaded, m_rootItem) ← s.m_rootItem.toQModelIndex config.nodesCacheSize parent
  if !treeFullyLazyLoaded then return s.setRoot m_rootItem
  let m_rootItem := m_rootItem.touch (rowsOf parent)
  match m_rootItem.find? (rowsOf parent) with
  | none => .error .nullItem
  | some parentItem =>
    if parent ≠ [] ∧ (m_rootItem.item? (rowsOf parent.dropLast)).map ItemData.columnCount = some parentItem.item.columnCount then
      pure (s.setRoot m_rootItem)
    else do
      let m_rootItem ← m_rootItem.modify (fun c => pure { c with item := { c.item with
        columnCount := c.item.columnCount + (finish + 1 - start)
        hasChildren := c.item.hasChildren || c.children.cachedItems.length ≠ 0 } }) (rowsOf parent)
      pure ((s.setRoot m_rootItem).setHeader .horizontal
        (s.m_headerData .horizontal ++ List.replicate (finish + 1 - start) .empty))

def onRowsRemoved (parent : IndexList) (start finish : Nat) : Except Failure (Replica V) := do
  let (treeFullyLazyLoaded, m_rootItem) ← s.m_rootItem.toQModelIndex config.nodesCacheSize parent
  if !treeFullyLazyLoaded then return s.setRoot m_rootItem
  let m_rootItem ← m_rootItem.modifyCached (CacheData.removeChildren start finish) (rowsOf parent)
  let entries := s.m_headerData .vertical
  if start ≤ finish + 1 ∧ finish < entries.length then
    pure ((s.setRoot m_rootItem).setHeader .vertical (entries.take start ++ entries.drop (finish + 1)))
  else .error .outOfRange

def onHeaderDataChanged (orientation : Orientation) (first last : Nat) : Replica V :=
  s.setHeader orientation ((s.m_headerData orientation).mapIdx fun i entry =>
    if first ≤ i ∧ i ≤ last then { entry with data := [] } else entry)

def onModelReset : Replica V := if s.m_initDone then s.doModelReset config .reset else s

/-- The parents that `onLayoutChanged` reads from the list: each index in it is one. -/
def layoutParents (m_rootItem : CacheData V) : IndexList → Except Failure (List IndexList × CacheData V)
  | [] => .ok ([], m_rootItem)
  | parent :: parents => do
    let m_rootItem ← m_rootItem.validQModelIndex config.nodesCacheSize [parent]
    let (indexes, m_rootItem) ← layoutParents m_rootItem parents
    pure ([parent] :: indexes, m_rootItem)

def onLayoutChanged (parents : IndexList) : Except Failure (Replica V) := do
  let (indexes, m_rootItem) ← layoutParents config s.m_rootItem parents
  pure ((s.setRoot m_rootItem).pendingRequest
    (.cache m_rootItem.children.cacheSize config.m_initialFetchRolesHint) (.layout indexes))

def onSignal : Signal → Except Failure (Replica V)
  | .dataChanged start finish roles => s.onDataChanged config start finish roles
  | .rowsInserted parent start finish => s.onRowsInserted config parent start finish
  | .rowsRemoved parent start finish => s.onRowsRemoved config parent start finish
  | .columnsInserted parent start finish => s.onColumnsInserted config parent start finish
  | .headerDataChanged orientation first last => .ok (s.onHeaderDataChanged orientation first last)
  | .modelReset => .ok (s.onModelReset config)
  | .layoutChanged parents => s.onLayoutChanged config parents

end Signals

section Replies

/-- The root item as a reply for all of the model leaves it. -/
def resetRoot (size : Size) (m_rootItem : CacheData V) : CacheData V :=
  { m_rootItem.clear with item := ⟨[], size.height ≠ 0, size.width, size.height⟩ }

def resizeHeader (entries : List (CacheEntry V)) (size : Nat) : List (CacheEntry V) :=
  (entries.takeD size .empty).map fun entry => { entry with data := [] }

/-- The entries of a reply for all of the model, where the replica prefetches. -/
def prefetched (entries : MetaAndDataEntries V) (m_rootItem : CacheData V) : Except Failure (CacheData V) :=
  match config.m_initialAction with
  | .fetchRootSize => .ok m_rootItem
  | .prefetchData => CacheData.fillCaches config.nodesCacheSize entries.roles entries.data m_rootItem

def handleModelResetDone (serial : Nat) (reply : Reply V) : Except Failure (Replica V) := do
  let (size, m_rootItem) ← match config.m_initialAction, reply with
    | .fetchRootSize, .size size => pure (size, resetRoot size s.m_rootItem)
    | .prefetchData, .cache entries => do
      pure (entries.size, ← prefetched config entries (resetRoot entries.size s.m_rootItem))
    | _, _ => .error .assertion
  pure ((((s.setRoot m_rootItem).setHeader .horizontal (resizeHeader (s.m_headerData .horizontal) size.width)).setHeader
    .vertical (resizeHeader (s.m_headerData .vertical) size.height)).release serial)

def handleInitDone (serial : Nat) (reply : Reply V) : Except Failure (Replica V) := do
  let s ← s.handleModelResetDone config serial reply
  pure { s with m_initDone := true }

def handleSizeDone (serial : Nat) (parentList : IndexList) (size : Size) : Except Failure (Replica V) := do
  let m_rootItem ← s.m_rootItem.validQModelIndex config.nodesCacheSize parentList
  let parentItem := m_rootItem.find? (rowsOf parentList)
  let m_rootItem ← (m_rootItem.touch (rowsOf parentList)).validQModelIndex config.nodesCacheSize parentList
  if parentItem.isNone then .error .nullItem
  else do
    let m_rootItem ← m_rootItem.modify (CacheData.mapItem (sizeDone size)) (rowsOf parentList)
    pure ((s.setRoot m_rootItem).release serial)

/-- Without rows or columns the handler leaves its watcher as it is. -/
def requestedData (serial : Nat) (start finish : IndexList) (roles : List Role) (entries : List (IndexValuePair V)) :
    Except Failure (Replica V) :=
  if start.length ≠ finish.length then .error .assertion
  else match start.getLast?, finish.getLast? with
    | some first, some last => do
      let parentList := start.dropLast
      let m_rootItem ← s.m_rootItem.validQModelIndex config.nodesCacheSize parentList
      let m_rootItem := m_rootItem.touch (rowsOf parentList)
      match m_rootItem.item? (rowsOf parentList) with
      | none => .error .nullItem
      | some parentItem =>
        if parentItem.rowCount < 1 ∨ parentItem.columnCount < 1 then pure (s.setRoot m_rootItem)
        else do
          let m_rootItem ← entries.foldlM (fun m_rootItem pair => m_rootItem.fillWith config.nodesCacheSize pair roles id)
            m_rootItem
          let startIndex := ⟨min first.row (parentItem.rowCount - 1), min first.column (parentItem.columnCount - 1)⟩
          let endIndex := ⟨min last.row (parentItem.rowCount - 1), min last.column (parentItem.columnCount - 1)⟩
          let m_rootItem ← m_rootItem.validQModelIndex config.nodesCacheSize parentList
          let (startValid, m_rootItem) ← m_rootItem.toQModelIndex config.nodesCacheSize (parentList ++ [startIndex])
          let (endValid, m_rootItem) ← m_rootItem.toQModelIndex config.nodesCacheSize (parentList ++ [endIndex])
          if startValid ∧ endValid then pure ((s.setRoot m_rootItem).release serial) else .error .assertion
    | _, _ => .error .assertion

/-- The cells of a reply for headers, which are not compared with what the lists have. -/
def fillHeader : List (Orientation × Nat × Role × V) → Replica V → Except Failure (Replica V)
  | [], s => .ok s
  | (orientation, position, role, value) :: cells, s =>
    match (s.m_headerData orientation)[position]? with
    | none => .error .outOfRange
    | some entry =>
      fillHeader cells (s.setHeader orientation ((s.m_headerData orientation).set position (entry.insert role value)))

def requestedHeaderData (serial : Nat) (orientations : List Orientation) (sections : List Nat) (roles : List Role)
    (data : List V) : Except Failure (Replica V) :=
  if orientations.length = data.length ∧ sections.length = data.length ∧ roles.length = data.length then do
    let s ← fillHeader (orientations.zip (sections.zip (roles.zip data))) s
    pure (s.release serial)
  else .error .assertion

/-- The lists of the header keep their sizes. -/
def layoutDone (serial : Nat) (entries : MetaAndDataEntries V) : Except Failure (Replica V) := do
  let m_rootItem ← prefetched config entries (resetRoot entries.size s.m_rootItem)
  pure ((s.setRoot m_rootItem).release serial)

def onFinished (serial : Nat) : Watcher → Reply V → Except Failure (Replica V)
  | .init, reply => s.handleInitDone config serial reply
  | .reset, reply => s.handleModelResetDone config serial reply
  | .size parentList, .size size => s.handleSizeDone config serial parentList size
  | .row start finish roles, .entries entries => s.requestedData config serial start finish roles entries
  | .header orientations sections roles, .header data => s.requestedHeaderData serial orientations sections roles data
  | .layout _, .cache entries => s.layoutDone config serial entries
  | _, _ => .error .assertion

/-- The final requests are sent from the last one on, until they cover the size of the cache. -/
def sendRequests : List RequestedData → Nat → Replica V → Replica V
  | [], _, s => s
  | data :: rest, rows, s =>
    if rows < s.m_rootItem.children.cacheSize then
      sendRequests rest
        (rows + (1 + ((data.finish.head?.map ModelIndex.row).getD 0 - (data.start.head?.map ModelIndex.row).getD 0)))
        (s.pendingRequest (.row data.start data.finish data.roles) (.row data.start data.finish data.roles))
    else s

def fetchPendingData : Replica V :=
  match s.m_requestedData with
  | [] => s
  | first :: rest =>
    sendRequests (mergeRequests first (first :: rest)).reverse 0 { s with m_requestedData := [] }

def fetchPendingHeaderData : Replica V :=
  let data := s.m_requestedHeaderData
  let orientations := data.map RequestedHeaderData.orientation
  let sections := data.map RequestedHeaderData.sectionIndex
  let roles := data.map RequestedHeaderData.role
  { s with m_requestedHeaderData := [] }.pendingRequest (.header orientations sections roles)
    (.header orientations sections roles)

end Replies

section View

/-- `findData` on the entry of an index that is cached. -/
def cachedRole (index : IndexList) (m_rootItem : CacheData V) (role : Role) : Bool :=
  ((m_rootItem.item? (rowsOf index)).bind fun item => (index.getLast?.bind fun last => item.cachedRowEntry[last.column]?).bind
    fun entry => entry.find? role).isSome

/-- `multiData` for an index that the view has taken from the replica, as far as it asks the source. -/
def multiData (index : IndexList) (roles : List Role) : Except Failure (Replica V) := do
  let (ok, m_rootItem) ← s.m_rootItem.toQModelIndex config.nodesCacheSize index
  match ok, index.getLast? with
  | true, some last =>
    let m_rootItem := m_rootItem.touch (rowsOf index)
    let rolesToFetch := roles.filter fun role => config.availableRoles.contains role && !cachedRole index m_rootItem role
    if rolesToFetch.isEmpty then pure (s.setRoot m_rootItem)
    else match m_rootItem.item? (rowsOf index.dropLast) with
      | none => .error .assertion
      | some parentItem => do
        let parentList := toModelIndexList index.dropLast
        let start := parentList ++ [⟨last.row, 0⟩]
        let finish := parentList ++ [⟨last.row, parentItem.columnCount - 1⟩]
        let m_rootItem ← m_rootItem.validQModelIndex config.nodesCacheSize start
        let data : RequestedData := ⟨start, finish, rolesToFetch⟩
        pure (post { s.setRoot m_rootItem with m_requestedData := s.m_requestedData ++ [data] } .fetchPendingData)
  | _, _ => pure (s.setRoot m_rootItem)

/-- `rowCount`, which asks for the size of an item with children whose rows are not known. The watcher is not in
`m_pendingRequests`. -/
def rowCount (parent : IndexList) : Except Failure (Replica V) := do
  let (ok, m_rootItem) ← s.m_rootItem.toQModelIndex config.nodesCacheSize parent
  let s := s.setRoot (m_rootItem.touch (rowsOf parent))
  match ok, parent.getLast?, m_rootItem.item? (rowsOf parent) with
  | true, some last, some parentItem =>
    if parentItem.hasChildren ∧ parentItem.rowCount = 0 ∧ last.column = 0 then
      let parentList := toModelIndexList parent
      pure (s.request (.size parentList) (.size parentList))
    else pure s
  | _, _, _ => pure s

def headerData (position : Nat) (orientation : Orientation) (role : Role) : Replica V :=
  match (s.m_headerData orientation)[position]? with
  | none => s
  | some entry =>
    if (entry.find? role).isSome then s
    else
      let data : RequestedHeaderData := ⟨role, position, orientation⟩
      post { s with m_requestedHeaderData := s.m_requestedHeaderData ++ [data] } .fetchPendingHeaderData

end View

def watcher? (serial : Nat) : Option Watcher := (s.watchers.find? fun watcher => watcher.1 = serial).map Prod.snd

/-- The reply of a call is posted to its watcher, if that still exists. -/
def notifyAboutReply (serial : Nat) (reply : Reply V) : Replica V :=
  if serial ∈ s.m_pendingCalls then
    let s := { s with m_pendingCalls := s.m_pendingCalls.filter (· ≠ serial) }
    if (s.watcher? serial).isSome then s.post (.finished serial reply) else s
  else s

def receive : Packet V → Except Failure (Replica V)
  | .signal signal => s.onSignal config signal
  | .reply serial reply => .ok (s.notifyAboutReply serial reply)

/-- The first event of the queue. -/
def processEvent : Except Failure (Replica V) :=
  match s.posted with
  | [] => .ok s
  | event :: posted =>
    let s := { s with posted }
    match event with
    | .fetchPendingData => .ok s.fetchPendingData
    | .fetchPendingHeaderData => .ok s.fetchPendingHeaderData
    | .finished serial reply =>
      match s.watcher? serial with
      | none => .ok s
      | some watcher => s.onFinished config serial watcher reply

end Replica

inductive ReplicaEvent (V : Type)
  | receive (packet : Packet V)
  | processEvent
  | multiData (index : IndexList) (roles : List Role)
  | rowCount (parent : IndexList)
  | headerData (position : Nat) (orientation : Orientation) (role : Role)

def Replica.handle (config : Config) (s : Replica V) : ReplicaEvent V → Except Failure (Replica V)
  | .receive packet => s.receive config packet
  | .processEvent => s.processEvent config
  | .multiData index roles => s.multiData config index roles
  | .rowCount parent => s.rowCount config parent
  | .headerData position orientation role => .ok (s.headerData position orientation role)

/-- A run ends where a handler fails. -/
def Replica.step (config : Config) (s : Replica V) (e : ReplicaEvent V) : Option (Replica V) :=
  (s.handle config e).toOption

end Model
end RemoteObjects.ItemModel
