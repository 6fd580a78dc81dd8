import RemoteObjects.Echo
import RemoteObjects.ItemModel.Replica
import RemoteObjects.ItemModel.Requests

/-! The current index that the selection models of a source and of its replicas have in common. -/
namespace RemoteObjects.ItemModel
open Transition

section Model

/-- The arguments of `currentChanged`. -/
structure CurrentChange where
  current : IndexList
  previous : IndexList
deriving DecidableEq

/-- `QItemSelectionModel::setCurrentIndex`: it emits `currentChanged` when another index becomes current. -/
def setCurrentIndex (index currentIndex : IndexList) : Option CurrentChange :=
  if index = currentIndex then none else some ⟨index, currentIndex⟩

/-- The calls of `replicaSetCurrentIndex` and the signals that are under way. Whether the last index that arrived was
ignored, or none has arrived, is for what is said about runs. -/
structure SelectionConnection where
  calls : List IndexList
  signals : List CurrentChange
  ignored : Bool
deriving DecidableEq

/-- A replica, with the index that is current as its `toModelIndexList` has it. -/
structure SelectingReplica where
  currentIndex : IndexList
  connection : Option SelectionConnection
deriving DecidableEq

/-- The source has a selection model if `enableRemoting` was called with one. -/
structure Selection (V : Type) where
  m_model : SourceModel V
  m_selectionModel : Option IndexList
  replicas : List SelectingReplica

/-- A signal comes to a replica with the cache that it has then. -/
inductive SelectionEvent (V : Type)
  | setSource (index : IndexList)
  | setReplica (k : Nat) (index : IndexList)
  | invoke (k : Nat)
  | receive (k : Nat) (m_rootItem : CacheData V)
  | connect (k : Nat)
  | disconnect (k : Nat)

variable {V : Type}

/-- `onReplicaCurrentChanged` sends the index, if there is a connection. -/
def SelectingReplica.onReplicaCurrentChanged (change : CurrentChange) (replica : SelectingReplica) : SelectingReplica where
  currentIndex := change.current
  connection := replica.connection.map fun connection => { connection with calls := connection.calls ++ [change.current] }

def SelectingReplica.setCurrentIndex (index : IndexList) (replica : SelectingReplica) : SelectingReplica :=
  match ItemModel.setCurrentIndex (toModelIndexList index) replica.currentIndex with
  | none => replica
  | some change => replica.onReplicaCurrentChanged change

namespace Selection
variable (nodesCacheSize : Nat) (net : Selection V)

def put (k : Nat) (replica : SelectingReplica) : Selection V := { net with replicas := net.replicas.set k replica }

/-- `sourceCurrentChanged`: the signal is sent on each connection. -/
def sourceCurrentChanged (change : CurrentChange) : Selection V :=
  { net with
    m_selectionModel := some change.current
    replicas := net.replicas.map fun replica => { replica with
      connection := replica.connection.map fun connection => { connection with signals := connection.signals ++ [change] } } }

/-- On the source's selection model. -/
def setCurrentIndex (index currentIndex : IndexList) : Selection V :=
  match ItemModel.setCurrentIndex index currentIndex with
  | none => net
  | some change => net.sourceCurrentChanged change

def replicaSetCurrentIndex (index : IndexList) : Except Failure (Selection V) :=
  match net.m_selectionModel with
  | none => .ok net
  | some currentIndex => do
    let modelIndex ← net.m_model.toQModelIndex index
    pure (net.setCurrentIndex modelIndex currentIndex)

/-- `onCurrentChanged` of a replica with the connection that is left. An index that is not found is ignored. -/
def onCurrentChanged (change : CurrentChange) (m_rootItem : CacheData V) (currentIndex : IndexList) (connection : SelectionConnection) :
    Except Failure SelectingReplica := do
  let (ok, _) ← m_rootItem.toQModelIndex nodesCacheSize change.current
  if ok then pure (SelectingReplica.setCurrentIndex change.current ⟨currentIndex, some { connection with ignored := false }⟩)
  else pure ⟨currentIndex, some { connection with ignored := true }⟩

/-- A run ends where the source or a replica fails. A replica keeps its index while it has no connection. -/
def step (net : Selection V) : SelectionEvent V → Option (Selection V)
  | .setSource index =>
    match net.m_selectionModel with
    | some currentIndex => if net.m_model.HasPath [] index then some (net.setCurrentIndex index currentIndex) else none
    | none => none
  | .setReplica k index =>
    if net.m_model.HasPath [] index then net.replicas[k]?.map fun replica => net.put k (replica.setCurrentIndex index)
    else none
  | .invoke k =>
    match net.replicas[k]? with
    | some ⟨currentIndex, some ⟨index :: calls, signals, _⟩⟩ =>
      ((net.put k ⟨currentIndex, some ⟨calls, signals, false⟩⟩).replicaSetCurrentIndex index).toOption
    | _ => none
  | .receive k m_rootItem =>
    match net.replicas[k]? with
    | some ⟨currentIndex, some ⟨calls, change :: signals, ignored⟩⟩ =>
      (onCurrentChanged nodesCacheSize change m_rootItem currentIndex ⟨calls, signals, ignored⟩).toOption.map (net.put k)
    | _ => none
  | .connect k =>
    match net.replicas[k]? with
    | some ⟨currentIndex, none⟩ => some (net.put k ⟨currentIndex, some ⟨[], [], true⟩⟩)
    | _ => none
  | .disconnect k => net.replicas[k]?.map fun replica => net.put k { replica with connection := none }

/-- Replicas with an index of their own, before they have a connection. -/
def initial (m_model : SourceModel V) (currentIndex : IndexList) (indexes : List IndexList) : Selection V :=
  ⟨m_model, some currentIndex, indexes.map fun index => ⟨toModelIndexList index, none⟩⟩

/-- The signal that comes next to a replica is about an index that it finds. -/
def Finds (net : Selection V) (k : Nat) (m_rootItem : CacheData V) : Prop :=
  ∀ replica ∈ net.replicas[k]?, ∀ connection ∈ replica.connection, ∀ change ∈ connection.signals.head?,
    ∃ seen, m_rootItem.toQModelIndex nodesCacheSize change.current = .ok (true, seen)

/-- A call or a signal arrives, and the index of the signal is found. -/
def Arrives (net : Selection V) : SelectionEvent V → Prop
  | .invoke _ => True
  | .receive k m_rootItem => net.Finds nodesCacheSize k m_rootItem
  | _ => False

/-- No call and no signal is under way. -/
def Quiet (net : Selection V) : Prop :=
  ∀ replica ∈ net.replicas, ∀ connection ∈ replica.connection, connection.calls = [] ∧ connection.signals = []

/-- The source and the replicas with a connection have one current index, and nothing is under way. -/
def Settled (index : IndexList) (net : Selection V) : Prop :=
  net.m_selectionModel = some index ∧
    ∀ replica ∈ net.replicas, ∀ connection ∈ replica.connection, replica.currentIndex = index ∧ connection = ⟨[], [], false⟩

/-- A user of the source or of a replica with a connection makes the index current. -/
def Sets (index : IndexList) (net : Selection V) : SelectionEvent V → Prop
  | .setSource other => other = index
  | .setReplica k other => other = index ∧ ∃ current connection, net.replicas[k]? = some ⟨current, some connection⟩
  | _ => False

def connections (net : Selection V) : Nat := net.replicas.countP fun replica => replica.connection.isSome

end Selection

/-- Items with a parent in another column than the first one have no items below them. -/
def SourceModel.FirstColumn (m_model : SourceModel V) : Prop :=
  ∀ index, m_model.HasPath [] index → toModelIndexList index = index

end Model

section Simulation
variable {V : Type}

theorem toModelIndexList_concat (above : IndexList) (last : ModelIndex) :
    toModelIndexList (above ++ [last]) = above.map (fun index => ⟨index.row, 0⟩) ++ [last] := by
  rw [toModelIndexList, List.getLast?_concat, List.dropLast_concat]

theorem toModelIndexList_idem (index : IndexList) : toModelIndexList (toModelIndexList index) = toModelIndexList index := by
  rcases List.eq_nil_or_concat index with rfl | ⟨above, last, rfl⟩
  · rfl
  · rw [List.concat_eq_append, toModelIndexList_concat, toModelIndexList_concat, List.map_map]
    rfl

/-- What is said about a replica's current index. -/
def SelectingReplica.peer (replica : SelectingReplica) : Echo.Peer IndexList where
  value := replica.currentIndex
  link := replica.connection.map fun connection =>
    ⟨connection.calls, connection.signals.map CurrentChange.current, connection.ignored⟩

theorem SelectingReplica.setCurrentIndex_peer (index : IndexList) (replica : SelectingReplica) :
    (replica.setCurrentIndex index).peer = replica.peer.change (toModelIndexList index) := by
  rw [setCurrentIndex, ItemModel.setCurrentIndex, Echo.Peer.change]
  by_cases same : toModelIndexList index = replica.currentIndex
  · rw [if_pos same]
    exact (if_pos same).symm
  · rw [if_neg same]
    refine Eq.trans ?_ (if_neg same).symm
    obtain ⟨current, connection⟩ := replica
    cases connection with
    | none => rfl
    | some connection => rfl

namespace Selection
variable {nodesCacheSize : Nat} {net t : Selection V} {e : SelectionEvent V}

/-- The source as the hub of its replicas. -/
def hub (net : Selection V) : Echo.Hub IndexList := ⟨net.m_selectionModel.getD [], net.replicas.map SelectingReplica.peer⟩

theorem put_hub (k : Nat) (replica : SelectingReplica) : (net.put k replica).hub = net.hub.put k replica.peer := by
  rw [hub, put, List.map_set]
  rfl

theorem get_hub (k : Nat) : net.hub.peers[k]? = net.replicas[k]?.map SelectingReplica.peer := List.getElem?_map ..

theorem there_hub {k : Nat} {replica : SelectingReplica} (there : net.replicas[k]? = some replica) :
    net.hub.peers[k]? = some replica.peer := by
  rw [get_hub, there]
  rfl

theorem setCurrentIndex_hub {index currentIndex : IndexList} (current : net.m_selectionModel = some currentIndex) :
    (net.setCurrentIndex index currentIndex).hub = net.hub.change index := by
  have value : net.hub.value = currentIndex := by rw [hub, current]; rfl
  rw [setCurrentIndex, ItemModel.setCurrentIndex, Echo.Hub.change, value]
  split
  · rename_i same
    rw [if_pos (by_contra fun other => by rw [if_neg other] at same; cases same)]
  · rename_i change set
    split at set
    · contradiction
    · rename_i other
      obtain rfl := Option.some.inj set
      rw [if_neg other, hub, sourceCurrentChanged, List.map_map, hub, List.map_map]
      refine congrArg _ (List.map_congr_left fun replica _ => ?_)
      obtain ⟨current, connection⟩ := replica
      cases connection with
      | none => rfl
      | some connection =>
        simp [SelectingReplica.peer, Echo.Peer.hear]

/-- The event at the hub. -/
def event (nodesCacheSize : Nat) (net : Selection V) : SelectionEvent V → Echo.Event IndexList
  | .setSource index => .setHub index
  | .setReplica k index => .setPeer k index
  | .invoke k => .readHub k
  | .receive k m_rootItem =>
    .readPeer k <| match net.replicas[k]? with
      | some ⟨_, some ⟨_, change :: _, _⟩⟩ =>
        match m_rootItem.toQModelIndex nodesCacheSize change.current with
        | .ok (ok, _) => ok
        | .error _ => false
      | _ => false
  | .connect k => .join k
  | .disconnect k => .leave k

theorem event_receive {k : Nat} {m_rootItem seen : CacheData V} {index : IndexList} {calls : List IndexList} {change : CurrentChange}
    {signals : List CurrentChange} {ignored ok : Bool} (there : net.replicas[k]? = some ⟨index, some ⟨calls, change :: signals, ignored⟩⟩)
    (resolved : m_rootItem.toQModelIndex nodesCacheSize change.current = .ok (ok, seen)) :
    net.event nodesCacheSize (.receive k m_rootItem) = .readPeer k ok := by
  simp only [event, there, resolved]

theorem setCurrentIndex_keeps (index currentIndex : IndexList) (selects : net.m_selectionModel.isSome) :
    (net.setCurrentIndex index currentIndex).m_selectionModel.isSome ∧
      (net.setCurrentIndex index currentIndex).m_model = net.m_model := by
  rw [setCurrentIndex]
  split
  · exact ⟨selects, rfl⟩
  · exact ⟨rfl, rfl⟩

theorem step_invoke {k : Nat} {currentIndex : IndexList} (selected : net.m_selectionModel = some currentIndex)
    (head : net.step nodesCacheSize (.invoke k) = some t) : ∃ index call calls signals ignored,
      net.replicas[k]? = some ⟨index, some ⟨call :: calls, signals, ignored⟩⟩ ∧
        t = (net.put k ⟨index, some ⟨calls, signals, false⟩⟩).setCurrentIndex call currentIndex := by
  simp only [step] at head
  split at head
  · rename_i index call calls signals ignored there
    refine ⟨index, call, calls, signals, ignored, there, ?_⟩
    rw [replicaSetCurrentIndex, show (net.put k ⟨index, some ⟨calls, signals, false⟩⟩).m_selectionModel = some currentIndex from selected,
      show (net.put k ⟨index, some ⟨calls, signals, false⟩⟩).m_model = net.m_model from rfl] at head
    cases resolved : net.m_model.toQModelIndex call with
    | error failure =>
      rw [resolved] at head
      cases head
    | ok modelIndex =>
      rw [resolved] at head
      obtain rfl := (toQModelIndex_ok.mp resolved).2
      exact (Option.some.inj head).symm
  · contradiction

/-- A signal comes to a replica with a connection, which looks for its index. -/
theorem step_receive {k : Nat} {m_rootItem : CacheData V} (head : net.step nodesCacheSize (.receive k m_rootItem) = some t) :
    ∃ index calls change signals ignored ok seen, net.replicas[k]? = some ⟨index, some ⟨calls, change :: signals, ignored⟩⟩ ∧
      m_rootItem.toQModelIndex nodesCacheSize change.current = .ok (ok, seen) ∧
      t = net.put k (if ok then SelectingReplica.setCurrentIndex change.current ⟨index, some ⟨calls, signals, false⟩⟩
        else ⟨index, some ⟨calls, signals, true⟩⟩) := by
  simp only [step] at head
  split at head
  · rename_i index calls change signals ignored there
    obtain ⟨replica, handled, rfl⟩ := Option.map_eq_some_iff.mp head
    rw [onCurrentChanged] at handled
    cases resolved : m_rootItem.toQModelIndex nodesCacheSize change.current with
    | error failure =>
      rw [resolved] at handled
      cases handled
    | ok result =>
      obtain ⟨ok, seen⟩ := result
      refine ⟨index, calls, change, signals, ignored, ok, seen, there, resolved, ?_⟩
      rw [resolved] at handled
      cases ok <;> exact congrArg (net.put k) (Option.some.inj handled).symm
  · contradiction

/-- A step is one of the hub. -/
theorem step_hub (selects : net.m_selectionModel.isSome) (head : net.step nodesCacheSize e = some t) :
    (t.m_selectionModel.isSome ∧ t.m_model = net.m_model) ∧
      net.hub.step toModelIndexList (net.event nodesCacheSize e) = some t.hub := by
  obtain ⟨currentIndex, current⟩ := Option.isSome_iff_exists.mp selects
  cases e with
  | setSource index =>
    simp only [step, current] at head
    split at head
    · obtain rfl := Option.some.inj head
      exact ⟨setCurrentIndex_keeps _ _ selects, congrArg some (setCurrentIndex_hub current).symm⟩
    · contradiction
  | setReplica k index =>
    simp only [step] at head
    split at head
    · obtain ⟨replica, there, rfl⟩ := Option.map_eq_some_iff.mp head
      refine ⟨⟨selects, rfl⟩, ?_⟩
      rw [event, Echo.Hub.step, there_hub there, put_hub, SelectingReplica.setCurrentIndex_peer]
      rfl
    · contradiction
  | invoke k =>
    obtain ⟨index, call, calls, signals, ignored, there, rfl⟩ := step_invoke current head
    have selected : (net.put k ⟨index, some ⟨calls, signals, false⟩⟩).m_selectionModel = some currentIndex := current
    refine ⟨setCurrentIndex_keeps _ _ selects, ?_⟩
    rw [setCurrentIndex_hub selected, put_hub]
    exact Echo.step_readHub (there_hub there)
  | receive k m_rootItem =>
    obtain ⟨index, calls, change, signals, ignored, ok, seen, there, resolved, rfl⟩ := step_receive head
    refine ⟨⟨selects, rfl⟩, ?_⟩
    rw [event_receive there resolved, put_hub]
    refine (Echo.step_readPeer (there_hub there)).trans ?_
    cases ok with
    | true =>
      rw [if_pos rfl, if_pos rfl, SelectingReplica.setCurrentIndex_peer]
      rfl
    | false => rfl
  | connect k =>
    simp only [step] at head
    split at head
    · rename_i index there
      obtain rfl := Option.some.inj head
      refine ⟨⟨selects, rfl⟩, ?_⟩
      rw [event, Echo.Hub.step, there_hub there, put_hub]
      rfl
    · contradiction
  | disconnect k =>
    obtain ⟨replica, there, rfl⟩ := Option.map_eq_some_iff.mp head
    refine ⟨⟨selects, rfl⟩, ?_⟩
    rw [event, Echo.Hub.step, there_hub there, put_hub]
    rfl

theorem finds_event {k : Nat} {m_rootItem : CacheData V} (head : net.step nodesCacheSize (.receive k m_rootItem) = some t)
    (finds : net.Finds nodesCacheSize k m_rootItem) : net.event nodesCacheSize (.receive k m_rootItem) = .readPeer k true := by
  obtain ⟨index, calls, change, signals, ignored, _, _, there, _⟩ := step_receive head
  obtain ⟨seen, resolved⟩ := finds _ there _ rfl change rfl
  exact event_receive there resolved

theorem arrives_event (head : net.step nodesCacheSize e = some t) (arrives : net.Arrives nodesCacheSize e) :
    (net.event nodesCacheSize e).Arrival := by
  cases e with
  | invoke k => trivial
  | receive k m_rootItem =>
    rw [finds_event head arrives]
    exact rfl
  | setSource | setReplica | connect | disconnect => exact arrives.elim

/-- The runs are those of the hub. -/
theorem exec_hub (allowed : Echo.Event IndexList → Prop) {es : List (SelectionEvent V)} (run : exec (step nodesCacheSize) net es = some t)
    (selects : net.m_selectionModel.isSome) {admits : Selection V → SelectionEvent V → Prop}
    (admitted : Admitted (step nodesCacheSize) admits net es)
    (allows : ∀ {net e t}, admits net e → step nodesCacheSize net e = some t → allowed (net.event nodesCacheSize e)) :
    (t.m_selectionModel.isSome ∧ t.m_model = net.m_model) ∧ ∃ es', es'.length = es.length ∧ (∀ e' ∈ es', allowed e') ∧
      exec (Echo.Hub.step toModelIndexList) net.hub es' = some t.hub :=
  exec_simulates hub (P := fun other : Selection V => other.m_selectionModel.isSome ∧ other.m_model = net.m_model)
    (fun kept admits head => by
      obtain ⟨⟨selects, same⟩, moves⟩ := step_hub kept.1 head
      exact ⟨⟨selects, same.trans kept.2⟩, _, allows admits head, moves⟩)
    run admitted ⟨selects, rfl⟩

/-- The indexes that were last sent are those that are current. -/
structure Linked (m_model : SourceModel V) (net : Selection V) : Prop where
  selects : net.m_selectionModel.isSome
  model : net.m_model = m_model
  touch : ∀ p ∈ net.hub.peers, Echo.InTouch toModelIndexList net.hub.value p

theorem linked_initial (m_model : SourceModel V) (currentIndex : IndexList) (indexes : List IndexList) :
    Linked m_model (initial m_model currentIndex indexes) := by
  refine ⟨rfl, rfl, fun p there => ?_⟩
  rw [hub, initial, List.map_map] at there
  obtain ⟨index, -, rfl⟩ := List.mem_map.mp there
  exact .alone (toModelIndexList_idem index)

theorem Linked.step {m_model : SourceModel V} (linked : Linked m_model net) (head : net.step nodesCacheSize e = some t) :
    Linked m_model t := by
  obtain ⟨⟨selects, same⟩, moves⟩ := step_hub linked.selects head
  exact ⟨selects, same.trans linked.model, Echo.inTouch_step toModelIndexList_idem linked.touch moves⟩

/-- A replica with nothing under way has the current index of the source, unless the last index that came was ignored. -/
theorem current_index_agrees {m_model : SourceModel V} {currentIndex : IndexList} {indexes : List IndexList}
    {es : List (SelectionEvent V)} (run : exec (step nodesCacheSize) (initial m_model currentIndex indexes) es = some t)
    {index : IndexList} (there : ⟨index, some ⟨[], [], false⟩⟩ ∈ t.replicas) :
    ∃ source, t.m_selectionModel = some source ∧ index = toModelIndexList source := by
  have linked := exec_always (fun linked head => linked.step head) run (linked_initial m_model currentIndex indexes)
  obtain ⟨source, selected⟩ := Option.isSome_iff_exists.mp linked.selects
  have agree : index = toModelIndexList (t.m_selectionModel.getD []) :=
    (linked.touch _ (List.mem_map_of_mem there)).quiet _ rfl rfl rfl rfl
  rw [selected] at agree
  exact ⟨source, selected, agree⟩

theorem quiet_hub (quiet : net.Quiet) : net.hub.Quiet := by
  intro p there
  obtain ⟨⟨index, connection⟩, on, rfl⟩ := List.mem_map.mp there
  cases connection with
  | none => rintro _ ⟨⟩
  | some connection =>
    obtain ⟨calls, signals⟩ := quiet _ on connection rfl
    rintro _ ⟨⟩
    exact ⟨calls, List.map_eq_nil_iff.mpr signals⟩

theorem Settled.of_hub {index : IndexList} (selects : net.m_selectionModel.isSome) (settled : net.hub.Settled index) :
    net.Settled index := by
  obtain ⟨source, selected⟩ := Option.isSome_iff_exists.mp selects
  refine ⟨?_, ?_⟩
  · have value : net.m_selectionModel.getD [] = index := settled.1
    rw [selected] at value ⊢
    exact congrArg some value
  · rintro ⟨current, _⟩ there connection rfl
    obtain ⟨calls, signals, ignored⟩ := connection
    obtain ⟨same, link⟩ := settled.2 _ (List.mem_map_of_mem there) _ rfl
    injection link with up down behind
    obtain rfl := up
    obtain rfl := List.map_eq_nil_iff.mp down
    obtain rfl := behind
    exact ⟨same, rfl⟩

theorem Settled.hub {index : IndexList} (settled : net.Settled index) : net.hub.Settled index := by
  refine ⟨?_, ?_⟩
  · rw [Selection.hub, settled.1]
    rfl
  · intro p there
    obtain ⟨⟨current, connection⟩, on, rfl⟩ := List.mem_map.mp there
    cases connection with
    | none => rintro _ ⟨⟩
    | some connection =>
      obtain ⟨same, rfl⟩ := settled.2 _ on connection rfl
      rintro _ ⟨⟩
      exact ⟨same, rfl⟩

theorem links_hub : net.hub.links = net.connections := by
  rw [Echo.Hub.links, hub, List.countP_map, connections]
  refine List.countP_congr fun replica _ => ?_
  exact iff_of_eq (congrArg (· = true) Option.isSome_map)

/-- A cache with the items down to an index. -/
def holding (V : Type) (nodesCacheSize : Nat) : IndexList → CacheData V
  | [] => .new nodesCacheSize
  | index :: rest =>
    ⟨{ ItemData.empty with columnCount := index.column + 1, rowCount := index.row + 1 },
      ⟨[(index.row, holding V nodesCacheSize rest)], nodesCacheSize⟩⟩

theorem holding_finds (isRoot : Bool) (list : IndexList) :
    ∃ seen, (holding V nodesCacheSize list).resolve nodesCacheSize false isRoot list = .ok (true, seen) := by
  induction list generalizing isRoot with
  | nil => exact ⟨_, rfl⟩
  | cons index rest ih =>
    have found : (holding V nodesCacheSize (index :: rest)).children.find? index.row = some (holding V nodesCacheSize rest) := by
      simp [holding, LruCache.find?]
    have ensured (ensures : Bool) : (holding V nodesCacheSize (index :: rest)).ensureWhen nodesCacheSize ensures index.row =
        .ok (holding V nodesCacheSize (index :: rest)) := by
      rw [CacheData.ensureWhen, CacheData.ensureChildren, LruCache.contains, found]
      exact ite_self _
    have inside : index.row < (holding V nodesCacheSize (index :: rest)).item.rowCount ∧
        index.column < (holding V nodesCacheSize (index :: rest)).item.columnCount :=
      ⟨Nat.lt_succ_self _, Nat.lt_succ_self _⟩
    rw [CacheData.resolve, ensured, ok_bind, if_pos inside, ensured, ok_bind]
    cases rest with
    | nil => exact ⟨_, rfl⟩
    | cons next rest =>
      obtain ⟨seen, resolved⟩ := ih false
      dsimp only
      rw [found]
      dsimp only
      rw [resolved]
      exact ⟨_, rfl⟩

/-- What is under way can arrive, a call if its index is one of the source. -/
theorem arrives_of_under_way {k : Nat} {index : IndexList} {connection : SelectionConnection} (selects : net.m_selectionModel.isSome)
    (there : net.replicas[k]? = some ⟨index, some connection⟩) (under_way : connection.calls ≠ [] ∨ connection.signals ≠ [])
    (valid : ∀ call ∈ connection.calls, net.m_model.HasPath [] call) :
    ∃ e t, net.Arrives nodesCacheSize e ∧ net.step nodesCacheSize e = some t := by
  obtain ⟨source, selected⟩ := Option.isSome_iff_exists.mp selects
  obtain ⟨calls, signals, ignored⟩ := connection
  rcases under_way with nonempty | nonempty
  · obtain ⟨call, calls, rfl⟩ := List.exists_cons_of_ne_nil nonempty
    refine ⟨.invoke k, (net.put k ⟨index, some ⟨calls, signals, false⟩⟩).setCurrentIndex call source, trivial, ?_⟩
    have resolved : net.m_model.toQModelIndex call = .ok call := toQModelIndex_ok.mpr ⟨valid call (List.mem_cons_self ..), rfl⟩
    rw [step, there]
    dsimp only
    rw [replicaSetCurrentIndex, show (net.put k ⟨index, some ⟨calls, signals, false⟩⟩).m_selectionModel = some source from selected]
    dsimp only
    rw [show (net.put k ⟨index, some ⟨calls, signals, false⟩⟩).m_model = net.m_model from rfl, resolved]
    rfl
  · obtain ⟨change, signals, rfl⟩ := List.exists_cons_of_ne_nil nonempty
    obtain ⟨seen, finds⟩ : ∃ seen, (holding V nodesCacheSize change.current).toQModelIndex nodesCacheSize change.current =
        .ok (true, seen) := holding_finds true change.current
    refine ⟨.receive k (holding V nodesCacheSize change.current),
      net.put k (SelectingReplica.setCurrentIndex change.current ⟨index, some ⟨calls, signals, false⟩⟩), ?_, ?_⟩
    · rintro replica at_k connection on first head
      obtain rfl := Option.some.inj (there.symm.trans at_k)
      obtain rfl := Option.some.inj on
      obtain rfl := Option.some.inj head
      exact ⟨seen, finds⟩
    · rw [step, there]
      dsimp only
      rw [onCurrentChanged, finds]
      rfl

theorem under_way_of_not_quiet (busy : ¬ net.Quiet) : ∃ (k : Nat) (index : IndexList) (connection : SelectionConnection),
    net.replicas[k]? = some ⟨index, some connection⟩ ∧ (connection.calls ≠ [] ∨ connection.signals ≠ []) := by
  by_contra none
  refine busy fun replica there connection on => ?_
  obtain ⟨k, at_k⟩ := List.mem_iff_getElem?.mp there
  obtain ⟨index, _⟩ := replica
  obtain rfl := on
  by_contra under_way
  exact none ⟨k, index, connection, at_k, not_and_or.mp under_way⟩

theorem sets_event {index : IndexList} (sets : net.Sets index e) (head : net.step nodesCacheSize e = some t) :
    net.hub.Sets index (net.event nodesCacheSize e) ∧ net.m_model.HasPath [] index := by
  cases e with
  | setSource other =>
    obtain rfl := sets
    simp only [step] at head
    split at head
    · split at head
      · rename_i valid
        exact ⟨rfl, valid⟩
      · contradiction
    · contradiction
  | setReplica k other =>
    obtain ⟨rfl, current, connection, there⟩ := sets
    simp only [step] at head
    split at head
    · rename_i valid
      exact ⟨⟨rfl, current, ⟨connection.calls, connection.signals.map CurrentChange.current, connection.ignored⟩, there_hub there⟩, valid⟩
    · contradiction
  | invoke | receive | connect | disconnect => exact sets.elim

/-- Only indexes of the source are under way. -/
structure Valid (m_model : SourceModel V) (net : Selection V) : Prop extends Linked m_model net where
  carries : ∀ p ∈ net.hub.peers, Echo.Carries (m_model.HasPath []) p

theorem valid_initial (m_model : SourceModel V) (currentIndex : IndexList) (indexes : List IndexList) :
    Valid m_model (initial m_model currentIndex indexes) := by
  refine ⟨linked_initial m_model currentIndex indexes, fun p there => ?_⟩
  rw [hub, initial, List.map_map] at there
  obtain ⟨index, -, rfl⟩ := List.mem_map.mp there
  rintro _ ⟨⟩

theorem Valid.step {m_model : SourceModel V} (valid : Valid m_model net) (first : m_model.FirstColumn)
    (head : net.step nodesCacheSize e = some t) : Valid m_model t := by
  have within : (net.event nodesCacheSize e).Within toModelIndexList (m_model.HasPath []) := by
    cases e with
    | setSource index =>
      simp only [Selection.step] at head
      split at head
      · split at head
        · rename_i path
          exact valid.model ▸ path
        · contradiction
      · contradiction
    | setReplica k index =>
      simp only [Selection.step] at head
      split at head
      · rename_i path
        rw [valid.model] at path
        change m_model.HasPath [] (toModelIndexList index)
        rw [first index path]
        exact path
      · contradiction
    | invoke | receive | connect | disconnect => trivial
  refine ⟨valid.toLinked.step head, Echo.carries_step (fun index path => ?_) valid.carries within (step_hub valid.selects head).2⟩
  rw [first index path]
  exact path

theorem Valid.sound {m_model : SourceModel V} (valid : Valid m_model net) (first : m_model.FirstColumn) :
    net.hub.Sound toModelIndexList :=
  ⟨valid.touch, fun p there link on index under_way => first index (valid.carries p there link on index under_way)⟩

/-- A replica whose connection has two changes under way. -/
def Crossed (k : Nat) (net : Selection V) : Prop := ∃ p, net.hub.peers[k]? = some p ∧ 2 ≤ p.tension net.hub.value

theorem Crossed.under_way {k : Nat} (crossed : net.Crossed k) : ∃ index connection,
    net.replicas[k]? = some ⟨index, some connection⟩ ∧ (connection.calls ≠ [] ∨ connection.signals ≠ []) := by
  obtain ⟨p, there, twice⟩ := crossed
  rw [get_hub] at there
  obtain ⟨⟨index, connection⟩, at_k, rfl⟩ := Option.map_eq_some_iff.mp there
  cases connection with
  | none => exact absurd twice (Nat.not_succ_le_zero 1)
  | some connection =>
    have under_way := Echo.under_way_of_tension (Nat.ne_of_gt (Nat.lt_of_lt_of_le Nat.zero_lt_two twice))
    exact ⟨index, connection, at_k, under_way.imp id (mt List.map_eq_nil_iff.mpr)⟩

theorem Crossed.arrives {m_model : SourceModel V} {k : Nat} (crossed : net.Crossed k) (valid : Valid m_model net) (nodesCacheSize : Nat) :
    ∃ e t, net.Arrives nodesCacheSize e ∧ net.step nodesCacheSize e = some t := by
  obtain ⟨index, connection, there, under_way⟩ := crossed.under_way
  refine arrives_of_under_way valid.selects there under_way fun call on => ?_
  rw [valid.model]
  exact valid.carries _ (List.mem_map_of_mem (List.mem_of_getElem? there)) _ rfl call (List.mem_append_left _ on)

/-- A call or a signal arrives; the signals of the replica are about indexes that it finds. -/
def Delivers (nodesCacheSize k : Nat) (net : Selection V) : SelectionEvent V → Prop
  | .invoke _ => True
  | .receive j m_rootItem => j = k → net.Finds nodesCacheSize j m_rootItem
  | _ => False

theorem delivers_event {k : Nat} (head : net.step nodesCacheSize e = some t) (delivers : net.Delivers nodesCacheSize k e) :
    (net.event nodesCacheSize e).Delivery ∧ net.event nodesCacheSize e ≠ .readPeer k false := by
  cases e with
  | invoke j => exact ⟨trivial, by rintro ⟨⟩⟩
  | receive j m_rootItem =>
    refine ⟨trivial, fun skipped => ?_⟩
    obtain ⟨rfl, -⟩ := Echo.Event.readPeer.inj skipped
    rw [finds_event head (delivers rfl)] at skipped
    cases skipped
  | setSource | setReplica | connect | disconnect => exact delivers.elim

theorem Crossed.run {m_model : SourceModel V} {k : Nat} {es : List (SelectionEvent V)} (crossed : net.Crossed k)
    (valid : Valid m_model net) (first : m_model.FirstColumn)
    (delivers : Admitted (step nodesCacheSize) (Delivers nodesCacheSize k) net es)
    (run : exec (step nodesCacheSize) net es = some t) : Valid m_model t ∧ t.Crossed k := by
  obtain ⟨p, there, twice⟩ := crossed
  obtain ⟨-, es', -, deliveries, hub_run⟩ :=
    exec_hub (fun e => e.Delivery ∧ e ≠ .readPeer k false) run valid.selects delivers fun delivers head => delivers_event head delivers
  exact ⟨exec_always (fun valid head => valid.step first head) run valid,
    Echo.restless toModelIndexList_idem (valid.sound first) there twice deliveries hub_run⟩

end Selection
end Simulation
section Example

/-- Two rows in one column. -/
def exampleColumn : SourceModel Nat where
  rowCount index := if index = [] then 2 else 0
  columnCount _ := 1
  hasChildren index := index = []
  flags _ := 0
  data _ _ := 0
  headerData _ _ _ := 0
  setData _ _ _ := true

theorem exampleColumn_first : exampleColumn.FirstColumn := by
  intro index path
  cases index with
  | nil => rfl
  | cons top rest =>
    cases rest with
    | nil => rfl
    | cons below rest =>
      have none : exampleColumn.hasIndex below [top] = false := rfl
      exact absurd (path.2.1.symm.trans none) Bool.false_ne_true.symm

def firstRow : IndexList := [⟨0, 0⟩]
def secondRow : IndexList := [⟨1, 0⟩]

/-- A replica, with a source whose current index is that of a row. -/
def pointing (source index : IndexList) (connection : SelectionConnection) : Selection Nat :=
  ⟨exampleColumn, some source, [⟨index, some connection⟩]⟩

def exampleStart : Selection Nat := Selection.initial exampleColumn [] [[]]

def showSecond : SelectionEvent Nat := .receive 0 (Selection.holding Nat 1000 secondRow)

/-- A change of the source comes to the replica and back. -/
def pointed : List (SelectionEvent Nat) := [.connect 0, .setSource secondRow, showSecond, .invoke 0]

theorem pointed_run : exec (Selection.step 1000) exampleStart pointed = some (pointing secondRow secondRow ⟨[], [], false⟩) := rfl

theorem current_index_agrees_example :
    ∃ source, (pointing secondRow secondRow ⟨[], [], false⟩).m_selectionModel = some source ∧ secondRow = toModelIndexList source :=
  Selection.current_index_agrees pointed_run (List.mem_singleton_self _)

theorem showSecond_finds {index : IndexList} {calls : List IndexList} {previous : IndexList} {signals : List CurrentChange}
    {ignored : Bool} : (pointing source index ⟨calls, ⟨secondRow, previous⟩ :: signals, ignored⟩).Arrives 1000 showSecond := by
  rintro replica there connection on change head
  obtain rfl := Option.some.inj there
  obtain rfl := Option.some.inj on
  obtain rfl := Option.some.inj head
  exact Selection.holding_finds true secondRow

theorem pointing_settled (index : IndexList) : (pointing index index ⟨[], [], false⟩).Settled index := by
  refine ⟨rfl, fun replica there connection on => ?_⟩
  obtain rfl := List.mem_singleton.mp there
  obtain rfl := Option.some.inj on
  exact ⟨rfl, rfl⟩

theorem pointed_arrives : Admitted (Selection.step 1000) (Selection.Arrives 1000) (pointing secondRow [] ⟨[], [⟨secondRow, []⟩], false⟩)
    [showSecond, .invoke 0] :=
  .cons showSecond_finds rfl ⟨trivial, fun _ _ => trivial⟩

/-- The source takes the second row, and the replica the first one. -/
def crossing : List (SelectionEvent Nat) := [.connect 0, .setSource secondRow, .setReplica 0 firstRow]

theorem crossing_run : exec (Selection.step 1000) exampleStart crossing =
    some (pointing secondRow firstRow ⟨[firstRow], [⟨secondRow, []⟩], true⟩) := rfl

end Example
end RemoteObjects.ItemModel
