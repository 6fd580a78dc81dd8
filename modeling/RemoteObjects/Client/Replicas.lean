import RemoteObjects.Host.Sources
import RemoteObjects.Node.Network

/-! A replica with the replicas in its pointer properties, and the connections of its node
to hosts that may announce its source. -/
namespace RemoteObjects.Client
open Host (Name Kind)
open Node (Signature ReplicaState checkSignatures)

section Replicas
variable {Conn : Type}

/-- `QConnectedReplicaImplementation`, of a `QRemoteObjectReplica` or of the replica of an item
model. `wasValid`, `initialised` and `initFrom` (the connection of the last init packet since
the replica was attached) only record what happened. -/
structure Replica (Conn : Type) where
  kind : Kind
  name : Name
  objectSignature : Signature
  hasMetaObject : Bool
  connectionToSource : Option Conn
  state : ReplicaState
  wasValid : Bool
  initialised : Bool
  initFrom : Option Conn
deriving DecidableEq

/-- The replicas in the pointer properties of a replica, by property. -/
abbrev Children (Conn : Type) := Forest (Replica Conn)

namespace Replica

def new (kind : Kind) (name : Name) (objectSignature : Signature) (hasMetaObject : Bool) : Replica Conn where
  kind := kind
  name := name
  objectSignature := objectSignature
  hasMetaObject := hasMetaObject
  connectionToSource := none
  state := if hasMetaObject then .default else .uninitialized
  wasValid := false
  initialised := false
  initFrom := none

/-- `acquireDynamic` or `acquireModel`. -/
def acquired (kind : Kind) (name : Name) : Replica Conn := .new kind name [] (decide (kind = .MODEL))

variable (replica : Replica Conn)

/-- The state only goes up, unless it is `Suspect`. -/
def setState (state : ReplicaState) : Replica Conn :=
  if replica.state ≠ .suspect ∧ replica.state.ctorIdx ≥ state.ctorIdx then replica
  else { replica with state, wasValid := replica.wasValid || decide (state = .valid) }

def isInitialized : Bool :=
  decide (replica.state.ctorIdx > ReplicaState.default.ctorIdx) && decide (replica.state ≠ .signatureMismatch)

/-- The assertion of `initialize`, and what it leaves. -/
def initializeProperties : Bool × Replica Conn :=
  (decide (replica.state.ctorIdx < ReplicaState.valid.ctorIdx) || decide (replica.state = .suspect),
    { replica.setState .valid with initialised := true })

def setDynamicProperties : Bool × Replica Conn :=
  (decide (replica.state.ctorIdx < ReplicaState.valid.ctorIdx), { replica.setState .valid with initialised := true })

def setDynamicMetaObject : Replica Conn := { replica with hasMetaObject := true }

/-- The end of `handlePointerToQObjectProperty`. -/
def initChild : Bool × Replica Conn :=
  if replica.hasMetaObject then replica.initializeProperties
  else replica.setDynamicMetaObject.setDynamicProperties

/-- A child without a connection takes that of its parent. -/
def connectLike (parent : Replica Conn) : Replica Conn :=
  { replica with connectionToSource := replica.connectionToSource.or parent.connectionToSource }

/-- The replica loses its source. -/
def disconnected : Replica Conn := { replica with connectionToSource := none }.setState .suspect

end Replica

/-- What a `QRO_` tells of a child. -/
structure ChildInfo where
  name : Name
  kind : Kind
  isNull : Bool
deriving DecidableEq

/-- The pointer properties in a packet, with those in their parameters below. -/
abbrev Infos := Forest ChildInfo

/-- The child that a property of a packet is about: a new one, or the one that is stored. -/
def childFor (replica : Replica Conn) (stored : Children Conn) (replicas : Name → Bool) (index : Nat) (info : ChildInfo) :
    Option (Replica Conn × Children Conn) :=
  if replicas info.name = false ∨ replica.isInitialized then some (.acquired info.kind info.name, .nil)
  else (stored.find [index]).filter fun node => decide (node.1.name = info.name)

/-- `handlePointerToQObjectProperties`: the new children, the names known to the node and
whether all assertions held, or nothing where a child is used that was never stored. -/
def handlePointers (replica : Replica Conn) (stored : Children Conn) :
    Infos → (Name → Bool) → Option (Children Conn × (Name → Bool) × Bool)
  | .nil, replicas => some (.nil, replicas, true)
  | .cons index info below rest, replicas =>
    if info.isNull then handlePointers replica stored rest (Function.update replicas info.name false)
    else do
      let (child, inner) ← childFor replica stored replicas index info
      let child := child.connectLike replica
      let (children, replicas, inside) ← handlePointers child inner below (Function.update replicas info.name true)
      let (held, child) := child.initChild
      let (others, replicas, outside) ← handlePointers replica stored rest replicas
      some (.cons index child children others, replicas, held && inside && outside)

/-- The recursion of `setDisconnected` reaches replicas, but not item models. -/
def disconnectChildren : Children Conn → Children Conn × Bool
  | .nil => (.nil, true)
  | .cons index child below rest =>
    let (others, outside) := disconnectChildren rest
    match child.kind with
    | .CLASS =>
      let (children, inside) := disconnectChildren below
      (.cons index child.disconnected children others, child.connectionToSource.isSome && inside && outside)
    | .MODEL => (.cons index child below others, outside)

end Replicas

section Client
variable (Conn : Type)

/-- The device of a connection, made for a URL or external. `announced` is what its host
announced last, `requests` the `AddObject` packets it has not answered (dynamic or not). -/
structure Device where
  external : Bool
  m_isClosing : Bool
  isOpen : Bool
  hasSource : Bool
  announced : Option Signature
  requests : List Bool
deriving DecidableEq

/-- Whether the node is told when the device goes, and the device brought the source. The
signal is one of devices for a URL only. -/
def Device.shouldReconnect (device : Device) : Bool := device.hasSource && !device.external

/-- `QRemoteObjectNodePrivate` with one replica, or none yet. `replicas` are the names of the children it
acquired; `assertions` tells whether all held so far. -/
structure NodePrivate where
  devices : Conn → Device
  connectedSource : Option (Conn × Signature)
  replicas : Name → Bool
  replica : Option (Replica Conn × Children Conn)
  assertions : Bool

inductive Event
  | connect (connection : Conn)
  | lost (connection : Conn)
  | acquire (isDynamic : Bool) (name : Name) (signature : Signature) (children : Forest (Kind × Name))
  | objectList (connection : Conn) (signature : Signature)
  | removeObject (connection : Conn)
  | init (connection : Conn) (infos : Infos)
  | initDynamic (connection : Conn) (infos : Infos)
  | unanswered (connection : Conn)
  | propertyChange (path : List Nat) (index : Nat) (info : ChildInfo) (below : Infos)

end Client

variable {Conn : Type} [DecidableEq Conn]

namespace NodePrivate
variable (s : NodePrivate Conn)

def initial (external : Conn → Bool) : NodePrivate Conn where
  devices connection := ⟨external connection, false, false, false, none, []⟩
  connectedSource := none
  replicas _ := false
  replica := none
  assertions := true

def setDevice (connection : Conn) (device : Device) : NodePrivate Conn :=
  { s with devices := Function.update s.devices connection device }

/-- `requestRemoteObjectSource`, over a device that may be closed. -/
def request (connection : Conn) (isDynamic : Bool) : NodePrivate Conn :=
  let device := s.devices connection
  if device.isOpen then s.setDevice connection { device with requests := device.requests ++ [isDynamic] } else s

/-- For a replica without a connection. -/
def handleReplicaConnection (replica : Replica Conn) (children : Children Conn) : NodePrivate Conn :=
  match s.connectedSource with
  | some (connection, signature) =>
    if checkSignatures replica.objectSignature signature then
      let attached := { replica with connectionToSource := some connection, initFrom := none }
      { s with replica := some (attached, children) }.request connection (!replica.hasMetaObject)
    else { s with replica := some (replica.setState .signatureMismatch, children) }
  | none => { s with replica := some (replica, children) }

/-- The end of a connection, with `onShouldReconnect`. -/
def lost (connection : Conn) : NodePrivate Conn :=
  let device := s.devices connection
  let closed := { device with m_isClosing := device.external, isOpen := false, announced := none, requests := [] }
  if device.shouldReconnect then
    let s := { s.setDevice connection { closed with hasSource := false } with connectedSource := none }
    match s.replica with
    | some (replica, children) =>
      if replica.connectionToSource.isSome then
        let (children, asserted) := disconnectChildren children
        { s with replica := some (replica.disconnected, children), assertions := s.assertions && asserted }
      else s
    | none => s
  else s.setDevice connection closed

/-- The first connection that announces a source owns it. -/
def announce (connection : Conn) (signature : Signature) : NodePrivate Conn :=
  let device := s.devices connection
  match s.connectedSource with
  | some _ => s.setDevice connection { device with announced := some signature }
  | none =>
    { s.setDevice connection { device with hasSource := true, announced := some signature } with
      connectedSource := some (connection, signature) }

def objectList (connection : Conn) (signature : Signature) : NodePrivate Conn :=
  let s := s.announce connection signature
  match s.replica with
  | some (replica, children) =>
    if replica.connectionToSource = none then s.handleReplicaConnection replica children else s
  | none => s

def removeObject (connection : Conn) : NodePrivate Conn :=
  let device := s.devices connection
  let s := { s.setDevice connection { device with hasSource := false, announced := none } with connectedSource := none }
  match s.replica with
  | some (replica, children) =>
    if replica.connectionToSource.isSome then { s with replica := some (replica.disconnected, children) } else s
  | none => s

/-- The children that an acquired replica gets from its own class. -/
def typed : Forest (Kind × Name) → Children Conn
  | .nil => .nil
  | .cons index (kind, name) below rest => .cons index (.new kind name [] true) (typed below) (typed rest)

def acquire (isDynamic : Bool) (name : Name) (signature : Signature) (children : Forest (Kind × Name)) : NodePrivate Conn :=
  if isDynamic then s.handleReplicaConnection (.new .CLASS name [] false) .nil
  else
    let replicas := fun known => s.replicas known || children.nodes.any fun node => decide (node.2.2 = known)
    { s with replicas }.handleReplicaConnection (.new .CLASS name signature true) (typed children)

end NodePrivate

/-- The replica at a path of properties, with its children. -/
def replicaAt (root : Replica Conn) (children : Children Conn) (path : List Nat) : Option (Replica Conn × Children Conn) :=
  if path = [] then some (root, children) else children.find path

/-- One step of the client, or nothing where it cannot happen or would crash. An init packet
answers a request. -/
def step (s : NodePrivate Conn) : Event Conn → Option (NodePrivate Conn)
  | .connect connection =>
    let device := s.devices connection
    if device.isOpen || device.m_isClosing then none else some (s.setDevice connection { device with isOpen := true })
  | .lost connection => if (s.devices connection).isOpen then some (s.lost connection) else none
  | .acquire isDynamic name signature children =>
    if s.replica.isSome then none else some (s.acquire isDynamic name signature children)
  | .objectList connection signature =>
    if (s.devices connection).isOpen then some (s.objectList connection signature) else none
  | .removeObject connection => if (s.devices connection).isOpen then some (s.removeObject connection) else none
  | .init connection infos =>
    let device := s.devices connection
    match device.requests, s.replica with
    | false :: requests, some (replica, stored) => do
      let (children, replicas, inside) ← handlePointers replica stored infos s.replicas
      let (held, replica) := replica.initializeProperties
      some { s.setDevice connection { device with requests } with
        replicas
        replica := some ({ replica with initFrom := some connection }, children)
        assertions := s.assertions && held && inside }
    | _, _ => none
  | .initDynamic connection infos =>
    let device := s.devices connection
    match device.requests, s.replica with
    | true :: requests, some (replica, stored) => do
      let replica := replica.setDynamicMetaObject
      let (children, replicas, inside) ← handlePointers replica stored infos s.replicas
      let (held, replica) := replica.setDynamicProperties
      some { s.setDevice connection { device with requests } with
        replicas
        replica := some ({ replica with initFrom := some connection }, children)
        assertions := s.assertions && held && inside }
    | _, _ => none
  | .unanswered connection =>
    let device := s.devices connection
    match device.requests with
    | _ :: requests => some (s.setDevice connection { device with requests })
    | [] => none
  | .propertyChange path index info below => do
    let (root, children) ← s.replica
    let (replica, stored) ← replicaAt root children path
    let (changed, replicas, inside) ← handlePointers replica stored (.cons index info below .nil) s.replicas
    let update (stored : Children Conn) := changed.append (stored.without index)
    let children :=
      if path = [] then update children else children.modify (fun replica stored => (replica, update stored)) path
    if replica.hasMetaObject then
      some { s with replicas, replica := some (root, children), assertions := s.assertions && inside }
    else none

end RemoteObjects.Client
