import Mathlib.Logic.Function.Basic
import RemoteObjects.Node.Interface
import RemoteObjects.Transition

/-! One object name between a host and its clients: the root source with its listeners,
the replica of each client, and the packets for that name in the two directions of each
connection. -/
namespace RemoteObjects.Node

abbrev Signature := List UInt8

/-- An empty signature is that of a dynamic object or an item model. -/
def checkSignatures (a b : Signature) : Bool := a.isEmpty || b.isEmpty || a == b

/-- Where an init packet comes from: which root source, the request of which replica, and
how many signals the source had emitted. -/
structure Stamp where
  root : Nat
  attach : Nat
  emitted : Nat
deriving DecidableEq

/-- Packets from a client. A replica attaches under its own number. -/
inductive Up
  | addObject (isDynamic : Bool) (attach : Nat)
  | removeObject
deriving DecidableEq

/-- Packets from the host. -/
inductive Down (T C : Type)
  | objectList (signature : Signature)
  | init (stamp : Stamp) (values : List (Variant T C))
  | initDynamic (stamp : Stamp) (values : List (Variant T C))
  | removeObject
  | propertyChange (property : Nat) (value : Variant T C)
  | invoke (signal : Nat) (args : List (Variant T C)) (property : Option Nat)
deriving DecidableEq

section Host

/-- A signal of the source, the packets it was sent as and the value of the property it
announces. -/
structure Emission (T C : Type) where
  signal : Nat
  args : List (Variant T C)
  value : Option (Variant T C)
  payload : List (Down T C)

structure RootSource (Conn T C : Type) where
  id : Nat
  signature : Signature
  listeners : List Conn
  isDynamic : Bool
  sentTypes : List T
  emitted : List (Emission T C)

namespace RootSource
variable {Conn T C : Type} [DecidableEq T] (api : Interface T C) (root : RootSource Conn T C)

/-- A gadget in a `QVariant` is sent with its type, once for all dynamic listeners. -/
def Wraps (metaType : T) : Variant T C → Prop
  | .bare type _ => root.isDynamic ∧ api.kind metaType = .variant ∧ api.kind type = .gadget ∧
      type ∉ root.sentTypes
  | _ => False

instance (metaType : T) : (v : Variant T C) → Decidable (root.Wraps api metaType v)
  | .bare _ _ => inferInstanceAs (Decidable (_ ∧ _ ∧ _ ∧ _))
  | .container _ _ | .qro _ _ => .isFalse not_false

def serializeProperty (metaType : T) (value : Variant T C) : Variant T C × RootSource Conn T C :=
  match value with
  | .bare type content =>
    if root.Wraps api metaType value then
      (.qro type content, { root with sentTypes := type :: root.sentTypes })
    else (api.encodeVariant value, root)
  | value => (api.encodeVariant value, root)

def serializeProperties (root : RootSource Conn T C) : List (T × Variant T C) →
    List (Variant T C) × RootSource Conn T C
  | [] => ([], root)
  | (metaType, value) :: properties =>
    let (first, root) := root.serializeProperty api metaType value
    let (others, root) := serializeProperties root properties
    (first :: others, root)

/-- The properties as they are read from the object. -/
def read (values : Nat → Variant T C) : List (T × Variant T C) :=
  api.properties.mapIdx fun i property => (property.metaType, values i)

/-- The state in which the init packet for a new listener is serialized. The definition
in an `InitDynamicPacket` sends the types of the interface anew. -/
def attached (connection : Conn) (isDynamic : Bool) : RootSource Conn T C where
  id := root.id
  signature := root.signature
  listeners := root.listeners ++ [connection]
  isDynamic := root.isDynamic || isDynamic
  sentTypes := if isDynamic then api.definedTypes else root.sentTypes
  emitted := root.emitted

def addListener (values : Nat → Variant T C) (connection : Conn) (isDynamic : Bool) (attach : Nat) :
    Down T C × RootSource Conn T C :=
  let (properties, root) := serializeProperties api (root.attached api connection isDynamic) (read api values)
  let stamp : Stamp := ⟨root.id, attach, root.emitted.length⟩
  if isDynamic then (.initDynamic stamp properties, root) else (.init stamp properties, root)

def removeListener [DecidableEq Conn] (connection : Conn) : RootSource Conn T C :=
  { root with listeners := root.listeners.filter (· ≠ connection) }

/-- The packets for a signal, all in one payload. -/
def serializeSignal (values : Nat → Variant T C) (signal : Nat) (args : List (Variant T C)) :
    List (Down T C) × RootSource Conn T C :=
  let args := args.map api.encodeVariant
  match api.announces signal with
  | some i =>
    match api.metaType i with
    | some metaType =>
      let (value, root) := root.serializeProperty api metaType (values i)
      ([.propertyChange i value, .invoke signal args (some i)], root)
    | none => ([.invoke signal args (some i)], root)
  | none => ([.invoke signal args none], root)

/-- Nothing is serialized for a source without listeners. -/
def handleMetaCall (values : Nat → Variant T C) (signal : Nat) (args : List (Variant T C)) :
    List (Down T C) × RootSource Conn T C :=
  let (payload, root) :=
    if root.listeners = [] then ([], root) else root.serializeSignal api values signal args
  let emission : Emission T C := ⟨signal, args, (api.announces signal).map values, payload⟩
  (payload, { root with emitted := root.emitted ++ [emission] })

end RootSource
end Host

section Client

inductive ReplicaState
  | uninitialized | default | valid | suspect | signatureMismatch
deriving DecidableEq

/-- A signal that the replica activates, with the properties as they are stored then. -/
structure Activation (T C : Type) where
  signal : Nat
  args : List (Variant T C)
  storage : List (Variant T C)

/-- The init packet that was processed last, and how many signals had been activated
when it was. -/
structure Initialised where
  stamp : Stamp
  activations : Nat

/-- `QConnectedReplicaImplementation`; `hasMetaObject` is false of a dynamic replica
whose `m_metaObject` is still null. -/
structure ConnectedReplica (T C : Type) where
  hasMetaObject : Bool
  objectSignature : Signature
  connected : Bool
  state : ReplicaState
  storage : List (Variant T C)
  number : Nat
  activated : List (Activation T C)
  init : Option Initialised

namespace ConnectedReplica
variable {T C : Type} (api : Interface T C) (replica : ConnectedReplica T C)

def new (isDynamic : Bool) (signature : Signature) (number : Nat) : ConnectedReplica T C where
  hasMetaObject := !isDynamic
  objectSignature := if isDynamic then [] else signature
  connected := false
  state := if isDynamic then .uninitialized else .default
  storage := if isDynamic then [] else api.defaults
  number := number
  activated := []
  init := none

/-- The state only goes up, unless it is `Suspect`. -/
def setState (state : ReplicaState) : ConnectedReplica T C :=
  if replica.state ≠ .suspect ∧ replica.state.ctorIdx ≥ state.ctorIdx then replica
  else { replica with state }

def needsDynamicInitialization : Bool := !replica.hasMetaObject

def activate (signal : Nat) (args : List (Variant T C)) : ConnectedReplica T C :=
  { replica with activated := replica.activated ++ [⟨signal, args, replica.storage⟩] }

/-- The notify signals of the given properties, each with its stored value. -/
def notify (replica : ConnectedReplica T C) (properties : List Nat) : ConnectedReplica T C :=
  properties.foldl (fun replica i =>
    match api.notifySignal i with
    | some signal => replica.activate signal (replica.storage[i]?).toList
    | none => replica) replica

/-- The init packet is over. -/
def initialised (stamp : Stamp) : ConnectedReplica T C :=
  { replica with init := some ⟨stamp, replica.activated.length⟩ }

variable [Inhabited C]

def decodeProperty (i : Nat) (value : Variant T C) : Variant T C :=
  match api.metaType i with
  | some metaType => api.decodeVariant value metaType
  | none => value

section Init
variable [DecidableEq T] [DecidableEq C]

/-- The property is sent with another value than is stored. -/
def Changed (values : List (Variant T C)) (i : Nat) : Prop :=
  ∃ old ∈ replica.storage[i]?, ∃ new ∈ values[i]?, ¬ api.Equal old new

instance (values : List (Variant T C)) (i : Nat) : Decidable (replica.Changed api values i) := by
  unfold Changed
  infer_instance

def initialValue (values : List (Variant T C)) (i : Nat) (old : Variant T C) : Variant T C :=
  match values[i]? with
  | some new => if api.Equal old new then old else decodeProperty api i new
  | none => old

/-- `initialize`, or nothing where it would read behind the end of the storage. -/
def initializeProperties (stamp : Stamp) (values : List (Variant T C)) : Option (ConnectedReplica T C) :=
  if values.length ≤ replica.storage.length then
    let changed := (List.range values.length).filter fun i => replica.Changed api values i
    let replica := { replica with storage := replica.storage.mapIdx (initialValue api values) }
    some ((notify api (replica.setState .valid) changed).initialised stamp)
  else none

end Init

/-- `setDynamicMetaObject` and `setDynamicProperties`. -/
def setDynamic (stamp : Stamp) (values : List (Variant T C)) : ConnectedReplica T C :=
  let replica := { replica with
    hasMetaObject := true
    storage := values.mapIdx (decodeProperty api) }
  (notify api (replica.setState .valid) (List.range api.properties.length)).initialised stamp

/-- A gadget that was sent along with its type is taken out again. -/
def setProperty (i : Nat) (value : Variant T C) : ConnectedReplica T C :=
  let value := match value, (api.metaType i).map api.kind with
    | .qro type content, some .variant => .bare type content
    | value, _ => value
  { replica with storage := replica.storage.set i (decodeProperty api i value) }

/-- The arguments of a parameter of type `QVariant` are passed on as they are. -/
def receivedArgs (signal : Nat) (args : List (Variant T C)) : List (Variant T C) :=
  List.zipWith (fun arg metaType =>
    match api.kind metaType with
    | .variant => arg
    | _ => api.decodeVariant arg metaType)
    args ((api.signals[signal]?).getD [])

/-- Without arguments, the announced property is the argument. -/
def invoke (signal : Nat) (args : List (Variant T C)) (property : Option Nat) : ConnectedReplica T C :=
  if args = [] then
    replica.activate signal (property.bind fun i => replica.storage[i]?).toList
  else replica.activate signal (receivedArgs api signal args)

end ConnectedReplica

structure Link (T C : Type) where
  isOpen : Bool
  up : List Up
  down : List (Down T C)
  connectedSource : Option Signature
  replica : Option (ConnectedReplica T C)
  acquired : Nat

namespace Link
variable {T C : Type} (api : Interface T C) (link : Link T C)

def closed : Link T C := ⟨false, [], [], none, none, 0⟩

def handleReplicaConnection (replica : ConnectedReplica T C) (signature : Signature) : Link T C :=
  if checkSignatures replica.objectSignature signature then
    { link with
      replica := some { replica with connected := true }
      up := link.up ++ [.addObject replica.needsDynamicInitialization replica.number] }
  else { link with replica := some (replica.setState .signatureMismatch) }

/-- A replica that exists already is shared. -/
def acquire (isDynamic : Bool) (signature : Signature) : Link T C :=
  match link.replica with
  | some _ => link
  | none =>
    let replica := ConnectedReplica.new api isDynamic signature link.acquired
    let link := { link with replica := some replica, acquired := link.acquired + 1 }
    match link.connectedSource with
    | some source => link.handleReplicaConnection replica source
    | none => link

def delete : Link T C :=
  match link.replica with
  | some replica =>
    { link with
      replica := none
      up := if replica.connected then link.up ++ [.removeObject] else link.up }
  | none => link

def readObjectList (signature : Signature) : Link T C :=
  let source := link.connectedSource.getD signature
  let link := { link with connectedSource := some source }
  match link.replica with
  | some replica =>
    if replica.connected then link else link.handleReplicaConnection replica source
  | none => link

def readRemoveObject : Link T C :=
  { link with
    connectedSource := none
    replica := link.replica.map fun replica =>
      if replica.connected then { replica with connected := false }.setState .suspect else replica }

variable [DecidableEq T] [DecidableEq C] [Inhabited C]

/-- `onClientRead`, or nothing where it would follow a null `m_metaObject` or read behind
the end of the storage. -/
def onClientRead : Down T C → Option (Link T C)
  | .objectList signature => some (link.readObjectList signature)
  | .removeObject => some link.readRemoveObject
  | .init stamp values =>
    match link.replica with
    | some replica =>
      (replica.initializeProperties api stamp values).map fun new => { link with replica := some new }
    | none => some link
  | .initDynamic stamp values =>
    some { link with replica := link.replica.map fun replica => replica.setDynamic api stamp values }
  | .propertyChange i value =>
    match link.replica with
    | some replica =>
      if replica.hasMetaObject then some { link with replica := some (replica.setProperty api i value) }
      else none
    | none => some link
  | .invoke signal args property =>
    match link.replica with
    | some replica =>
      if replica.hasMetaObject ∨ args = [] ∧ property = none then
        some { link with replica := some (replica.invoke api signal args property) }
      else none
    | none => some link

end Link
end Client

section Runs
variable {Conn T C : Type}

/-- `unannounced` are the properties written since their notify signal was emitted last. -/
structure Net (Conn T C : Type) where
  root : Option (RootSource Conn T C)
  values : Nat → Variant T C
  unannounced : List Nat
  roots : Nat
  links : Conn → Link T C

inductive Event (Conn T C : Type)
  | connect (connection : Conn)
  | enableRemoting (signature : Signature)
  | disableRemoting
  | write (property : Nat) (value : Variant T C)
  | emit (signal : Nat) (args : List (Variant T C))
  | acquire (connection : Conn) (isDynamic : Bool) (signature : Signature)
  | delete (connection : Conn)
  | serverRead (connection : Conn)
  | clientRead (connection : Conn)

namespace Net
variable (s : Net Conn T C)

def initial (values : Nat → Variant T C) : Net Conn T C := ⟨none, values, [], 0, fun _ => .closed⟩

variable [DecidableEq Conn]

def setLink (connection : Conn) (link : Link T C) : Net Conn T C :=
  { s with links := Function.update s.links connection link }

/-- The packets reach a connection as often as it is in the list. -/
def send (connections : List Conn) (packets : List (Down T C)) : Net Conn T C :=
  { s with links := fun c => { s.links c with
      down := (s.links c).down ++ (List.replicate (connections.count c) packets).flatten } }

/-- To every open connection. -/
def broadcast (packet : Down T C) : Net Conn T C :=
  { s with links := fun c =>
      if (s.links c).isOpen then { s.links c with down := (s.links c).down ++ [packet] } else s.links c }

/-- The handshake with a new connection ends with the list of the host's objects. -/
def connect (connection : Conn) : Net Conn T C :=
  s.setLink connection { s.links connection with
    isOpen := true
    down := (s.links connection).down ++ s.root.toList.map fun root => .objectList root.signature }

variable [DecidableEq T] (api : Interface T C)

def onServerRead (connection : Conn) (packet : Up) (root : RootSource Conn T C) : Net Conn T C :=
  match packet with
  | .addObject isDynamic attach =>
    let (init, root) := root.addListener api s.values connection isDynamic attach
    { s.send [connection] [init] with root := some root }
  | .removeObject => { s with root := some (root.removeListener connection) }

end Net

variable [DecidableEq Conn] [DecidableEq T] [DecidableEq C] [Inhabited C]

def step (api : Interface T C) (s : Net Conn T C) : Event Conn T C → Option (Net Conn T C)
  | .connect c => if (s.links c).isOpen then none else some (s.connect c)
  | .enableRemoting signature =>
    match s.root with
    | some _ => none
    | none =>
      some { s.broadcast (.objectList signature) with
        root := some ⟨s.roots, signature, [], false, [], []⟩
        roots := s.roots + 1 }
  | .disableRemoting =>
    s.root.map fun root => { s.send root.listeners [.removeObject] with root := none }
  | .write i value =>
    if ∃ metaType ∈ api.metaType i, api.Holds metaType value then
      some { s with values := Function.update s.values i value, unannounced := i :: s.unannounced }
    else none
  | .emit signal args =>
    if signal < api.signals.length then
      let s := { s with unannounced := s.unannounced.filter (some · ≠ api.announces signal) }
      match s.root with
      | some root =>
        let (payload, emitting) := root.handleMetaCall api s.values signal args
        some { s.send root.listeners payload with root := some emitting }
      | none => some s
    else none
  | .acquire c isDynamic signature =>
    some (s.setLink c ((s.links c).acquire api isDynamic signature))
  | .delete c => some (s.setLink c (s.links c).delete)
  | .serverRead c =>
    match (s.links c).up with
    | [] => none
    | packet :: up =>
      let s := s.setLink c { s.links c with up }
      match s.root with
      | some root => some (s.onServerRead api c packet root)
      | none => some s
  | .clientRead c =>
    match (s.links c).down with
    | [] => none
    | packet :: down =>
      ({ s.links c with down }.onClientRead api packet).map (s.setLink c)

end Runs
end RemoteObjects.Node
