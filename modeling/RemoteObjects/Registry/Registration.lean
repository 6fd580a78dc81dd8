import RemoteObjects.Registry.Agreement
import RemoteObjects.Registry.Ownership

/-! Hosts that register their sources through replicas of the registry, over connections that are lost and made again. -/
namespace RemoteObjects.Registry.Registration
open Host (Name)
open Node (ReplicaState)
open Registry.Agreement (Request)
open Ownership (Hosts)
open Transition

section Model
variable (Conn Host Url : Type)

/-- `QRemoteObjectRegistry` on a host. -/
structure HostRegistry extends RegistryReplica Url where
  connectionToSource : Option Conn
  hostedSources : List (SourceLocation Url)

/-- `m_sourceRoots` has the type names of the sources that are enabled, `device` is the connection to the registry, as far
as the host knows. -/
structure HostNode where
  m_sourceRoots : Name → Option Name
  registry : Option (HostRegistry Conn Url)
  device : Option Conn

inductive Message
  | objectList
  | registry (packet : Packet Url)

/-- A connection of a host, with its two ends and what is under way. -/
structure Link where
  host : Host
  serverOpen : Bool
  clientOpen : Bool
  listening : Bool
  requests : List (Request Url)
  messages : List (Message Url)

/-- `own` are the sources of the registry host. -/
structure Network where
  registry : RegistryHost Conn Url
  own : Name → Option Name
  hosts : Host → HostNode Conn Url
  links : Conn → Option (Link Host Url)

inductive Event
  | setRegistryUrl (host : Host)
  | enableRemoting (host : Option Host) (name typeName : Name)
  | disableRemoting (host : Option Host) (name : Name)
  | connect (host : Host) (connection : Conn)
  | onServerRead (connection : Conn)
  | onClientRead (connection : Conn)
  | onServerDisconnect (connection : Conn)
  | onShouldReconnect (connection : Conn)

variable {Conn Host Url}

namespace HostRegistry
variable (r : HostRegistry Conn Url)

def new : HostRegistry Conn Url := ⟨⟨.default, fun _ => none⟩, none, []⟩

/-- The entry is sent if the replica knows no other of its name. It does not matter whose that is. -/
def addSource (entry : SourceLocation Url) : HostRegistry Conn Url × List (Slot Url) :=
  if r.hostedSources.any fun hosted => hosted.name = entry.name then (r, [])
  else
    let r := { r with hostedSources := entry :: r.hostedSources }
    if r.state ≠ .valid then (r, [])
    else if (r.sourceLocations entry.name).isSome then (r, [])
    else (r, [.addSource entry])

def removeSource (entry : SourceLocation Url) : HostRegistry Conn Url × List (Slot Url) :=
  if r.hostedSources.any fun hosted => hosted.name = entry.name then
    let r := { r with hostedSources := r.hostedSources.filter fun hosted => hosted.name ≠ entry.name }
    if r.state ≠ .valid then (r, []) else (r, [.removeSource entry])
  else (r, [])

/-- Sources whose names the registry has are forgotten. -/
def pushToRegistryIfNeeded : HostRegistry Conn Url × List (Slot Url) :=
  if r.state ≠ .valid then (r, [])
  else
    let hostedSources := r.hostedSources.filter fun hosted => (r.sourceLocations hosted.name).isNone
    ({ r with hostedSources }, hostedSources.map .addSource)

/-- A packet, and what the change of the state brings about. -/
def read (packet : Packet Url) : HostRegistry Conn Url × List (Slot Url) :=
  let after := { r with toRegistryReplica := r.toRegistryReplica.read packet }
  if after.state = r.state then (after, []) else after.pushToRegistryIfNeeded

def setDisconnected : HostRegistry Conn Url :=
  if r.connectionToSource.isSome then
    { r with toRegistryReplica := r.toRegistryReplica.setDisconnected, connectionToSource := none }
  else r

end HostRegistry

def HostNode.new : HostNode Conn Url := ⟨fun _ => none, none, none⟩

/-- The registry of a host with what it sends, if there is one. -/
def HostNode.withRegistry (node : HostNode Conn Url) (change : HostRegistry Conn Url → HostRegistry Conn Url × List (Slot Url)) :
    HostNode Conn Url × List (Request Url) :=
  match node.registry with
  | none => (node, [])
  | some r => ({ node with registry := some (change r).1 }, (change r).2.map .invoke)

def HostNode.connection (node : HostNode Conn Url) : Option Conn := node.registry.bind (·.connectionToSource)

namespace Network
variable (s : Network Conn Host Url)

def locations : SourceLocations Url := s.registry.m_sourceLocations

variable [DecidableEq Conn]

def initial : Network Conn Host Url := ⟨.initial, fun _ => none, fun _ => .new, fun _ => none⟩

def setLink (connection : Conn) (link : Link Host Url) : Network Conn Host Url :=
  { s with links := Function.update s.links connection (some link) }

/-- The registry sends its signals to those that listen. -/
def invoked (result : RegistryHost Conn Url × List (Signal Url)) : Network Conn Host Url :=
  { s with
    registry := result.1
    links := fun connection => (s.links connection).map fun link =>
      if link.listening then { link with messages := link.messages ++ result.2.map fun signal => .registry (.update signal) }
      else link }

variable [DecidableEq Host]

/-- A host changes, and its registry sends requests. -/
def send (host : Host) (result : HostNode Conn Url × List (Request Url)) : Network Conn Host Url :=
  { s with
    hosts := Function.update s.hosts host result.1
    links := fun connection => (s.links connection).map fun link =>
      if result.1.connection = some connection then { link with requests := link.requests ++ result.2 } else link }

end Network

/-- What a host does with a message from the registry host. -/
def HostNode.onClientRead (node : HostNode Conn Url) (connection : Conn) : Message Url → HostNode Conn Url × List (Request Url)
  | .objectList =>
    match node.registry with
    | none => (node, [])
    | some r =>
      if r.connectionToSource.isSome then (node, [])
      else ({ node with registry := some { r with connectionToSource := some connection } }, [.addObject])
  | .registry packet => node.withRegistry fun r => r.read packet

variable [Inhabited Url] [DecidableEq Conn] [DecidableEq Host] [DecidableEq Url]

/-- One step of a host or of the registry host, or nothing where it cannot happen. -/
def step (hosts : Hosts Host Url) (s : Network Conn Host Url) : Event Conn Host → Option (Network Conn Host Url)
  | .setRegistryUrl host =>
    if (s.hosts host).registry.isSome then none
    else some { s with hosts := Function.update s.hosts host { s.hosts host with registry := some .new } }
  | .enableRemoting (some host) name typeName =>
    let node := s.hosts host
    if (node.m_sourceRoots name).isSome then none
    else
      let node := { node with m_sourceRoots := Function.update node.m_sourceRoots name (some typeName) }
      some (s.send host (node.withRegistry fun r => r.addSource ⟨name, ⟨typeName, hosts.url (some host)⟩⟩))
  | .disableRemoting (some host) name => do
    let node := s.hosts host
    let typeName ← node.m_sourceRoots name
    let node := { node with m_sourceRoots := Function.update node.m_sourceRoots name none }
    some (s.send host (node.withRegistry fun r => r.removeSource ⟨name, ⟨typeName, hosts.url (some host)⟩⟩))
  | .enableRemoting none name typeName =>
    if (s.own name).isSome then none
    else
      some (Network.invoked { s with own := Function.update s.own name (some typeName) }
        (s.registry.invoke (.addSource ⟨name, ⟨typeName, hosts.url none⟩⟩)))
  | .disableRemoting none name => do
    let typeName ← s.own name
    some (Network.invoked { s with own := Function.update s.own name none }
      (s.registry.invoke (.removeSource ⟨name, ⟨typeName, hosts.url none⟩⟩)))
  | .connect host connection =>
    let node := s.hosts host
    if (s.links connection).isNone ∧ node.registry.isSome ∧ node.device.isNone then
      some { s.setLink connection ⟨host, true, true, false, [], [.objectList]⟩ with
        hosts := Function.update s.hosts host { node with device := some connection } }
    else none
  | .onServerRead connection => do
    let link ← s.links connection
    if link.serverOpen then
      match link.requests with
      | .addObject :: requests =>
        some (s.setLink connection { link with
          listening := true, requests, messages := link.messages ++ [.registry (.snapshot s.locations)] })
      | .invoke slot :: requests =>
        some ((s.setLink connection { link with requests }).invoked (s.registry.onServerRead connection slot))
      | [] => none
    else none
  | .onClientRead connection => do
    let link ← s.links connection
    if link.clientOpen then
      match link.messages with
      | message :: messages =>
        some ((s.setLink connection { link with messages }).send link.host ((s.hosts link.host).onClientRead connection message))
      | [] => none
    else none
  | .onServerDisconnect connection => do
    let link ← s.links connection
    if link.serverOpen then
      some { s.setLink connection { link with serverOpen := false, listening := false, requests := [] } with
        registry := s.registry.onServerDisconnect connection }
    else none
  | .onShouldReconnect connection => do
    let link ← s.links connection
    if link.clientOpen then
      let node := s.hosts link.host
      some { s.setLink connection { link with clientOpen := false, messages := [] } with
        hosts := Function.update s.hosts link.host { node with registry := node.registry.map HostRegistry.setDisconnected, device := none } }
    else none

end Model

section Statement
variable {Conn Host Url : Type}

structure Link.AtRest (link : Link Host Url) : Prop where
  requests : link.serverOpen = true → link.requests = []
  messages : link.clientOpen = true → link.messages = []
  ends : link.serverOpen = link.clientOpen

/-- The host has the source enabled. -/
def Enabled (s : Network Conn Host Url) (name : Name) : Option Host → Prop
  | none => s.own name ≠ none
  | some host => (s.hosts host).m_sourceRoots name ≠ none

/-- The host has a valid replica of the registry. -/
def HasRegistry (s : Network Conn Host Url) : Option Host → Prop
  | none => True
  | some host => ∃ r, (s.hosts host).registry = some r ∧ r.state = .valid

def Connected (s : Network Conn Host Url) : Option Host → Prop
  | none => True
  | some host => ∃ connection link, s.links connection = some link ∧ link.host = host ∧ link.serverOpen = true

variable [Inhabited Url] (hosts : Hosts Host Url) (host : Option Host) (name : Name) (s : Network Conn Host Url)

/-- The entry of the name is one of the host. -/
def Holds : Prop := ∃ info, s.locations name = some info ∧ info.hostUrl = hosts.url host

/-- With nothing under way, a source that is enabled is in the registry, unless another host has its name. -/
def Registered : Prop :=
  (∀ connection link, s.links connection = some link → link.AtRest) → Enabled s name host → HasRegistry s host →
    (∀ other, other ≠ host → Connected s other → ¬ Holds hosts other name s) → Holds hosts host name s

/-- An entry that goes was not needed, or it will be added again. -/
def Replaced : Prop :=
  Enabled s name host → HasRegistry s host → Holds hosts host name s →
    ∃ connection link entry, (∃ h, host = some h ∧ (s.hosts h).device = some connection) ∧ s.links connection = some link ∧
      .invoke (.addSource entry) ∈ link.requests ∧ entry.name = name

/-- A host registers the source where the registry, and its own copy of it, have no entry of the name, with its registry
set before. Nothing from older connections of the host is served behind that. -/
def undisturbed : Event Conn Host → Prop
  | .setRegistryUrl h => host = some h → ¬ Enabled s name host
  | .enableRemoting h n _ =>
    host = h → name = n →
      match h with
      | none => s.locations name = none
      | some h => ∀ r, (s.hosts h).registry = some r → r.state = .valid → r.sourceLocations name = none
  | .onClientRead connection =>
    ∀ link locations messages, s.links connection = some link → host = some link.host →
      link.messages = .registry (.snapshot locations) :: messages → Enabled s name host → locations name = none
  | .onServerRead connection =>
    ∀ link slot requests, s.links connection = some link → host = some link.host → link.requests = .invoke slot :: requests →
      slot.entry.name = name →
        match slot with
        | .addSource _ =>
          (s.hosts link.host).device = some connection → Enabled s name host → s.locations name = none ∨ Holds hosts host name s
        | .removeSource _ => (s.hosts link.host).device ≠ some connection → Replaced hosts host name s
  | .onServerDisconnect connection =>
    ∀ link, s.links connection = some link → host = some link.host → (s.hosts link.host).device ≠ some connection →
      s.registry.m_registryMapping connection ≠ none → Replaced hosts host name s
  | _ => True

end Statement

end RemoteObjects.Registry.Registration
