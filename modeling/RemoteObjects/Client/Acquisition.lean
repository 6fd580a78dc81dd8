import RemoteObjects.Registry.Agreement

/-! Replicas that a node acquires by name, and the connections that it requests for them when its replica of the registry
knows where their sources are. -/
namespace RemoteObjects.Client.Acquisition
open Host (Name)
open Registry Registry.Agreement Transition

section Model
variable (Url : Type)

/-- `replicas` has the names with a weak pointer, with the number of the replicas that share what it points to: none are
left of one that is deleted. What becomes of the requests is not modelled here. -/
structure NodePrivate where
  replicas : Name → Option Nat
  connectedSources : List Name
  requestedUrls : List Url
  registry : Option (RegistryReplica Url)

variable {Url} [DecidableEq Url]

namespace NodePrivate
variable (s : NodePrivate Url)

def initial : NodePrivate Url := ⟨fun _ => none, [], [], none⟩

def remoteObjectAddresses : SourceLocations Url :=
  match s.registry with
  | some registry => registry.sourceLocations
  | none => fun _ => none

def removeReplica (name : Name) : NodePrivate Url := { s with replicas := Function.update s.replicas name none }

/-- A replica that is deleted is removed from the list. -/
def removeDeleted (name : Name) : NodePrivate Url := if s.replicas name = some 0 then s.removeReplica name else s

def initConnection (address : Url) : NodePrivate Url :=
  if address ∈ s.requestedUrls then s else { s with requestedUrls := address :: s.requestedUrls }

def openConnectionIfNeeded (name : Name) : NodePrivate Url :=
  match s.remoteObjectAddresses name with
  | none => s
  | some location => s.initConnection location.hostUrl

/-- A source that is connected is attached at once. -/
def handleNewAcquire (name : Name) : NodePrivate Url :=
  if name ∈ s.connectedSources then s
  else match s.remoteObjectAddresses name with
    | some location => s.initConnection location.hostUrl
    | none => s

/-- `hasInstance` removes a pointer to a replica that is deleted. -/
def setReplicaImplementation (name : Name) : NodePrivate Url :=
  let s := (s.openConnectionIfNeeded name).removeDeleted name
  match s.replicas name with
  | some count => { s with replicas := Function.update s.replicas name (some (count + 1)) }
  | none =>
    let s := s.handleNewAcquire name
    { s with replicas := Function.update s.replicas name (some 1) }

/-- The destructor of a replica. -/
def release (name : Name) : NodePrivate Url :=
  { s with replicas := Function.update s.replicas name ((s.replicas name).map (· - 1)) }

/-- `setRegistry`, with a replica of the registry that is new. -/
def setRegistry : NodePrivate Url := { s with registry := some ⟨.default, fun _ => none⟩ }

def readRegistry (packet : Packet Url) : NodePrivate Url := { s with registry := s.registry.map fun registry => registry.read packet }

def onRemoteObjectSourceAdded (entry : SourceLocation Url) : NodePrivate Url :=
  let s := s.readRegistry (.update (.remoteObjectAdded entry))
  match s.replicas entry.name with
  | none => s
  | some 0 => s.removeReplica entry.name
  | some (_ + 1) => s.initConnection entry.info.hostUrl

def onRemoteObjectSourceRemoved (entry : SourceLocation Url) : NodePrivate Url :=
  s.readRegistry (.update (.remoteObjectRemoved entry))

/-- The body of the loop over the addresses. -/
def onRegistryAddress (s : NodePrivate Url) (name : Name) : NodePrivate Url :=
  match s.remoteObjectAddresses name, s.replicas name with
  | some location, some (_ + 1) =>
    if location.hostUrl ∈ s.requestedUrls then s else s.initConnection location.hostUrl
  | some _, some 0 => s.removeReplica name
  | _, _ => s

/-- The keys in the order of the hash. -/
def onRegistryInitialized (keys : List Name) : NodePrivate Url := keys.foldl onRegistryAddress s

/-- What the node does when its registry replica has read a packet: `initialized` is emitted for each init packet. -/
def onClientRead (keys : List Name) : Packet Url → NodePrivate Url
  | .snapshot locations => (s.readRegistry (.snapshot locations)).onRegistryInitialized keys
  | .update (.remoteObjectAdded entry) => s.onRemoteObjectSourceAdded entry
  | .update (.remoteObjectRemoved entry) => s.onRemoteObjectSourceRemoved entry

/-- A device is lost: its sources are not connected any more, and the registry replica may be one of theirs. -/
def onShouldReconnect (remoteObjects : List Name) (registryLost : Bool) : NodePrivate Url :=
  let s := remoteObjects.foldl removeDeleted
    { s with connectedSources := s.connectedSources.filter (· ∉ remoteObjects) }
  if registryLost then { s with registry := s.registry.map fun registry => registry.setDisconnected } else s

end NodePrivate

/-- A node in the network of the registry, with the connection that its registry replica has. -/
structure Acquiring (Conn Url : Type) where
  network : Network Conn Url
  node : NodePrivate Url
  connection : Option Conn

/-- The events of the network that are not the node's own, and what the node does. `keys` is the order in which the hash
of the addresses is walked through. -/
inductive AcquiringEvent (Conn Url : Type)
  | network (e : Registry.Agreement.Event Conn Url)
  | setRegistry
  | acquire (name : Name)
  | release (name : Name)
  | forget (name : Name)
  | sourcesFound (names : List Name)
  | sourcesLost (names : List Name)
  | connect (connection : Conn)
  | read (keys : List Name)
  | lost (names : List Name)

namespace Acquiring
variable {Conn : Type} [DecidableEq Conn] [Inhabited Url]

def initial : Acquiring Conn Url := ⟨.initial, .initial, none⟩

/-- The client of the connection reads or notices the end of it. -/
def ofClient (connection : Conn) : Registry.Agreement.Event Conn Url → Bool
  | .onClientRead c | .onShouldReconnect c => c = connection
  | _ => false

/-- The packet that comes next over a connection. -/
def nextPacket (network : Network Conn Url) (connection : Conn) : Option (Packet Url) :=
  (network.links connection).bind fun link => link.packets.head?

def step (s : Acquiring Conn Url) : AcquiringEvent Conn Url → Option (Acquiring Conn Url)
  | .network e =>
    if (s.connection.any fun connection => ofClient connection e) then none
    else (Registry.Agreement.step s.network e).map fun network => { s with network }
  | .setRegistry => if s.node.registry.isSome then none else some { s with node := s.node.setRegistry }
  | .acquire name => some { s with node := s.node.setReplicaImplementation name }
  | .release name => some { s with node := s.node.release name }
  | .forget name => some { s with node := s.node.removeReplica name }
  | .sourcesFound names => some { s with node := { s.node with connectedSources := names ++ s.node.connectedSources } }
  | .sourcesLost names => some { s with node := s.node.onShouldReconnect names false }
  | .connect connection =>
    match s.connection, s.node.registry with
    | none, some registry =>
      (Registry.Agreement.step s.network (.connect connection registry)).map fun network =>
        { s with network, connection := some connection }
    | _, _ => none
  | .read keys =>
    match s.connection with
    | none => none
    | some connection =>
      match nextPacket s.network connection with
      | none => none
      | some packet =>
        (Registry.Agreement.step s.network (.onClientRead connection)).map fun network =>
          { s with network, node := s.node.onClientRead keys packet }
  | .lost names =>
    match s.connection with
    | none => none
    | some connection =>
      (Registry.Agreement.step s.network (.onShouldReconnect connection)).map fun network =>
        ⟨network, s.node.onShouldReconnect names true, none⟩

end Acquiring
end Model
section Statement
variable {Conn Url : Type} [DecidableEq Conn] [DecidableEq Url] [Inhabited Url]

/-- The replicas whose source the registry knows have had a connection requested to its host. -/
def NodePrivate.Requested (s : NodePrivate Url) : Prop :=
  ∀ name count location, s.replicas name = some (count + 1) → s.remoteObjectAddresses name = some location →
    location.hostUrl ∈ s.requestedUrls

namespace Acquiring

/-- The loop over the addresses of an init packet comes to all of them. -/
def WalksAll (s : Acquiring Conn Url) : AcquiringEvent Conn Url → Prop
  | .read keys => ∀ connection ∈ s.connection, ∀ locations, nextPacket s.network connection = some (.snapshot locations) →
      ∀ name, locations name ≠ none → name ∈ keys
  | _ => True

/-- The entries of the registry have names, and no host ends without a word. -/
def Announced (s : Acquiring Conn Url) : AcquiringEvent Conn Url → Prop
  | .network e => announced s.network e
  | _ => True

end Acquiring
end Statement

section Requests
variable {Url : Type} {s t u : NodePrivate Url}

namespace NodePrivate

/-- Requests are not forgotten, and no replica comes. -/
structure Onward (s t : NodePrivate Url) : Prop where
  registry : t.registry = s.registry
  requested : s.requestedUrls ⊆ t.requestedUrls
  replicas : ∀ name count, t.replicas name = some (count + 1) → s.replicas name = some (count + 1)

theorem Onward.refl (s : NodePrivate Url) : s.Onward s := ⟨rfl, List.Subset.refl _, fun _ _ => id⟩

theorem Onward.trans (first : s.Onward t) (second : t.Onward u) : s.Onward u where
  registry := second.registry.trans first.registry
  requested := List.Subset.trans first.requested second.requested
  replicas name count there := first.replicas name count (second.replicas name count there)

theorem Onward.addresses (onward : s.Onward t) : t.remoteObjectAddresses = s.remoteObjectAddresses := by
  rw [remoteObjectAddresses, onward.registry, remoteObjectAddresses]

theorem Requested.onward (requested : s.Requested) (onward : s.Onward t) : t.Requested := by
  intro name count location there known
  rw [onward.addresses] at known
  exact onward.requested (requested name count location (onward.replicas name count there) known)

theorem onward_removeReplica (s : NodePrivate Url) (name : Name) : s.Onward (s.removeReplica name) := by
  refine ⟨rfl, List.Subset.refl _, fun other count there => ?_⟩
  change Function.update s.replicas name none other = _ at there
  rw [Function.update_apply] at there
  split at there
  · contradiction
  · exact there

theorem replicas_removeReplica (s : NodePrivate Url) (name : Name) : (s.removeReplica name).replicas name = none :=
  Function.update_self ..

theorem onward_removeDeleted (s : NodePrivate Url) (name : Name) : s.Onward (s.removeDeleted name) := by
  rw [removeDeleted]
  split
  · exact onward_removeReplica s name
  · exact .refl s

theorem Requested.release (requested : s.Requested) (name : Name) : (s.release name).Requested := by
  intro other count location there known
  change Function.update s.replicas name ((s.replicas name).map (· - 1)) other = _ at there
  rw [Function.update_apply] at there
  split at there
  · rename_i same
    subst other
    obtain ⟨before, held, less⟩ := Option.map_eq_some_iff.mp there
    obtain rfl : before = count + 1 + 1 := by omega
    exact requested name (count + 1) location held known
  · exact requested other count location there known

theorem addresses_readRegistry (registry : RegistryReplica Url) (known : s.registry = some registry) (packet : Packet Url) :
    (s.readRegistry packet).remoteObjectAddresses = (registry.read packet).sourceLocations := by
  rw [remoteObjectAddresses, readRegistry, known]
  rfl

theorem addresses_of_registry {registry : RegistryReplica Url} (known : s.registry = some registry) :
    s.remoteObjectAddresses = registry.sourceLocations := by
  rw [remoteObjectAddresses, known]

theorem Requested.onRemoteObjectSourceRemoved (requested : s.Requested) {registry : RegistryReplica Url}
    (known : s.registry = some registry) (entry : SourceLocation Url) : (s.onRemoteObjectSourceRemoved entry).Requested := by
  intro name count location there at_name
  refine requested name count location there ?_
  rw [NodePrivate.onRemoteObjectSourceRemoved, addresses_readRegistry registry known, RegistryReplica.read,
    RegistryReplica.onRemoteObjectSourceRemoved] at at_name
  rw [addresses_of_registry known]
  split at at_name
  · exact at_name
  · change Function.update registry.sourceLocations entry.name none name = _ at at_name
    rw [Function.update_apply] at at_name
    split at at_name
    · contradiction
    · exact at_name

theorem onward_removeAll (s : NodePrivate Url) (names : List Name) : s.Onward (names.foldl removeDeleted s) := by
  induction names generalizing s with
  | nil => exact .refl s
  | cons name names ih => exact (onward_removeDeleted s name).trans (ih _)

theorem Requested.onShouldReconnect (requested : s.Requested) (names : List Name) (registryLost : Bool) :
    (s.onShouldReconnect names registryLost).Requested := by
  have less : s.Onward { s with connectedSources := s.connectedSources.filter (· ∉ names) } :=
    ⟨rfl, List.Subset.refl _, fun _ _ => id⟩
  have onward := less.trans (onward_removeAll _ names)
  rw [NodePrivate.onShouldReconnect]
  generalize names.foldl removeDeleted _ = t at onward
  have kept := requested.onward onward
  split
  · intro name count location there known
    refine kept name count location there ?_
    rw [remoteObjectAddresses] at known ⊢
    cases registry : t.registry with
    | none =>
      rw [registry] at known
      contradiction
    | some replica =>
      rw [registry] at known
      change (replica.setState .suspect).sourceLocations name = _ at known
      rw [RegistryReplica.setState] at known
      split at known <;> exact known
  · exact kept

theorem Requested.setRegistry (s : NodePrivate Url) : s.setRegistry.Requested := by
  rintro _ _ _ _ ⟨⟩

theorem registry_removeAll (s : NodePrivate Url) (names connected : List Name) :
    (names.foldl removeDeleted { s with connectedSources := connected }).registry = s.registry :=
  (onward_removeAll { s with connectedSources := connected } names).registry

variable [DecidableEq Url]

theorem onward_initConnection (s : NodePrivate Url) (address : Url) :
    s.Onward (s.initConnection address) ∧ address ∈ (s.initConnection address).requestedUrls := by
  rw [initConnection]
  split
  · rename_i already
    exact ⟨.refl s, already⟩
  · exact ⟨⟨rfl, List.subset_cons_self .., fun _ _ => id⟩, List.mem_cons_self ..⟩

/-- Behind `openConnectionIfNeeded` the connection is requested. -/
theorem onward_openConnectionIfNeeded (s : NodePrivate Url) (name : Name) : s.Onward (s.openConnectionIfNeeded name) ∧
    ∀ location, s.remoteObjectAddresses name = some location → location.hostUrl ∈ (s.openConnectionIfNeeded name).requestedUrls := by
  rw [openConnectionIfNeeded]
  cases known : s.remoteObjectAddresses name with
  | none => exact ⟨.refl s, by rintro _ ⟨⟩⟩
  | some location =>
    obtain ⟨onward, asked⟩ := onward_initConnection s location.hostUrl
    exact ⟨onward, by rintro _ ⟨⟩; exact asked⟩

theorem onward_handleNewAcquire (s : NodePrivate Url) (name : Name) : s.Onward (s.handleNewAcquire name) := by
  rw [handleNewAcquire]
  split
  · exact .refl s
  · split
    · exact (onward_initConnection s _).1
    · exact .refl s

theorem onward_onRegistryAddress (s : NodePrivate Url) (name : Name) : s.Onward (s.onRegistryAddress name) ∧
    ∀ count location, (s.onRegistryAddress name).replicas name = some (count + 1) → s.remoteObjectAddresses name = some location →
      location.hostUrl ∈ (s.onRegistryAddress name).requestedUrls := by
  rw [onRegistryAddress]
  split
  · rename_i location count known there
    split
    · rename_i already
      refine ⟨.refl s, fun _ other _ same => ?_⟩
      obtain rfl := Option.some.inj (known.symm.trans same)
      exact already
    · obtain ⟨onward, asked⟩ := onward_initConnection s location.hostUrl
      refine ⟨onward, fun _ other _ same => ?_⟩
      obtain rfl := Option.some.inj (known.symm.trans same)
      exact asked
  · refine ⟨onward_removeReplica s name, fun count _ there _ => ?_⟩
    rw [replicas_removeReplica] at there
    contradiction
  · rename_i no_replica no_deleted
    refine ⟨.refl s, fun count location there known => ?_⟩
    exact absurd there (no_replica location count known)

/-- The loop requests what is missing for the names that it comes to. -/
theorem onward_onRegistryInitialized (s : NodePrivate Url) (keys : List Name) : s.Onward (s.onRegistryInitialized keys) ∧
    ∀ name ∈ keys, ∀ count location, (s.onRegistryInitialized keys).replicas name = some (count + 1) →
      s.remoteObjectAddresses name = some location → location.hostUrl ∈ (s.onRegistryInitialized keys).requestedUrls := by
  induction keys generalizing s with
  | nil => exact ⟨.refl s, List.forall_mem_nil _⟩
  | cons key keys ih =>
    obtain ⟨first, asked⟩ := onward_onRegistryAddress s key
    obtain ⟨rest, later⟩ := ih (s.onRegistryAddress key)
    refine ⟨first.trans rest, List.forall_mem_cons.mpr ⟨fun count location there known => ?_, fun name on count location there known => ?_⟩⟩
    · exact rest.requested (asked count location (rest.replicas key count there) known)
    · exact later name on count location there (first.addresses ▸ known)

theorem Requested.setReplicaImplementation (requested : s.Requested) (name : Name) : (s.setReplicaImplementation name).Requested := by
  obtain ⟨opened, asked⟩ := onward_openConnectionIfNeeded s name
  have onward := opened.trans (onward_removeDeleted (s.openConnectionIfNeeded name) name)
  have asked : ∀ location, s.remoteObjectAddresses name = some location →
      location.hostUrl ∈ ((s.openConnectionIfNeeded name).removeDeleted name).requestedUrls :=
    fun location known => (onward_removeDeleted _ name).requested (asked location known)
  rw [NodePrivate.setReplicaImplementation]
  generalize (s.openConnectionIfNeeded name).removeDeleted name = t at onward asked
  -- The entry that is written is that of a name with a request.
  have written {u : NodePrivate Url} (onward : s.Onward u) (kept : t.requestedUrls ⊆ u.requestedUrls) (count : Option Nat) :
      ({ u with replicas := Function.update u.replicas name count } : NodePrivate Url).Requested := by
    intro other _ location there known
    change u.remoteObjectAddresses other = _ at known
    rw [onward.addresses] at known
    by_cases same : other = name
    · subst other
      exact kept (asked location known)
    · change Function.update u.replicas name count other = _ at there
      rw [Function.update_of_ne same] at there
      exact onward.requested (requested other _ location (onward.replicas other _ there) known)
  cases there : t.replicas name with
  | some count => exact written onward (List.Subset.refl _) _
  | none =>
    have acquired := onward_handleNewAcquire t name
    exact written (onward.trans acquired) acquired.requested _

/-- A source that comes to the registry is one that is requested, if a replica waits for it. -/
theorem Requested.onRemoteObjectSourceAdded (requested : s.Requested) {registry : RegistryReplica Url}
    (known : s.registry = some registry) (entry : SourceLocation Url) : (s.onRemoteObjectSourceAdded entry).Requested := by
  have addresses := addresses_readRegistry registry known (.update (.remoteObjectAdded entry))
  -- Only the entry of this name is new.
  have others : ∀ name, name ≠ entry.name ∨ entry.name = [] →
      (s.readRegistry (.update (.remoteObjectAdded entry))).remoteObjectAddresses name = s.remoteObjectAddresses name := by
    intro name other
    rw [addresses, addresses_of_registry known, RegistryReplica.read, RegistryReplica.onRemoteObjectSourceAdded]
    split
    · rfl
    · rename_i named
      exact Function.update_of_ne (other.resolve_right named) ..
  have kept {t : NodePrivate Url} (onward : (s.readRegistry (.update (.remoteObjectAdded entry))).Onward t)
      (asked : ∀ count, t.replicas entry.name = some (count + 1) → entry.info.hostUrl ∈ t.requestedUrls) : t.Requested := by
    intro name count location there at_name
    rw [onward.addresses] at at_name
    by_cases new : name = entry.name ∧ entry.name ≠ []
    · obtain ⟨rfl, named⟩ := new
      rw [addresses, RegistryReplica.read, RegistryReplica.onRemoteObjectSourceAdded, if_neg named] at at_name
      change Function.update registry.sourceLocations entry.name (some entry.info) entry.name = _ at at_name
      rw [Function.update_self] at at_name
      obtain rfl := Option.some.inj at_name
      exact asked count there
    · rw [others name (by by_cases same : name = entry.name <;> simp_all)] at at_name
      exact onward.requested (requested name count location (onward.replicas name count there) at_name)
  rw [NodePrivate.onRemoteObjectSourceAdded]
  split
  · rename_i none
    exact kept (.refl _) fun count there => absurd (none.symm.trans there) (Option.some_ne_none _).symm
  · refine kept (onward_removeReplica _ _) fun count there => ?_
    rw [replicas_removeReplica] at there
    contradiction
  · obtain ⟨onward, asked⟩ := onward_initConnection (s.readRegistry (.update (.remoteObjectAdded entry))) entry.info.hostUrl
    exact kept onward fun _ _ => asked

theorem requested_initialized {registry : RegistryReplica Url} (known : s.registry = some registry) {locations : SourceLocations Url}
    {keys : List Name} (all : ∀ name, locations name ≠ none → name ∈ keys) :
    ((s.readRegistry (.snapshot locations)).onRegistryInitialized keys).Requested := by
  obtain ⟨onward, asked⟩ := onward_onRegistryInitialized (s.readRegistry (.snapshot locations)) keys
  intro name count location there at_name
  rw [onward.addresses] at at_name
  refine asked name (all name ?_) count location there at_name
  have snapshot : (registry.read (.snapshot locations)).sourceLocations = locations := by
    rw [RegistryReplica.read, RegistryReplica.initializeProperties, RegistryReplica.setState]
    split <;> rfl
  rw [addresses_readRegistry registry known, snapshot] at at_name
  rw [at_name]
  exact Option.some_ne_none _

theorem Requested.onClientRead (requested : s.Requested) {registry : RegistryReplica Url} (known : s.registry = some registry)
    {keys : List Name} {packet : Packet Url}
    (all : ∀ locations, packet = .snapshot locations → ∀ name, locations name ≠ none → name ∈ keys) :
    (s.onClientRead keys packet).Requested := by
  cases packet with
  | snapshot locations => exact requested_initialized known (all locations rfl)
  | update change =>
    cases change with
    | remoteObjectAdded entry => exact requested.onRemoteObjectSourceAdded known entry
    | remoteObjectRemoved entry => exact requested.onRemoteObjectSourceRemoved known entry

end NodePrivate
end Requests

section Registry
variable {Url : Type} [DecidableEq Url] {s : NodePrivate Url}

namespace NodePrivate

theorem registry_setReplicaImplementation (s : NodePrivate Url) (name : Name) :
    (s.setReplicaImplementation name).registry = s.registry := by
  have kept : ((s.openConnectionIfNeeded name).removeDeleted name).registry = s.registry :=
    ((onward_openConnectionIfNeeded s name).1.trans (onward_removeDeleted _ name)).registry
  rw [setReplicaImplementation]
  split
  · exact kept
  · exact (onward_handleNewAcquire _ name).registry.trans kept

theorem registry_onRemoteObjectSourceAdded (s : NodePrivate Url) (entry : SourceLocation Url) :
    (s.onRemoteObjectSourceAdded entry).registry = (s.readRegistry (.update (.remoteObjectAdded entry))).registry := by
  rw [onRemoteObjectSourceAdded]
  split
  · rfl
  · exact (onward_removeReplica _ _).registry
  · exact (onward_initConnection _ _).1.registry

theorem registry_onClientRead (s : NodePrivate Url) (keys : List Name) (packet : Packet Url) :
    (s.onClientRead keys packet).registry = s.registry.map fun registry => registry.read packet := by
  cases packet with
  | snapshot locations => exact (onward_onRegistryInitialized _ keys).1.registry
  | update change =>
    cases change with
    | remoteObjectAdded entry => exact registry_onRemoteObjectSourceAdded s entry
    | remoteObjectRemoved entry => rfl

end NodePrivate
end Registry

section Links
variable {Conn Url : Type}
variable {s t : Network Conn Url} {connection : Conn} {link : Link Url} {e : Registry.Agreement.Event Conn Url}

theorem replica_invoked (there : s.links connection = some link) (result : RegistryHost Conn Url × List (Signal Url)) :
    ∃ kept, (s.invoked result).links connection = some kept ∧ kept.replica = link.replica := by
  refine ⟨link.emit result.2, congrArg (Option.map _) there, ?_⟩
  rw [Link.emit]
  split <;> rfl

theorem at_link {c : Conn} {can : Link Url → Prop} [DecidablePred can] {after : Link Url → Network Conn Url}
    (stepped : (do let link ← s.links c; if can link then some (after link) else none) = some t) :
    ∃ before, s.links c = some before ∧ after before = t := by
  obtain ⟨before, at_c, stepped⟩ := Option.bind_eq_some_iff.mp stepped
  exact ⟨before, at_c, Option.some.inj (Option.ite_none_right_eq_some.mp stepped).2⟩

variable [DecidableEq Conn]

theorem replica_setLink (there : s.links connection = some link) {c : Conn} {before : Link Url} (at_c : s.links c = some before)
    {after : Link Url} (same : after.replica = before.replica) : ∃ kept, (s.setLink c after).links connection = some kept ∧ kept.replica = link.replica := by
  by_cases here : connection = c
  · subst here
    obtain rfl := Option.some.inj (there.symm.trans at_c)
    exact ⟨after, Function.update_self .., same⟩
  · exact ⟨link, (Function.update_of_ne here ..).trans there, rfl⟩

variable [DecidableEq Url] [Inhabited Url]

/-- A replica changes only when its client reads or notices the end. -/
theorem replica_step (stepped : Registry.Agreement.step s e = some t) (foreign : Acquiring.ofClient connection e = false)
    (there : s.links connection = some link) : ∃ kept, t.links connection = some kept ∧ kept.replica = link.replica := by
  cases e with
  | connect c replica =>
    simp only [Registry.Agreement.step, Option.ite_none_right_eq_some, Option.some.injEq] at stepped
    obtain ⟨⟨fresh, _⟩, rfl⟩ := stepped
    have other : connection ≠ c := by
      rintro rfl
      rw [there] at fresh
      contradiction
    exact ⟨link, (Function.update_of_ne other ..).trans there, rfl⟩
  | attach c =>
    obtain ⟨before, at_c, rfl⟩ := at_link stepped
    exact replica_setLink there at_c rfl
  | send c slot =>
    obtain ⟨before, at_c, rfl⟩ := at_link stepped
    exact replica_setLink there at_c rfl
  | own slot =>
    obtain rfl := Option.some.inj stepped
    exact replica_invoked there _
  | onServerRead c =>
    simp only [Registry.Agreement.step, Option.bind_eq_bind, Option.bind_eq_some_iff, Option.ite_none_right_eq_some] at stepped
    obtain ⟨before, at_c, _, stepped⟩ := stepped
    split at stepped
    · obtain rfl := Option.some.inj stepped
      exact replica_setLink there at_c rfl
    · rename_i slot requests first
      obtain rfl := Option.some.inj stepped
      have same_replica : ({ before with requests } : Link Url).replica = before.replica := rfl
      obtain ⟨kept, at_connection, same⟩ := replica_setLink there at_c same_replica
      obtain ⟨later, behind, again⟩ := replica_invoked at_connection (s.registry.onServerRead c slot)
      exact ⟨later, behind, again.trans same⟩
    · contradiction
  | onClientRead c =>
    have other : connection ≠ c := fun same => of_decide_eq_false foreign same.symm
    simp only [Registry.Agreement.step, Option.bind_eq_bind, Option.bind_eq_some_iff] at stepped
    obtain ⟨before, _, stepped⟩ := stepped
    split at stepped
    · obtain rfl := Option.some.inj stepped
      exact ⟨link, (Function.update_of_ne other ..).trans there, rfl⟩
    · contradiction
  | onServerDisconnect c =>
    obtain ⟨before, at_c, rfl⟩ := at_link stepped
    exact replica_setLink there at_c rfl
  | onShouldReconnect c =>
    have other : connection ≠ c := fun same => of_decide_eq_false foreign same.symm
    obtain ⟨before, _, rfl⟩ := at_link stepped
    exact ⟨link, (Function.update_of_ne other ..).trans there, rfl⟩

theorem replica_read {packet : Packet Url} (stepped : Registry.Agreement.step s (.onClientRead connection) = some t)
    (next : Acquiring.nextPacket s connection = some packet) (there : s.links connection = some link) {replica : RegistryReplica Url}
    (held : link.replica = some replica) : ∃ kept, t.links connection = some kept ∧ kept.replica = some (replica.read packet) := by
  simp only [Registry.Agreement.step, Option.bind_eq_bind, Option.bind_eq_some_iff] at stepped
  obtain ⟨before, at_c, stepped⟩ := stepped
  obtain rfl := Option.some.inj (there.symm.trans at_c)
  rw [Acquiring.nextPacket, there, Option.bind_some] at next
  split at stepped
  · rename_i other first rest here packets
    obtain rfl := Option.some.inj stepped
    obtain rfl := Option.some.inj (held.symm.trans here)
    rw [packets] at next
    obtain rfl := Option.some.inj next
    exact ⟨_, Function.update_self .., rfl⟩
  · contradiction

end Links

section Runs
variable {Conn Url : Type} [DecidableEq Conn] [DecidableEq Url] [Inhabited Url]
variable {s t : Acquiring Conn Url} {e : AcquiringEvent Conn Url}

namespace Acquiring

/-- The registry replica of the node is that of its connection. Without one it is not valid. -/
structure Linked (s : Acquiring Conn Url) : Prop where
  held : ∀ connection ∈ s.connection, ∃ link registry, s.network.links connection = some link ∧ s.node.registry = some registry ∧
    link.replica = some registry
  connected : ∀ registry, s.node.registry = some registry → registry.state = .valid → s.connection ≠ none

omit [DecidableEq Conn] [DecidableEq Url] [Inhabited Url] in
theorem Linked.of_registry (linked : s.Linked) {node : NodePrivate Url} (same : node.registry = s.node.registry) :
    ({ s with node } : Acquiring Conn Url).Linked := by
  constructor
  · intro connection here
    obtain ⟨link, registry, there, known, held⟩ := linked.held connection here
    exact ⟨link, registry, there, same.trans known, held⟩
  · intro registry known
    exact linked.connected registry (same.symm.trans known)

omit [DecidableEq Conn] [DecidableEq Url] [Inhabited Url] in
theorem linked_initial : (initial : Acquiring Conn Url).Linked := by
  constructor
  · rintro _ ⟨⟩
  · rintro _ ⟨⟩

/-- What a step does to the network and to the node. -/
inductive Stepped (s : Acquiring Conn Url) : AcquiringEvent Conn Url → Acquiring Conn Url → Prop
  | network {event network} (foreign : ∀ connection ∈ s.connection, ofClient connection event = false)
      (went : Registry.Agreement.step s.network event = some network) : Stepped s (.network event) { s with network }
  | node {event} (node : NodePrivate Url) (same : node.registry = s.node.registry) (kept : s.node.Requested → node.Requested) :
      Stepped s event { s with node }
  | setRegistry (unknown : s.node.registry = none) : Stepped s .setRegistry { s with node := s.node.setRegistry }
  | connect {connection registry network} (known : s.node.registry = some registry)
      (went : Registry.Agreement.step s.network (.connect connection registry) = some network) :
      Stepped s (.connect connection) { s with network, connection := some connection }
  | read {keys connection packet network} (here : s.connection = some connection) (next : nextPacket s.network connection = some packet)
      (went : Registry.Agreement.step s.network (.onClientRead connection) = some network) :
      Stepped s (.read keys) { s with network, node := s.node.onClientRead keys packet }
  | lost {names connection network} (went : Registry.Agreement.step s.network (.onShouldReconnect connection) = some network) :
      Stepped s (.lost names) ⟨network, s.node.onShouldReconnect names true, none⟩

theorem stepped (head : s.step e = some t) : Stepped s e t := by
  cases e with
  | network e =>
    simp only [step] at head
    split at head
    · contradiction
    · rename_i foreign
      obtain ⟨network, went, rfl⟩ := Option.map_eq_some_iff.mp head
      refine .network (fun connection here => ?_) went
      rw [Option.mem_def.mp here] at foreign
      exact Bool.eq_false_iff.mpr foreign
  | setRegistry =>
    simp only [step] at head
    split at head
    · contradiction
    · rename_i unknown
      obtain rfl := Option.some.inj head
      exact .setRegistry (Option.not_isSome_iff_eq_none.mp unknown)
  | acquire name =>
    obtain rfl := Option.some.inj head
    exact .node _ (NodePrivate.registry_setReplicaImplementation s.node name) fun requested => requested.setReplicaImplementation name
  | release name =>
    obtain rfl := Option.some.inj head
    exact .node _ rfl fun requested => requested.release name
  | forget name =>
    obtain rfl := Option.some.inj head
    exact .node _ rfl fun requested => requested.onward (NodePrivate.onward_removeReplica s.node name)
  | sourcesFound names =>
    obtain rfl := Option.some.inj head
    exact .node _ rfl id
  | sourcesLost names =>
    obtain rfl := Option.some.inj head
    exact .node _ (NodePrivate.registry_removeAll s.node names _) fun requested => requested.onShouldReconnect names false
  | connect connection =>
    simp only [step] at head
    split at head
    · rename_i known
      obtain ⟨network, went, rfl⟩ := Option.map_eq_some_iff.mp head
      exact .connect known went
    · contradiction
  | read keys =>
    simp only [step] at head
    split at head
    · contradiction
    · rename_i here
      split at head
      · contradiction
      · rename_i next
        obtain ⟨network, went, rfl⟩ := Option.map_eq_some_iff.mp head
        exact .read here next went
  | lost names =>
    simp only [step] at head
    split at head
    · contradiction
    · obtain ⟨network, went, rfl⟩ := Option.map_eq_some_iff.mp head
      exact .lost went

theorem linked_step (linked : s.Linked) (head : s.step e = some t) : t.Linked := by
  cases stepped head with
  | network foreign went =>
    refine ⟨fun connection here => ?_, linked.connected⟩
    obtain ⟨link, registry, there, known, held⟩ := linked.held connection here
    obtain ⟨kept, still, same⟩ := replica_step went (foreign connection here) there
    exact ⟨kept, registry, still, known, same.trans held⟩
  | node node same _ => exact linked.of_registry same
  | setRegistry unknown =>
    constructor
    · intro connection here
      obtain ⟨_, registry, _, known, _⟩ := linked.held connection here
      rw [known] at unknown
      contradiction
    · rintro _ ⟨⟩ valid
      contradiction
  | @connect connection registry network known went =>
    simp only [Registry.Agreement.step, Option.ite_none_right_eq_some, Option.some.injEq] at went
    obtain ⟨_, rfl⟩ := went
    constructor
    · rintro _ ⟨⟩
      exact ⟨_, registry, Function.update_self .., known, rfl⟩
    · intro _ _ _
      exact Option.some_ne_none connection
  | @read keys connection packet network here next went =>
    obtain ⟨link, registry, there, known, held⟩ := linked.held connection here
    have read : (s.node.onClientRead keys packet).registry = some (registry.read packet) := by
      rw [NodePrivate.registry_onClientRead, known]
      rfl
    obtain ⟨kept, still, same⟩ := replica_read went next there held
    constructor
    · intro other also
      obtain rfl := Option.some.inj (here.symm.trans also)
      exact ⟨kept, _, still, read, same⟩
    · intro _ _ _ gone
      exact absurd (here.symm.trans gone) (Option.some_ne_none connection)
  | lost went =>
    constructor
    · rintro _ ⟨⟩
    · intro registry known valid
      obtain ⟨before, _, rfl⟩ := Option.map_eq_some_iff.mp known
      rw [RegistryReplica.setDisconnected, RegistryReplica.setState] at valid
      split at valid
      · rename_i late
        rw [valid] at late
        exact absurd late.2 (by decide)
      · contradiction

theorem requested_step (good : s.Linked ∧ s.node.Requested) (walks : s.WalksAll e) (head : s.step e = some t) :
    t.Linked ∧ t.node.Requested := by
  obtain ⟨linked, requested⟩ := good
  refine ⟨linked_step linked head, ?_⟩
  cases stepped head with
  | network | connect => exact requested
  | node node _ kept => exact kept requested
  | setRegistry => exact NodePrivate.Requested.setRegistry s.node
  | @read keys connection packet network here next went =>
    obtain ⟨_, registry, _, known, _⟩ := linked.held connection here
    apply requested.onClientRead known
    rintro locations rfl
    exact walks connection here locations next
  | @lost names => exact requested.onShouldReconnect names true

/-- The registry host and its clients agree about the replicas of the registry. -/
theorem agreed_acquiring (agreed : Agreed s.network) (tells : s.Announced e) (head : s.step e = some t) : Agreed t.network := by
  cases stepped head with
  | network _ went => exact agreed_step agreed tells went
  | node | setRegistry => exact agreed
  | @connect connection registry _ _ went => exact agreed_step (e := .connect connection registry) agreed trivial went
  | @read _ connection _ _ _ _ went => exact agreed_step (e := .onClientRead connection) agreed trivial went
  | @lost _ connection _ went => exact agreed_step (e := .onShouldReconnect connection) agreed trivial went

/-- In every run, however acquisitions, packets of the registry and losses of connections come, there is a request to the
host of each source that a replica waits for and the registry replica knows. -/
theorem acquired_requested {es : List (AcquiringEvent Conn Url)} (walks : Admitted step WalksAll initial es)
    (run : exec step initial es = some t) : t.node.Requested := by
  have good : t.Linked ∧ t.node.Requested := by
    apply exec_invariant (P := fun s : Acquiring Conn Url => s.Linked ∧ s.node.Requested) requested_step run walks
    refine ⟨linked_initial, ?_⟩
    rintro _ _ _ ⟨⟩
  exact good.2

/-- With a valid registry replica and nothing under way, that holds of each source that the registry itself has. -/
theorem registered_requested {es : List (AcquiringEvent Conn Url)}
    (admitted : Admitted step (fun s e => s.WalksAll e ∧ s.Announced e) initial es) (run : exec step initial es = some t)
    {registry : RegistryReplica Url} (known : t.node.registry = some registry) (valid : registry.state = .valid)
    (atRest : ∀ connection link, t.network.links connection = some link → link.AtRest) :
    ∀ name count location, t.node.replicas name = some (count + 1) → t.network.locations name = some location →
      location.hostUrl ∈ t.node.requestedUrls := by
  have good : (t.Linked ∧ t.node.Requested) ∧ Agreed t.network := by
    apply exec_invariant (P := fun s : Acquiring Conn Url => (s.Linked ∧ s.node.Requested) ∧ Agreed s.network) ?_ run admitted
    · refine ⟨⟨linked_initial, ?_⟩, ?_⟩
      · rintro _ _ _ ⟨⟩
      · intro _ _ here
        contradiction
    · rintro s e t ⟨good, agreed⟩ ⟨walks, tells⟩ stepped
      exact ⟨requested_step good walks stepped, agreed_acquiring agreed tells stepped⟩
  obtain ⟨⟨linked, requested⟩, agreed⟩ := good
  obtain ⟨connection, here⟩ := Option.ne_none_iff_exists'.mp (linked.connected registry known valid)
  obtain ⟨link, replica, there, same, held⟩ := linked.held connection here
  obtain rfl := Option.some.inj (known.symm.trans same)
  have agrees := (agreed connection link there).agrees (atRest connection link there) held valid
  intro name count location waits registered
  apply requested name count location waits
  rw [NodePrivate.addresses_of_registry known, agrees]
  exact registered

end Acquiring

/-- A replica is acquired before its source comes to the registry. -/
def awaited : List (AcquiringEvent Unit Nat) :=
  [.setRegistry, .connect (), .network (.attach ()), .network (.onServerRead ()), .acquire "A".toList, .read [],
    .network (.own (.addSource ⟨"A".toList, ⟨[], 1⟩⟩)), .read []]

theorem admitted_awaited : Admitted Acquiring.step (fun s e => s.WalksAll e ∧ s.Announced e) .initial awaited := by
  refine .cons ⟨trivial, trivial⟩ rfl (.cons ⟨trivial, trivial⟩ rfl (.cons ⟨trivial, trivial⟩ rfl (.cons ⟨trivial, ?_⟩ rfl
    (.cons ⟨trivial, trivial⟩ rfl (.cons ⟨?_, trivial⟩ rfl (.cons ⟨trivial, ?_⟩ rfl (.cons ⟨?_, trivial⟩ rfl trivial)))))))
  · intro _ _ _ here first
    obtain rfl := Option.some.inj here
    cases first
  · intro connection _ locations next name there
    obtain rfl := Feed.Message.snapshot.inj (Option.some.inj next)
    exact absurd rfl there
  · intro _ _
    decide
  · intro connection _ locations next
    cases Option.some.inj next

/-- The host of the source is requested as soon as the registry replica hears of it. -/
theorem acquired_requested_example : ∃ t, exec Acquiring.step .initial awaited = some t ∧ t.node.Requested ∧
    t.node.requestedUrls = [1] := by
  have walks : Admitted Acquiring.step Acquiring.WalksAll .initial awaited :=
    admitted_of_invariant (P := fun _ => True) (fun _ _ _ => trivial) (fun _ both => both.1) admitted_awaited trivial
  exact ⟨_, rfl, Acquiring.acquired_requested walks rfl, rfl⟩

theorem registered_requested_example : ∃ t, exec Acquiring.step .initial awaited = some t ∧
    ∀ count, t.node.replicas "A".toList = some (count + 1) → 1 ∈ t.node.requestedUrls := by
  refine ⟨_, rfl, fun count waits => ?_⟩
  refine Acquiring.registered_requested admitted_awaited rfl rfl rfl (fun connection link here => ?_)
    "A".toList count ⟨[], 1⟩ waits rfl
  obtain rfl := Option.some.inj here
  exact ⟨fun _ => rfl, fun _ => rfl, rfl⟩

end Runs
end RemoteObjects.Client.Acquisition
