import RemoteObjects.Registry.Registration

/-! The connections of hosts to the registry, in every state: a host knows at most one of them, and what comes over it is
an answer to this host. -/
namespace RemoteObjects.Registry.Registration
open Host (Name)
open Node (ReplicaState)
open Registry.Agreement (Request)
open Ownership (Hosts)

section Invariant
variable {Conn Host Url : Type} [Inhabited Url] {hosts : Hosts Host Url} {s t : Network Conn Host Url} {host : Host}
  {connection : Conn} {name : Name}

/-- A connection of a network, for the host on it: what the host has asked for has its URL, and the registry answers only
what the registry replica has asked for. -/
structure Link.Wired (hosts : Hosts Host Url) (node : HostNode Conn Url) (connection : Conn) (link : Link Host Url) : Prop where
  current : link.clientOpen = true → node.device = some connection
  requested : ∀ slot, .invoke slot ∈ link.requests → slot.entry.info.hostUrl = hosts.url (some link.host)
  answered : link.clientOpen = true →
    .addObject ∈ link.requests ∨ link.listening = true ∨ (∃ locations, .registry (.snapshot locations) ∈ link.messages) →
      node.connection = some connection

/-- A registry that is valid is attached over the device of the host. It hosts sources with the URL of the host. -/
structure HostNode.Wired (hosts : Hosts Host Url) (host : Host) (node : HostNode Conn Url) : Prop where
  attached : node.connection = none ∨ node.connection = node.device
  valid : ∀ r, node.registry = some r → r.state = .valid → r.connectionToSource ≠ none
  hosted : ∀ r, node.registry = some r → ∀ entry ∈ r.hostedSources, entry.info.hostUrl = hosts.url (some host)

structure Wired (hosts : Hosts Host Url) (s : Network Conn Host Url) : Prop where
  nodes : ∀ host, (s.hosts host).Wired hosts host
  links : ∀ connection link, s.links connection = some link → link.Wired hosts (s.hosts link.host) connection
  devices : ∀ host connection, (s.hosts host).device = some connection →
    ∃ link, s.links connection = some link ∧ link.host = host ∧ link.clientOpen = true
  mapped : ∀ connection url, s.registry.m_registryMapping connection = some url →
    ∃ link, s.links connection = some link ∧ url = hosts.url (some link.host)

theorem wired_initial [DecidableEq Conn] : Wired hosts (.initial : Network Conn Host Url) := by
  constructor
  · intro host
    constructor
    · exact .inl rfl
    · intro _ none
      contradiction
    · intro _ none
      contradiction
  · intro _ _ none
    contradiction
  · intro _ _ none
    contradiction
  · intro _ _ none
    contradiction

theorem Wired.owner (wired : Wired hosts s) {link : Link Host Url} (device : (s.hosts host).device = some connection)
    (here : s.links connection = some link) : link.host = host ∧ link.clientOpen = true := by
  obtain ⟨other, there, owned⟩ := wired.devices host connection device
  obtain rfl := Option.some.inj (here.symm.trans there)
  exact owned

theorem Wired.device (wired : Wired hosts s) (attached : (s.hosts host).connection = some connection) :
    (s.hosts host).device = some connection := by
  obtain none | same := (wired.nodes host).attached
  · rw [none] at attached
    contradiction
  · exact same.symm.trans attached

theorem Wired.attachedHost (wired : Wired hosts s) {link : Link Host Url} (attached : (s.hosts host).connection = some connection)
    (here : s.links connection = some link) : link.host = host :=
  (wired.owner (wired.device attached) here).1

variable [DecidableEq Conn]

omit [Inhabited Url] in
theorem links_setLink {link other : Link Host Url} {c : Conn} (there : (s.setLink connection link).links c = some other) :
    c = connection ∧ other = link ∨ c ≠ connection ∧ s.links c = some other := by
  obtain ⟨rfl, same⟩ | elsewhere := update_some there
  · exact .inl ⟨rfl, (Option.some.inj same).symm⟩
  · exact .inr elsewhere

omit [Inhabited Url] in
theorem setLink_self {link : Link Host Url} : (s.setLink connection link).links connection = some link := Function.update_self ..

omit [Inhabited Url] in
theorem setLink_other {link : Link Host Url} {c : Conn} (apart : c ≠ connection) : (s.setLink connection link).links c = s.links c :=
  Function.update_of_ne apart ..

/-- A link with the same host and the same end of the client takes the place of another. -/
theorem Wired.setLink (wired : Wired hosts s) {link later : Link Host Url} (here : s.links connection = some link)
    (sameHost : later.host = link.host) (sameEnd : later.clientOpen = link.clientOpen)
    (good : later.Wired hosts (s.hosts link.host) connection) : Wired hosts (s.setLink connection later) := by
  have moved : ∀ c other, s.links c = some other → ∃ after, (s.setLink connection later).links c = some after ∧
      after.host = other.host ∧ after.clientOpen = other.clientOpen := by
    intro c other there
    by_cases same : c = connection
    · subst same
      obtain rfl := Option.some.inj (here.symm.trans there)
      exact ⟨later, setLink_self, sameHost, sameEnd⟩
    · exact ⟨other, (setLink_other same).trans there, rfl, rfl⟩
  constructor
  · exact wired.nodes
  · intro c other there
    obtain ⟨rfl, rfl⟩ | ⟨_, before⟩ := links_setLink there
    · rw [sameHost]
      exact good
    · exact wired.links c other before
  · intro host c device
    obtain ⟨other, there, owned, isOpen⟩ := wired.devices host c device
    obtain ⟨after, now, sameHost, sameEnd⟩ := moved c other there
    exact ⟨after, now, sameHost.trans owned, sameEnd.trans isOpen⟩
  · intro c url known
    obtain ⟨other, there, same⟩ := wired.mapped c url known
    obtain ⟨after, now, sameHost, _⟩ := moved c other there
    exact ⟨after, now, same.trans (by rw [sameHost])⟩

omit [DecidableEq Conn] in
/-- The registry changes and sends signals. -/
theorem Wired.invoked (wired : Wired hosts s) {result : RegistryHost Conn Url × List (Signal Url)}
    (mapped : ∀ connection url, result.1.m_registryMapping connection = some url →
      ∃ link, s.links connection = some link ∧ url = hosts.url (some link.host)) : Wired hosts (s.invoked result) := by
  constructor
  · exact wired.nodes
  · intro c other there
    obtain ⟨link, before, rfl⟩ := Option.map_eq_some_iff.mp there
    have good := wired.links c link before
    split
    · constructor
      · exact good.current
      · exact good.requested
      · intro isOpen reason
        apply good.answered isOpen
        obtain asked | listening | ⟨locations, member⟩ := reason
        · exact .inl asked
        · exact .inr (.inl listening)
        · obtain member | signal := List.mem_append.mp member
          · exact .inr (.inr ⟨locations, member⟩)
          · obtain ⟨_, _, same⟩ := List.mem_map.mp signal
            cases same
    · exact good
  · intro host c device
    obtain ⟨link, there, owned, isOpen⟩ := wired.devices host c device
    refine ⟨_, Option.map_eq_some_iff.mpr ⟨link, there, rfl⟩, ?_⟩
    split <;> exact ⟨owned, isOpen⟩
  · intro c url known
    obtain ⟨link, there, same⟩ := mapped c url known
    refine ⟨_, Option.map_eq_some_iff.mpr ⟨link, there, rfl⟩, ?_⟩
    split <;> exact same

variable [DecidableEq Host]

omit [Inhabited Url] in
theorem hosts_send (s : Network Conn Host Url) (host : Host) (result : HostNode Conn Url × List (Request Url)) :
    (s.send host result).hosts host = result.1 ∧ ∀ other, other ≠ host → (s.send host result).hosts other = s.hosts other :=
  ⟨Function.update_self .., fun _ apart => Function.update_of_ne apart ..⟩

/-- A host changes but for its device, and sends requests for its own sources. -/
theorem Wired.send (wired : Wired hosts s) {result : HostNode Conn Url × List (Request Url)} (good : result.1.Wired hosts host)
    (device : result.1.device = (s.hosts host).device)
    (keeps : (s.hosts host).connection ≠ none → result.1.connection = (s.hosts host).connection)
    (urls : ∀ slot, .invoke slot ∈ result.2 → slot.entry.info.hostUrl = hosts.url (some host)) :
    Wired hosts (s.send host result) := by
  have own : ∀ c link, s.links c = some link → result.1.connection = some c → link.host = host := by
    intro c link here attached
    obtain none | same := good.attached
    · rw [none] at attached
      contradiction
    · exact (wired.owner (device.symm.trans (same.symm.trans attached)) here).1
  obtain ⟨self, rest⟩ := hosts_send s host result
  have devices : ∀ other, ((s.send host result).hosts other).device = (s.hosts other).device := by
    intro other
    by_cases same : other = host
    · rw [same, self, device]
    · rw [rest other same]
  constructor
  · intro other
    by_cases same : other = host
    · rw [same, self]
      exact good
    · rw [rest other same]
      exact wired.nodes other
  · intro c other there
    obtain ⟨link, before, rfl⟩ := Option.map_eq_some_iff.mp there
    have linked := wired.links c link before
    split
    · rename_i attached
      obtain rfl := own c link before attached
      constructor
      · intro isOpen
        exact (devices link.host).trans (linked.current isOpen)
      · intro slot member
        obtain member | member := List.mem_append.mp member
        · exact linked.requested slot member
        · exact urls slot member
      · intro _ _
        rw [self]
        exact attached
    · rename_i detached
      constructor
      · intro isOpen
        exact (devices link.host).trans (linked.current isOpen)
      · exact linked.requested
      · intro isOpen reason
        have answered := linked.answered isOpen reason
        by_cases same : link.host = host
        · subst same
          rw [self, keeps (by rw [answered]; exact Option.some_ne_none c)]
          exact answered
        · rw [rest link.host same]
          exact answered
  · intro other c there
    have before : (s.hosts other).device = some c := (devices other).symm.trans there
    obtain ⟨link, here, owned, isOpen⟩ := wired.devices other c before
    refine ⟨_, Option.map_eq_some_iff.mpr ⟨link, here, rfl⟩, ?_⟩
    split <;> exact ⟨owned, isOpen⟩
  · intro c url known
    obtain ⟨link, there, same⟩ := wired.mapped c url known
    refine ⟨_, Option.map_eq_some_iff.mpr ⟨link, there, rfl⟩, ?_⟩
    split <;> exact same

omit [Inhabited Url] [DecidableEq Conn] [DecidableEq Host] in
theorem withRegistry_none {node : HostNode Conn Url} (none : node.registry = none)
    (change : HostRegistry Conn Url → HostRegistry Conn Url × List (Slot Url)) : node.withRegistry change = (node, []) := by
  rw [HostNode.withRegistry, none]

omit [Inhabited Url] [DecidableEq Conn] [DecidableEq Host] in
theorem withRegistry_some {node : HostNode Conn Url} {r : HostRegistry Conn Url} (here : node.registry = some r)
    (change : HostRegistry Conn Url → HostRegistry Conn Url × List (Slot Url)) :
    node.withRegistry change = ({ node with registry := some (change r).1 }, (change r).2.map .invoke) := by
  rw [HostNode.withRegistry, here]

/-- How the registry of a host may change, and what it may send: it stays attached as it is, and is only valid when attached. -/
structure HostRegistry.Changed (hosts : Hosts Host Url) (host : Host) (r : HostRegistry Conn Url)
    (result : HostRegistry Conn Url × List (Slot Url)) : Prop where
  connection : result.1.connectionToSource = r.connectionToSource
  valid : result.1.state = .valid → r.connectionToSource ≠ none
  hosted : ∀ entry ∈ result.1.hostedSources, entry.info.hostUrl = hosts.url (some host)
  sent : ∀ slot ∈ result.2, slot.entry.info.hostUrl = hosts.url (some host)

theorem Wired.change (wired : Wired hosts s) {node : HostNode Conn Url} (registry : node.registry = (s.hosts host).registry)
    (device : node.device = (s.hosts host).device) {change : HostRegistry Conn Url → HostRegistry Conn Url × List (Slot Url)}
    (changed : ∀ r, (s.hosts host).registry = some r → r.Changed hosts host (change r)) :
    Wired hosts (s.send host (node.withRegistry change)) := by
  have good := wired.nodes host
  have connection : node.connection = (s.hosts host).connection := by
    rw [HostNode.connection, registry]
    rfl
  cases here : (s.hosts host).registry with
  | none =>
    rw [withRegistry_none (registry.trans here)]
    apply wired.send
    · constructor
      · rw [connection, device]
        exact good.attached
      · rw [registry]
        exact good.valid
      · rw [registry]
        exact good.hosted
    · exact device
    · intro _
      exact connection
    · intro _ none
      contradiction
  | some r =>
    obtain ⟨same, valid, hosted, sent⟩ := changed r here
    have attached : (s.hosts host).connection = r.connectionToSource := by
      rw [HostNode.connection, here]
      rfl
    rw [withRegistry_some (registry.trans here)]
    apply wired.send
    · constructor
      · change (change r).1.connectionToSource = none ∨ (change r).1.connectionToSource = node.device
        rw [same, device, ← attached]
        exact good.attached
      · rintro _ ⟨⟩ isValid
        rw [same]
        exact valid isValid
      · rintro _ ⟨⟩
        exact hosted
    · exact device
    · intro _
      exact same.trans attached.symm
    · intro slot member
      obtain ⟨_, sends, ⟨⟩⟩ := List.mem_map.mp member
      exact sent _ sends

section Registries
omit [DecidableEq Conn] [DecidableEq Host]
variable {r : HostRegistry Conn Url} {entry : SourceLocation Url}
  (valid : r.state = .valid → r.connectionToSource ≠ none)
  (hosted : ∀ entry ∈ r.hostedSources, entry.info.hostUrl = hosts.url (some host))
  (url : entry.info.hostUrl = hosts.url (some host))

include valid hosted url in
theorem changed_addSource : r.Changed hosts host (r.addSource entry) := by
  have more : ∀ other ∈ entry :: r.hostedSources, other.info.hostUrl = hosts.url (some host) :=
    List.forall_mem_cons.mpr ⟨url, hosted⟩
  unfold HostRegistry.addSource
  dsimp only
  split
  · exact ⟨rfl, valid, hosted, fun _ none => (nomatch none)⟩
  · split
    · exact ⟨rfl, valid, more, fun _ none => (nomatch none)⟩
    · split
      · exact ⟨rfl, valid, more, fun _ none => (nomatch none)⟩
      · refine ⟨rfl, valid, more, fun slot sent => ?_⟩
        obtain rfl := List.mem_singleton.mp sent
        exact url

include valid hosted url in
theorem changed_removeSource : r.Changed hosts host (r.removeSource entry) := by
  have fewer : ∀ other ∈ r.hostedSources.filter fun hosted => hosted.name ≠ entry.name, other.info.hostUrl = hosts.url (some host) :=
    fun other member => hosted other (List.mem_of_mem_filter member)
  unfold HostRegistry.removeSource
  dsimp only
  split
  · split
    · exact ⟨rfl, valid, fewer, fun _ none => (nomatch none)⟩
    · refine ⟨rfl, valid, fewer, fun slot sent => ?_⟩
      obtain rfl := List.mem_singleton.mp sent
      exact url
  · exact ⟨rfl, valid, hosted, fun _ none => (nomatch none)⟩

include valid hosted in
/-- An init packet comes only to a replica that is attached. -/
theorem changed_read {packet : Packet Url} (asked : ∀ locations, packet = .snapshot locations → r.connectionToSource ≠ none) :
    r.Changed hosts host (r.read packet) := by
  have attached : (r.toRegistryReplica.read packet).state ≠ r.state → r.connectionToSource ≠ none := by
    intro changed
    cases packet with
    | snapshot locations => exact asked locations rfl
    | update change => exact absurd (state_update change) changed
  unfold HostRegistry.read
  dsimp only
  split
  · rename_i same
    exact ⟨rfl, fun isValid => valid (same ▸ isValid), hosted, fun _ none => (nomatch none)⟩
  · rename_i other
    have here := attached other
    unfold HostRegistry.pushToRegistryIfNeeded
    split
    · exact ⟨rfl, fun _ => here, hosted, fun _ none => (nomatch none)⟩
    · refine ⟨rfl, fun _ => here, fun entry member => hosted entry (List.mem_of_mem_filter member), fun slot sent => ?_⟩
      obtain ⟨entry, member, rfl⟩ := List.mem_map.mp sent
      exact hosted entry (List.mem_of_mem_filter member)

include valid in
omit [Inhabited Url] in
/-- A replica that has lost its connection is not valid. -/
theorem setDisconnected_spec : r.setDisconnected.connectionToSource = none ∧ r.setDisconnected.state ≠ .valid ∧
    r.setDisconnected.hostedSources = r.hostedSources := by
  unfold HostRegistry.setDisconnected
  split
  · refine ⟨rfl, ?_, rfl⟩
    change (r.toRegistryReplica.setState .suspect).state ≠ .valid
    unfold RegistryReplica.setState
    split
    · rename_i late
      intro isValid
      rw [isValid] at late
      exact absurd late.2 (by decide)
    · exact fun isValid => nomatch isValid
  · rename_i detached
    have none := Option.not_isSome_iff_eq_none.mp detached
    exact ⟨none, fun isValid => valid isValid none, rfl⟩

end Registries

omit [Inhabited Url] in
theorem send_nil (s : Network Conn Host Url) (host : Host) (node : HostNode Conn Url) :
    s.send host (node, []) = { s with hosts := Function.update s.hosts host node } := by
  unfold Network.send
  congr 1
  funext c
  cases s.links c with
  | none => rfl
  | some link => simp only [Option.map_some, List.append_nil, ite_self]

omit [Inhabited Url] [DecidableEq Conn] [DecidableEq Host] in
/-- The list of objects attaches a replica that is not attached. -/
theorem onClientRead_objectList (node : HostNode Conn Url) (connection : Conn) :
    node.onClientRead connection .objectList = (node, []) ∨
      ∃ r, node.registry = some r ∧ r.connectionToSource = none ∧ node.onClientRead connection .objectList =
        ({ node with registry := some { r with connectionToSource := some connection } }, [.addObject]) := by
  cases registry : node.registry with
  | none =>
    left
    rw [HostNode.onClientRead, registry]
  | some r =>
    cases attached : r.connectionToSource with
    | none =>
      refine .inr ⟨r, rfl, attached, ?_⟩
      simp only [HostNode.onClientRead, registry, attached, Option.isSome_none, Bool.false_eq_true, ↓reduceIte]
    | some other =>
      left
      simp only [HostNode.onClientRead, registry, attached, Option.isSome_some, ↓reduceIte]

theorem Wired.connect (wired : Wired hosts s) (new : s.links connection = none) (free : (s.hosts host).device = none) :
    Wired hosts { s.setLink connection (⟨host, true, true, false, [], [.objectList]⟩ : Link Host Url) with
      hosts := Function.update s.hosts host { s.hosts host with device := some connection } } := by
  have apart : ∀ c link, s.links c = some link → c ≠ connection := by
    rintro c link here rfl
    rw [new] at here
    contradiction
  constructor
  · intro other
    by_cases same : other = host
    · subst same
      simp only [Function.update_self]
      obtain ⟨attached, valid, hosted⟩ := wired.nodes other
      rw [free, or_self] at attached
      exact ⟨.inl attached, valid, hosted⟩
    · simp only [Function.update_of_ne same]
      exact wired.nodes other
  · intro c other there
    obtain ⟨rfl, rfl⟩ | ⟨_, before⟩ := links_setLink there
    · constructor
      · intro _
        simp only [Function.update_self]
      · intro _ none
        contradiction
      · rintro _ (none | deaf | ⟨locations, member⟩)
        · contradiction
        · contradiction
        · cases List.mem_singleton.mp member
    · obtain ⟨current, requested, answered⟩ := wired.links c other before
      by_cases same : other.host = host
      · subst same
        have closed : other.clientOpen ≠ true := by
          intro isOpen
          rw [free] at current
          exact Option.some_ne_none c (current isOpen).symm
        exact ⟨fun isOpen => absurd isOpen closed, requested, fun isOpen => absurd isOpen closed⟩
      · simp only [Function.update_of_ne same]
        exact ⟨current, requested, answered⟩
  · intro other c device
    by_cases same : other = host
    · subst same
      simp only [Function.update_self, Option.some.injEq] at device
      subst device
      exact ⟨_, setLink_self, rfl, rfl⟩
    · simp only [Function.update_of_ne same] at device
      obtain ⟨link, here, owned⟩ := wired.devices other c device
      exact ⟨link, (setLink_other (apart c link here)).trans here, owned⟩
  · intro c url known
    obtain ⟨link, here, same⟩ := wired.mapped c url known
    exact ⟨link, (setLink_other (apart c link here)).trans here, same⟩

theorem Wired.lost (wired : Wired hosts s) {link : Link Host Url} (here : s.links connection = some link) (isOpen : link.clientOpen = true) :
    Wired hosts { s.setLink connection { link with clientOpen := false, messages := [] } with
      hosts := Function.update s.hosts link.host
        { s.hosts link.host with registry := (s.hosts link.host).registry.map HostRegistry.setDisconnected, device := none } } := by
  have device := (wired.links connection link here).current isOpen
  constructor
  · intro other
    by_cases same : other = link.host
    · subst same
      simp only [Function.update_self]
      obtain ⟨_, valid, hosted⟩ := wired.nodes link.host
      constructor
      · left
        cases registry : (s.hosts link.host).registry with
        | none => simp only [HostNode.connection, Option.map_none, Option.bind_none]
        | some r =>
          simp only [HostNode.connection, Option.map_some, Option.bind_some]
          exact (setDisconnected_spec (valid r registry)).1
      · intro _ changed isValid
        obtain ⟨r, registry, rfl⟩ := Option.map_eq_some_iff.mp changed
        exact absurd isValid (setDisconnected_spec (valid r registry)).2.1
      · intro _ changed entry member
        obtain ⟨r, registry, rfl⟩ := Option.map_eq_some_iff.mp changed
        rw [(setDisconnected_spec (valid r registry)).2.2] at member
        exact hosted r registry entry member
    · simp only [Function.update_of_ne same]
      exact wired.nodes other
  · intro c other there
    obtain ⟨rfl, rfl⟩ | ⟨apart, before⟩ := links_setLink there
    · constructor
      · intro opened
        contradiction
      · exact (wired.links c link here).requested
      · intro opened
        contradiction
    · obtain ⟨current, requested, answered⟩ := wired.links c other before
      by_cases same : other.host = link.host
      · have closed : other.clientOpen ≠ true := by
          intro opened
          rw [same, device] at current
          exact apart (Option.some.inj (current opened)).symm
        exact ⟨fun opened => absurd opened closed, requested, fun opened => absurd opened closed⟩
      · simp only [Function.update_of_ne same]
        exact ⟨current, requested, answered⟩
  · intro other c there
    by_cases same : other = link.host
    · subst same
      simp only [Function.update_self, reduceCtorEq] at there
    · simp only [Function.update_of_ne same] at there
      obtain ⟨before, present, owned⟩ := wired.devices other c there
      have apart : c ≠ connection := by
        rintro rfl
        obtain rfl := Option.some.inj (here.symm.trans present)
        exact same owned.1.symm
      exact ⟨before, (setLink_other apart).trans present, owned⟩
  · intro c url known
    obtain ⟨before, present, url⟩ := wired.mapped c url known
    by_cases same : c = connection
    · subst same
      obtain rfl := Option.some.inj (here.symm.trans present)
      exact ⟨_, setLink_self, url⟩
    · exact ⟨before, (setLink_other same).trans present, url⟩

variable [DecidableEq Url]

omit [DecidableEq Conn] [DecidableEq Host] in
theorem Wired.invoke (wired : Wired hosts s) (own : Name → Option Name) (slot : Slot Url) :
    Wired hosts (Network.invoked { s with own } (s.registry.invoke slot)) := by
  apply Wired.invoked (s := { s with own }) ⟨wired.nodes, wired.links, wired.devices, wired.mapped⟩
  exact wired.mapped

omit [DecidableEq Host] in
theorem Wired.serverRead (wired : Wired hosts s) {link : Link Host Url} (here : s.links connection = some link) {slot : Slot Url}
    {requests : List (Request Url)} (first : link.requests = .invoke slot :: requests) :
    Wired hosts ((s.setLink connection { link with requests }).invoked (s.registry.onServerRead connection slot)) := by
  obtain ⟨current, requested, answered⟩ := wired.links connection link here
  rw [first] at requested answered
  have read : Wired hosts (s.setLink connection { link with requests }) := by
    refine wired.setLink here rfl rfl ?_
    constructor
    · exact current
    · intro other member
      exact requested other (List.mem_cons_of_mem _ member)
    · intro isOpen reason
      exact answered isOpen (reason.imp_left (List.mem_cons_of_mem _))
  apply read.invoked
  intro c url known
  change s.registry.mapped connection slot c = some url at known
  unfold RegistryHost.mapped at known
  split at known
  · exact read.mapped c url known
  · obtain ⟨rfl, same⟩ | ⟨_, before⟩ := update_some known
    · obtain rfl := Option.some.inj same
      exact ⟨_, setLink_self, requested slot List.mem_cons_self⟩
    · exact read.mapped c url before

omit [DecidableEq Url] in
theorem Wired.clientRead (wired : Wired hosts s) {link : Link Host Url} (here : s.links connection = some link)
    (isOpen : link.clientOpen = true) {message : Message Url} {messages : List (Message Url)} (first : link.messages = message :: messages) :
    Wired hosts ((s.setLink connection { link with messages }).send link.host ((s.hosts link.host).onClientRead connection message)) := by
  obtain ⟨current, requested, answered⟩ := wired.links connection link here
  rw [first] at answered
  have read : Wired hosts (s.setLink connection { link with messages }) := by
    refine wired.setLink here rfl rfl ?_
    constructor
    · exact current
    · exact requested
    · intro isOpen reason
      apply answered isOpen
      obtain asked | listening | ⟨locations, member⟩ := reason
      · exact .inl asked
      · exact .inr (.inl listening)
      · exact .inr (.inr ⟨locations, List.mem_cons_of_mem _ member⟩)
  obtain ⟨attached, valid, hosted⟩ := wired.nodes link.host
  have idle : Wired hosts ((s.setLink connection { link with messages }).send link.host (s.hosts link.host, [])) := by
    apply read.send ⟨attached, valid, hosted⟩ rfl
    · intro _
      rfl
    · intro _ none
      contradiction
  cases message with
  | objectList =>
    obtain same | ⟨r, registry, detached, attaches⟩ := onClientRead_objectList (s.hosts link.host) connection
    · rw [same]
      exact idle
    · rw [attaches]
      apply read.send
      · constructor
        · right
          exact (current isOpen).symm
        · rintro _ ⟨⟩ _
          exact Option.some_ne_none connection
        · rintro _ ⟨⟩
          exact hosted r registry
      · rfl
      · intro before
        refine absurd ?_ before
        change (s.hosts link.host).registry.bind (·.connectionToSource) = none
        rw [registry]
        exact detached
      · intro slot member
        cases List.mem_singleton.mp member
  | registry packet =>
    apply read.change rfl rfl
    intro r registry
    apply changed_read (valid r registry) (hosted r registry)
    rintro locations rfl
    have asked := answered isOpen (.inr (.inr ⟨locations, List.mem_cons_self⟩))
    rw [HostNode.connection, show (s.hosts link.host).registry = some r from registry] at asked
    rw [show r.connectionToSource = some connection from asked]
    exact Option.some_ne_none connection

omit [DecidableEq Host] in
theorem Wired.serverDisconnect (wired : Wired hosts s) {link : Link Host Url} (here : s.links connection = some link) :
    Wired hosts { s.setLink connection { link with serverOpen := false, listening := false, requests := [] } with
      registry := s.registry.onServerDisconnect connection } := by
  obtain ⟨current, _, answered⟩ := wired.links connection link here
  have ended : Wired hosts (s.setLink connection { link with serverOpen := false, listening := false, requests := [] }) := by
    refine wired.setLink here rfl rfl ?_
    constructor
    · exact current
    · intro _ none
      contradiction
    · rintro isOpen (none | deaf | snapshot)
      · contradiction
      · contradiction
      · exact answered isOpen (.inr (.inr snapshot))
  refine ⟨ended.nodes, ended.links, ended.devices, fun c url known => ?_⟩
  change Function.update s.registry.m_registryMapping connection none c = some url at known
  obtain ⟨_, none⟩ | ⟨_, before⟩ := update_some known
  · contradiction
  · exact ended.mapped c url before

/-- What each event needs and does. -/
theorem step_cases {e : Event Conn Host} (stepped : step hosts s e = some t) :
    match e with
    | .setRegistryUrl host =>
      (s.hosts host).registry = none ∧ t = s.send host ({ s.hosts host with registry := some .new }, [])
    | .enableRemoting (some host) name typeName =>
      (s.hosts host).m_sourceRoots name = none ∧
        t = s.send host (HostNode.withRegistry
          { s.hosts host with m_sourceRoots := Function.update (s.hosts host).m_sourceRoots name (some typeName) }
          fun r => r.addSource ⟨name, ⟨typeName, hosts.url (some host)⟩⟩)
    | .disableRemoting (some host) name =>
      ∃ typeName, (s.hosts host).m_sourceRoots name = some typeName ∧
        t = s.send host (HostNode.withRegistry
          { s.hosts host with m_sourceRoots := Function.update (s.hosts host).m_sourceRoots name none }
          fun r => r.removeSource ⟨name, ⟨typeName, hosts.url (some host)⟩⟩)
    | .enableRemoting none name typeName =>
      s.own name = none ∧ t = Network.invoked { s with own := Function.update s.own name (some typeName) }
        (s.registry.invoke (.addSource ⟨name, ⟨typeName, hosts.url none⟩⟩))
    | .disableRemoting none name =>
      ∃ typeName, s.own name = some typeName ∧ t = Network.invoked { s with own := Function.update s.own name none }
        (s.registry.invoke (.removeSource ⟨name, ⟨typeName, hosts.url none⟩⟩))
    | .connect host connection =>
      s.links connection = none ∧ (s.hosts host).registry.isSome ∧ (s.hosts host).device = none ∧
        t = { s.setLink connection ⟨host, true, true, false, [], [.objectList]⟩ with
          hosts := Function.update s.hosts host { s.hosts host with device := some connection } }
    | .onServerRead connection =>
      ∃ link, s.links connection = some link ∧ link.serverOpen = true ∧
        ((∃ requests, link.requests = .addObject :: requests ∧ t = s.setLink connection { link with
          listening := true, requests, messages := link.messages ++ [.registry (.snapshot s.locations)] }) ∨
        ∃ slot requests, link.requests = .invoke slot :: requests ∧
          t = (s.setLink connection { link with requests }).invoked (s.registry.onServerRead connection slot))
    | .onClientRead connection =>
      ∃ link message messages, s.links connection = some link ∧ link.clientOpen = true ∧ link.messages = message :: messages ∧
        t = (s.setLink connection { link with messages }).send link.host
          ((s.hosts link.host).onClientRead connection message)
    | .onServerDisconnect connection =>
      ∃ link, s.links connection = some link ∧ link.serverOpen = true ∧
        t = { s.setLink connection { link with serverOpen := false, listening := false, requests := [] } with
          registry := s.registry.onServerDisconnect connection }
    | .onShouldReconnect connection =>
      ∃ link, s.links connection = some link ∧ link.clientOpen = true ∧
        t = { s.setLink connection { link with clientOpen := false, messages := [] } with
          hosts := Function.update s.hosts link.host { s.hosts link.host with
            registry := (s.hosts link.host).registry.map HostRegistry.setDisconnected, device := none } } := by
  cases e with
  | setRegistryUrl host =>
    simp only [step, Option.ite_none_left_eq_some, Option.some.injEq] at stepped
    obtain ⟨unset, rfl⟩ := stepped
    exact ⟨Option.not_isSome_iff_eq_none.mp unset, (send_nil s host _).symm⟩
  | enableRemoting host name typeName =>
    cases host with
    | none =>
      simp only [step, Option.ite_none_left_eq_some, Option.some.injEq] at stepped
      exact ⟨Option.not_isSome_iff_eq_none.mp stepped.1, stepped.2.symm⟩
    | some host =>
      simp only [step, Option.ite_none_left_eq_some, Option.some.injEq] at stepped
      exact ⟨Option.not_isSome_iff_eq_none.mp stepped.1, stepped.2.symm⟩
  | disableRemoting host name =>
    cases host with
    | none =>
      simp only [step, Option.bind_eq_bind, Option.bind_eq_some_iff, Option.some.injEq] at stepped
      obtain ⟨typeName, there, rfl⟩ := stepped
      exact ⟨typeName, there, rfl⟩
    | some host =>
      simp only [step, Option.bind_eq_bind, Option.bind_eq_some_iff, Option.some.injEq] at stepped
      obtain ⟨typeName, there, rfl⟩ := stepped
      exact ⟨typeName, there, rfl⟩
  | connect host connection =>
    simp only [step, Option.ite_none_right_eq_some, Option.some.injEq] at stepped
    obtain ⟨⟨new, set, free⟩, rfl⟩ := stepped
    exact ⟨Option.isNone_iff_eq_none.mp new, set, Option.isNone_iff_eq_none.mp free, rfl⟩
  | onServerRead connection =>
    simp only [step, Option.bind_eq_bind, Option.bind_eq_some_iff, Option.ite_none_right_eq_some] at stepped
    obtain ⟨link, here, isOpen, stepped⟩ := stepped
    refine ⟨link, here, isOpen, ?_⟩
    split at stepped
    · rename_i requests first
      exact .inl ⟨requests, first, (Option.some.inj stepped).symm⟩
    · rename_i slot requests first
      exact .inr ⟨slot, requests, first, (Option.some.inj stepped).symm⟩
    · contradiction
  | onClientRead connection =>
    simp only [step, Option.bind_eq_bind, Option.bind_eq_some_iff, Option.ite_none_right_eq_some] at stepped
    obtain ⟨link, here, isOpen, stepped⟩ := stepped
    split at stepped
    · rename_i message messages first
      exact ⟨link, message, messages, here, isOpen, first, (Option.some.inj stepped).symm⟩
    · contradiction
  | onServerDisconnect connection =>
    simp only [step, Option.bind_eq_bind, Option.bind_eq_some_iff, Option.ite_none_right_eq_some, Option.some.injEq] at stepped
    obtain ⟨link, here, isOpen, rfl⟩ := stepped
    exact ⟨link, here, isOpen, rfl⟩
  | onShouldReconnect connection =>
    simp only [step, Option.bind_eq_bind, Option.bind_eq_some_iff, Option.ite_none_right_eq_some, Option.some.injEq] at stepped
    obtain ⟨link, here, isOpen, rfl⟩ := stepped
    exact ⟨link, here, isOpen, rfl⟩

theorem wired_step {e : Event Conn Host} (wired : Wired hosts s) (stepped : step hosts s e = some t) : Wired hosts t := by
  have does := step_cases stepped
  cases e with
  | setRegistryUrl host =>
    obtain ⟨unset, rfl⟩ := does
    have none : (s.hosts host).connection = none := by
      rw [HostNode.connection, unset]
      rfl
    apply wired.send
    · constructor
      · exact .inl rfl
      · rintro _ ⟨⟩ isValid
        contradiction
      · rintro _ ⟨⟩ _ member
        contradiction
    · rfl
    · intro attached
      exact absurd none attached
    · intro _ member
      contradiction
  | enableRemoting host name typeName =>
    cases host with
    | none =>
      obtain ⟨_, rfl⟩ := does
      exact wired.invoke _ _
    | some host =>
      obtain ⟨_, rfl⟩ := does
      apply wired.change
      · rfl
      · rfl
      · intro r registry
        exact changed_addSource ((wired.nodes host).valid r registry) ((wired.nodes host).hosted r registry) rfl
  | disableRemoting host name =>
    cases host with
    | none =>
      obtain ⟨typeName, _, rfl⟩ := does
      exact wired.invoke _ _
    | some host =>
      obtain ⟨typeName, _, rfl⟩ := does
      apply wired.change
      · rfl
      · rfl
      · intro r registry
        exact changed_removeSource ((wired.nodes host).valid r registry) ((wired.nodes host).hosted r registry) rfl
  | connect host connection =>
    obtain ⟨new, _, free, rfl⟩ := does
    exact wired.connect new free
  | onServerRead connection =>
    obtain ⟨link, here, _, ⟨requests, first, rfl⟩ | ⟨slot, requests, first, rfl⟩⟩ := does
    · obtain ⟨current, requested, answered⟩ := wired.links connection link here
      rw [first] at requested answered
      refine wired.setLink here rfl rfl ?_
      constructor
      · exact current
      · intro other member
        exact requested other (List.mem_cons_of_mem _ member)
      · intro isOpen _
        exact answered isOpen (.inl List.mem_cons_self)
    · exact wired.serverRead here first
  | onClientRead connection =>
    obtain ⟨link, message, messages, here, isOpen, first, rfl⟩ := does
    exact wired.clientRead here isOpen first
  | onServerDisconnect connection =>
    obtain ⟨link, here, _, rfl⟩ := does
    exact wired.serverDisconnect here
  | onShouldReconnect connection =>
    obtain ⟨link, here, isOpen, rfl⟩ := does
    exact wired.lost here isOpen

end Invariant
end RemoteObjects.Registry.Registration
