import RemoteObjects.Registry.Requests
import RemoteObjects.Registry.Sessions

/-! Sources that are enabled and the entries of the registry for them. -/
namespace RemoteObjects.Registry.Registration
open Host (Name)
open Registry.Agreement (Request)
open Ownership (Hosts)
open Transition

section Invariant
variable {Conn Host Url : Type} [Inhabited Url] [DecidableEq Url] {hosts : Hosts Host Url} {s t : Network Conn Host Url}
  {host : Host} {connection : Conn} {name : Name} {e : Event Conn Host}

/-- Where the registry of a host is valid, what is under way to the registry makes for an entry of a source that is
enabled. -/
structure Kept (hosts : Hosts Host Url) (host : Host) (name : Name) (s : Network Conn Host Url) : Prop where
  hosted : ∀ r, (s.hosts host).registry = some r → (r.HasSource name ↔ (s.hosts host).m_sourceRoots name ≠ none)
  underway : ∀ r connection link, (s.hosts host).registry = some r → r.state = .valid → r.connectionToSource = some connection →
    s.links connection = some link → link.serverOpen = true → (s.hosts host).m_sourceRoots name ≠ none →
      WillBe name (holds hosts (some host) name s.locations) link.requests

/-- A host that is not concerned keeps what is under way. -/
theorem Kept.frame (kept : Kept hosts host name s) (same : t.hosts host = s.hosts host)
    (requests : ∀ connection link, (s.hosts host).connection = some connection → t.links connection = some link →
      link.serverOpen = true → Enabled s name (some host) → HasRegistry s (some host) → ∃ before, s.links connection = some before ∧
        before.serverOpen = true ∧ (WillBe name (holds hosts (some host) name s.locations) before.requests →
          WillBe name (holds hosts (some host) name t.locations) link.requests)) : Kept hosts host name t := by
  constructor
  · rw [same]
    exact kept.hosted
  · intro r connection link registry valid attached here isOpen enabled
    rw [same] at registry enabled
    have connected : (s.hosts host).connection = some connection := by
      rw [HostNode.connection, registry]
      exact attached
    obtain ⟨before, there, wasOpen, follows⟩ := requests connection link connected here isOpen enabled ⟨r, registry, valid⟩
    exact follows (kept.underway r connection before registry valid attached there wasOpen enabled)

variable [DecidableEq Conn] [DecidableEq Host]

/-- What another host sends is not on the connection of this one. -/
theorem Kept.other (kept : Kept hosts host name s) {other : Host} {result : HostNode Conn Url × List (Request Url)}
    (wired : Wired hosts (s.send other result)) (apart : host ≠ other) : Kept hosts host name (s.send other result) := by
  obtain ⟨self, rest⟩ := hosts_send s other result
  apply kept.frame (rest host apart)
  intro connection link attached here isOpen _ _
  have owner : link.host = host := by
    apply wired.attachedHost _ here
    rw [rest host apart]
    exact attached
  obtain ⟨before, there, rfl⟩ := Option.map_eq_some_iff.mp here
  split at isOpen
  · rename_i sends
    refine absurd (owner.symm.trans ?_) apart
    apply wired.attachedHost _ here
    rw [self]
    exact sends
  · rename_i silent
    refine ⟨before, there, isOpen, fun willBe => ?_⟩
    rw [if_neg silent]
    exact willBe

theorem Kept.change (kept : Kept hosts host name s) {node : HostNode Conn Url} (registry : node.registry = (s.hosts host).registry)
    {change : HostRegistry Conn Url → HostRegistry Conn Url × List (Slot Url)}
    (attached : ∀ r, (s.hosts host).registry = some r → (change r).1.connectionToSource = r.connectionToSource)
    (follows : ∀ r, (s.hosts host).registry = some r → r.Follows name (s.hosts host).m_sourceRoots node.m_sourceRoots (change r)) :
    Kept hosts host name (s.send host (node.withRegistry change)) := by
  have self := (hosts_send s host (node.withRegistry change)).1
  cases here : (s.hosts host).registry with
  | none =>
    rw [withRegistry_none (registry.trans here)] at self ⊢
    constructor
    · intro r there
      rw [self, registry, here] at there
      contradiction
    · intro r _ _ there
      rw [self, registry, here] at there
      contradiction
  | some r =>
    obtain ⟨hosted, sent⟩ := follows r here
    rw [withRegistry_some (registry.trans here)] at self ⊢
    constructor
    · rw [self]
      rintro _ ⟨⟩
      exact hosted
    · rw [self]
      rintro _ connection link ⟨⟩ valid connected linked isOpen enabled
      obtain ⟨before, there, rfl⟩ := Option.map_eq_some_iff.mp linked
      have sends : (HostNode.connection { node with registry := some (change r).1 }) = some connection := connected
      simp only [if_pos sends] at isOpen ⊢
      apply sent _ _ valid enabled
      intro valid enabled
      exact kept.underway r connection before here valid ((attached r here).symm.trans connected) there isOpen enabled

omit [Inhabited Url] [DecidableEq Url] [DecidableEq Conn] [DecidableEq Host] in
theorem links_invoked {result : RegistryHost Conn Url × List (Signal Url)} {link : Link Host Url}
    (here : (s.invoked result).links connection = some link) : ∃ before, s.links connection = some before ∧
      before.serverOpen = link.serverOpen ∧ before.requests = link.requests := by
  obtain ⟨before, there, rfl⟩ := Option.map_eq_some_iff.mp here
  refine ⟨before, there, ?_⟩
  split <;> exact ⟨rfl, rfl⟩

omit [DecidableEq Host] [DecidableEq Conn] in
theorem Kept.own (kept : Kept hosts host name s) {slot : Slot Url} (foreign : slot.entry.info.hostUrl ≠ hosts.url (some host))
    (own : Name → Option Name) : Kept hosts host name (Network.invoked { s with own } (s.registry.invoke slot)) := by
  refine kept.frame rfl ?_
  intro connection link _ here isOpen _ _
  obtain ⟨before, there, wasOpen, same⟩ := links_invoked here
  refine ⟨before, there, wasOpen.trans isOpen, fun willBe => ?_⟩
  have unchanged : holds hosts (some host) name (s.locations.invoke slot).1 = holds hosts (some host) name s.locations :=
    holds_foreign foreign
  rw [← same]
  change WillBe name (holds hosts (some host) name (s.locations.invoke slot).1) before.requests
  rw [unchanged]
  exact willBe

omit [DecidableEq Host] [DecidableEq Conn] in
/-- A condition that an entry goes only where it will be added again. -/
theorem Replaced.willBe (replaced : Replaced hosts (some host) name s) (enabled : Enabled s name (some host))
    (valid : HasRegistry s (some host)) (device : (s.hosts host).device = some connection) {link : Link Host Url}
    (here : s.links connection = some link) (willBe : WillBe name (holds hosts (some host) name s.locations) link.requests) :
    WillBe name false link.requests := by
  cases held : holds hosts (some host) name s.locations with
  | false =>
    rw [held] at willBe
    exact willBe
  | true =>
    obtain ⟨other, later, entry, ⟨_, ⟨⟩, same⟩, there, member, named⟩ := replaced enabled valid (holds_iff.mp held)
    obtain rfl := Option.some.inj (device.symm.trans same)
    obtain rfl := Option.some.inj (here.symm.trans there)
    rw [held] at willBe
    exact willBe.again member named

omit [DecidableEq Host] in
theorem Kept.serverRead (wired : Wired hosts s) (kept : Kept hosts host name s) {link : Link Host Url} (here : s.links connection = some link)
    {slot : Slot Url} {requests : List (Request Url)} (first : link.requests = .invoke slot :: requests)
    (calm : undisturbed hosts (some host) name s (.onServerRead connection)) :
    Kept hosts host name ((s.setLink connection { link with requests }).invoked (s.registry.onServerRead connection slot)) := by
  have url := (wired.links connection link here).requested slot (by rw [first]; exact List.mem_cons_self)
  refine kept.frame rfl ?_
  intro c later attached there isOpen enabled valid
  have device := wired.device attached
  obtain ⟨middle, linked, wasOpen, same⟩ := links_invoked there
  change ∃ before, s.links c = some before ∧ before.serverOpen = true ∧
    (WillBe name (holds hosts (some host) name s.locations) before.requests →
      WillBe name (holds hosts (some host) name (s.locations.invoke slot).1) later.requests)
  rw [← same]
  obtain ⟨rfl, rfl⟩ | ⟨apart, before⟩ := links_setLink linked
  · have owner : link.host = host := wired.attachedHost attached here
    refine ⟨link, here, wasOpen.trans isOpen, fun willBe => ?_⟩
    rw [first, willBe_cons] at willBe
    rw [holds_invoke]
    · exact willBe
    · rw [url, owner]
    · rintro entry rfl named
      have free := calm link _ requests here (by rw [owner]) first named (by rw [owner]; exact device) enabled
      exact free.imp_right holds_iff.mpr
  · refine ⟨middle, before, wasOpen.trans isOpen, fun willBe => ?_⟩
    by_cases own : slot.entry.info.hostUrl = hosts.url (some host)
    · obtain rfl : link.host = host := Option.some.inj (hosts.distinct (url.symm.trans own))
      by_cases named : slot.entry.name = name
      · cases slot with
        | addSource entry => exact willBe.more holds_kept
        | removeSource entry =>
          change entry.info.hostUrl = hosts.url (some link.host) at own
          rw [SourceLocations.invoke, holds_removed own named]
          apply Replaced.willBe (calm link _ requests here rfl first named _) enabled valid device before willBe
          rw [device]
          exact fun same => apart (Option.some.inj same)
      · rw [holds_others named]
        exact willBe
    · rw [holds_foreign own]
      exact willBe

theorem Kept.idle (kept : Kept hosts host name s) (other : Host) : Kept hosts host name (s.send other (s.hosts other, [])) := by
  rw [send_nil, Function.update_eq_self]
  exact kept

theorem Kept.clientRead (wired : Wired hosts s) (kept : Kept hosts host name s) {link : Link Host Url} (here : s.links connection = some link)
    {message : Message Url} {messages : List (Message Url)} (first : link.messages = message :: messages)
    (calm : undisturbed hosts (some host) name s (.onClientRead connection))
    (later : Wired hosts ((s.setLink connection { link with messages }).send link.host
      ((s.hosts link.host).onClientRead connection message))) :
    Kept hosts host name ((s.setLink connection { link with messages }).send link.host
      ((s.hosts link.host).onClientRead connection message)) := by
  have read : Kept hosts host name (s.setLink connection { link with messages }) := by
    refine kept.frame rfl ?_
    intro c later _ there isOpen _ _
    obtain ⟨rfl, rfl⟩ | ⟨_, before⟩ := links_setLink there
    · exact ⟨link, here, isOpen, id⟩
    · exact ⟨later, before, isOpen, id⟩
  by_cases owner : host = link.host
  · subst owner
    cases message with
    | objectList =>
      obtain same | ⟨r, registry, detached, attaches⟩ := onClientRead_objectList (s.hosts link.host) connection
      · rw [same]
        exact read.idle link.host
      · rw [attaches]
        constructor
        · rw [(hosts_send _ _ _).1]
          rintro _ ⟨⟩
          exact kept.hosted r registry
        · rw [(hosts_send _ _ _).1]
          rintro _ c other ⟨⟩ valid
          exact absurd detached ((wired.nodes link.host).valid r registry valid)
    | registry packet =>
      apply read.change
      · rfl
      · intro r _
        exact connection_read r packet
      · intro r registry
        apply follows_read (kept.hosted r registry)
        rintro locations rfl
        exact calm link locations messages here rfl first
  · exact read.other later owner

omit [DecidableEq Host] in
theorem Kept.serverDisconnect (wired : Wired hosts s) (kept : Kept hosts host name s) {link : Link Host Url}
    (here : s.links connection = some link) (calm : undisturbed hosts (some host) name s (.onServerDisconnect connection)) :
    Kept hosts host name { s.setLink connection { link with serverOpen := false, listening := false, requests := [] } with
      registry := s.registry.onServerDisconnect connection } := by
  refine kept.frame rfl ?_
  intro c later attached there isOpen enabled valid
  have device := wired.device attached
  obtain ⟨rfl, rfl⟩ | ⟨apart, before⟩ := links_setLink there
  · contradiction
  refine ⟨later, before, isOpen, fun willBe => ?_⟩
  change WillBe name (holds hosts (some host) name (s.locations.removeServer ((s.registry.m_registryMapping connection).getD default)))
    later.requests
  rw [holds_removeServer]
  cases known : s.registry.m_registryMapping connection with
  | none =>
    rw [Option.getD_none, decide_eq_true (hosts.valid (some host)), Bool.and_true]
    exact willBe
  | some url =>
    rw [Option.getD_some]
    obtain ⟨other, linked, rfl⟩ := wired.mapped connection url known
    obtain rfl := Option.some.inj (here.symm.trans linked)
    by_cases owner : host = link.host
    · subst owner
      rw [decide_eq_false (not_not.mpr rfl), Bool.and_false]
      apply Replaced.willBe (calm link here rfl _ _) enabled valid device before willBe
      · rw [device]
        exact fun same => apart (Option.some.inj same)
      · rw [known]
        exact Option.some_ne_none _
    · rw [decide_eq_true, Bool.and_true]
      · exact willBe
      · exact fun same => owner (Option.some.inj (hosts.distinct same))

theorem Kept.lost (wired : Wired hosts s) (kept : Kept hosts host name s) {link : Link Host Url} (here : s.links connection = some link) :
    Kept hosts host name { s.setLink connection { link with clientOpen := false, messages := [] } with
      hosts := Function.update s.hosts link.host
        { s.hosts link.host with registry := (s.hosts link.host).registry.map HostRegistry.setDisconnected, device := none } } := by
  by_cases owner : host = link.host
  · subst owner
    constructor
    · intro r registry
      simp only [Function.update_self] at registry ⊢
      obtain ⟨before, there, rfl⟩ := Option.map_eq_some_iff.mp registry
      rw [HostRegistry.HasSource, (setDisconnected_spec ((wired.nodes link.host).valid before there)).2.2]
      exact kept.hosted before there
    · intro r c other registry valid
      simp only [Function.update_self] at registry
      obtain ⟨before, there, rfl⟩ := Option.map_eq_some_iff.mp registry
      exact absurd valid (setDisconnected_spec ((wired.nodes link.host).valid before there)).2.1
  · apply kept.frame
    · exact Function.update_of_ne owner ..
    · intro c later _ there isOpen _ _
      obtain ⟨rfl, rfl⟩ | ⟨_, before⟩ := links_setLink there
      · exact ⟨link, here, isOpen, id⟩
      · exact ⟨later, before, isOpen, id⟩

theorem Kept.setRegistryUrl (kept : Kept hosts host name s) {other : Host} (unused : host = other → ¬ Enabled s name (some host))
    (later : Wired hosts (s.send other ({ s.hosts other with registry := some .new }, []))) :
    Kept hosts host name (s.send other ({ s.hosts other with registry := some .new }, [])) := by
  by_cases owner : host = other
  · subst owner
    have self := (hosts_send s host ({ s.hosts host with registry := some .new }, [])).1
    constructor
    · rw [self]
      rintro _ ⟨⟩
      apply iff_of_false
      · rintro ⟨_, none, _⟩
        contradiction
      · exact unused rfl
    · rw [self]
      rintro _ _ _ ⟨⟩ valid
      contradiction
  · exact kept.other later owner

theorem Kept.connect (wired : Wired hosts s) (kept : Kept hosts host name s) {other : Host} (new : s.links connection = none)
    (free : (s.hosts other).device = none) :
    Kept hosts host name { s.setLink connection (⟨other, true, true, false, [], [.objectList]⟩ : Link Host Url) with
      hosts := Function.update s.hosts other { s.hosts other with device := some connection } } := by
  by_cases owner : host = other
  · subst owner
    constructor
    · intro r registry
      simp only [Function.update_self] at registry ⊢
      exact kept.hosted r registry
    · intro r c link registry valid attached
      simp only [Function.update_self] at registry
      have known : (s.hosts host).device = some c := wired.device (by rw [HostNode.connection, registry]; exact attached)
      rw [free] at known
      contradiction
  · apply kept.frame
    · exact Function.update_of_ne owner ..
    · intro c link attached there isOpen _ _
      obtain ⟨rfl, rfl⟩ | ⟨_, before⟩ := links_setLink there
      · obtain ⟨_, known, _⟩ := wired.devices host c (wired.device attached)
        rw [new] at known
        contradiction
      · exact ⟨link, before, isOpen, id⟩

theorem kept_step (wired : Wired hosts s) (kept : Kept hosts host name s) (calm : undisturbed hosts (some host) name s e)
    (stepped : step hosts s e = some t) : Kept hosts host name t := by
  have later := wired_step wired stepped
  have does := step_cases stepped
  cases e with
  | setRegistryUrl other =>
    obtain ⟨_, rfl⟩ := does
    apply kept.setRegistryUrl _ later
    rintro rfl
    exact calm rfl
  | enableRemoting other name' typeName =>
    cases other with
    | none =>
      obtain ⟨_, rfl⟩ := does
      apply kept.own
      exact fun same => nomatch hosts.distinct same
    | some other =>
      obtain ⟨new, rfl⟩ := does
      by_cases owner : host = other
      · subst owner
        apply kept.change
        · rfl
        · intro r registry
          exact (changed_addSource ((wired.nodes host).valid r registry) ((wired.nodes host).hosted r registry) rfl).connection
        · intro r registry
          apply follows_addSource (kept.hosted r registry) new
          intro named valid
          exact calm rfl named.symm r registry valid
      · exact kept.other later owner
  | disableRemoting other name' =>
    cases other with
    | none =>
      obtain ⟨_, _, rfl⟩ := does
      apply kept.own
      exact fun same => nomatch hosts.distinct same
    | some other =>
      obtain ⟨_, _, rfl⟩ := does
      by_cases owner : host = other
      · subst owner
        apply kept.change
        · rfl
        · intro r registry
          exact (changed_removeSource ((wired.nodes host).valid r registry) ((wired.nodes host).hosted r registry) rfl).connection
        · intro r registry
          exact follows_removeSource (kept.hosted r registry)
      · exact kept.other later owner
  | connect other connection =>
    obtain ⟨new, _, free, rfl⟩ := does
    exact kept.connect wired new free
  | onServerRead connection =>
    obtain ⟨link, here, _, ⟨requests, first, rfl⟩ | ⟨slot, requests, first, rfl⟩⟩ := does
    · refine kept.frame rfl ?_
      intro c after _ there isOpen _ _
      obtain ⟨rfl, rfl⟩ | ⟨_, before⟩ := links_setLink there
      · refine ⟨link, here, isOpen, fun willBe => ?_⟩
        rw [first, willBe_cons] at willBe
        exact willBe
      · exact ⟨after, before, isOpen, id⟩
    · exact kept.serverRead wired here first calm
  | onClientRead connection =>
    obtain ⟨link, message, messages, here, _, first, rfl⟩ := does
    exact kept.clientRead wired here first calm later
  | onServerDisconnect connection =>
    obtain ⟨link, here, _, rfl⟩ := does
    exact kept.serverDisconnect wired here calm
  | onShouldReconnect connection =>
    obtain ⟨link, here, _, rfl⟩ := does
    exact kept.lost wired here

/-- No host removes or replaces an entry of the registry host. -/
theorem own_step (wired : Wired hosts s) (kept : Enabled s name none → Holds hosts none name s)
    (calm : undisturbed hosts none name s e) (stepped : step hosts s e = some t) (enabled : Enabled t name none) :
    Holds hosts none name t := by
  have does := step_cases stepped
  rw [Holds, ← holds_iff] at kept ⊢
  cases e with
  | enableRemoting other name' typeName =>
    cases other with
    | none =>
      obtain ⟨_, rfl⟩ := does
      by_cases named : name = name'
      · exact holds_added rfl named.symm (.inl (calm rfl named))
      · apply holds_kept
        apply kept
        change Function.update s.own name' (some typeName) name ≠ none at enabled
        rwa [Function.update_of_ne named] at enabled
    | some other =>
      obtain ⟨_, rfl⟩ := does
      exact kept enabled
  | disableRemoting other name' =>
    cases other with
    | none =>
      obtain ⟨typeName, _, rfl⟩ := does
      change Function.update s.own name' none name ≠ none at enabled
      by_cases named : name = name'
      · rw [named, Function.update_self] at enabled
        contradiction
      · rw [Function.update_of_ne named] at enabled
        change holds hosts none name (s.locations.invoke (.removeSource ⟨name', ⟨typeName, hosts.url none⟩⟩)).1 = true
        rw [holds_others (Ne.symm named)]
        exact kept enabled
    | some other =>
      obtain ⟨_, _, rfl⟩ := does
      exact kept enabled
  | onServerRead connection =>
    obtain ⟨link, here, _, ⟨requests, first, rfl⟩ | ⟨slot, requests, first, rfl⟩⟩ := does
    · exact kept enabled
    · have url := (wired.links connection link here).requested slot (by rw [first]; exact List.mem_cons_self)
      change holds hosts none name (s.locations.invoke slot).1 = true
      rw [holds_foreign]
      · exact kept enabled
      · rw [url]
        exact fun same => nomatch hosts.distinct same
  | onServerDisconnect connection =>
    obtain ⟨link, here, _, rfl⟩ := does
    change holds hosts none name (s.locations.removeServer ((s.registry.m_registryMapping connection).getD default)) = true
    rw [holds_removeServer, kept enabled, Bool.true_and, decide_eq_true_eq]
    cases known : s.registry.m_registryMapping connection with
    | none => exact hosts.valid none
    | some url =>
      obtain ⟨other, linked, rfl⟩ := wired.mapped connection url known
      exact fun same => nomatch hosts.distinct same
  | setRegistryUrl other =>
    obtain ⟨_, rfl⟩ := does
    exact kept enabled
  | connect other connection =>
    obtain ⟨_, _, _, rfl⟩ := does
    exact kept enabled
  | onClientRead connection =>
    obtain ⟨_, _, _, _, _, _, rfl⟩ := does
    exact kept enabled
  | onShouldReconnect connection =>
    obtain ⟨_, _, _, rfl⟩ := does
    exact kept enabled

omit [DecidableEq Conn] [DecidableEq Host] in
theorem Kept.registered (wired : Wired hosts s) (kept : Kept hosts host name s) : Registered hosts (some host) name s := by
  rintro rest enabled ⟨r, registry, valid⟩ _
  obtain ⟨connection, attached⟩ := Option.ne_none_iff_exists'.mp ((wired.nodes host).valid r registry valid)
  have connected : (s.hosts host).connection = some connection := by
    rw [HostNode.connection, registry]
    exact attached
  obtain ⟨link, here, _, isOpen⟩ := wired.devices host connection (wired.device connected)
  have served := (rest connection link here).ends.trans isOpen
  have willBe := kept.underway r connection link registry valid attached here served enabled
  rw [(rest connection link here).requests served] at willBe
  exact holds_iff.mp willBe

/-- What the runs keep, for a source of a host or of the registry host. -/
def Followed (hosts : Hosts Host Url) (name : Name) (s : Network Conn Host Url) : Option Host → Prop
  | none => Enabled s name none → Holds hosts none name s
  | some host => Kept hosts host name s

/-- No source of an undisturbed host is missing in the registry when nothing is under way. -/
theorem registered_of_undisturbed {host : Option Host} {es : List (Event Conn Host)}
    (calm : Admitted (step hosts) (undisturbed hosts host name) .initial es) :
    Admitted (step hosts) (fun s e => ∀ t, step hosts s e = some t → Registered hosts host name t) .initial es := by
  have preserves : ∀ {s : Network Conn Host Url} {e t}, Wired hosts s ∧ Followed hosts name s host → undisturbed hosts host name s e →
      step hosts s e = some t → Wired hosts t ∧ Followed hosts name t host := by
    rintro s e t ⟨wired, followed⟩ here stepped
    refine ⟨wired_step wired stepped, ?_⟩
    cases host with
    | none => exact own_step wired followed here stepped
    | some host => exact kept_step wired followed here stepped
  apply admitted_of_invariant preserves _ calm
  · refine ⟨wired_initial, ?_⟩
    cases host with
    | none => exact fun enabled => absurd rfl enabled
    | some host => exact ⟨fun _ none => (nomatch none), fun _ _ _ none => (nomatch none)⟩
  · intro s e good here t stepped
    obtain ⟨wired, followed⟩ := preserves good here stepped
    cases host with
    | none => exact fun _ enabled _ _ => followed enabled
    | some host => exact followed.registered wired

/-- A host enables a source, its connection ends, and it registers the source over another one. -/
theorem undisturbed_registered :
    Admitted (step Ownership.rivals) (fun s e => ∀ t, step Ownership.rivals s e = some t →
      Registered Ownership.rivals (some false) "A".toList t) (.initial : Network Bool Bool Nat)
      [.setRegistryUrl false, .connect false false, .onClientRead false, .onServerRead false, .onClientRead false,
        .enableRemoting (some false) "A".toList [], .onServerRead false, .onServerDisconnect false, .onShouldReconnect false,
        .connect false true, .onClientRead true, .onServerRead true, .onClientRead true, .onServerRead true] := by
  apply registered_of_undisturbed
  refine .cons ?_ rfl (.cons trivial rfl (.cons ?_ rfl (.cons ?_ rfl (.cons ?_ rfl (.cons ?_ rfl (.cons ?_ rfl
    (.cons ?_ rfl (.cons trivial rfl (.cons trivial rfl (.cons ?_ rfl (.cons ?_ rfl (.cons ?_ rfl (.cons ?_ rfl trivial)))))))))))))
  · exact fun _ enabled => enabled rfl
  · rintro _ _ _ ⟨⟩ _ ⟨⟩
  · rintro _ _ _ ⟨⟩ _ ⟨⟩
  · exact fun _ _ _ _ _ _ enabled => absurd rfl enabled
  · intro _ _ _ registry _
    obtain rfl := Option.some.inj registry
    rfl
  · rintro _ _ _ ⟨⟩ _ ⟨⟩ _ _ _
    exact .inl rfl
  · rintro _ ⟨⟩ _ older _
    exact absurd rfl older
  · rintro _ _ _ ⟨⟩ _ ⟨⟩
  · rintro _ _ _ ⟨⟩ _ ⟨⟩
  · rintro _ _ _ ⟨⟩ _ ⟨⟩ _
    rfl
  · rintro _ _ _ ⟨⟩ _ ⟨⟩ _ _ _
    exact .inl rfl

/-- A host reconnects before the registry notices the end of its first connection. It reads its own entry from there and
forgets its source, and then the entry goes. -/
def overtaken : List (Event Bool Bool) :=
  [.setRegistryUrl false, .connect false false, .onClientRead false, .onServerRead false, .onClientRead false,
    .enableRemoting (some false) "A".toList [], .onServerRead false, .onShouldReconnect false, .connect false true,
    .onClientRead true, .onServerRead true, .onClientRead true, .onServerDisconnect false]

theorem overtaken_lost : ∃ t, exec (step Ownership.rivals) (.initial : Network Bool Bool Nat) overtaken = some t ∧
    ¬ Registered Ownership.rivals (some false) "A".toList t := by
  refine ⟨_, rfl, fun registered => ?_⟩
  have held := registered ?_ ?_ ?_ ?_
  · obtain ⟨_, ⟨⟩, _⟩ := held
  · intro connection link here
    cases connection with
    | false =>
      obtain rfl := Option.some.inj here
      exact ⟨fun _ => rfl, fun _ => rfl, rfl⟩
    | true =>
      obtain rfl := Option.some.inj here
      exact ⟨fun _ => rfl, fun _ => rfl, rfl⟩
  · exact Option.some_ne_none []
  · exact ⟨_, rfl, rfl⟩
  · rintro _ _ _ ⟨_, ⟨⟩, _⟩

end Invariant

end RemoteObjects.Registry.Registration
