import RemoteObjects.Host.Sources
import RemoteObjects.Transition

/-! Requests of connections to hosts: what a node keeps of the URLs, whether or not it can connect to them. -/
namespace RemoteObjects.Client.ConnectionRequests
open Host (Name)
open Transition

section Model
variable (Url : Type)

/-- `connections` are the URLs of the devices that were made, `handled` those that were given to handlers. -/
structure NodePrivate where
  requestedUrls : List Url
  schemaHandlers : List Name
  connections : List Url
  handled : List Url
  remoteObjectAddresses : Name → Option Url
  registryNotAcquired : Bool

/-- `sourceLocations` is a change of what the registry knows. Other callers of the registry give a URL to `initConnection` at once. -/
inductive Event
  | connectToNode (address : Url)
  | openConnectionIfNeeded (name : Name)
  | onRemoteObjectSourceAdded (hostUrl : Url)
  | sourceLocations (addresses : Name → Option Url)
  | registerExternalSchema (schema : Name)

variable {Url} [DecidableEq Url] (scheme : Url → Name) (m_creatorFuncs : List Name)

namespace NodePrivate
variable (s : NodePrivate Url)

def initial : NodePrivate Url where
  requestedUrls := []
  schemaHandlers := []
  connections := []
  handled := []
  remoteObjectAddresses _ := none
  registryNotAcquired := false

/-- The result, and the node behind it. The factory makes a device where it knows the scheme. -/
def initConnection (address : Url) : Bool × NodePrivate Url :=
  if address ∈ s.requestedUrls then (true, s)
  else
    let s := { s with requestedUrls := address :: s.requestedUrls }
    if scheme address ∈ s.schemaHandlers then (true, { s with handled := address :: s.handled })
    else if scheme address ∈ m_creatorFuncs then (true, { s with connections := address :: s.connections })
    else (false, s)

/-- What `connectToNode` returns is what it got; a failure is an error of the node, too. -/
def connectToNode (address : Url) : Bool × NodePrivate Url :=
  match s.initConnection scheme m_creatorFuncs address with
  | (true, s) => (true, s)
  | (false, s) => (false, { s with registryNotAcquired := true })

def openConnectionIfNeeded (name : Name) : NodePrivate Url :=
  match s.remoteObjectAddresses name with
  | some hostUrl => (s.initConnection scheme m_creatorFuncs hostUrl).2
  | none => s

/-- The URL that an event asks to be connected to. -/
def requests : Event Url → Option Url
  | .connectToNode address => some address
  | .openConnectionIfNeeded name => s.remoteObjectAddresses name
  | .onRemoteObjectSourceAdded hostUrl => some hostUrl
  | _ => none

/-- There is a device or a handler for the URL. -/
def Reachable (address : Url) : Prop := address ∈ s.connections ∨ scheme address ∈ s.schemaHandlers

end NodePrivate

def step (s : NodePrivate Url) : Event Url → Option (NodePrivate Url)
  | .connectToNode address => some (s.connectToNode scheme m_creatorFuncs address).2
  | .openConnectionIfNeeded name => some (s.openConnectionIfNeeded scheme m_creatorFuncs name)
  | .onRemoteObjectSourceAdded hostUrl => some (s.initConnection scheme m_creatorFuncs hostUrl).2
  | .sourceLocations addresses => some { s with remoteObjectAddresses := addresses }
  | .registerExternalSchema schema => some { s with schemaHandlers := s.schemaHandlers.insert schema }

/-- A request that fails changes nothing; behind one that succeeds the URL can be reached. -/
def traceless (s : NodePrivate Url) (e : Event Url) : Prop :=
  ∀ address, s.requests e = some address →
    ((s.initConnection scheme m_creatorFuncs address).1 = false → (s.initConnection scheme m_creatorFuncs address).2 = s) ∧
    ((s.initConnection scheme m_creatorFuncs address).1 = true → (s.initConnection scheme m_creatorFuncs address).2.Reachable scheme address)

/-- A URL that was not requested before has a scheme with a handler or one of the factory. -/
def knownScheme (s : NodePrivate Url) (e : Event Url) : Prop :=
  ∀ address, s.requests e = some address → address ∉ s.requestedUrls →
    scheme address ∈ s.schemaHandlers ∨ scheme address ∈ m_creatorFuncs

end Model

section Proofs
variable {Url : Type} [DecidableEq Url] {scheme : Url → Name} {m_creatorFuncs : List Name} {s t : NodePrivate Url} {e : Event Url}
variable {address : Url}

theorem initConnection_cases (s : NodePrivate Url) (scheme : Url → Name) (m_creatorFuncs : List Name) (address : Url) :
    (address ∈ s.requestedUrls ∧ s.initConnection scheme m_creatorFuncs address = (true, s)) ∨
    (address ∉ s.requestedUrls ∧ scheme address ∈ s.schemaHandlers ∧ s.initConnection scheme m_creatorFuncs address =
      (true, { s with requestedUrls := address :: s.requestedUrls, handled := address :: s.handled })) ∨
    (address ∉ s.requestedUrls ∧ scheme address ∈ m_creatorFuncs ∧ s.initConnection scheme m_creatorFuncs address =
      (true, { s with requestedUrls := address :: s.requestedUrls, connections := address :: s.connections })) ∨
    (address ∉ s.requestedUrls ∧ scheme address ∉ s.schemaHandlers ∧ scheme address ∉ m_creatorFuncs ∧
      s.initConnection scheme m_creatorFuncs address = (false, { s with requestedUrls := address :: s.requestedUrls })) := by
  unfold NodePrivate.initConnection
  by_cases requested : address ∈ s.requestedUrls
  · simp [requested]
  · by_cases handler : scheme address ∈ s.schemaHandlers
    · simp [requested, handler]
    · by_cases creator : scheme address ∈ m_creatorFuncs <;> simp [requested, handler, creator]

/-- Every requested URL can be reached. -/
def Sound (scheme : Url → Name) (s : NodePrivate Url) : Prop := ∀ address ∈ s.requestedUrls, s.Reachable scheme address

theorem Sound.initConnection (sound : Sound scheme s)
    (known : address ∉ s.requestedUrls → scheme address ∈ s.schemaHandlers ∨ scheme address ∈ m_creatorFuncs) :
    Sound scheme (s.initConnection scheme m_creatorFuncs address).2 := by
  obtain ⟨_, same⟩ | ⟨_, handler, same⟩ | ⟨_, _, same⟩ | ⟨new, noHandler, noCreator, _⟩ :=
    initConnection_cases s scheme m_creatorFuncs address
  · rwa [same]
  · rw [same]
    intro other requested
    obtain rfl | before := List.mem_cons.mp requested
    · exact .inr handler
    · exact sound other before
  · rw [same]
    intro other requested
    obtain rfl | before := List.mem_cons.mp requested
    · exact .inl List.mem_cons_self
    · exact (sound other before).imp_left (List.mem_cons_of_mem _)
  · exact absurd (known new) (by simp [noHandler, noCreator])

theorem sound_step (sound : Sound scheme s) (known : knownScheme scheme m_creatorFuncs s e)
    (head : step scheme m_creatorFuncs s e = some t) : Sound scheme t := by
  cases e with
  | connectToNode address =>
    obtain rfl := Option.some.inj head
    have connected := sound.initConnection (known address rfl)
    unfold NodePrivate.connectToNode
    cases result : s.initConnection scheme m_creatorFuncs address with
    | mk success after =>
      rw [result] at connected
      cases success <;> exact connected
  | openConnectionIfNeeded name =>
    obtain rfl := Option.some.inj head
    unfold NodePrivate.openConnectionIfNeeded
    split
    · rename_i hostUrl found
      exact sound.initConnection (known hostUrl found)
    · exact sound
  | onRemoteObjectSourceAdded hostUrl =>
    obtain rfl := Option.some.inj head
    exact sound.initConnection (known hostUrl rfl)
  | sourceLocations addresses =>
    obtain rfl := Option.some.inj head
    exact sound
  | registerExternalSchema schema =>
    obtain rfl := Option.some.inj head
    exact fun address requested => (sound address requested).imp_right List.mem_insert_of_mem

theorem traceless_step (sound : Sound scheme s) : traceless scheme m_creatorFuncs s e ↔ knownScheme scheme m_creatorFuncs s e := by
  refine forall_congr' fun address => imp_congr_right fun _ => ?_
  obtain ⟨requested, same⟩ | ⟨_, handler, same⟩ | ⟨_, creator, same⟩ | ⟨new, noHandler, noCreator, same⟩ :=
    initConnection_cases s scheme m_creatorFuncs address
  · simp [same, requested, sound address requested]
  · simp [same, handler, NodePrivate.Reachable]
  · simp [same, creator, NodePrivate.Reachable]
  · have changed : { s with requestedUrls := address :: s.requestedUrls } ≠ s := by
      intro unchanged
      have urls := congrArg (fun s => s.requestedUrls.length) unchanged
      simp at urls
    simp [same, new, noHandler, noCreator, changed]

/-- No request of a run leaves a trace where it fails, and all that succeed have what they need, exactly if every URL is of a scheme
that is known when it is requested first. -/
theorem requests_traceless_iff (scheme : Url → Name) (m_creatorFuncs : List Name) (es : List (Event Url)) :
    Admitted (step scheme m_creatorFuncs) (traceless scheme m_creatorFuncs) .initial es ↔
      Admitted (step scheme m_creatorFuncs) (knownScheme scheme m_creatorFuncs) .initial es :=
  admitted_iff_of_kept (fun sound claim head => sound_step sound ((traceless_step sound).mp claim) head) traceless_step nofun

/-- A host behind a TLS socket, whose scheme is registered too late. -/
theorem failed_request_recorded :
    let url := "tls://host".toList
    let scheme (url : Name) := url.takeWhile (· ≠ ':')
    let es : List (Event Name) := [.connectToNode url, .registerExternalSchema (scheme url)]
    ¬ Admitted (step scheme ["local".toList, "tcp".toList]) (traceless scheme ["local".toList, "tcp".toList]) .initial es ∧
      ∃ t, exec (step scheme ["local".toList, "tcp".toList]) .initial es = some t ∧
        t.initConnection scheme ["local".toList, "tcp".toList] url = (true, t) ∧ t.connections = [] ∧ t.handled = [] := by
  intro url scheme es
  refine ⟨fun run => ?_, _, rfl, rfl, rfl, rfl⟩
  have unchanged := (run.1 url rfl).1 rfl
  exact absurd (congrArg NodePrivate.requestedUrls unchanged) (List.cons_ne_nil _ _)

end Proofs
end RemoteObjects.Client.ConnectionRequests
