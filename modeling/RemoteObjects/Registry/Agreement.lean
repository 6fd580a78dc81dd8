import RemoteObjects.Registry.Replica
import RemoteObjects.Transition

/-! Replicas of the registry over connections that keep the order, and when they have what the registry has. -/
namespace RemoteObjects.Registry.Agreement
open Host (Name)
open Transition

section Model
variable (Conn Url : Type)

inductive Request
  | addObject
  | invoke (slot : Slot Url)
deriving DecidableEq

/-- A connection with what is under way in it. `listening` is its place in `m_listeners` of the registry, and `attached`
the `connectionToSource` of the replica. The replica goes from here when the client notices the end. -/
structure Link where
  serverOpen : Bool
  listening : Bool
  attached : Bool
  requests : List (Request Url)
  packets : List (Packet Url)
  replica : Option (RegistryReplica Url)

structure Network where
  registry : RegistryHost Conn Url
  links : Conn → Option (Link Url)

/-- A replica that has lost its connection comes back with another one. -/
inductive Event
  | connect (connection : Conn) (replica : RegistryReplica Url)
  | attach (connection : Conn)
  | send (connection : Conn) (slot : Slot Url)
  | own (slot : Slot Url)
  | onServerRead (connection : Conn)
  | onClientRead (connection : Conn)
  | onServerDisconnect (connection : Conn)
  | onShouldReconnect (connection : Conn)

variable {Conn Url}

/-- The registry sends its signals to those that listen. -/
def Link.emit (link : Link Url) (signals : List (Signal Url)) : Link Url :=
  if link.listening then { link with packets := link.packets ++ signals.map .update } else link

namespace Network
variable (s : Network Conn Url)

def locations : SourceLocations Url := s.registry.m_sourceLocations

def invoked (result : RegistryHost Conn Url × List (Signal Url)) : Network Conn Url :=
  ⟨result.1, fun connection => (s.links connection).map fun link => link.emit result.2⟩

variable [DecidableEq Conn]

def initial : Network Conn Url := ⟨.initial, fun _ => none⟩

def setLink (connection : Conn) (link : Link Url) : Network Conn Url :=
  { s with links := Function.update s.links connection (some link) }

end Network

variable [Inhabited Url] [DecidableEq Conn] [DecidableEq Url]

/-- One step of the registry host or of a client, or nothing where it cannot happen. -/
def step (s : Network Conn Url) : Event Conn Url → Option (Network Conn Url)
  | .connect connection replica =>
    if (s.links connection).isNone ∧ (replica.state = .default ∨ replica.state = .suspect) then
      some (s.setLink connection ⟨true, false, false, [], [], some replica⟩)
    else none
  | .attach connection => do
    let link ← s.links connection
    if link.replica.isSome ∧ !link.attached then
      some (s.setLink connection { link with attached := true, requests := link.requests ++ [.addObject] })
    else none
  | .send connection slot => do
    let link ← s.links connection
    if link.replica.isSome then some (s.setLink connection { link with requests := link.requests ++ [.invoke slot] }) else none
  | .own slot => some (s.invoked (s.registry.invoke slot))
  | .onServerRead connection => do
    let link ← s.links connection
    if link.serverOpen then
      match link.requests with
      | .addObject :: requests =>
        some (s.setLink connection { link with listening := true, requests, packets := link.packets ++ [.snapshot s.locations] })
      | .invoke slot :: requests =>
        some ((s.setLink connection { link with requests }).invoked (s.registry.onServerRead connection slot))
      | [] => none
    else none
  | .onClientRead connection => do
    let link ← s.links connection
    match link.replica, link.packets with
    | some replica, packet :: packets => some (s.setLink connection { link with replica := some (replica.read packet), packets })
    | _, _ => none
  | .onServerDisconnect connection => do
    let link ← s.links connection
    if link.serverOpen then
      some { s.setLink connection { link with serverOpen := false, listening := false, requests := [] } with
        registry := s.registry.onServerDisconnect connection }
    else none
  | .onShouldReconnect connection => do
    let link ← s.links connection
    if link.replica.isSome then some (s.setLink connection { link with replica := none, packets := [] }) else none

end Model

section Statement
variable {Conn Url : Type} (s : Network Conn Url)

/-- Nothing is under way in the connection, also not the news of its end. -/
structure Link.AtRest (link : Link Url) : Prop where
  requests : link.serverOpen = true → link.requests = []
  packets : link.replica ≠ none → link.packets = []
  ends : link.serverOpen = link.replica.isSome

/-- With nothing under way, all valid replicas have the locations of the registry. -/
def AgreeAtRest : Prop :=
  (∀ connection link, s.links connection = some link → link.AtRest) →
    ∀ connection link replica, s.links connection = some link → link.replica = some replica → replica.state = .valid →
      replica.sourceLocations = s.locations

/-- The slot adds or removes an entry. -/
def Changes (locations : SourceLocations Url) : Slot Url → Prop
  | .addSource entry => locations entry.name = none
  | .removeSource entry => ∃ info, locations entry.name = some info ∧ info.hostUrl = entry.info.hostUrl

/-- While a connection listens, only entries with a name are added and removed. -/
def named (slot : Slot Url) : Prop :=
  (∃ connection link, s.links connection = some link ∧ link.listening = true) → Changes s.locations slot → slot.entry.name ≠ []

/-- And none has the URL of a connection that ends. -/
def announced [Inhabited Url] (s : Network Conn Url) : Event Conn Url → Prop
  | .own slot => named s slot
  | .onServerRead connection =>
    ∀ link slot requests, s.links connection = some link → link.requests = .invoke slot :: requests → named s slot
  | .onServerDisconnect connection =>
    (∃ other link, other ≠ connection ∧ s.links other = some link ∧ link.listening = true) →
      ∀ name info, s.locations name = some info → info.hostUrl ≠ (s.registry.m_registryMapping connection).getD default
  | _ => True

end Statement

section Slots
variable {Url : Type} [DecidableEq Url] {locations : SourceLocations Url} {slot : Slot Url}

/-- What replicas hear of a slot is what it does, if its entry has a name. -/
theorem hear_invoke (named : Changes locations slot → slot.entry.name ≠ []) :
    (locations.invoke slot).2.foldl (fun locations signal => hear signal locations) locations = (locations.invoke slot).1 := by
  cases slot with
  | addSource entry =>
    cases taken : locations entry.name with
    | some info =>
      rw [SourceLocations.invoke, addSource_taken (by rw [taken]; rfl)]
      rfl
    | none =>
      rw [SourceLocations.invoke, addSource_free taken]
      exact if_neg (named taken)
  | removeSource entry =>
    by_cases own : ∃ info, locations entry.name = some info ∧ info.hostUrl = entry.info.hostUrl
    · obtain ⟨info, there, same⟩ := own
      rw [SourceLocations.invoke, removeSource_own there same]
      exact if_neg (named ⟨info, there, same⟩)
    · rw [SourceLocations.invoke, removeSource_foreign fun info there same => own ⟨info, there, same⟩]
      rfl

theorem removeServer_absent {url : Url} (absent : ∀ name info, locations name = some info → info.hostUrl ≠ url) :
    locations.removeServer url = locations := by
  funext name
  cases there : locations name with
  | none => simp only [SourceLocations.removeServer, there, Option.filter_none]
  | some info => exact removeServer_some.mpr ⟨there, absent name info there⟩

end Slots

section Invariant
variable {Conn Url : Type} {s t : Network Conn Url} {connection : Conn} {link : Link Url} {locations later : SourceLocations Url}

/-- A replica whose connection listens is in step with the registry. One that was not heard yet is not valid. -/
structure Link.Good (locations : SourceLocations Url) (link : Link Url) : Prop where
  listens : link.listening = true → link.serverOpen = true
  matching : ∀ replica, link.replica = some replica → replica.state ≠ .signatureMismatch
  inStep : ∀ replica, link.replica = some replica → link.listening = true →
    Feed.InStep hear locations replica.copy link.packets
  silent : ∀ replica, link.replica = some replica → link.serverOpen = true → link.listening = false →
    link.packets = [] ∧ replica.state ≠ .valid

def Agreed (s : Network Conn Url) : Prop := ∀ connection link, s.links connection = some link → link.Good s.locations

theorem Link.Good.agrees (good : link.Good locations) (atRest : link.AtRest) {replica : RegistryReplica Url}
    (here : link.replica = some replica) (valid : replica.state = .valid) : replica.sourceLocations = locations := by
  have isOpen : link.serverOpen = true := by
    rw [atRest.ends, here]
    rfl
  have listening : link.listening = true := by
    by_contra deaf
    exact (good.silent replica here isOpen (Bool.eq_false_iff.mpr deaf)).2 valid
  have inStep := good.inStep replica here listening
  rw [atRest.packets (by rw [here]; exact Option.some_ne_none replica)] at inStep
  exact congrArg Feed.Copy.value (Feed.inStep_nil.mp inStep)

theorem Agreed.agreeAtRest (agreed : Agreed s) : AgreeAtRest s := by
  intro atRest connection link replica here there valid
  exact (agreed connection link here).agrees (atRest connection link here) there valid

/-- The signals of a change reach all that listen. -/
theorem Link.Good.emit (good : link.Good locations) {signals : List (Signal Url)}
    (heard : link.listening = true → signals.foldl (fun locations signal => hear signal locations) locations = later) :
    (link.emit signals).Good later := by
  unfold Link.emit
  split
  · rename_i listening
    constructor
    · exact good.listens
    · exact good.matching
    · intro replica here _
      rw [← heard listening]
      exact (good.inStep replica here listening).updates signals
    · intro _ _ _ deaf
      rw [listening] at deaf
      contradiction
  · rename_i deaf
    constructor
    · exact good.listens
    · exact good.matching
    · intro _ _ listening
      exact absurd listening deaf
    · exact good.silent

theorem Link.Good.sent (good : link.Good locations) (attached : Bool) (requests : List (Request Url)) :
    ({ link with attached, requests } : Link Url).Good locations :=
  ⟨good.listens, good.matching, good.inStep, good.silent⟩

/-- An init packet brings the copy in step. -/
theorem Link.Good.addListener (good : link.Good locations) (isOpen : link.serverOpen = true) (requests : List (Request Url)) :
    ({ link with listening := true, requests, packets := link.packets ++ [.snapshot locations] } : Link Url).Good locations := by
  constructor
  · intro _
    exact isOpen
  · exact good.matching
  · intro replica _ _
    apply Feed.inStep_snapshot
  · intro _ _ _ deaf
    contradiction

theorem Link.Good.clientRead (good : link.Good locations) {replica : RegistryReplica Url} (here : link.replica = some replica)
    {packet : Packet Url} {packets : List (Packet Url)} (first : link.packets = packet :: packets) :
    ({ link with replica := some (replica.read packet), packets } : Link Url).Good locations := by
  have matching := good.matching replica here
  constructor
  · exact good.listens
  · rintro _ ⟨⟩
    exact matching_read matching packet
  · rintro _ ⟨⟩ listening
    have inStep := good.inStep replica here listening
    rw [first, Feed.inStep_cons, ← copy_read matching] at inStep
    exact inStep
  · intro _ _ isOpen deaf
    have none := (good.silent replica here isOpen deaf).1
    rw [first] at none
    contradiction

variable [DecidableEq Conn]

theorem links_setLink {c : Conn} {other : Link Url} (there : (s.setLink connection link).links c = some other) :
    c = connection ∧ other = link ∨ c ≠ connection ∧ s.links c = some other := by
  obtain ⟨rfl, same⟩ | elsewhere := update_some there
  · exact .inl ⟨rfl, (Option.some.inj same).symm⟩
  · exact .inr elsewhere

theorem Agreed.setLink (agreed : Agreed s) (good : link.Good s.locations) : Agreed (s.setLink connection link) := by
  intro c other here
  obtain ⟨rfl, rfl⟩ | ⟨_, before⟩ := links_setLink here
  · exact good
  · exact agreed c other before

omit [DecidableEq Conn] in
theorem Agreed.invoked (agreed : Agreed s) {result : RegistryHost Conn Url × List (Signal Url)}
    (heard : (∃ connection link, s.links connection = some link ∧ link.listening = true) →
      result.2.foldl (fun locations signal => hear signal locations) s.locations = result.1.m_sourceLocations) :
    Agreed (s.invoked result) := by
  intro c other here
  obtain ⟨link, there, rfl⟩ := Option.map_eq_some_iff.mp here
  apply (agreed c link there).emit
  intro listening
  exact heard ⟨c, link, there, listening⟩

variable [Inhabited Url] [DecidableEq Url]

theorem agreed_step {e : Event Conn Url} (agreed : Agreed s) (tells : announced s e) (stepped : step s e = some t) : Agreed t := by
  cases e with
  | connect connection replica =>
    simp only [step, Option.ite_none_right_eq_some, Option.some.injEq] at stepped
    obtain ⟨⟨_, state⟩, rfl⟩ := stepped
    apply agreed.setLink
    constructor
    · intro listening
      contradiction
    · rintro _ ⟨⟩
      obtain state | state := state <;> rw [state] <;> decide
    · intro _ _ listening
      contradiction
    · rintro _ ⟨⟩ _ _
      exact ⟨rfl, by obtain state | state := state <;> rw [state] <;> decide⟩
  | attach connection =>
    simp only [step, Option.bind_eq_bind, Option.bind_eq_some_iff, Option.ite_none_right_eq_some, Option.some.injEq] at stepped
    obtain ⟨link, here, _, rfl⟩ := stepped
    exact agreed.setLink ((agreed connection link here).sent _ _)
  | send connection slot =>
    simp only [step, Option.bind_eq_bind, Option.bind_eq_some_iff, Option.ite_none_right_eq_some, Option.some.injEq] at stepped
    obtain ⟨link, here, _, rfl⟩ := stepped
    exact agreed.setLink ((agreed connection link here).sent _ _)
  | own slot =>
    obtain rfl := Option.some.inj stepped
    apply agreed.invoked
    intro listened
    exact hear_invoke (tells listened)
  | onServerRead connection =>
    simp only [step, Option.bind_eq_bind, Option.bind_eq_some_iff, Option.ite_none_right_eq_some] at stepped
    obtain ⟨link, here, isOpen, stepped⟩ := stepped
    have good := agreed connection link here
    split at stepped
    · obtain rfl := Option.some.inj stepped
      exact agreed.setLink (good.addListener isOpen _)
    · rename_i slot requests first
      obtain rfl := Option.some.inj stepped
      apply (agreed.setLink (good.sent _ requests)).invoked
      rintro ⟨c, other, there, listening⟩
      apply hear_invoke (tells link slot requests here first _)
      obtain ⟨rfl, rfl⟩ | ⟨_, before⟩ := links_setLink there
      · exact ⟨c, link, here, listening⟩
      · exact ⟨c, other, before, listening⟩
    · contradiction
  | onClientRead connection =>
    simp only [step, Option.bind_eq_bind, Option.bind_eq_some_iff] at stepped
    obtain ⟨link, here, stepped⟩ := stepped
    split at stepped
    · rename_i replica packet packets there first
      obtain rfl := Option.some.inj stepped
      exact agreed.setLink ((agreed connection link here).clientRead there first)
    · contradiction
  | onServerDisconnect connection =>
    simp only [step, Option.bind_eq_bind, Option.bind_eq_some_iff, Option.ite_none_right_eq_some, Option.some.injEq] at stepped
    obtain ⟨link, here, _, rfl⟩ := stepped
    intro c other there
    obtain ⟨rfl, rfl⟩ | ⟨same, before⟩ := links_setLink there
    · constructor
      · intro listening
        contradiction
      · exact (agreed c link here).matching
      · intro _ _ listening
        contradiction
      · intro _ _ isOpen
        contradiction
    · have good := agreed c other before
      refine ⟨good.listens, good.matching, fun replica present listening => ?_, good.silent⟩
      have absent := tells ⟨c, other, same, before, listening⟩
      change Feed.InStep hear (s.locations.removeServer _) replica.copy other.packets
      rw [removeServer_absent absent]
      exact good.inStep replica present listening
  | onShouldReconnect connection =>
    simp only [step, Option.bind_eq_bind, Option.bind_eq_some_iff, Option.ite_none_right_eq_some, Option.some.injEq] at stepped
    obtain ⟨link, here, _, rfl⟩ := stepped
    apply agreed.setLink
    constructor
    · exact (agreed connection link here).listens
    · intro _ gone
      contradiction
    · intro _ gone
      contradiction
    · intro _ gone
      contradiction

/-- In every run of a registry in which no connection ends while the registry has entries of its host and others listen,
and all entries have names, the replicas agree with the registry in each state in which nothing is under way. -/
theorem agreeAtRest_of_announced {es : List (Event Conn Url)} (tells : Admitted step announced .initial es) :
    Admitted step (fun s e => ∀ t, step s e = some t → AgreeAtRest t) .initial es := by
  apply admitted_of_invariant (P := Agreed) agreed_step
  · intro s e agreed here t stepped
    exact (agreed_step agreed here stepped).agreeAtRest
  · exact tells
  · intro _ _ here
    contradiction

/-- A node is attached, and the registry host registers a source of its own. -/
theorem announced_agree :
    Admitted step (fun s e => ∀ t, step s e = some t → AgreeAtRest t) (.initial : Network Unit Nat)
      [.connect () ⟨.default, fun _ => none⟩, .attach (), .onServerRead (), .onClientRead (),
        .own (.addSource ⟨"A".toList, ⟨[], 1⟩⟩), .onClientRead ()] := by
  apply agreeAtRest_of_announced
  refine .cons trivial rfl (.cons trivial rfl (.cons ?_ rfl (.cons trivial rfl (.cons ?_ rfl (.cons trivial rfl trivial)))))
  · intro _ _ _ here first
    obtain rfl := Option.some.inj here
    cases first
  · intro _ _
    decide

/-- A host ends without a word, and the node that was attached before keeps its entry. -/
def vanished : List (Event Bool Nat) :=
  [.connect false ⟨.default, fun _ => none⟩, .attach false, .onServerRead false, .onClientRead false,
    .connect true ⟨.default, fun _ => none⟩, .send true (.addSource ⟨"A".toList, ⟨[], 1⟩⟩), .onServerRead true,
    .onClientRead false, .onServerDisconnect true, .onShouldReconnect true]

theorem vanished_disagree : ∃ t, exec step .initial vanished = some t ∧ ¬ AgreeAtRest t := by
  refine ⟨_, rfl, fun agree => ?_⟩
  have same := agree ?_ false _ _ rfl rfl rfl
  · have kept := congrFun same "A".toList
    contradiction
  · intro connection link here
    cases connection with
    | false =>
      obtain rfl := Option.some.inj here
      exact ⟨fun _ => rfl, fun _ => rfl, rfl⟩
    | true =>
      obtain rfl := Option.some.inj here
      exact ⟨fun _ => rfl, fun _ => rfl, rfl⟩

end Invariant

end RemoteObjects.Registry.Agreement
