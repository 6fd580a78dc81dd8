import RemoteObjects.Registry.Source
import RemoteObjects.Transition

/-! Hosts that register their sources, each with its own URL. Who owns an entry is only known by this URL. -/
namespace RemoteObjects.Registry.Ownership
open Host (Name)
open Transition

section Model
variable (Conn Host Url : Type)

/-- The URLs of the hosts, with `none` for the registry host. They are valid, which the empty one is not. -/
structure Hosts [Inhabited Url] where
  url : Option Host → Url
  distinct : Function.Injective url
  valid : ∀ host, url host ≠ default

/-- `owner` has the hosts of the open connections. `addedOver` remembers over which connection the entry of a name was
added, with `none` for the registry host itself. -/
structure Network where
  registry : RegistryHost Conn Url
  owner : Conn → Option Host
  addedOver : Name → Option Conn

inductive Event
  | connect (host : Host) (connection : Conn)
  | invoke (connection : Conn) (slot : Slot Url)
  | disconnect (connection : Conn)
  | own (slot : Slot Url)

variable {Conn Host Url}

namespace Network
variable (s : Network Conn Host Url)

def locations : SourceLocations Url := s.registry.m_sourceLocations

/-- The host that added the entry of a name. -/
def ownerOf (name : Name) : Option Host := (s.addedOver name).bind s.owner

/-- A slot that finds its name free adds the entry, if it adds one. -/
def origin (connection : Option Conn) (slot : Slot Url) : Name → Option Conn :=
  if (s.locations slot.entry.name).isSome then s.addedOver else Function.update s.addedOver slot.entry.name connection

def initial [DecidableEq Conn] : Network Conn Host Url := ⟨.initial, fun _ => none, fun _ => none⟩

end Network

variable [Inhabited Url] [DecidableEq Conn] [DecidableEq Url]

/-- A step of the registry host. Hosts register nothing but their own sources. A host may have more than one connection. -/
def step (hosts : Hosts Host Url) (s : Network Conn Host Url) : Event Conn Host Url → Option (Network Conn Host Url)
  | .connect host connection =>
    if (s.owner connection).isSome then none else some { s with owner := Function.update s.owner connection (some host) }
  | .invoke connection slot => do
    let host ← s.owner connection
    if slot.entry.info.hostUrl = hosts.url (some host) then
      some { s with registry := (s.registry.onServerRead connection slot).1, addedOver := s.origin (some connection) slot }
    else none
  | .disconnect connection =>
    if (s.owner connection).isSome then
      some { s with registry := s.registry.onServerDisconnect connection, owner := Function.update s.owner connection none }
    else none
  | .own slot =>
    if slot.entry.info.hostUrl = hosts.url none then
      some { s with registry := (s.registry.invoke slot).1, addedOver := s.origin none slot }
    else none

end Model

section Statement
variable {Conn Host Url : Type} (s : Network Conn Host Url) (e : Event Conn Host Url) (t : Network Conn Host Url)

/-- The host that added the entry removes it, or a connection of this host ends. -/
def ReleasedByOwner (name : Name) : Prop :=
  match e with
  | .invoke connection (.removeSource entry) =>
    entry.name = name ∧ ∃ host, s.owner connection = some host ∧ s.ownerOf name = some host
  | .own (.removeSource entry) => entry.name = name ∧ s.addedOver name = none
  | .disconnect connection => ∃ host, s.owner connection = some host ∧ s.ownerOf name = some host
  | _ => False

structure Owned : Prop where
  neverReplaced : ∀ name info, s.locations name = some info → t.locations name = some info ∨ t.locations name = none
  released : ∀ name info, s.locations name = some info → t.locations name = none → ReleasedByOwner s e name
  noneRemains : ∀ connection, e = .disconnect connection →
    ∀ name info, t.locations name = some info → t.addedOver name ≠ some connection

end Statement

section Invariant
variable {Conn Host Url : Type} [Inhabited Url] {hosts : Hosts Host Url} {s t : Network Conn Host Url}
  {name : Name} {info : LocationInfo Url} {connection : Conn} {host : Host}

/-- An entry has the URL of the host that added it, over a connection that is open and mapped to this URL. -/
structure Good (hosts : Hosts Host Url) (s : Network Conn Host Url) : Prop where
  hostUrl : ∀ name info, s.locations name = some info → info.hostUrl = hosts.url (s.ownerOf name)
  added : ∀ name info connection, s.locations name = some info → s.addedOver name = some connection →
    (s.owner connection).isSome ∧ s.registry.m_registryMapping connection = some info.hostUrl
  mapped : ∀ connection url, s.registry.m_registryMapping connection = some url →
    ∃ host, s.owner connection = some host ∧ url = hosts.url (some host)

theorem good_initial [DecidableEq Conn] : Good hosts (.initial : Network Conn Host Url) := by
  constructor
  · intro _ _ there
    contradiction
  · intro _ _ _ there
    contradiction
  · intro _ _ there
    contradiction

theorem Good.ownerOf (good : Good hosts s) (there : s.locations name = some info) (same : info.hostUrl = hosts.url (some host)) :
    s.ownerOf name = some host :=
  hosts.distinct ((good.hostUrl name info there).symm.trans same)

theorem Good.own (good : Good hosts s) (there : s.locations name = some info) (same : info.hostUrl = hosts.url none) :
    s.addedOver name = none := by
  have unowned := hosts.distinct ((good.hostUrl name info there).symm.trans same)
  cases added : s.addedOver name with
  | none => rfl
  | some connection =>
    rw [Network.ownerOf, added] at unowned
    have opened := (good.added name info connection there added).1
    rw [show s.owner connection = none from unowned] at opened
    contradiction

omit [Inhabited Url] in
theorem origin_kept (there : s.locations name = some info) (party : Option Conn) (slot : Slot Url) :
    s.origin party slot name = s.addedOver name := by
  unfold Network.origin
  split
  · rfl
  · rename_i free
    apply Function.update_of_ne
    rintro rfl
    exact free (by rw [there]; rfl)

omit [Inhabited Url] in
theorem origin_new {slot : Slot Url} (free : s.locations slot.entry.name = none) (party : Option Conn) :
    s.origin party slot slot.entry.name = party := by
  rw [Network.origin, free]
  exact Function.update_self ..

variable [DecidableEq Url]

/-- A slot keeps the invariant, if who invokes it has the URL of the entry and is mapped to it. -/
theorem Good.invoke (good : Good hosts s) (party : Option Conn) {slot : Slot Url} {mapping : Conn → Option Url}
    (hostUrl : slot.entry.info.hostUrl = hosts.url (party.bind s.owner))
    (opened : ∀ connection, party = some connection →
      (s.owner connection).isSome ∧ mapping connection = some slot.entry.info.hostUrl)
    (grows : ∀ connection url, s.registry.m_registryMapping connection = some url → mapping connection = some url)
    (mapped : ∀ connection url, mapping connection = some url → ∃ host, s.owner connection = some host ∧ url = hosts.url (some host)) :
    Good hosts { s with
      registry := ⟨(s.locations.invoke slot).1, mapping⟩
      addedOver := s.origin party slot } := by
  constructor
  · intro name info there
    obtain before | ⟨free, rfl, rfl⟩ := invoke_some there
    · change info.hostUrl = hosts.url ((s.origin party slot name).bind s.owner)
      rw [origin_kept before]
      exact good.hostUrl name info before
    · change slot.entry.info.hostUrl = hosts.url ((s.origin party slot slot.entry.name).bind s.owner)
      rw [origin_new free]
      exact hostUrl
  · intro name info connection there added
    obtain before | ⟨free, rfl, rfl⟩ := invoke_some there
    · change s.origin party slot name = some connection at added
      rw [origin_kept before] at added
      obtain ⟨isOpen, url⟩ := good.added name info connection before added
      exact ⟨isOpen, grows connection _ url⟩
    · change s.origin party slot slot.entry.name = some connection at added
      rw [origin_new free] at added
      exact opened connection added
  · exact mapped

variable [DecidableEq Conn]

omit [DecidableEq Url] in
theorem Good.connect (good : Good hosts s) (new : s.owner connection = none) (host : Host) :
    Good hosts { s with owner := Function.update s.owner connection (some host) } := by
  have elsewhere : ∀ c, (s.owner c).isSome → Function.update s.owner connection (some host) c = s.owner c := by
    intro c isOpen
    apply Function.update_of_ne
    rintro rfl
    rw [new] at isOpen
    contradiction
  constructor
  · intro name info there
    rw [good.hostUrl name info there]
    congr 1
    cases added : s.addedOver name with
    | none => simp only [Network.ownerOf, added, Option.bind_none]
    | some c =>
      simp only [Network.ownerOf, added, Option.bind_some]
      exact (elsewhere c (good.added name info c there added).1).symm
  · intro name info c there added
    obtain ⟨isOpen, url⟩ := good.added name info c there added
    refine ⟨?_, url⟩
    change (Function.update s.owner connection (some host) c).isSome
    rwa [elsewhere c isOpen]
  · intro c url there
    obtain ⟨other, owner, same⟩ := good.mapped c url there
    exact ⟨other, (elsewhere c (by rw [owner]; rfl)).trans owner, same⟩

/-- What the end of a connection leaves was not added over it. -/
theorem Good.remains (good : Good hosts s) (there : (s.registry.onServerDisconnect connection).m_sourceLocations name = some info) :
    s.locations name = some info ∧ s.addedOver name ≠ some connection := by
  obtain ⟨before, other⟩ := removeServer_some.mp there
  refine ⟨before, fun added => other ?_⟩
  rw [(good.added name info connection before added).2]
  rfl

/-- What it removes belongs to the host of the connection, since no host has the URL of a connection that is not mapped. -/
theorem Good.removed (good : Good hosts s) (before : s.locations name = some info)
    (gone : (s.registry.onServerDisconnect connection).m_sourceLocations name = none) :
    ∃ host, s.owner connection = some host ∧ s.ownerOf name = some host := by
  have same : info.hostUrl = (s.registry.m_registryMapping connection).getD default := by
    by_contra other
    have kept := removeServer_some.mpr ⟨before, other⟩
    rw [show s.locations.removeServer _ name = none from gone] at kept
    contradiction
  cases mapping : s.registry.m_registryMapping connection with
  | none =>
    rw [mapping, good.hostUrl name info before] at same
    exact absurd same (hosts.valid _)
  | some url =>
    obtain ⟨host, owner, rfl⟩ := good.mapped connection url mapping
    rw [mapping] at same
    exact ⟨host, owner, good.ownerOf before same⟩

theorem Good.disconnect (good : Good hosts s) (connection : Conn) :
    Good hosts { s with registry := s.registry.onServerDisconnect connection, owner := Function.update s.owner connection none } := by
  constructor
  · intro name info there
    obtain ⟨before, apart⟩ := good.remains there
    rw [good.hostUrl name info before]
    congr 1
    cases added : s.addedOver name with
    | none => simp only [Network.ownerOf, added, Option.bind_none]
    | some c =>
      simp only [Network.ownerOf, added, Option.bind_some]
      apply (Function.update_of_ne _ _ _).symm
      rintro rfl
      exact apart added
  · intro name info c there added
    obtain ⟨before, apart⟩ := good.remains there
    obtain ⟨isOpen, url⟩ := good.added name info c before added
    have other : c ≠ connection := by
      rintro rfl
      exact apart added
    refine ⟨?_, (Function.update_of_ne other _ _).trans url⟩
    change (Function.update s.owner connection none c).isSome
    rwa [Function.update_of_ne other]
  · intro c url there
    obtain ⟨_, none⟩ | ⟨other, before⟩ := update_some there
    · contradiction
    · obtain ⟨host, owner, same⟩ := good.mapped c url before
      exact ⟨host, (Function.update_of_ne other _ _).trans owner, same⟩

omit [DecidableEq Url] in
/-- A connection of a host is mapped to its URL from the first invocation on, and nothing else changes. -/
theorem Good.mapped_invoke (good : Good hosts s) (owner : s.owner connection = some host) {slot : Slot Url}
    (url : slot.entry.info.hostUrl = hosts.url (some host)) :
    s.registry.mapped connection slot connection = some slot.entry.info.hostUrl ∧
      ∀ c, c ≠ connection → s.registry.mapped connection slot c = s.registry.m_registryMapping c := by
  unfold RegistryHost.mapped
  split
  · rename_i mapped
    obtain ⟨before, there⟩ := Option.isSome_iff_exists.mp mapped
    obtain ⟨other, owner', same⟩ := good.mapped connection before there
    obtain rfl := Option.some.inj (owner.symm.trans owner')
    exact ⟨there.trans (congrArg some (same.trans url.symm)), fun _ _ => rfl⟩
  · exact ⟨Function.update_self .., fun c apart => Function.update_of_ne apart ..⟩

theorem good_step {e : Event Conn Host Url} (good : Good hosts s) (stepped : step hosts s e = some t) : Good hosts t ∧ Owned s e t := by
  cases e with
  | connect host connection =>
    simp only [step, Option.ite_none_left_eq_some, Option.some.injEq] at stepped
    obtain ⟨new, rfl⟩ := stepped
    refine ⟨good.connect (Option.not_isSome_iff_eq_none.mp new) host, ?_⟩
    constructor
    · intro name info there
      exact .inl there
    · intro name info there gone
      rw [show s.locations name = none from gone] at there
      contradiction
    · intro _ other
      contradiction
  | invoke connection slot =>
    simp only [step, Option.bind_eq_bind, Option.bind_eq_some_iff, Option.ite_none_right_eq_some, Option.some.injEq] at stepped
    obtain ⟨host, owner, url, rfl⟩ := stepped
    obtain ⟨here, elsewhere⟩ := good.mapped_invoke owner url
    constructor
    · apply good.invoke (some connection) (url.trans (congrArg hosts.url owner.symm))
      · rintro _ ⟨⟩
        exact ⟨by rw [owner]; rfl, here⟩
      · intro c before there
        by_cases same : c = connection
        · subst same
          obtain ⟨other, owner', known⟩ := good.mapped c before there
          obtain rfl := Option.some.inj (owner.symm.trans owner')
          exact here.trans (congrArg some (url.trans known.symm))
        · exact (elsewhere c same).trans there
      · intro c after there
        by_cases same : c = connection
        · subst same
          exact ⟨host, owner, (Option.some.inj (here.symm.trans there)).symm.trans url⟩
        · exact good.mapped c after ((elsewhere c same).symm.trans there)
    · constructor
      · intro name info before
        exact invoke_kept before
      · intro name info before gone
        obtain ⟨entry, rfl, rfl, same⟩ := invoke_none before gone
        exact ⟨rfl, host, owner, good.ownerOf before (same.trans url)⟩
      · intro _ other
        contradiction
  | own slot =>
    simp only [step, Option.ite_none_right_eq_some, Option.some.injEq] at stepped
    obtain ⟨url, rfl⟩ := stepped
    constructor
    · apply good.invoke none url
      · intro _ none
        contradiction
      · intro _ _ before
        exact before
      · exact good.mapped
    · constructor
      · intro name info before
        exact invoke_kept before
      · intro name info before gone
        obtain ⟨entry, rfl, rfl, same⟩ := invoke_none before gone
        exact ⟨rfl, good.own before (same.trans url)⟩
      · intro _ other
        contradiction
  | disconnect connection =>
    simp only [step, Option.ite_none_right_eq_some, Option.some.injEq] at stepped
    obtain ⟨_, rfl⟩ := stepped
    refine ⟨good.disconnect connection, ?_⟩
    constructor
    · intro name info before
      cases after : (s.registry.onServerDisconnect connection).m_sourceLocations name with
      | none => exact .inr after
      | some other => exact .inl (after.trans ((good.remains after).1.symm.trans before))
    · intro name info before gone
      exact good.removed before gone
    · rintro _ ⟨⟩ name info there
      exact (good.remains there).2

/-- In every run of a registry host whose hosts register their own sources, no entry is replaced, only the owner of an
entry releases it, and the end of a connection leaves nothing that was added over it. -/
theorem owned_run (hosts : Hosts Host Url) (es : List (Event Conn Host Url)) :
    Admitted (step hosts) (fun s e => ∀ t, step hosts s e = some t → Owned s e t) .initial es := by
  apply admitted_always (P := Good hosts)
  · intro s e t good stepped
    exact (good_step good stepped).1
  · intro s e good t stepped
    exact (good_step good stepped).2
  · exact good_initial

def rivals : Hosts Bool Nat where
  url
    | none => 1
    | some false => 2
    | some true => 3
  distinct := by
    rintro (_ | _ | _) (_ | _ | _) same
    all_goals first | rfl | contradiction
  valid := by
    rintro (_ | _ | _) same
    all_goals contradiction

/-- A host gets a name only after the end of the connection of the host that had it. -/
example : (exec (step rivals) (.initial : Network Nat Bool Nat)
      [.connect false 0, .connect true 1, .invoke 0 (.addSource ⟨"A".toList, ⟨[], 2⟩⟩), .invoke 1 (.addSource ⟨"A".toList, ⟨[], 3⟩⟩),
        .disconnect 0, .invoke 1 (.addSource ⟨"A".toList, ⟨[], 3⟩⟩)]).bind (fun t => t.locations "A".toList) =
    some ⟨[], 3⟩ := rfl

end Invariant

end RemoteObjects.Registry.Ownership
