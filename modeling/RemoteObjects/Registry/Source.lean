import RemoteObjects.Host.Sources

/-! The registry on its host: the locations of sources, the slots that change them, and the connections whose end
removes them. -/
namespace RemoteObjects.Registry
open Host (Name)

section Model
variable (Conn Url : Type)

structure LocationInfo where
  typeName : Name
  hostUrl : Url
deriving DecidableEq

structure SourceLocation where
  name : Name
  info : LocationInfo Url
deriving DecidableEq

abbrev SourceLocations := Name → Option (LocationInfo Url)

/-- The signals of the registry, as its replicas receive them. -/
inductive Signal
  | remoteObjectAdded (entry : SourceLocation Url)
  | remoteObjectRemoved (entry : SourceLocation Url)
deriving DecidableEq

/-- The slots that replicas invoke. -/
inductive Slot
  | addSource (entry : SourceLocation Url)
  | removeSource (entry : SourceLocation Url)
deriving DecidableEq

/-- `QRegistrySource`, and what the `QRemoteObjectSourceIo` of its node knows of the connections. -/
structure RegistryHost where
  m_sourceLocations : SourceLocations Url
  m_registryMapping : Conn → Option Url

variable {Conn Url}

def Slot.entry : Slot Url → SourceLocation Url
  | .addSource entry => entry
  | .removeSource entry => entry

namespace SourceLocations
variable (locations : SourceLocations Url)

/-- A name that is taken stays as it is, whoever has it. -/
def addSource (entry : SourceLocation Url) : SourceLocations Url × List (Signal Url) :=
  if (locations entry.name).isSome then (locations, [])
  else (Function.update locations entry.name (some entry.info), [.remoteObjectAdded entry])

variable [DecidableEq Url]

def removeSource (entry : SourceLocation Url) : SourceLocations Url × List (Signal Url) :=
  match locations entry.name with
  | some info =>
    if info.hostUrl = entry.info.hostUrl then (Function.update locations entry.name none, [.remoteObjectRemoved entry])
    else (locations, [])
  | none => (locations, [])

/-- It emits nothing. -/
def removeServer (url : Url) : SourceLocations Url :=
  fun name => (locations name).filter fun info => info.hostUrl ≠ url

def invoke : Slot Url → SourceLocations Url × List (Signal Url)
  | .addSource entry => locations.addSource entry
  | .removeSource entry => locations.removeSource entry

end SourceLocations

namespace RegistryHost
variable [DecidableEq Conn] (s : RegistryHost Conn Url)

def initial : RegistryHost Conn Url := ⟨fun _ => none, fun _ => none⟩

/-- The first invocation tells to which host a connection belongs. -/
def mapped (connection : Conn) (slot : Slot Url) : Conn → Option Url :=
  if (s.m_registryMapping connection).isSome then s.m_registryMapping
  else Function.update s.m_registryMapping connection (some slot.entry.info.hostUrl)

variable [DecidableEq Url]

/-- The slots as the host itself calls them for its own sources. -/
def invoke (slot : Slot Url) : RegistryHost Conn Url × List (Signal Url) :=
  let (locations, signals) := s.m_sourceLocations.invoke slot
  ({ s with m_sourceLocations := locations }, signals)

def onServerRead (connection : Conn) (slot : Slot Url) : RegistryHost Conn Url × List (Signal Url) :=
  RegistryHost.invoke { s with m_registryMapping := s.mapped connection slot } slot

/-- A connection that is not mapped has the URL that is empty. -/
def onServerDisconnect [Inhabited Url] (connection : Conn) : RegistryHost Conn Url where
  m_sourceLocations := s.m_sourceLocations.removeServer ((s.m_registryMapping connection).getD default)
  m_registryMapping := Function.update s.m_registryMapping connection none

end RegistryHost
end Model

/-- An entry of a table behind a change of one key. -/
theorem update_some {Key Value : Type} [DecidableEq Key] {table : Key → Option Value} {key other : Key} {value : Option Value}
    {entry : Value} (there : Function.update table key value other = some entry) :
    other = key ∧ value = some entry ∨ other ≠ key ∧ table other = some entry := by
  by_cases same : other = key
  · subst same
    rw [Function.update_self] at there
    exact .inl ⟨rfl, there⟩
  · rw [Function.update_of_ne same] at there
    exact .inr ⟨same, there⟩

section Slots
variable {Conn Url : Type} {locations : SourceLocations Url} {entry : SourceLocation Url} {name : Name} {info : LocationInfo Url}

theorem addSource_taken (taken : (locations entry.name).isSome) : locations.addSource entry = (locations, []) :=
  if_pos taken

theorem addSource_free (free : locations entry.name = none) :
    locations.addSource entry = (Function.update locations entry.name (some entry.info), [.remoteObjectAdded entry]) := by
  rw [SourceLocations.addSource, if_neg]
  simp [free]

/-- What was there stays, and a name that was free gets the entry. -/
theorem addSource_some : (locations.addSource entry).1 name = some info ↔
    locations name = some info ∨ locations name = none ∧ name = entry.name ∧ info = entry.info := by
  cases taken : locations entry.name with
  | some other =>
    rw [addSource_taken (by rw [taken]; rfl)]
    constructor
    · exact .inl
    · rintro (there | ⟨free, rfl, _⟩)
      · exact there
      · rw [taken] at free
        contradiction
  | none =>
    rw [addSource_free taken]
    by_cases here : name = entry.name
    · subst here
      simp [taken, eq_comm]
    · simp [here]

variable [DecidableEq Url]

theorem removeSource_own (there : locations entry.name = some info) (same : info.hostUrl = entry.info.hostUrl) :
    locations.removeSource entry = (Function.update locations entry.name none, [.remoteObjectRemoved entry]) := by
  rw [SourceLocations.removeSource, there]
  exact if_pos same

theorem removeSource_foreign (foreign : ∀ info, locations entry.name = some info → info.hostUrl ≠ entry.info.hostUrl) :
    locations.removeSource entry = (locations, []) := by
  rw [SourceLocations.removeSource]
  split
  · rename_i info there
    exact if_neg (foreign info there)
  · rfl

theorem removeSource_some : (locations.removeSource entry).1 name = some info ↔
    locations name = some info ∧ ¬ (name = entry.name ∧ info.hostUrl = entry.info.hostUrl) := by
  by_cases own : ∃ before, locations entry.name = some before ∧ before.hostUrl = entry.info.hostUrl
  · obtain ⟨before, there, same⟩ := own
    rw [removeSource_own there same]
    dsimp only
    by_cases here : name = entry.name
    · subst here
      rw [Function.update_self]
      apply iff_of_false
      · exact Option.some_ne_none info ∘ Eq.symm
      · rintro ⟨other, kept⟩
        obtain rfl := Option.some.inj (there.symm.trans other)
        exact kept ⟨rfl, same⟩
    · rw [Function.update_of_ne here]
      exact (and_iff_left fun both => here both.1).symm
  · rw [removeSource_foreign fun before there same => own ⟨before, there, same⟩]
    apply (and_iff_left_of_imp _).symm
    rintro there ⟨rfl, same⟩
    exact own ⟨info, there, same⟩

theorem removeServer_some {url : Url} : locations.removeServer url name = some info ↔
    locations name = some info ∧ info.hostUrl ≠ url := by
  simp [SourceLocations.removeServer, Option.filter_eq_some_iff]

/-- After a slot a name has what it had before, or the entry of the slot where it was free. -/
theorem invoke_some {slot : Slot Url} (there : (locations.invoke slot).1 name = some info) :
    locations name = some info ∨ locations name = none ∧ name = slot.entry.name ∧ info = slot.entry.info := by
  cases slot with
  | addSource entry => exact addSource_some.mp there
  | removeSource entry => exact .inl (removeSource_some.mp there).1

/-- A slot replaces nothing. -/
theorem invoke_kept {slot : Slot Url} (before : locations name = some info) :
    (locations.invoke slot).1 name = some info ∨ (locations.invoke slot).1 name = none := by
  cases after : (locations.invoke slot).1 name with
  | none => exact .inr rfl
  | some other =>
    obtain same | ⟨free, _⟩ := invoke_some after
    · exact .inl (same.symm.trans before)
    · rw [before] at free
      contradiction

/-- Only the slot for it removes an entry, with the name and the URL. -/
theorem invoke_none {slot : Slot Url} (there : locations name = some info) (gone : (locations.invoke slot).1 name = none) :
    ∃ entry, slot = .removeSource entry ∧ name = entry.name ∧ info.hostUrl = entry.info.hostUrl := by
  cases slot with
  | addSource entry =>
    have kept : (locations.addSource entry).1 name = some info := addSource_some.mpr (.inl there)
    rw [show (locations.addSource entry).1 name = none from gone] at kept
    contradiction
  | removeSource entry =>
    by_contra foreign
    have kept : (locations.removeSource entry).1 name = some info := by
      apply removeSource_some.mpr
      exact ⟨there, fun own => foreign ⟨entry, rfl, own⟩⟩
    rw [show (locations.removeSource entry).1 name = none from gone] at kept
    contradiction

end Slots
end RemoteObjects.Registry
