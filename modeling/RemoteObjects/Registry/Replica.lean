import RemoteObjects.Feed
import RemoteObjects.Node.Network
import RemoteObjects.Registry.Source

/-! Replicas of the registry: a snapshot of the locations when they are attached, and the signals behind it. -/
namespace RemoteObjects.Registry
open Host (Name)
open Node (ReplicaState)

section Model
variable (Url : Type)

/-- What a registry replica receives: the property in an init packet, or a signal. -/
abbrev Packet := Feed.Message (SourceLocations Url) (Signal Url)

structure RegistryReplica where
  state : ReplicaState
  sourceLocations : SourceLocations Url

variable {Url}

namespace RegistryReplica
variable (replica : RegistryReplica Url)

def setState (state : ReplicaState) : RegistryReplica Url :=
  if replica.state ≠ .suspect ∧ replica.state.ctorIdx ≥ state.ctorIdx then replica else { replica with state }

def initializeProperties (locations : SourceLocations Url) : RegistryReplica Url :=
  { replica with sourceLocations := locations }.setState .valid

def setDisconnected : RegistryReplica Url := replica.setState .suspect

/-- Entries without a name are not for replicas. -/
def onRemoteObjectSourceAdded (entry : SourceLocation Url) : RegistryReplica Url :=
  if entry.name = [] then replica
  else { replica with sourceLocations := Function.update replica.sourceLocations entry.name (some entry.info) }

def onRemoteObjectSourceRemoved (entry : SourceLocation Url) : RegistryReplica Url :=
  if entry.name = [] then replica
  else { replica with sourceLocations := Function.update replica.sourceLocations entry.name none }

def read : Packet Url → RegistryReplica Url
  | .snapshot locations => replica.initializeProperties locations
  | .update (.remoteObjectAdded entry) => replica.onRemoteObjectSourceAdded entry
  | .update (.remoteObjectRemoved entry) => replica.onRemoteObjectSourceRemoved entry

end RegistryReplica
end Model

section Copies
variable {Url : Type} {replica : RegistryReplica Url}

/-- What a signal does to the locations of a replica. -/
def hear : Signal Url → SourceLocations Url → SourceLocations Url
  | .remoteObjectAdded entry, locations => if entry.name = [] then locations else Function.update locations entry.name (some entry.info)
  | .remoteObjectRemoved entry, locations => if entry.name = [] then locations else Function.update locations entry.name none

def RegistryReplica.copy (replica : RegistryReplica Url) : Feed.Copy (SourceLocations Url) :=
  ⟨replica.sourceLocations, replica.state = .valid⟩

theorem state_initialized (matching : replica.state ≠ .signatureMismatch) (locations : SourceLocations Url) :
    (replica.initializeProperties locations).state = .valid ∧ (replica.initializeProperties locations).sourceLocations = locations := by
  unfold RegistryReplica.initializeProperties RegistryReplica.setState
  split
  · rename_i late
    obtain ⟨unsuspected, later⟩ := late
    refine ⟨?_, rfl⟩
    cases state : replica.state with
    | valid => rfl
    | suspect => exact absurd state unsuspected
    | signatureMismatch => exact absurd state matching
    | uninitialized | default =>
      dsimp only at later
      rw [state] at later
      contradiction
  · exact ⟨rfl, rfl⟩

theorem state_update (change : Signal Url) : (replica.read (.update change)).state = replica.state := by
  cases change with
  | remoteObjectAdded entry =>
    simp only [RegistryReplica.read, RegistryReplica.onRemoteObjectSourceAdded]
    split <;> rfl
  | remoteObjectRemoved entry =>
    simp only [RegistryReplica.read, RegistryReplica.onRemoteObjectSourceRemoved]
    split <;> rfl

/-- Registry replicas follow the registry like copies. -/
theorem copy_read (matching : replica.state ≠ .signatureMismatch) (packet : Packet Url) :
    (replica.read packet).copy = replica.copy.receive hear packet := by
  cases packet with
  | snapshot locations =>
    obtain ⟨state, same⟩ := state_initialized matching locations
    simp only [RegistryReplica.copy, RegistryReplica.read, state, same]
    rfl
  | update change =>
    rw [RegistryReplica.copy, state_update]
    cases change with
    | remoteObjectAdded entry =>
      simp only [RegistryReplica.read, RegistryReplica.onRemoteObjectSourceAdded, RegistryReplica.copy, Feed.Copy.receive, hear]
      split <;> rfl
    | remoteObjectRemoved entry =>
      simp only [RegistryReplica.read, RegistryReplica.onRemoteObjectSourceRemoved, RegistryReplica.copy, Feed.Copy.receive, hear]
      split <;> rfl

theorem matching_read (matching : replica.state ≠ .signatureMismatch) (packet : Packet Url) :
    (replica.read packet).state ≠ .signatureMismatch := by
  cases packet with
  | snapshot locations =>
    rw [RegistryReplica.read, (state_initialized matching locations).1]
    decide
  | update change =>
    rw [state_update]
    exact matching

end Copies
end RemoteObjects.Registry
