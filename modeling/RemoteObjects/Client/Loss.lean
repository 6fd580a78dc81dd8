import RemoteObjects.Client.Steps

/-! What the loss of a source reaches of the tree of replicas below. -/
namespace RemoteObjects.Client
open Host (Name)

variable {Conn : Type}

namespace Replica

/-- No call is sent, and the replica does not pass for connected. -/
def Unattached (replica : Replica Conn) : Prop := replica.connectionToSource = none ∧ replica.state ≠ .valid

instance (replica : Replica Conn) : Decidable replica.Unattached := by
  unfold Unattached
  cases replica.connectionToSource <;> infer_instance

theorem unattached_disconnected (replica : Replica Conn) : replica.disconnected.Unattached := by
  rw [disconnected_eq]
  refine ⟨rfl, ?_⟩
  dsimp only
  split <;> decide

end Replica

/-- Item models are unattached already, with all replicas below them. -/
def ModelsUnattached : Children Conn → Prop
  | .nil => True
  | .cons _ child below rest =>
    (match child.kind with
      | .CLASS => ModelsUnattached below
      | .MODEL => child.Unattached ∧ below.Forall Replica.Unattached) ∧ ModelsUnattached rest

theorem forall_disconnectChildren (children : Children Conn) :
    (disconnectChildren children).1.Forall Replica.Unattached ↔ ModelsUnattached children := by
  induction children with
  | nil => exact Iff.rfl
  | cons index child below rest belowIh restIh =>
    rw [disconnectChildren, ModelsUnattached]
    cases child.kind with
    | CLASS => simp only [Forest.Forall, belowIh, restIh, child.unattached_disconnected, true_and]
    | MODEL => simp only [Forest.Forall, restIh, and_assoc]

variable [DecidableEq Conn] {s t : NodePrivate Conn} {e : Event Conn}

namespace NodePrivate

/-- The replica loses its source: with its connection, with that of the source's owner, or
by a `RemoveObject` packet. -/
def LosesSource (s : NodePrivate Conn) (replica : Replica Conn) : Event Conn → Prop
  | .lost connection =>
    replica.connectionToSource = some connection ∨
      (s.devices connection).shouldReconnect = true ∧ replica.connectionToSource ≠ none
  | .removeObject _ => replica.connectionToSource ≠ none
  | _ => False

/-- The replica and all below it are unattached. -/
def TreeUnattached (s : NodePrivate Conn) : Prop :=
  ∀ replica children, s.replica = some (replica, children) →
    replica.Unattached ∧ children.Forall Replica.Unattached

end NodePrivate

/-- A source is lost with a device that reports it while item models are unattached, or
removed while all children are. -/
def lossReaches (s : NodePrivate Conn) : Event Conn → Prop
  | .lost connection =>
    (s.devices connection).isOpen = true → ∀ replica children, s.replica = some (replica, children) →
      s.LosesSource replica (.lost connection) → (s.devices connection).shouldReconnect = true ∧ ModelsUnattached children
  | .removeObject connection =>
    (s.devices connection).isOpen = true → ∀ replica children, s.replica = some (replica, children) →
      replica.connectionToSource ≠ none → children.Forall Replica.Unattached
  | _ => True

theorem treeUnattached_step : (∀ replica children, s.replica = some (replica, children) → s.LosesSource replica e →
      ∀ t, step s e = some t → t.TreeUnattached) ↔ lossReaches s e := by
  cases e with
  | lost connection =>
    simp only [step, Option.ite_none_right_eq_some, Option.some.injEq, and_imp, lossReaches]
    have after {replica children} (present : s.replica = some (replica, children))
        (attached : replica.connectionToSource ≠ none) : (s.lost connection).TreeUnattached ↔
          (s.devices connection).shouldReconnect = true ∧ ModelsUnattached children := by
      rw [NodePrivate.TreeUnattached, s.lost_replica connection, present, Option.map_some]
      by_cases reported : (s.devices connection).shouldReconnect = true
      · simp [reported, attached, replica.unattached_disconnected, forall_disconnectChildren]
      · simp [reported, Replica.Unattached, attached]
    have attached {replica : Replica Conn} (loses : s.LosesSource replica (.lost connection)) :
        replica.connectionToSource ≠ none := by
      obtain own | ⟨_, attached⟩ := loses
      · exact own ▸ Option.some_ne_none connection
      · exact attached
    constructor
    · intro reaches isOpen replica children present loses
      exact (after present (attached loses)).mp (reaches replica children present loses _ isOpen rfl)
    · rintro reported replica children present loses t isOpen rfl
      exact (after present (attached loses)).mpr (reported isOpen replica children present loses)
  | removeObject connection =>
    simp only [step, Option.ite_none_right_eq_some, Option.some.injEq, lossReaches, NodePrivate.LosesSource]
    have after {replica children} (present : s.replica = some (replica, children))
        (attached : replica.connectionToSource ≠ none) :
        (s.removeObject connection).TreeUnattached ↔ children.Forall Replica.Unattached := by
      rw [NodePrivate.TreeUnattached, s.removeObject_replica connection, present, Option.map_some, if_pos attached]
      simp [replica.unattached_disconnected]
    constructor
    · intro reaches isOpen replica children present attached
      exact (after present attached).mp (reaches replica children present attached _ ⟨isOpen, rfl⟩)
    · rintro removed replica children present attached t ⟨isOpen, rfl⟩
      exact (after present attached).mpr (removed isOpen replica children present attached)
  | _ => exact iff_of_true (fun _ _ _ loses => loses.elim) trivial

/-- Every loss of a source in a run reaches the whole tree exactly if it meets the
condition. -/
theorem treeUnattached_iff (external : Conn → Bool) (es : List (Event Conn)) :
    Transition.Admitted step (fun s e => ∀ replica children, s.replica = some (replica, children) →
        s.LosesSource replica e → ∀ t, step s e = some t → t.TreeUnattached) (.initial external) es ↔
      Transition.Admitted step lossReaches (.initial external) es :=
  Transition.admitted_iff (P := fun _ => True) (fun _ _ => trivial) (fun _ => treeUnattached_step) trivial

/-- The connection is lost of a replica with an item model in a property. -/
theorem lost_connection_keeps_model :
    let model : Name := "Model::A::m".toList
    ∃ s replica children, Transition.exec step (.initial fun () => false)
        [.acquire false "A".toList [1] (.cons 0 (.MODEL, model) .nil .nil), .connect (), .objectList () [1],
          .init () (.cons 0 ⟨model, .MODEL, false⟩ .nil .nil)] = some s ∧ s.replica = some (replica, children) ∧
      s.LosesSource replica (.lost ()) ∧ ∃ t, step s (.lost ()) = some t ∧ ¬ t.TreeUnattached := by
  intro model
  refine ⟨_, _, _, rfl, rfl, .inl rfl, _, rfl, fun unattached => ?_⟩
  have below := (unattached _ _ rfl).2
  revert below
  decide

end RemoteObjects.Client
