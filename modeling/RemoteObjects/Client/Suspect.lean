import RemoteObjects.Client.Steps

/-! Whether a suspect replica was valid before. -/
namespace RemoteObjects.Client
open Host (Name Kind)
open Transition

variable {Conn : Type}

namespace Replica

/-- What the records of a replica say about its state. -/
structure Recorded (replica : Replica Conn) : Prop where
  valid : replica.state = .valid → replica.wasValid = true
  before : replica.state = .uninitialized ∨ replica.state = .default → replica.wasValid = false
  initialised : replica.wasValid = true → replica.initialised = true

/-- `Suspect` comes after `Valid` only, and data after an init packet. -/
structure SuspectAfterValid (replica : Replica Conn) : Prop where
  suspect : replica.state = .suspect → replica.wasValid = true
  data : replica.isInitialized = true → replica.initialised = true

def PastDefault (replica : Replica Conn) : Prop := replica.state ≠ .uninitialized ∧ replica.state ≠ .default

variable {replica : Replica Conn}

theorem recorded_new (kind : Kind) (name : Name) (signature : Node.Signature) (hasMetaObject : Bool) :
    (Replica.new kind name signature hasMetaObject : Replica Conn).Recorded ∧
      (Replica.new kind name signature hasMetaObject : Replica Conn).SuspectAfterValid := by
  cases hasMetaObject
  all_goals
    refine ⟨⟨fun valid => ?_, fun _ => rfl, fun valid => ?_⟩, fun suspect => ?_, fun initialized => ?_⟩
    all_goals contradiction

theorem SuspectAfterValid.of_recorded (recorded : replica.Recorded)
    (suspect : replica.state = .suspect → replica.wasValid = true) : replica.SuspectAfterValid where
  suspect := suspect
  data initialized := by
    obtain valid | lost := replica.isInitialized_iff.mp initialized
    · exact recorded.initialised (recorded.valid valid)
    · exact recorded.initialised (suspect lost)

theorem Recorded.disconnected (recorded : replica.Recorded) : replica.disconnected.Recorded := by
  rw [disconnected_eq]
  refine ⟨fun valid => ?_, fun before => ?_, recorded.initialised⟩
  all_goals
    dsimp only at *
    split at *
    all_goals simp_all

/-- A replica that loses its source must have been initialised. -/
theorem Recorded.suspect_iff (recorded : replica.Recorded) (held : replica.SuspectAfterValid) :
    replica.disconnected.SuspectAfterValid ↔ replica.PastDefault := by
  constructor
  · intro after
    have suspect := after.suspect
    rw [disconnected_eq] at suspect
    constructor
    all_goals
      intro early
      simp [early, recorded.before] at suspect
  · intro past
    refine .of_recorded recorded.disconnected fun suspect => ?_
    rw [disconnected_eq] at suspect ⊢
    dsimp only at suspect ⊢
    obtain ⟨kind, name, signature, hasMetaObject, connection, state, wasValid, initialised, initFrom⟩ := replica
    cases state with
    | uninitialized => exact absurd rfl past.1
    | default => exact absurd rfl past.2
    | valid => exact recorded.valid rfl
    | suspect => exact held.suspect rfl
    | signatureMismatch => contradiction

theorem Recorded.initialise (recorded : replica.Recorded) :
    ({ replica.setState .valid with initialised := true } : Replica Conn).Recorded ∧
      ({ replica.setState .valid with initialised := true } : Replica Conn).SuspectAfterValid := by
  rw [setState_valid]
  refine ⟨⟨fun valid => ?_, fun before => ?_, fun _ => rfl⟩, fun suspect => ?_, fun _ => rfl⟩
  all_goals
    dsimp only at *
    split at *
  · contradiction
  · by_cases already : replica.state = .valid
    · rw [recorded.valid already, Bool.true_or]
    · simp_all
  all_goals simp at *

end Replica

/-- All replicas below a replica that `setDisconnected` reaches are past `Default`. -/
def ReachedPastDefault : Children Conn → Prop
  | .nil => True
  | .cons _ child below rest =>
    (match child.kind with
      | .CLASS => child.PastDefault ∧ ReachedPastDefault below
      | .MODEL => True) ∧ ReachedPastDefault rest

/-- The records of a replica, with the claim on its state. -/
def Good (replica : Replica Conn) : Prop := replica.Recorded ∧ replica.SuspectAfterValid

theorem suspect_disconnectChildren {children : Children Conn} (good : children.Forall Good) :
    (disconnectChildren children).1.Forall Replica.Recorded ∧
      ((disconnectChildren children).1.Forall Replica.SuspectAfterValid ↔ ReachedPastDefault children) := by
  induction children with
  | nil => exact ⟨trivial, Iff.rfl⟩
  | cons index child below rest belowIh restIh =>
    obtain ⟨here, inside, outside⟩ := good
    rw [disconnectChildren, ReachedPastDefault]
    have suspect := here.1.suspect_iff here.2
    cases child.kind with
    | CLASS =>
      simp only [Forest.Forall, belowIh inside, restIh outside, here.1.disconnected, suspect, and_assoc, true_and]
    | MODEL =>
      have recorded : below.Forall Replica.Recorded := inside.imp fun _ good => good.1
      have held : below.Forall Replica.SuspectAfterValid := inside.imp fun _ good => good.2
      simp only [Forest.Forall, restIh outside, here.1, here.2, recorded, held, true_and]

theorem good_init (child parent : Replica Conn) (good : Good child) : Good (child.connectLike parent).initChild.2 := by
  have recorded : ({ child.connectLike parent with hasMetaObject := true } : Replica Conn).Recorded :=
    ⟨good.1.valid, good.1.before, good.1.initialised⟩
  rw [Replica.initChild]
  split
  · have recorded : (child.connectLike parent).Recorded := ⟨good.1.valid, good.1.before, good.1.initialised⟩
    exact recorded.initialise
  · exact recorded.initialise

theorem good_typed (children : Forest (Kind × Name)) :
    (NodePrivate.typed children : Children Conn).Forall Good := by
  induction children with
  | nil => trivial
  | cons index child below rest belowIh restIh =>
    exact ⟨Replica.recorded_new child.1 child.2 [] true, belowIh, restIh⟩

variable [DecidableEq Conn] {s t : NodePrivate Conn} {e : Event Conn}

omit [DecidableEq Conn] in
theorem Good.attached {replica new : Replica Conn} (good : Good replica)
    (attached : (∃ connection, new = { replica with connectionToSource := some connection, initFrom := none }) ∨
      new = replica.setState .signatureMismatch ∨ new = replica) : Good new := by
  obtain ⟨connection, rfl⟩ | rfl | rfl := attached
  · exact ⟨⟨good.1.valid, good.1.before, good.1.initialised⟩, good.2.suspect, good.2.data⟩
  · rw [Replica.setState_signatureMismatch]
    have recorded : ({ replica with state := .signatureMismatch } : Replica Conn).Recorded :=
      ⟨fun valid => by contradiction, fun before => by simp at before, good.1.initialised⟩
    exact ⟨recorded, .of_recorded recorded fun suspect => by contradiction⟩
  · exact good

theorem Good.handleReplicaConnection {replica : Replica Conn} {children : Children Conn} (good : Good replica)
    (below : children.Forall Good) : (s.handleReplicaConnection replica children).Each Good := by
  obtain ⟨new, present, attached⟩ := s.handleReplicaConnection_replica replica children
  exact .of_eq (good.attached attached) below present

theorem good_step (good : s.Each Good) (stepped : step s e = some t) (kept : ∀ connection,
    e ≠ .lost connection ∧ e ≠ .removeObject connection) : t.Each Good := by
  cases e with
  | connect connection =>
    simp only [step, Option.ite_none_left_eq_some, Option.some.injEq] at stepped
    obtain ⟨_, rfl⟩ := stepped
    exact good.congr rfl
  | lost connection => exact absurd rfl (kept connection).1
  | removeObject connection => exact absurd rfl (kept connection).2
  | acquire isDynamic name signature children =>
    simp only [step, Option.ite_none_left_eq_some, Option.some.injEq] at stepped
    obtain ⟨_, rfl⟩ := stepped
    rw [NodePrivate.acquire]
    split
    · exact Good.handleReplicaConnection (Replica.recorded_new .CLASS name [] false) trivial
    · exact Good.handleReplicaConnection (Replica.recorded_new .CLASS name signature true) (good_typed children)
  | objectList connection signature =>
    simp only [step, Option.ite_none_right_eq_some, Option.some.injEq] at stepped
    obtain ⟨_, rfl⟩ := stepped
    obtain ⟨replica, children, present, _, same⟩ | ⟨same, _⟩ := s.objectList_cases connection signature
    · obtain ⟨here, below⟩ := good replica children present
      rw [same]
      exact here.handleReplicaConnection below
    · rw [same]
      exact good.congr (s.announce_replica connection signature)
  | init connection infos =>
    obtain ⟨requests, replica, stored, children, names, inside, _, present, handled, rfl⟩ := step_init stepped
    obtain ⟨here, below⟩ := good replica stored present
    have made := here.1.initialise
    refine .of_eq ?_ (handlePointers_forall (fun kind name => Replica.recorded_new kind name [] _) good_init below handled)
      rfl
    exact ⟨⟨made.1.valid, made.1.before, made.1.initialised⟩, made.2.suspect, made.2.data⟩
  | initDynamic connection infos =>
    obtain ⟨requests, replica, stored, children, names, inside, _, present, handled, rfl⟩ := step_initDynamic stepped
    obtain ⟨here, below⟩ := good replica stored present
    have known : replica.setDynamicMetaObject.Recorded := ⟨here.1.valid, here.1.before, here.1.initialised⟩
    have made := known.initialise
    refine .of_eq ?_ (handlePointers_forall (fun kind name => Replica.recorded_new kind name [] _) good_init below handled)
      rfl
    exact ⟨⟨made.1.valid, made.1.before, made.1.initialised⟩, made.2.suspect, made.2.data⟩
  | unanswered connection =>
    simp only [step] at stepped
    split at stepped
    · obtain rfl := Option.some.inj stepped
      exact good.congr rfl
    · contradiction
  | propertyChange path index info below =>
    exact NodePrivate.each_propertyChange (fun kind name => Replica.recorded_new kind name [] _) good_init good stepped

/-- When a replica loses its source, it and those that are disconnected with it are past
`Default`. -/
def struckPastDefault (s : NodePrivate Conn) : Event Conn → Prop
  | .lost connection =>
    (s.devices connection).isOpen = true → (s.devices connection).shouldReconnect = true →
      ∀ replica children, s.replica = some (replica, children) → replica.connectionToSource ≠ none →
        replica.PastDefault ∧ ReachedPastDefault children
  | .removeObject connection =>
    (s.devices connection).isOpen = true → ∀ replica children, s.replica = some (replica, children) →
      replica.connectionToSource ≠ none → replica.PastDefault
  | _ => True

omit [DecidableEq Conn] in
theorem Good.split (good : s.Each Good) : s.Each Replica.Recorded ∧ s.Each Replica.SuspectAfterValid := by
  constructor
  all_goals
    intro root children present
    obtain ⟨here, below⟩ := good root children present
  · exact ⟨here.1, below.imp fun _ good => good.1⟩
  · exact ⟨here.2, below.imp fun _ good => good.2⟩

theorem suspect_lost (good : s.Each Good) (connection : Conn) : (s.lost connection).Each Replica.Recorded ∧
    ((s.lost connection).Each Replica.SuspectAfterValid ↔ ((s.devices connection).shouldReconnect = true →
      ∀ replica children, s.replica = some (replica, children) → replica.connectionToSource ≠ none →
        replica.PastDefault ∧ ReachedPastDefault children)) := by
  have lost := s.lost_replica connection
  cases present : s.replica with
  | none =>
    rw [present, Option.map_none] at lost
    exact ⟨NodePrivate.each_of_none lost, iff_of_true (NodePrivate.each_of_none lost) (by simp)⟩
  | some node =>
    obtain ⟨replica, children⟩ := node
    obtain ⟨here, below⟩ := good replica children present
    rw [present, Option.map_some] at lost
    by_cases struck : (s.devices connection).shouldReconnect = true ∧ replica.connectionToSource ≠ none
    · rw [if_pos struck] at lost
      rw [NodePrivate.each_iff lost, NodePrivate.each_iff lost]
      obtain ⟨recorded, suspect⟩ := suspect_disconnectChildren below
      refine ⟨⟨here.1.disconnected, recorded⟩, ?_⟩
      rw [here.1.suspect_iff here.2, suspect]
      simp [struck]
    · rw [if_neg struck] at lost
      obtain ⟨recorded, held⟩ := Good.split good
      refine ⟨recorded.congr (lost.trans present.symm), iff_of_true (held.congr (lost.trans present.symm)) ?_⟩
      rintro reported _ _ ⟨⟩ attached
      exact absurd ⟨reported, attached⟩ struck

theorem suspect_removeObject (good : s.Each Good) (connection : Conn) :
    (s.removeObject connection).Each Replica.Recorded ∧
      ((s.removeObject connection).Each Replica.SuspectAfterValid ↔ ∀ replica children,
        s.replica = some (replica, children) → replica.connectionToSource ≠ none → replica.PastDefault) := by
  have removed := s.removeObject_replica connection
  cases present : s.replica with
  | none =>
    rw [present, Option.map_none] at removed
    exact ⟨NodePrivate.each_of_none removed, iff_of_true (NodePrivate.each_of_none removed) (by simp)⟩
  | some node =>
    obtain ⟨replica, children⟩ := node
    obtain ⟨here, below⟩ := good replica children present
    rw [present, Option.map_some] at removed
    by_cases attached : replica.connectionToSource ≠ none
    · rw [if_pos attached] at removed
      rw [NodePrivate.each_iff removed, NodePrivate.each_iff removed, here.1.suspect_iff here.2]
      refine ⟨⟨here.1.disconnected, below.imp fun _ good => good.1⟩, ?_⟩
      have held : children.Forall Replica.SuspectAfterValid := below.imp fun _ good => good.2
      simp [held, attached]
    · rw [if_neg attached] at removed
      obtain ⟨recorded, held⟩ := Good.split good
      refine ⟨recorded.congr (removed.trans present.symm), iff_of_true (held.congr (removed.trans present.symm)) ?_⟩
      rintro _ _ ⟨⟩ kept
      exact absurd kept attached

theorem suspectAfterValid_step (good : s.Each Good) : (∀ t, step s e = some t → t.Each Replica.Recorded) ∧
    ((∀ t, step s e = some t → t.Each Replica.SuspectAfterValid) ↔ struckPastDefault s e) := by
  cases e with
  | lost connection =>
    obtain ⟨recorded, suspect⟩ := suspect_lost good connection
    simp only [step, Option.ite_none_right_eq_some, Option.some.injEq, and_imp, struckPastDefault]
    refine ⟨fun t _ stepped => stepped ▸ recorded, ?_⟩
    rw [← suspect]
    simp
  | removeObject connection =>
    obtain ⟨recorded, suspect⟩ := suspect_removeObject good connection
    simp only [step, Option.ite_none_right_eq_some, Option.some.injEq, and_imp, struckPastDefault]
    refine ⟨fun t _ stepped => stepped ▸ recorded, ?_⟩
    rw [← suspect]
    simp
  | _ =>
    refine ⟨fun t stepped => (Good.split (good_step good stepped (by simp))).1, iff_of_true (fun t stepped => ?_) trivial⟩
    exact (Good.split (good_step good stepped (by simp))).2

/-- Suspect replicas were valid in every state of a run exactly if none is struck before it
was initialised. -/
theorem suspectAfterValid_iff (external : Conn → Bool) (es : List (Event Conn)) :
    Admitted step (fun s e => ∀ t, step s e = some t → t.Each Replica.SuspectAfterValid) (.initial external) es ↔
      Admitted step struckPastDefault (.initial external) es := by
  refine admitted_iff_of_kept (P := fun s => s.Each Good) ?_ (fun good => (suspectAfterValid_step good).2) ?_
  · intro s e t good claimed stepped root children present
    obtain ⟨here, below⟩ := (suspectAfterValid_step good).1 t stepped root children present
    obtain ⟨claim, claims⟩ := claimed t stepped root children present
    exact ⟨⟨here, claim⟩, below.and claims⟩
  · intro root children present
    contradiction

/-- A connection is lost between the request of a replica and the answer. -/
theorem lost_before_init_suspect :
    ∃ t, exec step (.initial fun () => false)
        [.acquire false "A".toList [1] .nil, .connect (), .objectList () [1], .lost ()] = some t ∧
      ¬ t.Each Replica.SuspectAfterValid := by
  refine ⟨_, rfl, fun claimed => ?_⟩
  have suspect := (claimed _ _ rfl).1.suspect rfl
  contradiction

end RemoteObjects.Client
