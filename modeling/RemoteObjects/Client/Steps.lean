import RemoteObjects.Client.Replicas

/-! What each step of the client does to its replica and the children in the pointer
properties. -/
namespace RemoteObjects.Client
open Host (Name Kind)

variable {Conn : Type} {replica : Replica Conn} {stored tree : Children Conn} {replicas names : Name → Bool}
  {held : Bool}

namespace Replica

/-- Only the mismatch of signatures is kept. -/
theorem disconnected_eq (replica : Replica Conn) : replica.disconnected = { replica with
    connectionToSource := none
    state := if replica.state = .signatureMismatch then .signatureMismatch else .suspect } := by
  obtain ⟨_, _, _, _, _, state, _, _, _⟩ := replica
  cases state <;> simp [disconnected, setState, Node.ReplicaState.ctorIdx]

theorem setState_valid (replica : Replica Conn) : replica.setState .valid = { replica with
    state := if replica.state = .signatureMismatch then .signatureMismatch else .valid
    wasValid := replica.wasValid || decide (replica.state ≠ .valid ∧ replica.state ≠ .signatureMismatch) } := by
  obtain ⟨_, _, _, _, _, state, _, _, _⟩ := replica
  cases state <;> simp [setState, Node.ReplicaState.ctorIdx]

theorem setState_signatureMismatch (replica : Replica Conn) :
    replica.setState .signatureMismatch = { replica with state := .signatureMismatch } := by
  obtain ⟨_, _, _, _, _, state, _, _, _⟩ := replica
  cases state <;> simp [setState, Node.ReplicaState.ctorIdx]

theorem isInitialized_iff (replica : Replica Conn) :
    replica.isInitialized = true ↔ replica.state = .valid ∨ replica.state = .suspect := by
  obtain ⟨_, _, _, _, _, state, _, _, _⟩ := replica
  cases state <;> simp [isInitialized, Node.ReplicaState.ctorIdx]

end Replica

theorem childFor_some {index : Nat} {info : ChildInfo} {child : Replica Conn} {inner : Children Conn}
    (taken : childFor replica stored replicas index info = some (child, inner)) :
    (replicas info.name = false ∨ replica.isInitialized = true) ∧ child = .acquired info.kind info.name ∧ inner = .nil ∨
      replica.isInitialized = false ∧ stored.find [index] = some (child, inner) := by
  unfold childFor at taken
  split at taken
  · rename_i fresh
    obtain ⟨rfl, rfl⟩ := Prod.mk.inj (Option.some.inj taken)
    exact .inl ⟨fresh, rfl, rfl⟩
  · rename_i known
    exact .inr ⟨eq_false_of_ne_true (not_or.mp known).2, (Option.filter_eq_some_iff.mp taken).1⟩

theorem handlePointers_cons {index : Nat} {info : ChildInfo} {below rest : Infos}
    (handled : handlePointers replica stored (.cons index info below rest) replicas = some (tree, names, held)) :
    (info.isNull = true ∧
        handlePointers replica stored rest (Function.update replicas info.name false) = some (tree, names, held)) ∨
      info.isNull = false ∧ ∃ child inner children middle inside others outside,
        childFor replica stored replicas index info = some (child, inner) ∧
        handlePointers (child.connectLike replica) inner below (Function.update replicas info.name true) =
          some (children, middle, inside) ∧
        handlePointers replica stored rest middle = some (others, names, outside) ∧
        tree = .cons index (child.connectLike replica).initChild.2 children others ∧
        held = ((child.connectLike replica).initChild.1 && inside && outside) := by
  rw [handlePointers] at handled
  split at handled
  · rename_i null
    exact .inl ⟨null, handled⟩
  · rename_i here
    simp only [Option.bind_eq_bind, Option.bind_eq_some_iff, Prod.exists, Option.some.injEq, Prod.mk.injEq] at handled
    obtain ⟨child, inner, taken, children, middle, inside, below, others, _, outside, rest, made, rfl, asserted⟩ := handled
    exact .inr ⟨eq_false_of_ne_true here, child, inner, children, middle, inside, others, outside, taken, below, rest,
      made.symm, asserted.symm⟩

/-- What holds of new replicas, and is kept by their initialisation, holds of all children
behind a packet. -/
theorem handlePointers_forall {p : Replica Conn → Prop} (new : ∀ kind name, p (.acquired kind name))
    (init : ∀ child parent, p child → p (child.connectLike parent).initChild.2) {infos : Infos} (all : stored.Forall p)
    (handled : handlePointers replica stored infos replicas = some (tree, names, held)) : tree.Forall p := by
  induction infos generalizing replica stored replicas tree names held with
  | nil =>
    obtain ⟨rfl, _⟩ := Prod.mk.inj (Option.some.inj handled)
    trivial
  | cons index info below rest belowIh restIh =>
    obtain ⟨_, behind⟩ | ⟨_, child, inner, children, middle, inside, others, outside, takes, within, behind, rfl, _⟩ :=
      handlePointers_cons handled
    · exact restIh all behind
    · have taken : p child ∧ inner.Forall p := by
        obtain ⟨_, rfl, rfl⟩ | ⟨_, here⟩ := childFor_some takes
        · exact ⟨new info.kind info.name, trivial⟩
        · exact all.find here
      exact ⟨init child replica taken.1, belowIh taken.2 within, restIh all behind⟩

variable [DecidableEq Conn] {s t : NodePrivate Conn} {connection : Conn}

namespace NodePrivate

/-- A property of the replica and of all replicas below it. -/
def Each (p : Replica Conn → Prop) (s : NodePrivate Conn) : Prop :=
  ∀ root children, s.replica = some (root, children) → p root ∧ children.Forall p

omit [DecidableEq Conn] in
theorem Each.congr {p : Replica Conn → Prop} (each : s.Each p) (same : t.replica = s.replica) : t.Each p :=
  fun root children present => each root children (same ▸ present)

omit [DecidableEq Conn] in
theorem each_iff {p : Replica Conn → Prop} {root : Replica Conn} {children : Children Conn}
    (present : t.replica = some (root, children)) : t.Each p ↔ p root ∧ children.Forall p := by
  simp [Each, present]

omit [DecidableEq Conn] in
theorem each_of_none {p : Replica Conn → Prop} (missing : t.replica = none) : t.Each p := by
  simp [Each, missing]

omit [DecidableEq Conn] in
theorem Each.of_eq {p : Replica Conn → Prop} {root : Replica Conn} {children : Children Conn}
    (here : p root) (below : children.Forall p) (present : t.replica = some (root, children)) : t.Each p := by
  intro root' children' present'
  obtain ⟨rfl, rfl⟩ := Prod.mk.inj (Option.some.inj (present.symm.trans present'))
  exact ⟨here, below⟩

@[simp] theorem setDevice_self (s : NodePrivate Conn) (connection : Conn) (device : Device) :
    (s.setDevice connection device).devices connection = device := by
  simp only [setDevice, Function.update_self]

theorem setDevice_other (s : NodePrivate Conn) {connection other : Conn} (apart : other ≠ connection) (device : Device) :
    (s.setDevice connection device).devices other = s.devices other := by
  simp only [setDevice, Function.update_of_ne apart]

theorem request_replica (connection : Conn) (isDynamic : Bool) :
    (s.request connection isDynamic).replica = s.replica := by
  unfold request setDevice
  dsimp only
  split <;> rfl

theorem request_devices (s : NodePrivate Conn) (connection other : Conn) (isDynamic : Bool) :
    (s.request connection isDynamic).devices other = { s.devices other with requests :=
      if other = connection ∧ (s.devices connection).isOpen = true then (s.devices other).requests ++ [isDynamic]
      else (s.devices other).requests } := by
  unfold request setDevice
  dsimp only
  split
  · rename_i isOpen
    by_cases same : other = connection
    · subst same
      simp only [Function.update_self, isOpen, and_self, ↓reduceIte]
    · simp only [Function.update_of_ne same, same, false_and, ↓reduceIte]
  · rename_i closed
    simp only [closed, and_false, Bool.false_eq_true, ↓reduceIte]

theorem request_requests (s : NodePrivate Conn) (connection other : Conn) (isDynamic : Bool) :
    ((s.request connection isDynamic).devices other).requests = (s.devices other).requests ∨ other = connection ∧
      ((s.request connection isDynamic).devices other).requests = (s.devices other).requests ++ [isDynamic] := by
  rw [request_devices]
  dsimp only
  split
  · rename_i here
    exact .inr ⟨here.1, rfl⟩
  · exact .inl rfl

theorem request_connectedSource (connection : Conn) (isDynamic : Bool) :
    (s.request connection isDynamic).connectedSource = s.connectedSource := by
  unfold request setDevice
  dsimp only
  split <;> rfl

theorem request_assertions (connection : Conn) (isDynamic : Bool) :
    (s.request connection isDynamic).assertions = s.assertions := by
  unfold request setDevice
  dsimp only
  split <;> rfl

theorem handleReplicaConnection_replica (replica : Replica Conn) (children : Children Conn) :
    ∃ new, (s.handleReplicaConnection replica children).replica = some (new, children) ∧
      ((∃ connection, new = { replica with connectionToSource := some connection, initFrom := none }) ∨
        new = replica.setState .signatureMismatch ∨ new = replica) := by
  rw [handleReplicaConnection]
  split
  · split
    · rename_i connection _ _ _
      exact ⟨_, request_replica _ _, .inl ⟨connection, rfl⟩⟩
    · exact ⟨_, rfl, .inr (.inl rfl)⟩
  · exact ⟨_, rfl, .inr (.inr rfl)⟩

theorem announce_replica (connection : Conn) (signature : Node.Signature) :
    (s.announce connection signature).replica = s.replica := by
  rw [announce]
  split <;> rfl

/-- A replica with a connection ignores an announcement. -/
theorem objectList_cases (connection : Conn) (signature : Node.Signature) :
    (∃ replica children, s.replica = some (replica, children) ∧ replica.connectionToSource = none ∧
        s.objectList connection signature =
          (s.announce connection signature).handleReplicaConnection replica children) ∨
      s.objectList connection signature = s.announce connection signature ∧
        ∀ replica children, s.replica = some (replica, children) → replica.connectionToSource ≠ none := by
  simp only [objectList]
  rw [announce_replica]
  cases s.replica with
  | none => exact .inr ⟨rfl, by simp⟩
  | some present =>
    by_cases detached : present.1.connectionToSource = none
    · exact .inl ⟨present.1, present.2, rfl, detached, if_pos detached⟩
    · refine .inr ⟨if_neg detached, ?_⟩
      rintro replica children ⟨⟩
      exact detached

theorem lost_replica (connection : Conn) : (s.lost connection).replica = s.replica.map fun node =>
    if (s.devices connection).shouldReconnect = true ∧ node.1.connectionToSource ≠ none then
      (node.1.disconnected, (disconnectChildren node.2).1)
    else node := by
  unfold lost
  cases reported : (s.devices connection).shouldReconnect with
  | false => simp [setDevice, reported]
  | true =>
    cases present : s.replica with
    | none => simp [setDevice, reported, present]
    | some node =>
      by_cases attached : node.1.connectionToSource = none
      · simp [setDevice, present, reported, attached]
      · simp [setDevice, present, reported, attached, Option.isSome_iff_ne_none]

theorem removeObject_replica (connection : Conn) : (s.removeObject connection).replica = s.replica.map fun node =>
    if node.1.connectionToSource ≠ none then (node.1.disconnected, node.2) else node := by
  rw [removeObject]
  cases present : s.replica with
  | none => simp [setDevice, present]
  | some node =>
    by_cases attached : node.1.connectionToSource = none
    · simp [setDevice, present, attached]
    · simp [setDevice, present, attached, Option.isSome_iff_ne_none]

theorem lost_devices (connection : Conn) :
    (s.lost connection).devices = Function.update s.devices connection { s.devices connection with
      m_isClosing := (s.devices connection).external
      isOpen := false
      hasSource := (s.devices connection).hasSource && (s.devices connection).external
      announced := none
      requests := [] } := by
  have closed : (s.devices connection).shouldReconnect = true →
      ((s.devices connection).hasSource && (s.devices connection).external) = false := by
    rw [Device.shouldReconnect]
    cases (s.devices connection).external <;> simp
  have kept : (s.devices connection).shouldReconnect ≠ true →
      ((s.devices connection).hasSource && (s.devices connection).external) = (s.devices connection).hasSource := by
    rw [Device.shouldReconnect]
    cases (s.devices connection).external <;> simp
  simp only [lost]
  split
  · rename_i reported
    rw [closed reported]
    split
    · split <;> rfl
    · rfl
  · rename_i unreported
    rw [kept unreported]
    rfl

theorem lost_connectedSource (connection : Conn) : (s.lost connection).connectedSource =
    if (s.devices connection).shouldReconnect then none else s.connectedSource := by
  by_cases reported : (s.devices connection).shouldReconnect = true
  · simp only [lost, if_pos reported]
    split
    · split <;> rfl
    · rfl
  · simp only [lost, if_neg reported, setDevice]

theorem lost_assertions (connection : Conn) (asserted : s.assertions = true)
    (reached : (s.devices connection).shouldReconnect = true → ∀ replica children, s.replica = some (replica, children) →
      replica.connectionToSource ≠ none → (disconnectChildren children).2 = true) :
    (s.lost connection).assertions = true := by
  simp only [lost]
  split
  · rename_i reported
    split
    · rename_i replica children present
      split
      · rename_i attached
        have inside := reached reported replica children present (Option.isSome_iff_ne_none.mp attached)
        simp only [setDevice, asserted, inside, Bool.and_self]
      · exact asserted
    · exact asserted
  · exact asserted

theorem removeObject_eq (connection : Conn) :
    s.removeObject connection = { s.setDevice connection { s.devices connection with hasSource := false, announced := none } with
      connectedSource := none
      replica := (s.removeObject connection).replica } := by
  simp only [removeObject]
  split
  · split <;> rfl
  · rfl

theorem announce_eq (connection : Conn) (signature : Node.Signature) :
    s.announce connection signature = { s.setDevice connection { s.devices connection with
        hasSource := (s.devices connection).hasSource || s.connectedSource.isNone
        announced := some signature } with
      connectedSource := some (s.connectedSource.getD (connection, signature)) } := by
  rw [announce]
  cases owned : s.connectedSource with
  | none => simp [setDevice]
  | some owner => simp [setDevice, owned]

end NodePrivate

theorem step_init {infos : Infos} (stepped : step s (.init connection infos) = some t) :
    ∃ requests replica stored children names inside, (s.devices connection).requests = false :: requests ∧
      s.replica = some (replica, stored) ∧
      handlePointers replica stored infos s.replicas = some (children, names, inside) ∧
      t = { s.setDevice connection { s.devices connection with requests } with
        replicas := names
        replica := some ({ replica.initializeProperties.2 with initFrom := some connection }, children)
        assertions := s.assertions && replica.initializeProperties.1 && inside } := by
  simp only [step] at stepped
  split at stepped
  · rename_i requests replica stored asked present
    simp only [Option.bind_eq_bind, Option.bind_eq_some_iff, Prod.exists, Option.some.injEq] at stepped
    obtain ⟨children, names, inside, handled, rfl⟩ := stepped
    exact ⟨requests, replica, stored, children, names, inside, asked, present, handled, rfl⟩
  · contradiction

theorem step_initDynamic {infos : Infos} (stepped : step s (.initDynamic connection infos) = some t) :
    ∃ requests replica stored children names inside, (s.devices connection).requests = true :: requests ∧
      s.replica = some (replica, stored) ∧
      handlePointers replica.setDynamicMetaObject stored infos s.replicas = some (children, names, inside) ∧
      t = { s.setDevice connection { s.devices connection with requests } with
        replicas := names
        replica := some ({ replica.setDynamicMetaObject.setDynamicProperties.2 with initFrom := some connection }, children)
        assertions := s.assertions && replica.setDynamicMetaObject.setDynamicProperties.1 && inside } := by
  simp only [step] at stepped
  split at stepped
  · rename_i requests replica stored asked present
    simp only [Option.bind_eq_bind, Option.bind_eq_some_iff, Prod.exists, Option.some.injEq] at stepped
    obtain ⟨children, names, inside, handled, rfl⟩ := stepped
    exact ⟨requests, replica, stored, children, names, inside, asked, present, handled, rfl⟩
  · contradiction

/-- A property of one replica of the tree is changed. -/
theorem step_propertyChange {path : List Nat} {index : Nat} {info : ChildInfo} {below : Infos}
    (stepped : step s (.propertyChange path index info below) = some t) :
    ∃ root children replica stored changed names inside, s.replica = some (root, children) ∧
      replicaAt root children path = some (replica, stored) ∧
      handlePointers replica stored (.cons index info below .nil) s.replicas = some (changed, names, inside) ∧
      t = { s with
        replicas := names
        replica := some (root, if path = [] then changed.append (children.without index) else
          children.modify (fun replica stored => (replica, changed.append (stored.without index))) path)
        assertions := s.assertions && inside } := by
  simp only [step, Option.bind_eq_bind, Option.bind_eq_some_iff, Prod.exists] at stepped
  obtain ⟨root, children, present, replica, stored, target, changed, names, inside, handled, made⟩ := stepped
  split at made
  · obtain rfl := Option.some.inj made
    exact ⟨root, children, replica, stored, changed, names, inside, present, target, handled, rfl⟩
  · contradiction

/-- What holds of new replicas, and is kept by their initialisation, is kept by a change of
a property. -/
theorem NodePrivate.each_propertyChange {p : Replica Conn → Prop} (new : ∀ kind name, p (.acquired kind name))
    (init : ∀ child parent, p child → p (child.connectLike parent).initChild.2) (each : s.Each p) {path : List Nat}
    {index : Nat} {info : ChildInfo} {below : Infos} (stepped : step s (.propertyChange path index info below) = some t) :
    t.Each p := by
  obtain ⟨root, children, replica, stored, changed, names, inside, present, target, handled, rfl⟩ :=
    step_propertyChange stepped
  obtain ⟨here, all⟩ := each root children present
  have held : stored.Forall p := by
    unfold replicaAt at target
    split at target
    · obtain ⟨_, rfl⟩ := Prod.mk.inj (Option.some.inj target)
      exact all
    · exact (all.find target).2
  have made := handlePointers_forall new init held handled
  refine .of_eq here ?_ rfl
  split
  · exact made.append (all.without index)
  · exact all.modify fun value below _ here inside => ⟨here, made.append (inside.without index)⟩

end RemoteObjects.Client
