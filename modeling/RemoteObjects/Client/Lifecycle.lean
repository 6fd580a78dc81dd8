import RemoteObjects.Client.Steps

/-! The assertions in the life of a replica. An init packet must come once for each time the
replica is attached, and not when the replica has given up. -/
namespace RemoteObjects.Client
open Host (Name Kind)
open Node (checkSignatures)
open Transition

variable {Conn : Type}

namespace Replica

def Fresh (replica : Replica Conn) : Prop := replica.state = .uninitialized ∨ replica.state = .default

theorem fresh_new (kind : Kind) (name : Name) (signature : Node.Signature) (hasMetaObject : Bool) :
    (Replica.new kind name signature hasMetaObject : Replica Conn).Fresh := by
  cases hasMetaObject
  · exact .inl rfl
  · exact .inr rfl

theorem Fresh.initChild {child : Replica Conn} (fresh : child.Fresh) :
    child.initChild.1 = true ∧ child.initChild.2.state = .valid ∧
      child.initChild.2.connectionToSource = child.connectionToSource := by
  obtain ⟨_, _, _, hasMetaObject, _, _, _, _, _⟩ := child
  obtain rfl | rfl := fresh <;> cases hasMetaObject <;> exact ⟨rfl, rfl, rfl⟩

end Replica

/-- Replicas whose children are new, or that replace their children, are initialised
without a failed assertion. -/
theorem handlePointers_held {replica : Replica Conn} {stored tree : Children Conn} {infos : Infos}
    {replicas names : Name → Bool} {held : Bool} (fresh : replica.isInitialized = true ∨ stored.Forall Replica.Fresh)
    (handled : handlePointers replica stored infos replicas = some (tree, names, held)) :
    held = true ∧ tree.Forall (fun child => child.state = .valid) ∧
      (replica.connectionToSource ≠ none → tree.Forall fun child => child.connectionToSource ≠ none) := by
  induction infos generalizing replica stored replicas tree names held with
  | nil =>
    obtain ⟨rfl, _, rfl⟩ := by simpa [handlePointers] using handled
    exact ⟨rfl, trivial, fun _ => trivial⟩
  | cons index info below rest belowIh restIh =>
    obtain ⟨_, behind⟩ | ⟨_, child, inner, children, middle, inside, others, outside, taken, within, behind, rfl, rfl⟩ :=
      handlePointers_cons handled
    · exact restIh fresh behind
    · have both : child.Fresh ∧ inner.Forall Replica.Fresh := by
        obtain ⟨_, rfl, rfl⟩ | ⟨before, here⟩ := childFor_some taken
        · exact ⟨Replica.fresh_new info.kind info.name [] _, trivial⟩
        · obtain now | fresh := fresh
          · rw [before] at now
            contradiction
          · exact fresh.find here
      have connects : (child.connectLike replica).Fresh := both.1
      obtain ⟨asserted, valid, connection⟩ := connects.initChild
      obtain ⟨insideHeld, insideValid, insideAttached⟩ := belowIh (.inr both.2) within
      obtain ⟨outsideHeld, outsideValid, outsideAttached⟩ := restIh fresh behind
      refine ⟨by rw [asserted, insideHeld, outsideHeld]; rfl, ⟨valid, insideValid, outsideValid⟩, fun attached => ?_⟩
      have own : (child.connectLike replica).connectionToSource ≠ none := by
        rw [Replica.connectLike]
        cases child.connectionToSource with
        | none => exact attached
        | some connection => exact Option.some_ne_none connection
      exact ⟨fun lost => own (connection.symm.trans lost), insideAttached own, outsideAttached attached⟩

/-- All replicas that `setDisconnected` reaches below a replica have a connection. -/
def ReachedAttached : Children Conn → Prop
  | .nil => True
  | .cons _ child below rest =>
    (match child.kind with
      | .CLASS => child.connectionToSource ≠ none ∧ ReachedAttached below
      | .MODEL => True) ∧ ReachedAttached rest

theorem disconnectChildren_asserted (children : Children Conn) :
    (disconnectChildren children).2 = true ↔ ReachedAttached children := by
  induction children with
  | nil => exact iff_of_true rfl trivial
  | cons index child below rest belowIh restIh =>
    rw [disconnectChildren, ReachedAttached]
    cases child.kind with
    | CLASS => simp [belowIh, restIh, Option.isSome_iff_ne_none]
    | MODEL => simp [restIh]

theorem ReachedAttached.of_forall {children : Children Conn}
    (attached : children.Forall fun child => child.connectionToSource ≠ none) : ReachedAttached children := by
  induction children with
  | nil => trivial
  | cons index child below rest belowIh restIh =>
    obtain ⟨here, inside, outside⟩ := attached
    refine ⟨?_, restIh outside⟩
    split
    · exact ⟨here, belowIh inside⟩
    · trivial

theorem ReachedAttached.without {children : Children Conn} (attached : ReachedAttached children) (index : Nat) :
    ReachedAttached (children.without index) := by
  induction children with
  | nil => trivial
  | cons key child below rest belowIh restIh =>
    rw [Forest.without]
    split
    · exact restIh attached.2
    · exact ⟨attached.1, restIh attached.2⟩

theorem ReachedAttached.append {children others : Children Conn} (attached : ReachedAttached children)
    (behind : ReachedAttached others) : ReachedAttached (children.append others) := by
  induction children with
  | nil => exact behind
  | cons key child below rest belowIh restIh => exact ⟨attached.1, restIh attached.2⟩

theorem ReachedAttached.modify {children : Children Conn} {change : Children Conn → Children Conn} {path : List Nat}
    (attached : ReachedAttached children) (changed : ∀ replica stored, children.find path = some (replica, stored) →
      replica.connectionToSource ≠ none → ReachedAttached stored → ReachedAttached (change stored)) :
    ReachedAttached (children.modify (fun replica stored => (replica, change stored)) path) := by
  induction children generalizing path with
  | nil => cases path <;> trivial
  | cons key child below rest belowIh restIh =>
    cases path with
    | nil => exact attached
    | cons j path =>
      by_cases same : j = key
      · subst same
        cases path with
        | nil =>
          simp only [Forest.modify, ↓reduceIte]
          refine ⟨?_, attached.2⟩
          have here := attached.1
          split at here
          · exact ⟨here.1, changed child below (Forest.find_cons_self j child below rest) here.1 here.2⟩
          · trivial
        | cons k path =>
          simp only [Forest.modify, ↓reduceIte]
          refine ⟨?_, attached.2⟩
          have here := attached.1
          split at here
          · refine ⟨here.1, belowIh here.2 fun replica stored found => changed replica stored ?_⟩
            rw [Forest.find_cons_below, found]
          · trivial
      · simp only [Forest.modify, if_neg same]
        refine ⟨attached.1, restIh attached.2 fun replica stored found => changed replica stored ?_⟩
        rw [Forest.find_cons_other same, found]

theorem fresh_typed (children : Forest (Kind × Name)) :
    (NodePrivate.typed children : Children Conn).Forall Replica.Fresh := by
  induction children with
  | nil => trivial
  | cons index child below rest belowIh restIh =>
    exact ⟨Replica.fresh_new child.1 child.2 [] true, belowIh, restIh⟩

section Run
variable [DecidableEq Conn] {s t : NodePrivate Conn} {e : Event Conn}

/-- A replica that an init packet is outstanding for can take it. -/
def Replica.Expecting (replica : Replica Conn) : Prop := replica.state ≠ .valid ∧ replica.state ≠ .signatureMismatch

/-- What the replica and its children say of each other. -/
structure Settled (root : Replica Conn) (children : Children Conn) : Prop where
  fresh : root.Fresh → children.Forall Replica.Fresh
  dynamic : root.hasMetaObject = false → root.state = .uninitialized ∧ root.objectSignature = []
  attached : root.state = .valid → root.connectionToSource ≠ none → ReachedAttached children

/-- At most one init packet is outstanding, for a replica that can take it. -/
structure Orderly (s : NodePrivate Conn) : Prop where
  asserted : s.assertions = true
  settled : ∀ root children, s.replica = some (root, children) → Settled root children
  asked : ∀ connection, (s.devices connection).requests ≠ [] → ∃ root children, s.replica = some (root, children) ∧
    (s.devices connection).requests = [!root.hasMetaObject] ∧ root.Expecting
  sole : ∀ c d, (s.devices c).requests ≠ [] → (s.devices d).requests ≠ [] → c = d

omit [DecidableEq Conn] in
theorem Orderly.quiet_of_none (orderly : Orderly s) (missing : s.replica = none) (connection : Conn) :
    (s.devices connection).requests = [] := by
  by_contra outstanding
  obtain ⟨root, children, present, _⟩ := orderly.asked connection outstanding
  exact Option.some_ne_none _ (present.symm.trans missing)

omit [DecidableEq Conn] in
theorem Orderly.of_quiet (asserted : s.assertions = true)
    (settled : ∀ root children, s.replica = some (root, children) → Settled root children)
    (quiet : ∀ connection, (s.devices connection).requests = []) : Orderly s :=
  ⟨asserted, settled, fun c outstanding => absurd (quiet c) outstanding,
    fun c _ outstanding _ => absurd (quiet c) outstanding⟩

omit [DecidableEq Conn] in
/-- The state may change to one with the same requests, or fewer. -/
theorem Orderly.fewer (orderly : Orderly s) (asserted : t.assertions = true)
    (settled : ∀ root children, t.replica = some (root, children) → Settled root children)
    (fewer : ∀ c, (t.devices c).requests = [] ∨ (t.devices c).requests = (s.devices c).requests)
    (expecting : ∀ root children, s.replica = some (root, children) → root.Expecting → ∃ root' children',
      t.replica = some (root', children') ∧ root'.hasMetaObject = root.hasMetaObject ∧ root'.Expecting) : Orderly t := by
  have before {c} (outstanding : (t.devices c).requests ≠ []) : (t.devices c).requests = (s.devices c).requests :=
    (fewer c).resolve_left outstanding
  refine ⟨asserted, settled, fun c outstanding => ?_, fun c d first second => ?_⟩
  · obtain ⟨root, children, present, requests, able⟩ := orderly.asked c (before outstanding ▸ outstanding)
    obtain ⟨root', children', now, same, able⟩ := expecting root children present able
    exact ⟨root', children', now, by rw [before outstanding, requests, same], able⟩
  · exact orderly.sole c d (before first ▸ first) (before second ▸ second)

/-- A replica without a connection is attached while no init packet is outstanding. -/
theorem orderly_handleReplicaConnection {root : Replica Conn} {children : Children Conn} (asserted : s.assertions = true)
    (quiet : ∀ connection, (s.devices connection).requests = []) (settled : Settled root children)
    (able : ∀ connection signature, s.connectedSource = some (connection, signature) →
      checkSignatures root.objectSignature signature = true → root.Expecting) :
    Orderly (s.handleReplicaConnection root children) := by
  rw [NodePrivate.handleReplicaConnection]
  split
  · rename_i connection signature owned
    split
    · rename_i compatible
      have able := able connection signature owned compatible
      have requests (c : Conn) := NodePrivate.request_requests
        { s with replica := some ({ root with connectionToSource := some connection, initFrom := none }, children) }
        connection c (!root.hasMetaObject)
      simp only [quiet, List.nil_append] at requests
      refine ⟨(NodePrivate.request_assertions connection _).trans asserted, ?_, fun c outstanding => ?_, fun c d first second => ?_⟩
      · intro _ _ now
        rw [NodePrivate.request_replica] at now
        obtain ⟨rfl, rfl⟩ := Prod.mk.inj (Option.some.inj now)
        exact ⟨settled.fresh, settled.dynamic, fun valid => absurd valid able.1⟩
      · obtain ⟨_, asked⟩ := (requests c).resolve_left outstanding
        exact ⟨_, _, NodePrivate.request_replica connection _, asked, able⟩
      · exact ((requests c).resolve_left first).1.trans ((requests d).resolve_left second).1.symm
    · rename_i mismatch
      rw [Replica.setState_signatureMismatch]
      refine .of_quiet asserted ?_ quiet
      rintro _ _ ⟨⟩
      refine ⟨fun fresh => ?_, fun missing => ?_, fun valid => ?_⟩
      · obtain h | h := fresh <;> contradiction
      · rw [(settled.dynamic missing).2] at mismatch
        exact absurd rfl mismatch
      · contradiction
  · refine .of_quiet asserted ?_ quiet
    rintro _ _ ⟨⟩
    exact settled

omit [DecidableEq Conn] in
theorem Orderly.expected (orderly : Orderly s) {connection : Conn} {isDynamic : Bool} {requests : List Bool}
    {root : Replica Conn} {children : Children Conn}
    (asked : (s.devices connection).requests = isDynamic :: requests) (present : s.replica = some (root, children)) :
    requests = [] ∧ root.hasMetaObject = !isDynamic ∧ root.Expecting := by
  obtain ⟨_, _, here, same, able⟩ := orderly.asked connection (by rw [asked]; exact List.cons_ne_nil _ _)
  obtain ⟨rfl, rfl⟩ := Prod.mk.inj (Option.some.inj (present.symm.trans here))
  obtain ⟨rfl, rfl⟩ := List.cons.inj (asked.symm.trans same)
  exact ⟨rfl, by rw [Bool.not_not], able⟩

omit [DecidableEq Conn] in
theorem Replica.Fresh.expecting {replica : Replica Conn} (fresh : replica.Fresh) : replica.Expecting := by
  obtain early | early := fresh
  all_goals
    rw [Expecting, early]
    decide

omit [DecidableEq Conn] in
theorem Replica.Fresh.not_initialized {replica : Replica Conn} (fresh : replica.Fresh) :
    replica.isInitialized = false := by
  obtain early | early := fresh
  all_goals
    rw [isInitialized, early]
    rfl

omit [DecidableEq Conn] in
theorem Replica.Expecting.fresh_or {replica : Replica Conn} (able : replica.Expecting) :
    replica.Fresh ∨ replica.isInitialized = true := by
  rw [isInitialized_iff]
  cases known : replica.state with
  | uninitialized => exact .inl (.inl known)
  | default => exact .inl (.inr known)
  | valid => exact absurd known able.1
  | suspect => exact .inr (.inr rfl)
  | signatureMismatch => exact absurd known able.2

/-- The outstanding init packet arrives: `holder` is the replica when the children are
handled, and `new` the replica afterwards. -/
theorem Orderly.answered (orderly : Orderly s) {connection : Conn} {root holder new : Replica Conn}
    {stored children : Children Conn} {infos : Infos} {names : Name → Bool} {inside held : Bool}
    (outstanding : (s.devices connection).requests ≠ []) (present : s.replica = some (root, stored))
    (able : root.Expecting) (same : holder.state = root.state)
    (handled : handlePointers holder stored infos s.replicas = some (children, names, inside))
    (asserted : held = true) (valid : new.state = .valid) (known : new.hasMetaObject = true)
    (connects : new.connectionToSource = holder.connectionToSource) :
    let after : NodePrivate Conn := { s.setDevice connection { s.devices connection with requests := [] } with
      replicas := names
      replica := some (new, children)
      assertions := s.assertions && held && inside }
    Orderly after ∧ after.Each fun replica => replica.state = .valid := by
  intro after
  have fresh : holder.isInitialized = true ∨ stored.Forall Replica.Fresh := by
    obtain fresh | initialized := able.fresh_or
    · exact .inr ((orderly.settled root stored present).fresh fresh)
    · exact .inl (by rwa [Replica.isInitialized_iff, same, ← Replica.isInitialized_iff])
  obtain ⟨insideHeld, childrenValid, childrenAttached⟩ := handlePointers_held fresh handled
  refine ⟨.of_quiet ?_ ?_ fun c => ?_, .of_eq valid childrenValid rfl⟩
  · simp only [after, orderly.asserted, asserted, insideHeld, Bool.and_self]
  · rintro _ _ ⟨⟩
    refine ⟨fun early => ?_, fun missing => ?_, fun _ attached => .of_forall (childrenAttached (connects ▸ attached))⟩
    · obtain early | early := early
      all_goals
        rw [valid] at early
        contradiction
    · rw [known] at missing
      contradiction
  · by_cases here : c = connection
    · subst here
      simp only [after, NodePrivate.setDevice, Function.update_self]
    · simp only [after, NodePrivate.setDevice, Function.update_of_ne here]
      by_contra other
      exact here (orderly.sole c connection other outstanding)

theorem Orderly.init (orderly : Orderly s) {connection : Conn} {infos : Infos}
    (stepped : step s (.init connection infos) = some t) :
    Orderly t ∧ t.Each fun replica => replica.state = .valid := by
  obtain ⟨requests, root, stored, children, names, inside, asked, present, handled, rfl⟩ := step_init stepped
  obtain ⟨rfl, known, able⟩ := orderly.expected asked present
  have outstanding : (s.devices connection).requests ≠ [] := by rw [asked]; exact List.cons_ne_nil _ _
  have valid : root.initializeProperties.2.state = .valid := by
    simp only [Replica.initializeProperties, Replica.setState_valid, if_neg able.2]
  refine orderly.answered outstanding present able rfl handled ?_ valid ?_ ?_
  · obtain fresh | initialized := able.fresh_or
    · obtain early | early := fresh <;> rw [Replica.initializeProperties, early] <;> rfl
    · obtain now | lost := root.isInitialized_iff.mp initialized
      · exact absurd now able.1
      · rw [Replica.initializeProperties, lost]
        rfl
  · simpa only [Replica.initializeProperties, Replica.setState_valid, Bool.not_false] using known
  · simp only [Replica.initializeProperties, Replica.setState_valid]

theorem Orderly.initDynamic (orderly : Orderly s) {connection : Conn} {infos : Infos}
    (stepped : step s (.initDynamic connection infos) = some t) :
    Orderly t ∧ t.Each fun replica => replica.state = .valid := by
  obtain ⟨requests, root, stored, children, names, inside, asked, present, handled, rfl⟩ := step_initDynamic stepped
  obtain ⟨rfl, missing, able⟩ := orderly.expected asked present
  have outstanding : (s.devices connection).requests ≠ [] := by rw [asked]; exact List.cons_ne_nil _ _
  have early := ((orderly.settled root stored present).dynamic missing).1
  have same : root.setDynamicMetaObject.state = root.state := rfl
  have valid : root.setDynamicMetaObject.setDynamicProperties.2.state = .valid := by
    simp only [Replica.setDynamicProperties, Replica.setDynamicMetaObject, Replica.setState_valid, if_neg able.2]
  refine orderly.answered outstanding present able same handled ?_ valid ?_ ?_
  · rw [Replica.setDynamicProperties, Replica.setDynamicMetaObject, early]
    rfl
  · simp only [Replica.setDynamicProperties, Replica.setDynamicMetaObject, Replica.setState_valid]
  · simp only [Replica.setDynamicProperties, Replica.setDynamicMetaObject, Replica.setState_valid]

/-- The replica takes the init packets that the step asks for, and is not without a part of
itself when it loses its source. -/
def answersFit (s : NodePrivate Conn) : Event Conn → Prop
  | .objectList connection signature =>
    (s.devices connection).isOpen = true → ∀ root children, s.replica = some (root, children) →
      root.connectionToSource = none → (∀ other, (s.devices other).requests = []) ∧
        (checkSignatures root.objectSignature (s.connectedSource.getD (connection, signature)).2 = true → root.Expecting)
  | .removeObject connection =>
    (s.devices connection).isOpen = true → ∀ root children, s.replica = some (root, children) →
      root.connectionToSource ≠ none → root.hasMetaObject = true
  | .lost connection =>
    (s.devices connection).isOpen = true → (s.devices connection).shouldReconnect = true → ∀ root children,
      s.replica = some (root, children) → root.connectionToSource ≠ none →
        root.hasMetaObject = true ∧ (root.state = .valid ∨ ReachedAttached children)
  | .propertyChange path _ _ _ =>
    ∀ root children replica stored, s.replica = some (root, children) →
      replicaAt root children path = some (replica, stored) → replica.isInitialized = true
  | _ => True

omit [DecidableEq Conn] in
theorem Settled.disconnected {root : Replica Conn} {children : Children Conn} (known : root.hasMetaObject = true) :
    Settled root.disconnected children := by
  rw [Replica.disconnected_eq]
  refine ⟨fun early => ?_, fun missing => ?_, fun _ attached => absurd rfl attached⟩
  · obtain early | early := early
    all_goals
      dsimp only at early
      split at early <;> contradiction
  · rw [known] at missing
    contradiction

omit [DecidableEq Conn] in
theorem Replica.Expecting.disconnected {replica : Replica Conn} (able : replica.Expecting) :
    replica.disconnected.Expecting := by
  rw [disconnected_eq]
  refine ⟨?_, ?_⟩
  all_goals
    dsimp only
    rw [if_neg able.2]
    decide

theorem Orderly.lost (orderly : Orderly s) {connection : Conn} (fits : answersFit s (.lost connection))
    (isOpen : (s.devices connection).isOpen = true) : Orderly (s.lost connection) := by
  have lost := s.lost_replica connection
  have reached {root children} (reported : (s.devices connection).shouldReconnect = true)
      (present : s.replica = some (root, children)) (attached : root.connectionToSource ≠ none) :
      root.hasMetaObject = true ∧ ReachedAttached children := by
    obtain ⟨known, valid | reached⟩ := fits isOpen reported root children present attached
    · exact ⟨known, (orderly.settled root children present).attached valid attached⟩
    · exact ⟨known, reached⟩
  refine orderly.fewer ?_ ?_ ?_ ?_
  · refine NodePrivate.lost_assertions connection orderly.asserted fun reported root children present attached => ?_
    exact (disconnectChildren_asserted children).mpr (reached reported present attached).2
  · intro root' children' now
    obtain ⟨⟨root, children⟩, present, same⟩ := Option.map_eq_some_iff.mp (lost.symm.trans now)
    dsimp only at same
    split at same
    · rename_i struck
      obtain ⟨rfl, rfl⟩ := Prod.mk.inj same
      exact .disconnected (reached struck.1 present struck.2).1
    · obtain ⟨rfl, rfl⟩ := Prod.mk.inj same
      exact orderly.settled root children present
  · intro other
    rw [NodePrivate.lost_devices]
    by_cases here : other = connection
    · subst here
      exact .inl (by simp only [Function.update_self])
    · exact .inr (by simp only [Function.update_of_ne here])
  · intro root children present able
    rw [present, Option.map_some] at lost
    dsimp only at lost
    split at lost
    · exact ⟨_, _, lost, by rw [Replica.disconnected_eq], able.disconnected⟩
    · exact ⟨root, children, lost, rfl, able⟩

theorem Orderly.removeObject (orderly : Orderly s) {connection : Conn} (fits : answersFit s (.removeObject connection))
    (isOpen : (s.devices connection).isOpen = true) : Orderly (s.removeObject connection) := by
  have removed := s.removeObject_replica connection
  refine orderly.fewer ?_ ?_ ?_ ?_
  · rw [NodePrivate.removeObject_eq]
    exact orderly.asserted
  · intro root' children' now
    obtain ⟨⟨root, children⟩, present, same⟩ := Option.map_eq_some_iff.mp (removed.symm.trans now)
    dsimp only at same
    split at same
    · rename_i attached
      obtain ⟨rfl, rfl⟩ := Prod.mk.inj same
      exact .disconnected (fits isOpen root children present attached)
    · obtain ⟨rfl, rfl⟩ := Prod.mk.inj same
      exact orderly.settled root children present
  · intro other
    rw [NodePrivate.removeObject_eq]
    by_cases here : other = connection
    · subst here
      exact .inr (by simp only [NodePrivate.setDevice, Function.update_self])
    · exact .inr (by simp only [NodePrivate.setDevice, Function.update_of_ne here])
  · intro root children present able
    rw [present, Option.map_some] at removed
    dsimp only at removed
    split at removed
    · exact ⟨_, _, removed, by rw [Replica.disconnected_eq], able.disconnected⟩
    · exact ⟨root, children, removed, rfl, able⟩

theorem Orderly.propertyChange (orderly : Orderly s) {path : List Nat} {index : Nat} {info : ChildInfo} {below : Infos}
    (fits : answersFit s (.propertyChange path index info below))
    (stepped : step s (.propertyChange path index info below) = some t) : Orderly t := by
  obtain ⟨root, children, replica, stored, changed, names, inside, present, target, handled, rfl⟩ :=
    step_propertyChange stepped
  have initialized := fits root children replica stored present target
  have settled := orderly.settled root children present
  obtain ⟨held, _, attached⟩ := handlePointers_held (.inl initialized) handled
  refine orderly.fewer ?_ ?_ (fun _ => .inr rfl) ?_
  · simp only [orderly.asserted, held, Bool.and_self]
  · rintro _ _ ⟨⟩
    unfold replicaAt at target
    split at target
    · rename_i top
      subst top
      obtain ⟨rfl, rfl⟩ := Prod.mk.inj (Option.some.inj target)
      refine ⟨fun early => ?_, settled.dynamic, fun valid connected => ?_⟩
      · rw [early.not_initialized] at initialized
        contradiction
      · exact (ReachedAttached.of_forall (attached connected)).append ((settled.attached valid connected).without index)
    · rename_i inner
      rw [if_neg inner]
      refine ⟨fun early => ?_, settled.dynamic, fun valid connected => ?_⟩
      · obtain ⟨fresh, _⟩ := (settled.fresh early).find target
        rw [fresh.not_initialized] at initialized
        contradiction
      · refine (settled.attached valid connected).modify fun replica' stored' found connected within => ?_
        obtain ⟨rfl, rfl⟩ := Prod.mk.inj (Option.some.inj (target.symm.trans found))
        exact (ReachedAttached.of_forall (attached connected)).append (within.without index)
  · intro root' children' present' able
    obtain ⟨rfl, rfl⟩ := Prod.mk.inj (Option.some.inj (present.symm.trans present'))
    exact ⟨_, _, rfl, rfl, able⟩

theorem Orderly.objectList (orderly : Orderly s) {connection : Conn} {signature : Node.Signature}
    (fits : answersFit s (.objectList connection signature)) (isOpen : (s.devices connection).isOpen = true) :
    Orderly (s.objectList connection signature) := by
  have requests (other : Conn) : ((s.announce connection signature).devices other).requests = (s.devices other).requests := by
    rw [NodePrivate.announce_eq]
    by_cases here : other = connection
    · subst here
      simp only [NodePrivate.setDevice, Function.update_self]
    · simp only [NodePrivate.setDevice, Function.update_of_ne here]
  have asserted : (s.announce connection signature).assertions = true := by
    rw [NodePrivate.announce_eq]
    exact orderly.asserted
  obtain ⟨root, children, present, detached, same⟩ | ⟨same, _⟩ := s.objectList_cases connection signature
  · obtain ⟨quiet, able⟩ := fits isOpen root children present detached
    rw [same]
    refine orderly_handleReplicaConnection asserted (fun other => (requests other).trans (quiet other))
      (orderly.settled root children present) fun owner announced owned compatible => able ?_
    rw [NodePrivate.announce_eq] at owned
    rwa [Option.some.inj owned]
  · rw [same]
    have replica := s.announce_replica connection signature
    exact orderly.fewer asserted (fun root children present => orderly.settled root children (replica.symm.trans present))
      (fun other => .inr (requests other)) fun root children present able => ⟨root, children, replica.trans present, rfl, able⟩

theorem Orderly.acquire (orderly : Orderly s) (missing : s.replica = none) (isDynamic : Bool) (name : Name)
    (signature : Node.Signature) (children : Forest (Kind × Name)) :
    Orderly (s.acquire isDynamic name signature children) := by
  have quiet := orderly.quiet_of_none missing
  rw [NodePrivate.acquire]
  split
  · refine orderly_handleReplicaConnection orderly.asserted quiet ?_ fun _ _ _ _ =>
      (Replica.fresh_new .CLASS name [] false).expecting
    exact ⟨fun _ => trivial, fun _ => ⟨rfl, rfl⟩, fun valid => by contradiction⟩
  · refine orderly_handleReplicaConnection orderly.asserted quiet ?_ fun _ _ _ _ =>
      (Replica.fresh_new .CLASS name signature true).expecting
    exact ⟨fun _ => fresh_typed children, fun missing => by contradiction, fun valid => by contradiction⟩

theorem orderly_step (orderly : Orderly s) (fits : answersFit s e) (stepped : step s e = some t) : Orderly t := by
  cases e with
  | connect connection =>
    simp only [step, Option.ite_none_left_eq_some, Option.some.injEq] at stepped
    obtain ⟨_, rfl⟩ := stepped
    refine orderly.fewer orderly.asserted orderly.settled (fun other => .inr ?_)
      fun root children present able => ⟨root, children, present, rfl, able⟩
    by_cases here : other = connection
    · subst here
      simp only [NodePrivate.setDevice, Function.update_self]
    · simp only [NodePrivate.setDevice, Function.update_of_ne here]
  | lost connection =>
    simp only [step, Option.ite_none_right_eq_some, Option.some.injEq] at stepped
    obtain ⟨isOpen, rfl⟩ := stepped
    exact orderly.lost fits isOpen
  | acquire isDynamic name signature children =>
    simp only [step, Option.ite_none_left_eq_some, Option.some.injEq, Option.not_isSome_iff_eq_none] at stepped
    obtain ⟨missing, rfl⟩ := stepped
    exact orderly.acquire missing isDynamic name signature children
  | objectList connection signature =>
    simp only [step, Option.ite_none_right_eq_some, Option.some.injEq] at stepped
    obtain ⟨isOpen, rfl⟩ := stepped
    exact orderly.objectList fits isOpen
  | removeObject connection =>
    simp only [step, Option.ite_none_right_eq_some, Option.some.injEq] at stepped
    obtain ⟨isOpen, rfl⟩ := stepped
    exact orderly.removeObject fits isOpen
  | init connection infos => exact (orderly.init stepped).1
  | initDynamic connection infos => exact (orderly.initDynamic stepped).1
  | unanswered connection =>
    simp only [step] at stepped
    split at stepped
    · rename_i flag requests asked
      obtain rfl := Option.some.inj stepped
      refine orderly.fewer orderly.asserted orderly.settled (fun other => ?_)
        fun root children present able => ⟨root, children, present, rfl, able⟩
      by_cases here : other = connection
      · subst here
        obtain ⟨_, _, _, same, _⟩ := orderly.asked other (by rw [asked]; exact List.cons_ne_nil _ _)
        obtain ⟨_, rfl⟩ := List.cons.inj (asked.symm.trans same)
        exact .inl (by simp only [NodePrivate.setDevice, Function.update_self])
      · exact .inr (by simp only [NodePrivate.setDevice, Function.update_of_ne here])
    · contradiction
  | propertyChange path index info below => exact orderly.propertyChange fits stepped

/-- No assertion fails in the step, and an init packet leaves the replica and its children
valid. -/
def AssertionsHold (s : NodePrivate Conn) (e : Event Conn) : Prop :=
  ∀ t, step s e = some t → t.assertions = true ∧
    ∀ connection infos, e = .init connection infos ∨ e = .initDynamic connection infos →
      t.Each fun replica => replica.state = .valid

/-- In a run where each init packet asked for can be taken, all assertions hold. -/
theorem assertionsHold_of_answersFit (external : Conn → Bool) {es : List (Event Conn)}
    (fits : Admitted step answersFit (.initial external) es) : Admitted step AssertionsHold (.initial external) es := by
  refine admitted_of_invariant (P := Orderly) orderly_step ?_ fits ?_
  · intro s e orderly fits t stepped
    refine ⟨(orderly_step orderly fits stepped).asserted, ?_⟩
    rintro connection infos (rfl | rfl)
    · exact (orderly.init stepped).2
    · exact (orderly.initDynamic stepped).2
  · exact .of_quiet rfl (fun _ _ present => by contradiction) fun _ => rfl

end Run

/-- A connection is lost and found again, with a child in the replica. -/
theorem assertionsHold_reconnect :
    let child : Name := "Class::A::c".toList
    let infos : Infos := .cons 0 ⟨child, .CLASS, false⟩ .nil .nil
    Admitted step AssertionsHold (.initial fun () => false)
      [.acquire false "A".toList [1] (.cons 0 (.CLASS, child) .nil .nil), .connect (), .objectList () [1],
        .init () infos, .lost (), .connect (), .objectList () [1], .init () infos] := by
  intro child infos
  refine assertionsHold_of_answersFit _ (.cons trivial rfl (.cons trivial rfl (.cons ?_ rfl (.cons trivial rfl (.cons ?_ rfl
    (.cons trivial rfl (.cons ?_ rfl (.cons trivial rfl trivial))))))))
  · intro _ root children present _
    obtain ⟨rfl, rfl⟩ := Prod.mk.inj (Option.some.inj present)
    exact ⟨fun _ => rfl, fun _ => ⟨by decide, by decide⟩⟩
  · intro _ _ root children present _
    obtain ⟨rfl, rfl⟩ := Prod.mk.inj (Option.some.inj present)
    exact ⟨rfl, .inl rfl⟩
  · intro _ root children present _
    obtain ⟨rfl, rfl⟩ := Prod.mk.inj (Option.some.inj present)
    exact ⟨fun _ => rfl, fun _ => ⟨by decide, by decide⟩⟩

/-- The host is restarted with another version, and later with the one of the replica. -/
theorem matching_host_after_mismatch :
    ∃ s t, exec step (.initial fun () => false)
        [.acquire false "A".toList [1] .nil, .connect (), .objectList () [2], .lost (), .connect (), .objectList () [1]] =
          some s ∧
      step s (.init () .nil) = some t ∧ t.assertions = false ∧ ¬ t.Each fun replica => replica.state = .valid := by
  refine ⟨_, _, rfl, rfl, rfl, fun valid => ?_⟩
  have state := (valid _ _ rfl).1
  contradiction

end RemoteObjects.Client
