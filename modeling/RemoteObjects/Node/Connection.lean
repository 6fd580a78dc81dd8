import RemoteObjects.Node.Network

/-! What a step does to one connection and to the entry of the root source for it.
Every other connection may be forgotten in an argument about this one. -/
namespace RemoteObjects.Node

/-- What the root source has to do with one connection. -/
structure Face where
  id : Nat
  signature : Signature
  listed : Bool

def Down.isData : Down T C → Bool
  | .propertyChange _ _ | .invoke _ _ _ => true
  | _ => false

def Down.isInitDynamic : Down T C → Bool
  | .initDynamic _ _ => true
  | _ => false

section Frame
variable {Conn T C : Type} [DecidableEq T] (api : Interface T C) (root : RootSource Conn T C)

namespace RootSource

theorem serializeProperty_frame (metaType : T) (value : Variant T C) : ∃ types,
    (root.serializeProperty api metaType value).2 = { root with sentTypes := types } := by
  unfold serializeProperty
  split
  · split
    · exact ⟨_, rfl⟩
    · exact ⟨root.sentTypes, rfl⟩
  · exact ⟨root.sentTypes, rfl⟩

theorem serializeProperties_frame (properties : List (T × Variant T C)) : ∃ types,
    (root.serializeProperties api properties).2 = { root with sentTypes := types } := by
  induction properties generalizing root with
  | nil => exact ⟨root.sentTypes, rfl⟩
  | cons property properties ih =>
    obtain ⟨types, first⟩ := serializeProperty_frame api root property.1 property.2
    obtain ⟨later, others⟩ := ih { root with sentTypes := types }
    refine ⟨later, ?_⟩
    simp only [serializeProperties, first, others]

/-- The properties of the init packet for a new listener. -/
def sentProperties (values : Nat → Variant T C) (connection : Conn) (isDynamic : Bool) :
    List (Variant T C) :=
  (serializeProperties api (root.attached api connection isDynamic) (read api values)).1

/-- The new listener is in the list, and gets the init packet it has asked for. -/
theorem addListener_frame (values : Nat → Variant T C) (connection : Conn) (isDynamic : Bool)
    (attach : Nat) : ∃ types, root.addListener api values connection isDynamic attach =
      (if isDynamic then
          .initDynamic ⟨root.id, attach, root.emitted.length⟩
            (root.sentProperties api values connection isDynamic)
        else .init ⟨root.id, attach, root.emitted.length⟩
          (root.sentProperties api values connection isDynamic),
      { root.attached api connection isDynamic with sentTypes := types }) := by
  obtain ⟨types, frame⟩ := serializeProperties_frame api
    (root.attached api connection isDynamic) (read api values)
  refine ⟨types, ?_⟩
  simp only [addListener, sentProperties, frame]
  split <;> rfl

theorem serializeSignal_frame (values : Nat → Variant T C) (signal : Nat) (args : List (Variant T C)) :
    ∃ types, (root.serializeSignal api values signal args).2 = { root with sentTypes := types } ∧
      ∀ packet ∈ (root.serializeSignal api values signal args).1, packet.isData := by
  unfold serializeSignal
  simp only
  split
  · split
    · rename_i metaType _
      obtain ⟨types, frame⟩ := serializeProperty_frame api root metaType (values _)
      refine ⟨types, frame, ?_⟩
      intro packet member
      rcases List.mem_pair.mp member with rfl | rfl <;> rfl
    · refine ⟨root.sentTypes, rfl, ?_⟩
      intro packet member
      obtain rfl := List.mem_singleton.mp member
      rfl
  · refine ⟨root.sentTypes, rfl, ?_⟩
    intro packet member
    obtain rfl := List.mem_singleton.mp member
    rfl

theorem handleMetaCall_frame (values : Nat → Variant T C) (signal : Nat) (args : List (Variant T C)) :
    ∃ types emission, (root.handleMetaCall api values signal args).2 =
        { root with sentTypes := types, emitted := root.emitted ++ [emission] } ∧
      ∀ packet ∈ (root.handleMetaCall api values signal args).1, packet.isData := by
  unfold handleMetaCall
  simp only
  split
  · exact ⟨root.sentTypes, _, rfl, fun packet member => nomatch member⟩
  · obtain ⟨types, frame, data⟩ := serializeSignal_frame api root values signal args
    exact ⟨types, _, by rw [frame], data⟩

def face [DecidableEq Conn] (root : RootSource Conn T C) (connection : Conn) : Face :=
  ⟨root.id, root.signature, connection ∈ root.listeners⟩

end RootSource

def Net.face [DecidableEq Conn] (s : Net Conn T C) (connection : Conn) : Option Face :=
  s.root.map fun root => root.face connection

end Frame

section Replica
variable {T C : Type} (api : Interface T C) (replica : ConnectedReplica T C)

namespace ConnectedReplica

theorem setState_frame (state : ReplicaState) :
    ∃ new, replica.setState state = { replica with state := new } := by
  unfold setState
  split
  · exact ⟨replica.state, rfl⟩
  · exact ⟨state, rfl⟩

theorem notify_frame (properties : List Nat) :
    ∃ more, notify api replica properties = { replica with activated := replica.activated ++ more } := by
  induction properties generalizing replica with
  | nil => exact ⟨[], by rw [List.append_nil]; rfl⟩
  | cons i properties ih =>
    simp only [notify, List.foldl_cons]
    split
    · rename_i signal _
      obtain ⟨more, rest⟩ := ih (replica.activate signal (replica.storage[i]?).toList)
      refine ⟨⟨signal, (replica.storage[i]?).toList, replica.storage⟩ :: more, ?_⟩
      rw [notify] at rest
      rw [rest, activate, List.append_assoc]
      rfl
    · exact ih replica

theorem invoke_frame [Inhabited C] (signal : Nat) (args : List (Variant T C)) (property : Option Nat) :
    ∃ passed, replica.invoke api signal args property = replica.activate signal passed := by
  unfold invoke
  split <;> exact ⟨_, rfl⟩

theorem setDynamic_frame [Inhabited C] (stamp : Stamp) (values : List (Variant T C)) :
    ∃ state activated, replica.setDynamic api stamp values =
      { replica with
        hasMetaObject := true
        storage := values.mapIdx (decodeProperty api)
        state := state
        activated := activated
        init := some ⟨stamp, activated.length⟩ } := by
  obtain ⟨state, valid⟩ := setState_frame { replica with
    hasMetaObject := true
    storage := values.mapIdx (decodeProperty api) } .valid
  simp only [setDynamic, valid]
  obtain ⟨more, told⟩ := notify_frame api { replica with
    hasMetaObject := true
    storage := values.mapIdx (decodeProperty api)
    state := state } (List.range api.properties.length)
  rw [told]
  exact ⟨_, _, rfl⟩

theorem initializeProperties_frame [Inhabited C] [DecidableEq T] [DecidableEq C] {stamp : Stamp}
    {values : List (Variant T C)} {new : ConnectedReplica T C}
    (done : replica.initializeProperties api stamp values = some new) :
    values.length ≤ replica.storage.length ∧ ∃ state activated, new =
      { replica with
        storage := replica.storage.mapIdx (initialValue api values)
        state := state
        activated := activated
        init := some ⟨stamp, activated.length⟩ } := by
  unfold initializeProperties at done
  split at done
  · rename_i enough
    obtain ⟨state, valid⟩ := setState_frame
      { replica with storage := replica.storage.mapIdx (initialValue api values) } .valid
    simp only [valid] at done
    obtain ⟨more, told⟩ := notify_frame api
      { replica with storage := replica.storage.mapIdx (initialValue api values), state := state }
      ((List.range values.length).filter fun i => replica.Changed api values i)
    rw [told] at done
    cases done
    exact ⟨enough, _, _, rfl⟩
  · contradiction

end ConnectedReplica

/-- The init packet that the replica has seen last, by its root source. -/
def ConnectedReplica.initRoot : Option Nat := replica.init.map (·.stamp.root)

def Down.isControl : Down T C → Bool
  | .objectList _ | .removeObject => true
  | _ => false

/-- The root source whose init packet was the last one, after this packet too. -/
def Down.serves (root : Option Nat) : Down T C → Option Nat
  | .init stamp _ | .initDynamic stamp _ => some stamp.root
  | _ => root

/-- Any packet but a control packet leaves the connection of the replica as it is, and
only an `InitDynamicPacket` gives it a metaobject. -/
theorem onClientRead_inner [Inhabited C] [DecidableEq T] [DecidableEq C] {link new : Link T C}
    {packet : Down T C} (inner : packet.isControl = false)
    (read : link.onClientRead api packet = some new) :
    ∃ replicas, new = { link with replica := replicas } ∧ ∀ new ∈ replicas, ∃ old ∈ link.replica,
      new.connected = old.connected ∧ new.objectSignature = old.objectSignature ∧
        new.initRoot = packet.serves old.initRoot ∧
        new.hasMetaObject = (old.hasMetaObject || packet.isInitDynamic) := by
  have stays : ∀ new ∈ (none : Option (ConnectedReplica T C)), ∃ old ∈ link.replica,
      new.connected = old.connected ∧ new.objectSignature = old.objectSignature ∧
        new.initRoot = packet.serves old.initRoot ∧
        new.hasMetaObject = (old.hasMetaObject || packet.isInitDynamic) :=
    fun _ member => nomatch member
  cases held : link.replica with
  | none =>
    cases packet <;> simp only [Link.onClientRead, held, Option.map_none, Option.some.injEq] at read
    all_goals first | contradiction | exact ⟨none, by rw [← read, ← held], held ▸ stays⟩
  | some old =>
    cases packet with
    | objectList | removeObject => contradiction
    | init stamp values =>
      simp only [Link.onClientRead, held] at read
      obtain ⟨replica, done, rfl⟩ := Option.map_eq_some_iff.mp read
      obtain ⟨_, state, activated, rfl⟩ := old.initializeProperties_frame api done
      refine ⟨_, rfl, ?_⟩
      rintro new ⟨⟩
      exact ⟨old, rfl, rfl, rfl, rfl, (Bool.or_false _).symm⟩
    | initDynamic stamp values =>
      simp only [Link.onClientRead, held, Option.map_some] at read
      cases read
      obtain ⟨state, activated, same⟩ := old.setDynamic_frame api stamp values
      refine ⟨_, rfl, ?_⟩
      rintro new ⟨⟩
      rw [same]
      exact ⟨old, rfl, rfl, rfl, rfl, (Bool.or_true _).symm⟩
    | propertyChange i value =>
      simp only [Link.onClientRead, held] at read
      split at read <;> cases read
      refine ⟨_, rfl, ?_⟩
      rintro new ⟨⟩
      exact ⟨old, rfl, rfl, rfl, rfl, (Bool.or_false _).symm⟩
    | invoke signal args property =>
      simp only [Link.onClientRead, held] at read
      split at read <;> cases read
      obtain ⟨passed, same⟩ := old.invoke_frame api signal args property
      refine ⟨_, rfl, ?_⟩
      rintro new ⟨⟩
      rw [same]
      exact ⟨old, rfl, rfl, rfl, rfl, (Bool.or_false _).symm⟩

end Replica

section Turn
variable {Conn T C : Type} [DecidableEq T] [DecidableEq C] [Inhabited C]

/-- What an event may change about a connection, `face` and `link` being what is there
before it. -/
inductive Turn (api : Interface T C) (connection : Conn) : Event Conn T C → Option Face → Link T C →
    Option Face → Link T C → Prop
  | stays (e) : Turn api connection e face link face link
  | connects (isClosed : link.isOpen = false) : Turn api connection (.connect connection) face link face
      { link with isOpen := true, down := link.down ++ face.toList.map (.objectList ·.signature) }
  | enabled (id) : Turn api connection (.enableRemoting signature) none link
      (some ⟨id, signature, false⟩)
      (if link.isOpen then { link with down := link.down ++ [.objectList signature] } else link)
  | disabled (removals : Nat) (told : face.listed ↔ removals ≠ 0) :
      Turn api connection .disableRemoting (some face) link none
        { link with down := link.down ++ List.replicate removals .removeObject }
  | sends (packets) (data : ∀ packet ∈ packets, Down.isData packet)
      (listed : packets ≠ [] → face.listed) :
      Turn api connection (.emit signal args) (some face) link (some face)
        { link with down := link.down ++ packets }
  | acquires : Turn api connection (.acquire connection isDynamic signature) face link face
      (link.acquire api isDynamic signature)
  | deletes : Turn api connection (.delete connection) face link face link.delete
  | ignored (waiting : link.up = packet :: up) :
      Turn api connection (.serverRead connection) none link none { link with up }
  | attaches (waiting : link.up = .addObject isDynamic attach :: up) (stamp : Stamp) (properties)
      (source : stamp.root = face.id) :
      Turn api connection (.serverRead connection) (some face) link (some { face with listed := true })
        { link with
          up
          down := link.down ++
            [if isDynamic then .initDynamic stamp properties else .init stamp properties] }
  | detaches (waiting : link.up = .removeObject :: up) :
      Turn api connection (.serverRead connection) (some face) link (some { face with listed := false })
        { link with up }
  | reads (arriving : link.down = packet :: down)
      (read : { link with down }.onClientRead api packet = some new) :
      Turn api connection (.clientRead connection) face link face new

end Turn

section Step
variable {Conn T C : Type} [DecidableEq Conn] {s t : Net Conn T C}

theorem Net.setLink_self (connection : Conn) (link : Link T C) :
    (s.setLink connection link).links connection = link := by
  simp only [Net.setLink, Function.update_self]

theorem Net.setLink_other {connection other : Conn} (link : Link T C) (apart : connection ≠ other) :
    (s.setLink other link).links connection = s.links connection := by
  simp only [Net.setLink, Function.update_of_ne apart]

/-- Sending data to all listeners sends data to this one, if it is in the list. -/
theorem data_of_count (listeners : List Conn) (connection : Conn) {payload : List (Down T C)}
    (data : ∀ packet ∈ payload, packet.isData) :
    (∀ packet ∈ (List.replicate (listeners.count connection) payload).flatten, packet.isData) ∧
      ((List.replicate (listeners.count connection) payload).flatten ≠ [] → connection ∈ listeners) := by
  constructor
  · intro packet member
    obtain ⟨block, inside, packetIn⟩ := List.mem_flatten.mp member
    exact data packet ((List.eq_of_mem_replicate inside) ▸ packetIn)
  · intro some
    by_contra unlisted
    rw [List.count_eq_zero_of_not_mem unlisted] at some
    exact some rfl

variable [DecidableEq T] [DecidableEq C] [Inhabited C] {api : Interface T C} {e : Event Conn T C}

theorem Turn.of_eq {connection : Conn} (face : t.face connection = s.face connection)
    (link : t.links connection = s.links connection) : Turn api connection e (s.face connection)
      (s.links connection) (t.face connection) (t.links connection) := by
  rw [face, link]
  exact .stays e

/-- Every step is a turn for each connection. -/
theorem turn_of_step (stepped : step api s e = some t) (connection : Conn) :
    Turn api connection e (s.face connection) (s.links connection) (t.face connection)
      (t.links connection) := by
  cases e with
  | connect c =>
    simp only [step] at stepped
    split at stepped <;> cases stepped
    rename_i isClosed
    by_cases here : connection = c
    · subst here
      have turn : Turn api connection (.connect connection) (s.face connection) _ (s.face connection) _ :=
        .connects (eq_false_of_ne_true isClosed)
      have list : (s.face connection).toList.map (@Down.objectList T C ·.signature) =
          s.root.toList.map fun root => .objectList root.signature := by
        cases root : s.root <;> simp [Net.face, root, RootSource.face]
      rw [list] at turn
      rw [Net.connect, Net.setLink_self]
      exact turn
    · exact .of_eq rfl (Net.setLink_other _ here)
  | enableRemoting signature =>
    simp only [step] at stepped
    split at stepped <;> cases stepped
    rename_i unhosted
    have turn : Turn api connection (.enableRemoting signature) none (s.links connection) _ _ :=
      .enabled s.roots
    simpa [Net.face, unhosted, RootSource.face, Net.broadcast] using turn
  | disableRemoting =>
    obtain ⟨root, found, rfl⟩ := Option.map_eq_some_iff.mp stepped
    have told : (root.face connection).listed ↔ root.listeners.count connection ≠ 0 := by
      simp [RootSource.face, List.count_eq_zero]
    have turn : Turn api connection .disableRemoting (some (root.face connection))
      (s.links connection) none _ := .disabled _ told
    simpa [Net.face, found, Net.send] using turn
  | write i value =>
    simp only [step] at stepped
    split at stepped <;> cases stepped
    exact .of_eq rfl rfl
  | emit signal args =>
    simp only [step] at stepped
    split at stepped
    · split at stepped <;> cases stepped
      · rename_i root found
        obtain ⟨types, emission, frame, data⟩ := root.handleMetaCall_frame api s.values signal args
        obtain ⟨blocks, listed⟩ := data_of_count root.listeners connection data
        have turn : Turn api connection (.emit signal args) (some (root.face connection))
          (s.links connection) (some (root.face connection)) _ :=
          .sends _ blocks (fun some => decide_eq_true (listed some))
        simpa [Net.face, found, Net.send, frame, RootSource.face] using turn
      · exact .of_eq rfl rfl
    · contradiction
  | acquire c isDynamic signature =>
    cases stepped
    by_cases here : connection = c
    · subst here
      rw [Net.setLink_self]
      exact .acquires
    · exact .of_eq rfl (Net.setLink_other _ here)
  | delete c =>
    cases stepped
    by_cases here : connection = c
    · subst here
      rw [Net.setLink_self]
      exact .deletes
    · exact .of_eq rfl (Net.setLink_other _ here)
  | serverRead c =>
    simp only [step] at stepped
    split at stepped
    · contradiction
    · rename_i packet up waiting
      simp only [Net.setLink] at stepped
      cases hosted : s.root with
      | none =>
        simp only [hosted] at stepped
        cases stepped
        by_cases here : connection = c
        · subst here
          have turn : Turn api connection (.serverRead connection) none (s.links connection) none _ :=
            .ignored waiting
          simpa [Net.face, hosted] using turn
        · exact .of_eq (by simp [Net.face, hosted]) (Net.setLink_other _ here)
      | some root =>
        simp only [hosted] at stepped
        cases stepped
        cases packet with
        | addObject isDynamic attach =>
          obtain ⟨types, frame⟩ := root.addListener_frame api s.values c isDynamic attach
          by_cases here : connection = c
          · subst here
            have turn : Turn api connection (.serverRead connection) (some (root.face connection))
              (s.links connection) _ _ :=
              .attaches waiting ⟨root.id, attach, root.emitted.length⟩
                (root.sentProperties api s.values connection isDynamic) rfl
            simpa [Net.face, Net.onServerRead, frame, hosted, RootSource.face, RootSource.attached,
              Net.send] using turn
          · apply Turn.of_eq
            · simp [Net.face, Net.onServerRead, frame, hosted, RootSource.face, RootSource.attached, here]
            · simp [Net.onServerRead, frame, Net.send, List.count_cons, Ne.symm here, here]
        | removeObject =>
          by_cases here : connection = c
          · subst here
            have turn : Turn api connection (.serverRead connection) (some (root.face connection))
              (s.links connection) _ _ := .detaches waiting
            simpa [Net.face, Net.onServerRead, hosted, RootSource.face, RootSource.removeListener]
              using turn
          · apply Turn.of_eq
            · simp [Net.face, Net.onServerRead, hosted, RootSource.face, RootSource.removeListener, here]
            · simp [Net.onServerRead, here]
  | clientRead c =>
    simp only [step] at stepped
    split at stepped
    · contradiction
    · rename_i packet down arriving
      obtain ⟨new, read, rfl⟩ := Option.map_eq_some_iff.mp stepped
      by_cases here : connection = c
      · subst here
        rw [Net.setLink_self]
        exact .reads arriving read
      · exact .of_eq rfl (Net.setLink_other _ here)

end Step
end RemoteObjects.Node
