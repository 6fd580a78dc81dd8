import RemoteObjects.Node.Network

/-! The values that a client stores in a replica of a static class: how many there are is the source's choice, the storage
and the meta object are those of the class. -/
namespace RemoteObjects.Client.Initialization
open Transition
open Node (Signature ReplicaState checkSignatures)

section Model

/-- What a peer remotes. -/
structure Source where
  objectSignature : Signature
  propertyCount : Nat

/-- A class that repc generated, with its properties: whether they are pointers to objects. `derived` is for a subclass with
a meta object of its own, the number of properties that it adds. -/
structure ReplicaClass where
  objectSignature : Signature
  pointers : List Bool
  derived : Option Nat

/-- `QRO_`, without the values: they are stored in another replica. -/
structure ChildInfo where
  name : List Char
  isNull : Bool

variable (V : Type)

structure Implementation where
  m_metaObject : ReplicaClass
  m_propertyStorage : List V
  m_state : ReplicaState
  connectionToSource : Option Source

/-- `replicas` says which names the node has replicas for. A root is announced before it gets its values, a child gets them
from the packet of its parent. -/
inductive Event
  | objectList (source : Source)
  | initPacket (replicas : List Char → Bool) (values : List V)
  | childProperties (source : Source) (replicas : List Char → Bool) (values : List V)
  | propertyChangePacket (replicas : List Char → Bool) (propertyIndex : Int) (value : V)
  | setChild (i : Nat) (value : V)
  | setDisconnected

variable {V} (m_propertyOffset : Nat)

namespace ReplicaClass
variable (c : ReplicaClass)

def m_childIndices : List Nat := (List.range c.pointers.length).filter fun i => c.pointers[i]? = some true

/-- The properties of `QRemoteObjectReplica` come first. -/
def propertyOffset : Nat := m_propertyOffset + if c.derived.isSome then c.pointers.length else 0

def propertyCount : Nat := m_propertyOffset + c.pointers.length + c.derived.getD 0

/-- A property of the meta object, nothing for an index outside. -/
def property (index : Int) : Option Nat :=
  if 0 ≤ index ∧ index < c.propertyCount m_propertyOffset then some index.toNat else none

end ReplicaClass

/-- What the code gets from the properties and from the values: the value of another type, whether there is a notify signal,
the `QRO_` in a value, and the replica that is acquired for it. -/
structure Conversions (V : Type) where
  decodeVariant : V → Nat → V
  notifies : Nat → Bool
  toQro : V → ChildInfo
  nullPointer : V
  acquire : ChildInfo → V

namespace Implementation
variable [DecidableEq V] (conv : Conversions V) (impl : Implementation V)

def isInitialized : Bool := impl.m_state = .valid || impl.m_state = .suspect

/-- The first loop of `initialize`, and the indices that it collects. -/
def storeValues (c : ReplicaClass) : Nat → List V → List V → Option (List V × List Nat)
  | _, [], m_propertyStorage => some (m_propertyStorage, [])
  | i, value :: values, m_propertyStorage => do
    let old ← m_propertyStorage[i]?
    if old = value then storeValues c (i + 1) values m_propertyStorage
    else
      let property ← c.property m_propertyOffset (i + m_propertyOffset)
      let (m_propertyStorage, changedProperties) ←
        storeValues c (i + 1) values (m_propertyStorage.set i (conv.decodeVariant value property))
      some (m_propertyStorage, i :: changedProperties)

/-- The second loop, with the values that the notify signals carry. -/
def notifyChanged (c : ReplicaClass) (m_propertyStorage : List V) : List Nat → Option (List V)
  | [] => some []
  | i :: changedProperties => do
    let property ← c.property m_propertyOffset (i + m_propertyOffset)
    if conv.notifies property then
      let value ← m_propertyStorage[i]?
      let emitted ← notifyChanged c m_propertyStorage changedProperties
      some (value :: emitted)
    else notifyChanged c m_propertyStorage changedProperties

def initializeProperties (values : List V) : Option (Implementation V) := do
  let (m_propertyStorage, changedProperties) ← storeValues m_propertyOffset conv impl.m_metaObject 0 values impl.m_propertyStorage
  let _ ← notifyChanged m_propertyOffset conv impl.m_metaObject m_propertyStorage changedProperties
  some { impl with m_propertyStorage, m_state := .valid }

def handlePointerToQObjectProperty (replicas : List Char → Bool) (index : Nat) (property : V) : Option V :=
  let childInfo := conv.toQro property
  if childInfo.isNull then some conv.nullPointer
  else if !replicas childInfo.name || impl.isInitialized then some (conv.acquire childInfo)
  else impl.m_propertyStorage[index]?

/-- The loop over `childIndices()`. -/
def handlePointerToQObjectProperties (replicas : List Char → Bool) : List Nat → List V → Option (List V)
  | [], properties => some properties
  | index :: childIndices, properties => do
    let property ← properties[index]?
    let value ← impl.handlePointerToQObjectProperty conv replicas index property
    handlePointerToQObjectProperties replicas childIndices (properties.set index value)

/-- The values of a packet, those of an `InitPacket` or of a `QRO_`. -/
def receive (replicas : List Char → Bool) (values : List V) : Option (Implementation V) := do
  let values ← impl.handlePointerToQObjectProperties conv replicas impl.m_metaObject.m_childIndices values
  impl.initializeProperties m_propertyOffset conv values

def setProperty (i : Int) (value : V) : Option (Implementation V) :=
  if 0 ≤ i ∧ i < impl.m_propertyStorage.length then
    some { impl with m_propertyStorage := impl.m_propertyStorage.set i.toNat value }
  else none

def propertyChanged (replicas : List Char → Bool) (propertyIndex : Int) (rxValue : V) : Option (Implementation V) :=
  if 0 ≤ propertyIndex ∧ propertyIndex.toNat ∈ impl.m_metaObject.m_childIndices then do
    let value ← impl.handlePointerToQObjectProperty conv replicas propertyIndex.toNat rxValue
    impl.setProperty propertyIndex value
  else do
    let property ← impl.m_metaObject.property m_propertyOffset (propertyIndex + impl.m_metaObject.propertyOffset m_propertyOffset)
    impl.setProperty propertyIndex (conv.decodeVariant rxValue property)

/-- As the first replica of a class makes it: generated code sets the default value of each property. -/
def new (c : ReplicaClass) (defaultValue : Nat → V) : Implementation V := ⟨c, (List.range c.pointers.length).map defaultValue, .default, none⟩

end Implementation

variable [DecidableEq V] (conv : Conversions V)

/-- A packet for the values is sent by the source that the replica has requested. -/
def Source.Sends (connectionToSource : Option Source) (values : List V) : Prop :=
  connectionToSource.map Source.propertyCount = some values.length

instance (connectionToSource : Option Source) (values : List V) : Decidable (Source.Sends connectionToSource values) :=
  inferInstanceAs (Decidable (_ = _))

/-- Nothing follows where an index is out of range. -/
def step (impl : Implementation V) : Event V → Option (Implementation V)
  | .objectList source =>
    if impl.connectionToSource.isSome then some impl
    else if checkSignatures impl.m_metaObject.objectSignature source.objectSignature then
      some { impl with connectionToSource := some source }
    else some { impl with m_state := .signatureMismatch }
  | .initPacket replicas values =>
    if Source.Sends impl.connectionToSource values then impl.receive m_propertyOffset conv replicas values else none
  | .childProperties source replicas values =>
    if values.length = source.propertyCount then
      let child := { impl with connectionToSource := impl.connectionToSource <|> some source }
      child.receive m_propertyOffset conv replicas values
    else none
  | .propertyChangePacket replicas propertyIndex value => impl.propertyChanged m_propertyOffset conv replicas propertyIndex value
  | .setChild i value => impl.setProperty i value
  | .setDisconnected => some { impl with connectionToSource := none, m_state := .suspect }

/-- The packets are processed without an index out of range. -/
def InBounds (impl : Implementation V) : Event V → Prop
  | .initPacket replicas values => Source.Sends impl.connectionToSource values →
    (impl.receive m_propertyOffset conv replicas values).isSome
  | .childProperties source replicas values => values.length = source.propertyCount →
    (impl.receive m_propertyOffset conv replicas values).isSome
  | .propertyChangePacket replicas propertyIndex value =>
    (impl.propertyChanged m_propertyOffset conv replicas propertyIndex value).isSome
  | _ => True

/-- The class has all properties of the source, and the source those that are pointers in the class. -/
def Source.Fits (source : Source) (c : ReplicaClass) : Prop :=
  source.propertyCount ≤ c.pointers.length ∧ ∀ i ∈ c.m_childIndices, i < source.propertyCount

/-- A property that changes is one of the class, whose meta object has its properties at the end unless there is a subclass. -/
def ReplicaClass.Has (c : ReplicaClass) (propertyIndex : Int) : Prop :=
  0 ≤ propertyIndex ∧ propertyIndex < c.pointers.length ∧
    ∀ added, c.derived = some added → propertyIndex.toNat ∈ c.m_childIndices ∨ propertyIndex < added

def fitting (impl : Implementation V) : Event V → Prop
  | .initPacket _ values => ∀ source, impl.connectionToSource = some source → values.length = source.propertyCount →
    source.Fits impl.m_metaObject
  | .childProperties source _ values => values.length = source.propertyCount → source.Fits impl.m_metaObject
  | .propertyChangePacket _ propertyIndex _ => impl.m_metaObject.Has propertyIndex
  | _ => True

end Model

section Proofs
variable {V : Type} {m_propertyOffset : Nat} {conv : Conversions V} {impl t : Implementation V} {e : Event V} {c : ReplicaClass}
variable {replicas : List Char → Bool} {i : Nat} {values m_propertyStorage properties : List V} {changed indices : List Nat}

theorem property_own (own : i < c.pointers.length) :
    c.property m_propertyOffset (i + m_propertyOffset) = some (i + m_propertyOffset) := by
  unfold ReplicaClass.property
  rw [if_pos ⟨by omega, by unfold ReplicaClass.propertyCount; omega⟩]
  rfl

theorem mem_childIndices : i ∈ c.m_childIndices ↔ c.pointers[i]? = some true := by
  simp only [ReplicaClass.m_childIndices, List.mem_filter, List.mem_range, decide_eq_true_eq, and_iff_right_iff_imp]
  exact fun pointer => (List.getElem?_eq_some_iff.mp pointer).1

theorem childIndices_lt (child : i ∈ c.m_childIndices) : i < c.pointers.length :=
  (List.getElem?_eq_some_iff.mp (mem_childIndices.mp child)).1

namespace Implementation

variable (m_propertyOffset conv) in
theorem notifyChanged_some (own : m_propertyStorage.length ≤ c.pointers.length) (inside : ∀ j ∈ changed, j < m_propertyStorage.length) :
    ∃ emitted, notifyChanged m_propertyOffset conv c m_propertyStorage changed = some emitted := by
  induction changed with
  | nil => exact ⟨[], rfl⟩
  | cons i changed ih =>
    obtain ⟨here, others⟩ := List.forall_mem_cons.mp inside
    obtain ⟨emitted, done⟩ := ih others
    simp only [notifyChanged, property_own (Nat.lt_of_lt_of_le here own), Option.bind_eq_bind, Option.bind_some, done,
      List.getElem?_eq_getElem here]
    split
    · exact ⟨_, rfl⟩
    · exact ⟨emitted, rfl⟩

variable (conv replicas) in
theorem handlePointer_some (own : i < impl.m_propertyStorage.length) (property : V) :
    ∃ value, impl.handlePointerToQObjectProperty conv replicas i property = some value := by
  unfold handlePointerToQObjectProperty
  dsimp only
  split
  · exact ⟨_, rfl⟩
  · split
    · exact ⟨_, rfl⟩
    · exact ⟨_, List.getElem?_eq_getElem own⟩

variable (conv replicas) in
theorem handlePointers_some (own : ∀ j ∈ indices, j < impl.m_propertyStorage.length) (room : ∀ j ∈ indices, j < properties.length) :
    ∃ values, impl.handlePointerToQObjectProperties conv replicas indices properties = some values ∧
      values.length = properties.length := by
  induction indices generalizing properties with
  | nil => exact ⟨properties, rfl, rfl⟩
  | cons j indices ih =>
    obtain ⟨here, others⟩ := List.forall_mem_cons.mp room
    obtain ⟨ownHere, ownOthers⟩ := List.forall_mem_cons.mp own
    obtain ⟨value, handled⟩ := handlePointer_some conv replicas ownHere properties[j]
    obtain ⟨values, done, length⟩ := @ih (properties.set j value) ownOthers (by simpa using others)
    refine ⟨values, ?_, by simpa using length⟩
    simp [handlePointerToQObjectProperties, List.getElem?_eq_getElem here, handled, done]

theorem handlePointers_none (beyond : ∃ j ∈ indices, properties.length ≤ j) :
    impl.handlePointerToQObjectProperties conv replicas indices properties = none := by
  induction indices generalizing properties with
  | nil => simp at beyond
  | cons j indices ih =>
    unfold handlePointerToQObjectProperties
    obtain ⟨k, member, beyond⟩ := beyond
    rcases List.mem_cons.mp member with rfl | later
    · simp [List.getElem?_eq_none beyond]
    · exact Option.bind_eq_none_iff.mpr fun property _ => Option.bind_eq_none_iff.mpr fun value _ => ih ⟨k, later, by simpa using beyond⟩

theorem setProperty_spec {index : Int} {value : V} : (impl.setProperty index value).isSome ↔ 0 ≤ index ∧ index < impl.m_propertyStorage.length := by
  unfold setProperty
  split <;> simp [*]

theorem setProperty_keeps {index : Int} {value : V} (stored : impl.setProperty index value = some t) :
    t.m_metaObject = impl.m_metaObject ∧ t.m_propertyStorage.length = impl.m_propertyStorage.length := by
  unfold setProperty at stored
  split at stored
  · obtain rfl := Option.some.inj stored
    exact ⟨rfl, List.length_set⟩
  · contradiction

theorem property_changed {index : Int} (inside : 0 ≤ index) (own : index < c.pointers.length) :
    (c.property m_propertyOffset (index + c.propertyOffset m_propertyOffset)).isSome ↔ ∀ added, c.derived = some added → index < added := by
  unfold ReplicaClass.property ReplicaClass.propertyOffset ReplicaClass.propertyCount
  cases c.derived with
  | none => simp; omega
  | some added => simp; omega

/-- A change arrives exactly if the class has the property, where the meta object is looked into. -/
theorem propertyChanged_spec {propertyIndex : Int} {rxValue : V} (own : impl.m_propertyStorage.length = impl.m_metaObject.pointers.length) :
    (impl.propertyChanged m_propertyOffset conv replicas propertyIndex rxValue).isSome ↔ impl.m_metaObject.Has propertyIndex := by
  unfold propertyChanged
  split
  · rename_i child
    have inside := childIndices_lt child.2
    obtain ⟨value, handled⟩ := handlePointer_some conv replicas (own ▸ inside) rxValue
    rw [handled, Option.bind_eq_bind, Option.bind_some, setProperty_spec]
    exact iff_of_true ⟨child.1, by omega⟩ ⟨child.1, by omega, fun added _ => .inl child.2⟩
  · rename_i plain
    have both : ((impl.m_metaObject.property m_propertyOffset (propertyIndex + impl.m_metaObject.propertyOffset m_propertyOffset)).bind
        fun property => impl.setProperty propertyIndex (conv.decodeVariant rxValue property)).isSome ↔
        (0 ≤ propertyIndex ∧ propertyIndex < impl.m_metaObject.pointers.length) ∧
          (impl.m_metaObject.property m_propertyOffset (propertyIndex + impl.m_metaObject.propertyOffset m_propertyOffset)).isSome := by
      rw [← own]
      cases impl.m_metaObject.property m_propertyOffset (propertyIndex + impl.m_metaObject.propertyOffset m_propertyOffset) with
      | none => simp
      | some property => simpa using setProperty_spec
    refine both.trans ?_
    rw [ReplicaClass.Has, ← and_assoc]
    refine and_congr_right fun inside => (property_changed inside.1 inside.2).trans ?_
    exact forall_congr' fun added => imp_congr_right fun _ => (or_iff_right fun child => plain ⟨inside.1, child⟩).symm

variable [DecidableEq V]

variable (m_propertyOffset conv) in
theorem storeValues_some (room : i + values.length ≤ m_propertyStorage.length) (own : m_propertyStorage.length ≤ c.pointers.length) :
    ∃ stored changed, storeValues m_propertyOffset conv c i values m_propertyStorage = some (stored, changed) ∧
      stored.length = m_propertyStorage.length ∧ ∀ j ∈ changed, j < m_propertyStorage.length := by
  induction values generalizing i m_propertyStorage with
  | nil => exact ⟨m_propertyStorage, [], rfl, rfl, nofun⟩
  | cons value values ih =>
    rw [List.length_cons] at room
    have here : i < m_propertyStorage.length := by omega
    simp only [storeValues, List.getElem?_eq_getElem here, Option.bind_eq_bind, Option.bind_some]
    split
    · exact ih (by omega) own
    · obtain ⟨stored, changed, done, length, inside⟩ :=
        @ih (i + 1) (m_propertyStorage.set i (conv.decodeVariant value (i + m_propertyOffset)))
          (by rw [List.length_set]; omega) (by rwa [List.length_set])
      rw [List.length_set] at length inside
      rw [property_own (Nat.lt_of_lt_of_le here own), Option.bind_some, done]
      exact ⟨stored, i :: changed, rfl, length, List.forall_mem_cons.mpr ⟨here, inside⟩⟩

/-- The loop comes to the first index that is too large. -/
theorem storeValues_none (inside : i ≤ m_propertyStorage.length) (tooMany : m_propertyStorage.length < i + values.length) :
    storeValues m_propertyOffset conv c i values m_propertyStorage = none := by
  induction values generalizing i m_propertyStorage with
  | nil => simp at tooMany; omega
  | cons value values ih =>
    rw [List.length_cons] at tooMany
    rcases Nat.lt_or_eq_of_le inside with here | rfl
    · simp only [storeValues, List.getElem?_eq_getElem here, Option.bind_eq_bind, Option.bind_some]
      split
      · exact ih here (by omega)
      · cases c.property m_propertyOffset (i + m_propertyOffset) with
        | none => rfl
        | some property =>
          rw [Option.bind_some, ih (by rw [List.length_set]; omega) (by rw [List.length_set]; omega)]
          rfl
    · simp [storeValues]

theorem initializeProperties_some (own : impl.m_propertyStorage.length = impl.m_metaObject.pointers.length)
    (room : values.length ≤ impl.m_metaObject.pointers.length) : ∃ t, impl.initializeProperties m_propertyOffset conv values = some t ∧
      t.m_metaObject = impl.m_metaObject ∧ t.m_propertyStorage.length = impl.m_propertyStorage.length := by
  have all : 0 + values.length ≤ impl.m_propertyStorage.length := by omega
  obtain ⟨stored, changed, done, length, inside⟩ := storeValues_some m_propertyOffset conv all (Nat.le_of_eq own)
  obtain ⟨emitted, notified⟩ := notifyChanged_some m_propertyOffset conv (Nat.le_of_eq (length.trans own))
    fun j changed => length ▸ inside j changed
  exact ⟨{ impl with m_propertyStorage := stored, m_state := .valid }, by simp [initializeProperties, done, notified], rfl, length⟩

theorem initializeProperties_none (tooMany : impl.m_propertyStorage.length < values.length) :
    impl.initializeProperties m_propertyOffset conv values = none := by
  simp [initializeProperties, storeValues_none (Nat.zero_le _) (by omega : impl.m_propertyStorage.length < 0 + values.length)]

/-- Values are received exactly if they are no more than the class has properties, and enough for its pointers. -/
theorem receive_spec (impl : Implementation V) (m_propertyOffset : Nat) (conv : Conversions V) (replicas : List Char → Bool) (values : List V)
    (own : impl.m_propertyStorage.length = impl.m_metaObject.pointers.length) :
    (values.length ≤ impl.m_metaObject.pointers.length ∧ (∀ j ∈ impl.m_metaObject.m_childIndices, j < values.length) ∧
      ∃ t, impl.receive m_propertyOffset conv replicas values = some t ∧
        t.m_metaObject = impl.m_metaObject ∧ t.m_propertyStorage.length = impl.m_propertyStorage.length) ∨
    (¬ (values.length ≤ impl.m_metaObject.pointers.length ∧ ∀ j ∈ impl.m_metaObject.m_childIndices, j < values.length) ∧
      impl.receive m_propertyOffset conv replicas values = none) := by
  by_cases pointers : ∀ j ∈ impl.m_metaObject.m_childIndices, j < values.length
  · obtain ⟨handled, done, length⟩ := handlePointers_some conv replicas
      (fun j child => own ▸ childIndices_lt child) pointers
    simp only [receive, done, Option.bind_eq_bind, Option.bind_some]
    by_cases room : values.length ≤ impl.m_metaObject.pointers.length
    · exact .inl ⟨room, pointers, initializeProperties_some own (length ▸ room)⟩
    · exact .inr ⟨fun fits => room fits.1, initializeProperties_none (by omega)⟩
  · refine .inr ⟨fun fits => pointers fits.2, ?_⟩
    obtain ⟨j, child, beyond⟩ : ∃ j ∈ impl.m_metaObject.m_childIndices, values.length ≤ j := by simpa using pointers
    simp [receive, handlePointers_none ⟨j, child, beyond⟩]

end Implementation
variable [DecidableEq V]

theorem receive_keeps (own : impl.m_propertyStorage.length = impl.m_metaObject.pointers.length)
    (received : impl.receive m_propertyOffset conv replicas values = some t) :
    t.m_propertyStorage.length = t.m_metaObject.pointers.length := by
  rcases impl.receive_spec m_propertyOffset conv replicas values own with ⟨_, _, _, done, same, length⟩ | ⟨_, failed⟩
  · obtain rfl := Option.some.inj (received.symm.trans done)
    rw [length, same, own]
  · cases received.symm.trans failed

/-- The storage is that of the class in every state. -/
theorem stored_step (own : impl.m_propertyStorage.length = impl.m_metaObject.pointers.length)
    (head : step m_propertyOffset conv impl e = some t) : t.m_propertyStorage.length = t.m_metaObject.pointers.length := by
  cases e with
  | objectList source =>
    simp only [step] at head
    split at head
    · exact Option.some.inj head ▸ own
    · split at head <;> exact Option.some.inj head ▸ own
  | initPacket replicas values =>
    simp only [step] at head
    split at head
    · exact receive_keeps own head
    · contradiction
  | childProperties source replicas values =>
    simp only [step] at head
    split at head
    · exact receive_keeps (by exact own) head
    · contradiction
  | propertyChangePacket replicas propertyIndex value =>
    simp only [step, Implementation.propertyChanged] at head
    split at head
    all_goals
      obtain ⟨_, _, stored⟩ := Option.bind_eq_some_iff.mp head
      obtain ⟨same, length⟩ := Implementation.setProperty_keeps stored
      rw [length, same, own]
  | setChild i value =>
    obtain ⟨same, length⟩ := Implementation.setProperty_keeps head
    rw [length, same, own]
  | setDisconnected => exact Option.some.inj head ▸ own

theorem receive_fits {source : Source} (own : impl.m_propertyStorage.length = impl.m_metaObject.pointers.length)
    (sent : values.length = source.propertyCount) :
    (impl.receive m_propertyOffset conv replicas values).isSome ↔ source.Fits impl.m_metaObject := by
  rw [Source.Fits, ← sent]
  rcases impl.receive_spec m_propertyOffset conv replicas values own with ⟨room, pointers, _, done, _⟩ | ⟨unfit, failed⟩
  · exact iff_of_true (by rw [done]; rfl) ⟨room, pointers⟩
  · exact iff_of_false (by simp [failed]) unfit

theorem inBounds_iff_fitting (own : impl.m_propertyStorage.length = impl.m_metaObject.pointers.length) :
    InBounds m_propertyOffset conv impl e ↔ fitting impl e := by
  cases e with
  | initPacket replicas values =>
    simp only [InBounds, fitting, Source.Sends]
    cases impl.connectionToSource with
    | none => simp
    | some source =>
      simp only [Option.map_some, Option.some.injEq, forall_eq']
      rw [eq_comm]
      exact imp_congr_right fun sent => receive_fits own sent
  | childProperties source replicas values => exact imp_congr_right fun sent => receive_fits own sent
  | propertyChangePacket replicas propertyIndex value => exact Implementation.propertyChanged_spec own
  | _ => exact Iff.rfl

/-- In every run of a replica, all indices are in range exactly if each source that sends values fits the class, and each
property that changes is one of the class. -/
theorem inBounds_iff (m_propertyOffset : Nat) (conv : Conversions V) (c : ReplicaClass) (defaultValue : Nat → V)
    (es : List (Event V)) : Admitted (step m_propertyOffset conv) (InBounds m_propertyOffset conv) (.new c defaultValue) es ↔
      Admitted (step m_propertyOffset conv) fitting (.new c defaultValue) es :=
  admitted_iff stored_step (fun own => inBounds_iff_fitting own) (by simp [Implementation.new])

/-- The values are their own types. -/
def exampleConversions : Conversions Nat := ⟨fun value _ => value, fun _ => true, fun _ => ⟨[], true⟩, 0, fun _ => 0⟩

/-- An object without a signature has two properties, the class one. -/
theorem unsigned_source_overflows :
    checkSignatures [1] [] ∧
      ¬ Admitted (step 2 exampleConversions) (InBounds 2 exampleConversions) (.new ⟨[1], [false], none⟩ fun _ => 0)
        [.objectList ⟨[], 2⟩, .initPacket (fun _ => false) [7, 8]] := by
  refine ⟨rfl, fun run => ?_⟩
  have received : (none : Option (Implementation Nat)).isSome := (run.2 _ rfl).1 rfl
  cases received

end Proofs
end RemoteObjects.Client.Initialization
