import RemoteObjects.Node.Connection

/-! The properties of a source in the packets it sends, and in the storage of a replica
that processes them. -/
namespace RemoteObjects.Node

/-- The index tables of signals and properties agree, and a replica class starts with
values of the right types. -/
structure AlignedInterface (T C : Type) extends Interface T C where
  transferNumeric : TransferNumeric toInterface
  announces_iff : ∀ i signal,
    toInterface.notifySignal i = some signal ↔ toInterface.announces signal = some i
  defaults_length : defaults.length = properties.length
  defaults_store : ∀ i metaType, toInterface.metaType i = some metaType →
    ∀ value ∈ defaults[i]?, toInterface.Stores metaType value

namespace Interface
variable {T C : Type} (api : Interface T C)

/-- A property of that type with a notify signal. -/
def Notifies (i : Nat) (metaType : T) : Prop :=
  api.metaType i = some metaType ∧ ∃ signal, api.notifySignal i = some signal

/-- How a property change packet may carry the value of a property. -/
def Sends (metaType : T) (value sent : Variant T C) : Prop :=
  sent = api.encodeVariant value ∨ ∃ type content, value = .bare type content ∧
    sent = .qro type content ∧ api.kind metaType = .variant ∧ api.kind type = .gadget

/-- The values of an init packet, those of the notifiable properties plainly encoded. -/
def Snapshot (values : Nat → Variant T C) (sent : List (Variant T C)) : Prop :=
  sent.length = api.properties.length ∧ ∀ i metaType, api.Notifies i metaType →
    api.Holds metaType (values i) ∧ sent[i]? = some (api.encodeVariant (values i))

/-- A storage with values of the right types. -/
def Stored (storage : List (Variant T C)) : Prop :=
  storage.length = api.properties.length ∧ ∀ i metaType, api.Notifies i metaType →
    ∃ value ∈ storage[i]?, api.Stores metaType value

/-- The stored values equal those of the source. -/
def Tracks (storage : List (Variant T C)) (values : Nat → Variant T C) : Prop :=
  ∀ i metaType, api.Notifies i metaType → ∃ value ∈ storage[i]?, api.Equal value (values i)

theorem notifies_lt {i : Nat} {metaType : T} (notifies : api.Notifies i metaType) :
    i < api.properties.length := by
  obtain ⟨property, found, _⟩ := Option.map_eq_some_iff.mp notifies.1
  exact (List.getElem?_eq_some_iff.mp found).1

end Interface

section Host
variable {Conn T C : Type} [DecidableEq T] (api : Interface T C) (root : RootSource Conn T C)

namespace RootSource

theorem serializeProperty_plain {metaType : T} {value : Variant T C}
    (plain : ¬ root.Wraps api metaType value) :
    (root.serializeProperty api metaType value).1 = api.encodeVariant value := by
  unfold serializeProperty
  split
  · rw [if_neg plain]
  · rfl

theorem serializeProperty_sends {metaType : T} {value : Variant T C} :
    api.Sends metaType value (root.serializeProperty api metaType value).1 := by
  unfold serializeProperty
  split
  · split
    · rename_i type content wraps
      exact .inr ⟨type, content, rfl, rfl, wraps.2.1, wraps.2.2.1⟩
    · exact .inl rfl
  · exact .inl rfl

/-- What is not wrapped now is not wrapped after more properties have been serialized. -/
theorem not_wraps_serialized {metaType other : T} {value first : Variant T C}
    (plain : ¬ root.Wraps api metaType value) :
    ¬ (root.serializeProperty api other first).2.Wraps api metaType value := by
  unfold serializeProperty
  split
  · split
    · intro wraps
      cases value with
      | bare type content =>
        obtain ⟨isDynamic, variant, gadget, unsent⟩ := wraps
        exact plain ⟨isDynamic, variant, gadget, fun sent => unsent (List.mem_cons_of_mem _ sent)⟩
      | container | qro => exact wraps
    · exact plain
  · exact plain

theorem serializeProperties_length (properties : List (T × Variant T C)) :
    (root.serializeProperties api properties).1.length = properties.length := by
  induction properties generalizing root with
  | nil => rfl
  | cons property properties ih => simp only [serializeProperties, List.length_cons, ih]

theorem serializeProperties_plain {properties : List (T × Variant T C)} {i : Nat} {metaType : T}
    {value : Variant T C} (found : properties[i]? = some (metaType, value))
    (plain : ¬ root.Wraps api metaType value) :
    (root.serializeProperties api properties).1[i]? = some (api.encodeVariant value) := by
  induction properties generalizing root i with
  | nil => contradiction
  | cons property properties ih =>
    cases i with
    | zero =>
      simp only [List.getElem?_cons_zero, Option.some.injEq] at found
      subst found
      simp only [serializeProperties, List.getElem?_cons_zero, serializeProperty_plain api root plain]
    | succ i =>
      rw [List.getElem?_cons_succ] at found
      simp only [serializeProperties, List.getElem?_cons_succ]
      exact ih _ found (not_wraps_serialized api root plain)

omit [DecidableEq T] in
theorem read_length (values : Nat → Variant T C) :
    (read api values).length = api.properties.length := by
  simp only [read, List.length_mapIdx]

omit [DecidableEq T] in
theorem read_get {values : Nat → Variant T C} {i : Nat} {metaType : T}
    (found : api.metaType i = some metaType) : (read api values)[i]? = some (metaType, values i) := by
  obtain ⟨property, present, rfl⟩ := Option.map_eq_some_iff.mp found
  simp only [read, List.getElem?_mapIdx, present, Option.map_some]

/-- Without a gadget in front of its type, the init packet holds the values plainly. -/
theorem serializeProperties_snapshot {values : Nat → Variant T C}
    (holds : ∀ i metaType, api.metaType i = some metaType → api.Holds metaType (values i))
    (plain : ∀ i metaType, api.Notifies i metaType → ¬ root.Wraps api metaType (values i)) :
    api.Snapshot values (root.serializeProperties api (read api values)).1 := by
  refine ⟨by rw [serializeProperties_length, read_length], ?_⟩
  intro i metaType notifies
  exact ⟨holds i metaType notifies.1,
    serializeProperties_plain api root (read_get api notifies.1) (plain i metaType notifies)⟩

end RootSource
end Host

section Client
variable {T C : Type} [DecidableEq T] [DecidableEq C] [Inhabited C] {api : Interface T C}
  {values : Nat → Variant T C}

open ConnectedReplica

omit [DecidableEq T] [DecidableEq C] in
theorem decodeProperty_eq {i : Nat} {metaType : T} (found : api.metaType i = some metaType)
    (value : Variant T C) : decodeProperty api i value = api.decodeVariant value metaType := by
  simp only [decodeProperty, found]

omit [DecidableEq T] [DecidableEq C] [Inhabited C] in
/-- A storage that holds a fitting and equal value for each notifiable property. -/
theorem stored_tracks {storage : List (Variant T C)} (length : storage.length = api.properties.length)
    (each : ∀ i metaType, api.Notifies i metaType → ∃ value ∈ storage[i]?,
      api.Stores metaType value ∧ api.Equal value (values i)) :
    api.Stored storage ∧ api.Tracks storage values := by
  refine ⟨⟨length, ?_⟩, ?_⟩
  · intro i metaType notifies
    obtain ⟨value, found, stores, _⟩ := each i metaType notifies
    exact ⟨value, found, stores⟩
  · intro i metaType notifies
    obtain ⟨value, found, _, equal⟩ := each i metaType notifies
    exact ⟨value, found, equal⟩

/-- `initialize` stores the values of the packet, or keeps what equals them. -/
theorem initialValues_tracks (numeric : TransferNumeric api) {sent storage : List (Variant T C)}
    (stored : api.Stored storage) (snapshot : api.Snapshot values sent) :
    api.Stored (storage.mapIdx (initialValue api sent)) ∧
      api.Tracks (storage.mapIdx (initialValue api sent)) values := by
  apply stored_tracks
  · rw [List.length_mapIdx]
    exact stored.1
  · intro i metaType notifies
    obtain ⟨holds, found⟩ := snapshot.2 i metaType notifies
    obtain ⟨old, before, stores⟩ := stored.2 i metaType notifies
    refine ⟨initialValue api sent i old, ?_, ?_⟩
    · rw [List.getElem?_mapIdx, before]
      rfl
    · simp only [initialValue, found]
      split
      · rename_i same
        exact ⟨stores, equal_of_equal_encoded numeric stores holds same⟩
      · rw [decodeProperty_eq notifies.1]
        exact decode_encode numeric holds

omit [DecidableEq T] [DecidableEq C] in
theorem dynamicValues_tracks (numeric : TransferNumeric api) {sent : List (Variant T C)}
    (snapshot : api.Snapshot values sent) :
    api.Stored (sent.mapIdx (decodeProperty api)) ∧ api.Tracks (sent.mapIdx (decodeProperty api)) values := by
  apply stored_tracks
  · rw [List.length_mapIdx]
    exact snapshot.1
  · intro i metaType notifies
    obtain ⟨holds, found⟩ := snapshot.2 i metaType notifies
    refine ⟨api.decodeVariant (api.encodeVariant (values i)) metaType, ?_, decode_encode numeric holds⟩
    rw [List.getElem?_mapIdx, found, Option.map_some, decodeProperty_eq notifies.1]
    rfl

omit [DecidableEq T] [DecidableEq C] in
/-- The value of a property change packet is stored, a gadget without its wrapping. -/
theorem setProperty_storage (numeric : TransferNumeric api) (replica : ConnectedReplica T C) {i : Nat}
    {metaType : T} {value sent : Variant T C} (found : api.metaType i = some metaType)
    (holds : api.Holds metaType value) (sends : api.Sends metaType value sent) :
    ∃ new, (replica.setProperty api i sent).storage = replica.storage.set i new ∧
      api.Stores metaType new ∧ api.Equal new value := by
  rcases sends with rfl | ⟨type, content, rfl, rfl, variant, gadget⟩
  · refine ⟨api.decodeVariant (api.encodeVariant value) metaType, ?_, decode_encode numeric holds⟩
    have plain : ∀ type content, api.encodeVariant value ≠ .qro type content := by
      intro type content same
      obtain ⟨own, held, rfl, _⟩ := holds.bare
      unfold Interface.encodeVariant at same
      simp only at same
      split at same <;> contradiction
    simp only [setProperty, decodeProperty_eq found]
    split
    · rename_i same _
      exact absurd same (plain _ _)
    · rfl
  · refine ⟨.bare type content, ?_, ?_, .inl rfl, rfl⟩
    · simp only [setProperty, found, Option.map_some, variant, decodeProperty_eq found,
        Interface.decodeVariant]
    · refine .inr ⟨variant, fun u same => ?_⟩
      rw [gadget] at same
      contradiction

omit [DecidableEq T] [DecidableEq C] in
theorem setProperty_get (numeric : TransferNumeric api) {replica : ConnectedReplica T C} {i : Nat}
    {metaType : T} {value sent : Variant T C} (found : api.metaType i = some metaType)
    (holds : api.Holds metaType value) (sends : api.Sends metaType value sent)
    (stored : api.Stored replica.storage) :
    (∃ new ∈ (replica.setProperty api i sent).storage[i]?,
        api.Stores metaType new ∧ api.Equal new value) ∧
      ∀ j, i ≠ j → (replica.setProperty api i sent).storage[j]? = replica.storage[j]? := by
  obtain ⟨new, same, stores, equal⟩ := setProperty_storage numeric replica found holds sends
  have inside : i < replica.storage.length := by
    obtain ⟨property, present, _⟩ := Option.map_eq_some_iff.mp found
    exact stored.1 ▸ (List.getElem?_eq_some_iff.mp present).1
  rw [same]
  exact ⟨⟨new, List.getElem?_set_self inside, stores, equal⟩, fun j other => List.getElem?_set_ne other⟩

omit [DecidableEq T] [DecidableEq C] in
theorem setProperty_stored (numeric : TransferNumeric api) {replica : ConnectedReplica T C} {i : Nat}
    {metaType : T} {value sent : Variant T C} (found : api.metaType i = some metaType)
    (holds : api.Holds metaType value) (sends : api.Sends metaType value sent)
    (stored : api.Stored replica.storage) : api.Stored (replica.setProperty api i sent).storage := by
  obtain ⟨⟨new, here, stores, _⟩, elsewhere⟩ := setProperty_get numeric found holds sends stored
  constructor
  · exact List.length_set.trans stored.1
  · intro j other notifies
    by_cases same : i = j
    · subst same
      obtain rfl := Option.some.inj (found.symm.trans notifies.1)
      exact ⟨new, here, stores⟩
    · rw [elsewhere j same]
      exact stored.2 j other notifies

omit [DecidableEq T] [DecidableEq C] in
/-- After a property change packet the storage tracks the changed value too. -/
theorem setProperty_tracks (numeric : TransferNumeric api) {replica : ConnectedReplica T C} {i : Nat}
    {metaType : T} {value sent : Variant T C} (found : api.metaType i = some metaType)
    (holds : api.Holds metaType value) (sends : api.Sends metaType value sent)
    (stored : api.Stored replica.storage) (tracks : api.Tracks replica.storage values) :
    api.Tracks (replica.setProperty api i sent).storage (Function.update values i value) := by
  obtain ⟨⟨new, here, _, equal⟩, elsewhere⟩ := setProperty_get numeric found holds sends stored
  intro j other notifies
  by_cases same : i = j
  · subst same
    rw [Function.update_self]
    exact ⟨new, here, equal⟩
  · rw [elsewhere j same, Function.update_of_ne (Ne.symm same)]
    exact tracks j other notifies

end Client
end RemoteObjects.Node
