import RemoteObjects.Packet.ByteOrder
import RemoteObjects.Packet.CodecProofs

/-! Sources below sources. A `QRO_` in a list of properties has the properties of its object in
a byte array, with a count and a stream of its own. -/
namespace RemoteObjects.Packet
open Wire Reader

section Model

/-- The properties of a source. A child without an object has no properties. -/
inductive Properties (S B V : Type) [Inhabited B]
  | nil
  | value (value : Variant S B V) (rest : Properties S B V)
  | null (name typeName : S) (type : UInt8) (rest : Properties S B V)
  | object (name typeName : S) (type : UInt8) (classDefinition : B) (parameters rest : Properties S B V)

/-- The pointer properties of a class, `childIndices` of its replica, and those of their classes. -/
inductive ChildIndices
  | nil
  | value (rest : ChildIndices)
  | pointer (child rest : ChildIndices)

variable (S B V : Type) [Inhabited B]

/-- A packet's stream, and the one that `serializeProperty` opens on a byte array. Byte arrays
hold any bytes that their length can describe. -/
structure NestedStream where
  packet : DataStream S B V
  params : DataStream S B V
  int : Format UInt8 UInt32
  bytes : B → List UInt8
  buffer : List UInt8 → B
  bytes_buffer : ∀ l, l.length < 2 ^ 32 - 1 → bytes (buffer l) = l
  encodeVariant_params : params.encodeVariant = packet.encodeVariant

variable {S B V}

/-- `QRO_` of a child source without an object. -/
def Qro.ofNull (name typeName : S) (type : UInt8) : Qro S B :=
  ⟨name, typeName, type, default, true, default, fun _ => rfl⟩

def Qro.ofObject (name typeName : S) (type : UInt8) (classDefinition parameters : B) : Qro S B :=
  ⟨name, typeName, type, classDefinition, false, parameters, fun null => absurd null Bool.false_ne_true⟩

namespace NestedStream
variable (s : NestedStream S B V)

/-- The number of properties, then the properties. -/
def putParameters (properties : List (Variant S B V)) : List UInt8 :=
  s.int.put (UInt32.ofNat properties.length) ++ properties.flatMap s.params.serializeProperty

/-- The values that `serializeProperty` writes: for a child its `QRO_` with the parameters. -/
def variants : Properties S B V → List (Variant S B V)
  | .nil => []
  | .value value rest => value :: variants rest
  | .null name typeName type rest =>
    .qro (.ofNull name typeName type) :: variants rest
  | .object name typeName type classDefinition parameters rest =>
    .qro (.ofObject name typeName type classDefinition (s.buffer (s.putParameters (variants parameters)))) ::
      variants rest

/-- `serializeProperties`, into the stream of the packet. -/
def serializeProperties (properties : Properties S B V) : List UInt8 :=
  propertyBytes s.packet (s.variants properties)

/-- `operator>>` of a `QVariantList`. -/
def getParameters : Reader UInt8 (List (Variant S B V)) :=
  s.int.get >>= fun n => checked n.toNat s.params.getVariant

/-- The parameters of a `QRO_`, and whether they are all of its bytes and were read well. -/
def parameters (o : Qro S B) : Option (List (Variant S B V) × Bool) :=
  if (s.bytes o.parameters).isEmpty then some ([], true)
  else (s.getParameters (s.bytes o.parameters)).map fun x => (x.value, x.ok && x.rest.isEmpty)

/-- `handlePointerToQObjectProperties`. The pair's flag says whether every buffer on the way was
used up exactly. -/
def handlePointerToQObjectProperties :
    ChildIndices → List (Variant S B V) → Option (Properties S B V × Bool)
  | .nil, [] => some (.nil, true)
  | .value indices, value :: values => do
    let (rest, exact) ← handlePointerToQObjectProperties indices values
    pure (.value value rest, exact)
  | .pointer child indices, .qro o :: values => do
    let (rest, exact) ← handlePointerToQObjectProperties indices values
    if o.isNull then pure (.null o.name o.typeName o.type rest, exact)
    else do
      let (values, used) ← s.parameters o
      let (parameters, below) ← handlePointerToQObjectProperties child values
      pure (.object o.name o.typeName o.type o.classDefinition parameters rest, used && below && exact)
  | _, _ => none

end NestedStream
end Model

section Statement
variable {S B V : Type} [Inhabited B]

/-- The receiver's classes have their pointers where the sender has its children. Nothing is
said of the class of a null pointer. -/
def Properties.Fits : Properties S B V → ChildIndices → Prop
  | .nil, .nil => True
  | .value _ rest, .value indices => rest.Fits indices
  | .null _ _ _ rest, .pointer _ indices => rest.Fits indices
  | .object _ _ _ _ parameters rest, .pointer child indices => parameters.Fits child ∧ rest.Fits indices
  | _, _ => False

namespace NestedStream
variable (s : NestedStream S B V)

/-- The parameters of all objects. -/
def buffers : Properties S B V → List (List UInt8)
  | .nil => []
  | .value _ rest | .null _ _ _ rest => buffers rest
  | .object _ _ _ _ parameters rest =>
    s.putParameters (s.variants parameters) :: (buffers parameters ++ buffers rest)

/-- Properties with their values as `encodeVariant` leaves them. -/
def received : Properties S B V → Properties S B V
  | .nil => .nil
  | .value value rest => .value (s.packet.received value) (received rest)
  | .null name typeName type rest => .null name typeName type (received rest)
  | .object name typeName type classDefinition parameters rest =>
    .object name typeName type classDefinition (received parameters) (received rest)

end NestedStream
end Statement

section RoundTrip
variable {S B V : Type} [Inhabited B] (s : NestedStream S B V)

theorem received_params (value : Variant S B V) : s.params.received value = s.packet.received value := by
  cases value with
  | plain value => rw [DataStream.received, DataStream.received, s.encodeVariant_params]
  | qro o => rfl

/-- A checked loop reads the values that stand for what was written. -/
theorem reads_checked_map {α γ : Type} {r : Reader UInt8 γ} {put : α → List UInt8} {value : α → γ} {values : List α}
    (each : ∀ a ∈ values, Reads r (put a) (value a)) :
    Reads (checked values.length r) (values.flatMap put) (values.map value) := by
  induction values with
  | nil => exact reads_pure []
  | cons a as ih =>
    intro rest
    have tail := ih fun b member => each b (List.mem_cons_of_mem a member)
    simp only [List.length_cons, checked, List.flatMap_cons, List.append_assoc, List.map_cons,
      each a List.mem_cons_self (as.flatMap put ++ rest), tail rest, Option.bind_some, if_true, Option.map_some]

theorem length_le_properties (properties : List (Variant S B V)) :
    properties.length ≤ (properties.flatMap s.params.serializeProperty).length ∧
      ∀ property ∈ properties, (s.params.serializeProperty property).length ≤
        (properties.flatMap s.params.serializeProperty).length := by
  induction properties with
  | nil => exact ⟨Nat.le_refl 0, fun _ member => (nomatch member)⟩
  | cons property properties ih =>
    have positive := List.length_pos_of_ne_nil (s.params.serializeProperty_ne property)
    obtain ⟨count, each⟩ := ih
    simp only [List.flatMap_cons, List.length_append, List.length_cons]
    refine ⟨by omega, fun other member => ?_⟩
    rcases List.mem_cons.mp member with rfl | later
    · omega
    · have bound := each other later
      omega

theorem reads_parameters (properties : List (Variant S B V)) (bound : (s.putParameters properties).length < 2 ^ 32) :
    Reads s.getParameters (s.putParameters properties) (properties.map s.packet.received) := by
  rw [NestedStream.putParameters, List.length_append] at bound
  obtain ⟨count, each⟩ := length_le_properties s properties
  have toNat : (UInt32.ofNat properties.length).toNat = properties.length :=
    UInt32.toNat_ofNat_of_lt' (by rw [UInt32.size]; omega)
  refine (s.int.reads _ (by omega)).bind ?_
  rw [toNat]
  refine reads_checked_map fun property member => ?_
  have short := each property member
  rw [← received_params s]
  exact s.params.reads_property property (by omega)

/-- An object's parameters are found in the buffer that was made of them, and are all of it. -/
theorem parameters_buffer (properties : List (Variant S B V)) (bound : (s.putParameters properties).length < 2 ^ 32 - 1)
    (name typeName : S) (type : UInt8) (classDefinition : B) :
    s.parameters (.ofObject name typeName type classDefinition (s.buffer (s.putParameters properties))) =
      some (properties.map s.packet.received, true) := by
  have bytes := s.bytes_buffer _ bound
  have written : (s.putParameters properties).isEmpty = false :=
    List.isEmpty_eq_false_iff.mpr (List.append_ne_nil_of_left_ne_nil (s.int.put_ne _) _)
  have read := (reads_parameters s properties (by omega)).exact
  rw [NestedStream.parameters, Qro.ofObject, bytes, written, if_neg Bool.false_ne_true, read]
  rfl

/-- Behind the list of the packet, children are found below one another as they were written. -/
theorem handlePointers_variants {tree : Properties S B V} {indices : ChildIndices} (fits : tree.Fits indices)
    (bounds : ∀ buffer ∈ s.buffers tree, buffer.length < 2 ^ 32 - 1) :
    s.handlePointerToQObjectProperties indices ((s.variants tree).map s.packet.received) =
      some (s.received tree, true) := by
  induction tree generalizing indices with
  | nil =>
    cases indices with
    | nil => rfl
    | value _ | pointer _ _ => exact fits.elim
  | value value rest ih =>
    cases indices with
    | value indices =>
      rw [NestedStream.variants, List.map_cons, NestedStream.handlePointerToQObjectProperties, ih fits bounds]
      rfl
    | nil | pointer _ _ => exact fits.elim
  | null name typeName type rest ih =>
    cases indices with
    | pointer child indices =>
      rw [NestedStream.variants, List.map_cons, DataStream.received, NestedStream.handlePointerToQObjectProperties,
        ih fits bounds]
      rfl
    | nil | value _ => exact fits.elim
  | object name typeName type classDefinition parameters rest parametersIh restIh =>
    cases indices with
    | pointer child indices =>
      obtain ⟨here, others⟩ := List.forall_mem_cons.mp bounds
      obtain ⟨below, behind⟩ := List.forall_mem_append.mp others
      rw [NestedStream.variants, List.map_cons, DataStream.received, NestedStream.handlePointerToQObjectProperties,
        restIh fits.2 behind]
      have used := parameters_buffer s (s.variants parameters) here name typeName type classDefinition
      have open' : (Qro.ofObject name typeName type classDefinition
          (s.buffer (s.putParameters (s.variants parameters)))).isNull = false := rfl
      simp only [Option.bind_eq_bind, Option.bind_some, open', Bool.false_eq_true, if_false, used,
        parametersIh fits.1 below]
      rfl
    | nil | value _ => exact fits.elim

/-- A tree of sources is read back as it was written, and no level leaves bytes behind: neither
the list in the packet, whatever follows it, nor the parameters of an object at any depth. -/
theorem nested_round_trip (l : List (Variant S B V)) {tree : Properties S B V} {indices : ChildIndices}
    (fits : tree.Fits indices) (bound : (s.serializeProperties tree).length < 2 ^ 32)
    (bounds : ∀ buffer ∈ s.buffers tree, buffer.length < 2 ^ 32 - 1) :
    ∃ values, Reads (deserializeQVariantList s.packet l) (s.serializeProperties tree) values ∧
      s.handlePointerToQObjectProperties indices values = some (s.received tree, true) :=
  ⟨(s.variants tree).map s.packet.received, reads_properties s.packet l (s.variants tree) bound,
    handlePointers_variants s fits bounds⟩

end RoundTrip

namespace QtStream

/-- Packets are little-endian, parameters big-endian. -/
def nestedStream : NestedStream QString QByteArray Int32 where
  packet := stream
  params := streamOf .bigEndian
  int := ByteOrder.quint32 .bigEndian
  bytes := Subtype.val
  buffer := toQByteArray
  bytes_buffer l bound := by rw [toQByteArray, dif_pos bound]
  encodeVariant_params := rfl

/-- A child with a value and a child of its own, which has none, between two values. -/
def family : Properties QString QByteArray Int32 :=
  .value (.plain 7) (.object (toQString [65, 97]) (toQString [65]) 0 default
    (.null (toQString [66, 98]) (toQString [66]) 0 (.value (.plain 5) .nil)) (.value (.plain 9) .nil))

set_option maxRecDepth 4000 in
theorem family_round_trip :
    ∃ values, Reads (deserializeQVariantList nestedStream.packet []) (nestedStream.serializeProperties family) values ∧
      nestedStream.handlePointerToQObjectProperties
        (.value (.pointer (.pointer .nil (.value .nil)) (.value .nil))) values = some (nestedStream.received family, true) :=
  nested_round_trip nestedStream [] ⟨trivial, trivial⟩ (by decide) (by decide)

end QtStream
end RemoteObjects.Packet
