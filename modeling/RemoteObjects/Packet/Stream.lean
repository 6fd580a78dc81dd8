import RemoteObjects.Wire.Codec

/-! The values that packets carry and the formats of `QDataStream` they are
streamed with. Strings, byte arrays and plain variants are the stream's own:
their formats are parameters. `QRO_` and the definition of a dynamic type are
this protocol's, field by field. -/
namespace RemoteObjects.Packet
open Wire Reader

inductive PacketType
  | invalid | handshake | initPacket | initDynamicPacket | addObject | removeObject
  | invokePacket | invokeReplyPacket | propertyChangePacket | objectList | ping | pong
deriving DecidableEq, Repr

namespace PacketType

def toId : PacketType → UInt16
  | invalid => 0
  | handshake => 1
  | initPacket => 2
  | initDynamicPacket => 3
  | addObject => 4
  | removeObject => 5
  | invokePacket => 6
  | invokeReplyPacket => 7
  | propertyChangePacket => 8
  | objectList => 9
  | ping => 10
  | pong => 11

/-- The switch of `fromDataStream`: an id that is not listed is `invalid`. -/
def ofId (id : UInt16) : PacketType :=
  ([handshake, initPacket, initDynamicPacket, addObject, removeObject, invokePacket,
    invokeReplyPacket, propertyChangePacket, objectList, ping, pong].find? (·.toId == id)).getD
    invalid

@[simp] theorem ofId_toId (type : PacketType) : ofId type.toId = type := by
  cases type <;> decide

end PacketType

variable (S B V : Type)

/-- The wrapper of a value whose type the receiver may not know. A null wrapper
has no parameters. -/
structure Qro [Inhabited B] where
  name : S
  typeName : S
  type : UInt8
  classDefinition : B
  isNull : Bool
  parameters : B
  null_parameters : isNull = true → parameters = default

/-- A `QVariant` holds a wrapper or any other value. -/
inductive Variant [Inhabited B]
  | plain (value : V)
  | qro (wrapper : Qro S B)

structure ObjectInfo where
  name : S
  typeName : S
  signature : B
deriving DecidableEq

structure EnumData where
  name : B
  isFlag : Bool
  isScoped : Bool
  size : UInt32
  values : List (B × Int32)
deriving DecidableEq

structure GadgetData where
  typeName : B
  properties : List (B × B)
  enums : List (EnumData B)
deriving DecidableEq

structure SignalData where
  signature : B
  parameterNames : List B
deriving DecidableEq

structure MethodData where
  signature : B
  typeName : B
  parameterNames : List B
deriving DecidableEq

/-- Name and type are streamed as C strings, terminating zero included. -/
structure PropertyData where
  name : B
  typeName : B
  signalName : B
deriving DecidableEq

structure Definition where
  typeName : S
  enums : List (EnumData B)
  qtEnums : List B
  gadgets : List (GadgetData B)
  signals : List (SignalData B)
  methods : List (MethodData B)
  properties : List (PropertyData B)
deriving DecidableEq

variable {S B V} [Inhabited B]

/-- `operator>>` of `QRO_`: the parameters follow only when it is not null. -/
def readQro (string : Format UInt8 S) (byteArray : Format UInt8 B) : Reader UInt8 (Qro S B) := do
  let name ← string.get
  let typeName ← string.get
  let type ← quint8.get
  let classDefinition ← byteArray.get
  let isNull ← bool.get
  if null : isNull then
    pure ⟨name, typeName, type, classDefinition, isNull, default, fun _ => rfl⟩
  else do
    let parameters ← byteArray.get
    pure ⟨name, typeName, type, classDefinition, isNull, parameters, fun h => absurd h null⟩

theorem readQro_delimiting (string : Format UInt8 S) (byteArray : Format UInt8 B) :
    SelfDelimiting (readQro string byteArray) := by
  refine string.delimiting.bind fun name => string.delimiting.bind fun typeName =>
    quint8.delimiting.bind fun type => byteArray.delimiting.bind fun classDefinition =>
      bool.delimiting.bind fun isNull => ?_
  split
  · exact .pure _
  · exact byteArray.delimiting.bind fun _ => .pure _

variable (S B V) in
/-- What the protocol relies on of `QDataStream`. A plain variant is read back as
written, a variant with the type header of `QRO_` by `operator>>` of `QRO_`;
`encodeVariant` prepares a value for the stream. -/
structure DataStream where
  string : Format UInt8 S
  byteArray : Format UInt8 B
  putVariant : V → List UInt8
  getVariant : Reader UInt8 (Variant S B V)
  putVariant_ne : ∀ v, putVariant v ≠ []
  reads_plain : ∀ v, (putVariant v).length < 2 ^ 32 → Reads getVariant (putVariant v) (.plain v)
  qroHeader : List UInt8
  qroHeader_ne : qroHeader ≠ []
  get_qro : ∀ bytes, getVariant (qroHeader ++ bytes) = (Variant.qro <$> readQro string byteArray) bytes
  getVariant_delimiting : SelfDelimiting getVariant
  getVariant_atEnd : getVariant [] = none
  encodeVariant : V → V
  protocolVersion : S
  protocolVersion_short : (string.put protocolVersion).length < 2 ^ 16

namespace DataStream
variable (d : DataStream S B V)

/-- `operator<<` of `QRO_`, without the parameters. -/
def putQro (o : Qro S B) : List UInt8 :=
  d.string.put o.name ++ (d.string.put o.typeName ++ (quint8.put o.type ++
    (d.byteArray.put o.classDefinition ++ bool.put o.isNull)))

/-- What `serializeProperty` appends: a wrapper with its parameters, or the
encoded value. -/
def serializeProperty : Variant S B V → List UInt8
  | .plain v => d.putVariant (d.encodeVariant v)
  | .qro o => d.qroHeader ++ (d.putQro o ++ if o.isNull then [] else d.byteArray.put o.parameters)

/-- The variant that the receiver reads for a property. -/
def received : Variant S B V → Variant S B V
  | .plain v => .plain (d.encodeVariant v)
  | .qro o => .qro o

theorem serializeProperty_ne (v : Variant S B V) : d.serializeProperty v ≠ [] := by
  cases v with
  | plain v => exact d.putVariant_ne _
  | qro o => exact List.append_ne_nil_of_left_ne_nil d.qroHeader_ne _

theorem reads_qro (o : Qro S B)
    (bound : (d.putQro o ++ if o.isNull then [] else d.byteArray.put o.parameters).length < 2 ^ 32) :
    Reads (readQro d.string d.byteArray)
      (d.putQro o ++ if o.isNull then [] else d.byteArray.put o.parameters) o := by
  simp only [putQro, List.length_append] at bound
  simp only [putQro, List.append_assoc]
  refine (d.string.reads _ (by omega)).bind ((d.string.reads _ (by omega)).bind
    ((quint8.reads _ (by omega)).bind ((d.byteArray.reads _ (by omega)).bind
      ((bool.reads _ (by omega)).bind ?_))))
  obtain ⟨name, typeName, type, classDefinition, isNull, parameters, null⟩ := o
  cases isNull with
  | true =>
    obtain rfl := null rfl
    exact reads_pure _
  | false =>
    simp only [Bool.false_eq_true, if_false] at bound ⊢
    exact (d.byteArray.reads parameters (by omega)).last (reads_pure _)

theorem reads_property (v : Variant S B V) (bound : (d.serializeProperty v).length < 2 ^ 32) :
    Reads d.getVariant (d.serializeProperty v) (d.received v) := by
  cases v with
  | plain v => exact d.reads_plain _ bound
  | qro o =>
    intro rest
    simp only [serializeProperty, List.length_append] at bound
    rw [serializeProperty, List.append_assoc, d.get_qro]
    exact (d.reads_qro o (by simp only [List.length_append]; omega)).map rest

end DataStream
end RemoteObjects.Packet
