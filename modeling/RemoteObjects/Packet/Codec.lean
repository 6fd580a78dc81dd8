import RemoteObjects.Packet.Payload
import RemoteObjects.Packet.Stream

/-! The packet codec. Each `serialize…` appends one packet to the payload in the
order of the source, each `deserialize…` reads one body behind type and name. -/
namespace RemoteObjects.Packet
open Wire Reader
variable {S B V : Type} [Inhabited B] (d : DataStream S B V)

section Formats

def enumData : Format UInt8 (EnumData B) :=
  record (pair d.byteArray (pair bool (pair bool (pair quint32 (countedList (pair d.byteArray int))))))
    (fun e => (e.name, e.isFlag, e.isScoped, e.size, e.values))
    (fun (name, isFlag, isScoped, size, values) => ⟨name, isFlag, isScoped, size, values⟩)
    fun _ => rfl

def gadgetData : Format UInt8 (GadgetData B) :=
  record (pair d.byteArray (pair (countedList (pair d.byteArray d.byteArray)) (countedList (enumData d))))
    (fun g => (g.typeName, g.properties, g.enums))
    (fun (typeName, properties, enums) => ⟨typeName, properties, enums⟩)
    fun _ => rfl

def signalData : Format UInt8 (SignalData B) :=
  record (pair d.byteArray (checkedList d.byteArray))
    (fun s => (s.signature, s.parameterNames))
    (fun (signature, parameterNames) => ⟨signature, parameterNames⟩)
    fun _ => rfl

def methodData : Format UInt8 (MethodData B) :=
  record (pair d.byteArray (pair d.byteArray (checkedList d.byteArray)))
    (fun m => (m.signature, m.typeName, m.parameterNames))
    (fun (signature, typeName, parameterNames) => ⟨signature, typeName, parameterNames⟩)
    fun _ => rfl

def propertyData : Format UInt8 (PropertyData B) :=
  record (pair d.byteArray (pair d.byteArray d.byteArray))
    (fun p => (p.name, p.typeName, p.signalName))
    (fun (name, typeName, signalName) => ⟨name, typeName, signalName⟩)
    fun _ => rfl

/-- Written by `serializeDefinition`, read by `addDynamicType`. -/
def definition : Format UInt8 (Definition S B) :=
  record (pair d.string (pair (countedList (enumData d)) (pair (countedList d.byteArray)
      (pair (countedList (gadgetData d)) (pair (countedList (signalData d)) (pair (countedList (methodData d))
        (countedList (propertyData d))))))))
    (fun t => (t.typeName, t.enums, t.qtEnums, t.gadgets, t.signals, t.methods, t.properties))
    (fun (typeName, enums, qtEnums, gadgets, signals, methods, properties) =>
      ⟨typeName, enums, qtEnums, gadgets, signals, methods, properties⟩)
    fun _ => rfl

def objectInfo : Format UInt8 (ObjectInfo S B) :=
  record (pair d.string (pair d.string d.byteArray))
    (fun o => (o.name, o.typeName, o.signature))
    (fun (name, typeName, signature) => ⟨name, typeName, signature⟩)
    fun _ => rfl

end Formats

/-- A call of one `serialize…` method. Argument and property values are those of
the caller, before `encodeVariant`. -/
inductive Content (S B V : Type) [Inhabited B]
  | handshake
  | init (name : S) (properties : List (Variant S B V))
  | initDynamic (name : S) (definition : Definition S B) (properties : List (Variant S B V))
  | addObject (name : S) (isDynamic : Bool)
  | removeObject (name : S)
  | invoke (name : S) (call index : Int32) (args : List V) (serialId propertyIndex : Int32)
  | invokeReply (name : S) (ackedSerialId : Int32) (value : V)
  | propertyChange (name : S) (internalIndex : Int32) (property : Variant S B V)
  | objectList (objects : List (ObjectInfo S B))
  | ping (name : S)
  | pong (name : S)

/-- What a handler has in its hands after it read a body. -/
inductive Fields (S B V : Type) [Inhabited B]
  | empty
  | values (values : List (Variant S B V))
  | dynamic (definition : Definition S B) (values : List (Variant S B V))
  | isDynamic (isDynamic : Bool)
  | call (call index : Int32) (args : List (Variant S B V)) (serialId propertyIndex : Int32)
  | reply (ackedSerialId : Int32) (value : Variant S B V)
  | change (index : Int32) (value : Variant S B V)
  | objects (objects : List (ObjectInfo S B))

section Serialize
variable (p : DataStreamPacket)

def serializeProperties (properties : List (Variant S B V)) : DataStreamPacket :=
  properties.foldl (fun p property => p.write (d.serializeProperty property))
    (p.write (quint32.put (UInt32.ofNat properties.length)))

def serializeHandshakePacket : DataStreamPacket :=
  ((p.setId PacketType.handshake.toId).write (d.string.put d.protocolVersion)).finishPacket

def serializeInitPacket (name : S) (properties : List (Variant S B V)) : DataStreamPacket :=
  (serializeProperties d ((p.setId PacketType.initPacket.toId).write (d.string.put name))
    properties).finishPacket

def serializeInitDynamicPacket (name : S) (type : Definition S B)
    (properties : List (Variant S B V)) : DataStreamPacket :=
  (serializeProperties d (((p.setId PacketType.initDynamicPacket.toId).write
    (d.string.put name)).write ((definition d).put type)) properties).finishPacket

def serializeAddObjectPacket (name : S) (isDynamic : Bool) : DataStreamPacket :=
  (((p.setId PacketType.addObject.toId).write (d.string.put name)).write
    (bool.put isDynamic)).finishPacket

def serializeRemoveObjectPacket (name : S) : DataStreamPacket :=
  ((p.setId PacketType.removeObject.toId).write (d.string.put name)).finishPacket

def serializeInvokePacket (name : S) (call index : Int32) (args : List V)
    (serialId propertyIndex : Int32) : DataStreamPacket :=
  let p := (((p.setId PacketType.invokePacket.toId).write (d.string.put name)).write
    (int.put call)).write (int.put index)
  let p := args.foldl (fun p arg => p.write (d.putVariant (d.encodeVariant arg)))
    (p.write (quint32.put (UInt32.ofNat args.length)))
  ((p.write (int.put serialId)).write (int.put propertyIndex)).finishPacket

def serializeInvokeReplyPacket (name : S) (ackedSerialId : Int32) (value : V) :
    DataStreamPacket :=
  ((((p.setId PacketType.invokeReplyPacket.toId).write (d.string.put name)).write
    (int.put ackedSerialId)).write (d.putVariant value)).finishPacket

def serializePropertyChangePacket (name : S) (internalIndex : Int32)
    (property : Variant S B V) : DataStreamPacket :=
  ((((p.setId PacketType.propertyChangePacket.toId).write (d.string.put name)).write
    (int.put internalIndex)).write (d.serializeProperty property)).finishPacket

def serializeObjectListPacket (objects : List (ObjectInfo S B)) : DataStreamPacket :=
  ((p.setId PacketType.objectList.toId).write
    ((checkedList (objectInfo d)).put objects)).finishPacket

def serializePingPacket (name : S) : DataStreamPacket :=
  ((p.setId PacketType.ping.toId).write (d.string.put name)).finishPacket

def serializePongPacket (name : S) : DataStreamPacket :=
  ((p.setId PacketType.pong.toId).write (d.string.put name)).finishPacket

def serialize : Content S B V → DataStreamPacket
  | .handshake => serializeHandshakePacket d p
  | .init name properties => serializeInitPacket d p name properties
  | .initDynamic name type properties => serializeInitDynamicPacket d p name type properties
  | .addObject name isDynamic => serializeAddObjectPacket d p name isDynamic
  | .removeObject name => serializeRemoveObjectPacket d p name
  | .invoke name call index args serialId propertyIndex =>
    serializeInvokePacket d p name call index args serialId propertyIndex
  | .invokeReply name ackedSerialId value => serializeInvokeReplyPacket d p name ackedSerialId value
  | .propertyChange name internalIndex property =>
    serializePropertyChangePacket d p name internalIndex property
  | .objectList objects => serializeObjectListPacket d p objects
  | .ping name => serializePingPacket d p name
  | .pong name => serializePongPacket d p name

end Serialize

section Deserialize

/-- The list of the caller is shrunk, overwritten and extended in place. The
loops give up at the end of the stream. -/
def deserializeQVariantList (l : List (Variant S B V)) : Reader UInt8 (List (Variant S B V)) := do
  let element : Reader UInt8 (Variant S B V) := fun bytes =>
    if bytes.isEmpty then none else d.getVariant bytes
  let c ← quint32.get
  let kept := l.take c.toNat
  let overwritten ← times kept.length element
  let appended ← times (c.toNat - kept.length) element
  pure (overwritten ++ appended)

def deserializeAddObjectPacket : Reader UInt8 (Fields S B V) :=
  .isDynamic <$> bool.get

def deserializeInitPacket (l : List (Variant S B V)) : Reader UInt8 (Fields S B V) :=
  .values <$> deserializeQVariantList d l

/-- `addDynamicType`, then `deserializeInitPacket`. -/
def deserializeInitDynamicPacket (l : List (Variant S B V)) : Reader UInt8 (Fields S B V) := do
  let type ← (definition d).get
  let values ← deserializeQVariantList d l
  pure (.dynamic type values)

def deserializeInvokePacket (l : List (Variant S B V)) : Reader UInt8 (Fields S B V) := do
  let call ← int.get
  let index ← int.get
  let args ← deserializeQVariantList d l
  let serialId ← int.get
  let propertyIndex ← int.get
  pure (.call call index args serialId propertyIndex)

def deserializeInvokeReplyPacket : Reader UInt8 (Fields S B V) := do
  let ackedSerialId ← int.get
  let value ← d.getVariant
  pure (.reply ackedSerialId value)

def deserializePropertyChangePacket : Reader UInt8 (Fields S B V) := do
  let index ← int.get
  let value ← d.getVariant
  pure (.change index value)

def deserializeObjectListPacket : Reader UInt8 (Fields S B V) :=
  .objects <$> (checkedList (objectInfo d)).get

/-- The reader of each packet type, given what the shared list holds. -/
def deserialize (l : List (Variant S B V)) : PacketType → Reader UInt8 (Fields S B V)
  | .initPacket => deserializeInitPacket d l
  | .initDynamicPacket => deserializeInitDynamicPacket d l
  | .addObject => deserializeAddObjectPacket
  | .invokePacket => deserializeInvokePacket d l
  | .invokeReplyPacket => deserializeInvokeReplyPacket d
  | .propertyChangePacket => deserializePropertyChangePacket d
  | .objectList => deserializeObjectListPacket d
  | .handshake | .removeObject | .ping | .pong | .invalid => pure .empty

end Deserialize
end RemoteObjects.Packet
