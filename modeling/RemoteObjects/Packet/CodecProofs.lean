import RemoteObjects.Packet.Codec

/-! Every `serialize…` appends one frame to the payload, and the body of that
frame is read back by `deserialize` of its type, field by field. -/
namespace RemoteObjects.Packet
open Wire Reader
variable {S B V : Type} [Inhabited B] (d : DataStream S B V)

namespace Content

def type : Content S B V → PacketType
  | handshake => .handshake
  | init .. => .initPacket
  | initDynamic .. => .initDynamicPacket
  | addObject .. => .addObject
  | removeObject _ => .removeObject
  | invoke .. => .invokePacket
  | invokeReply .. => .invokeReplyPacket
  | propertyChange .. => .propertyChangePacket
  | objectList _ => .objectList
  | ping _ => .ping
  | pong _ => .pong

/-- A handshake carries the protocol version in place of a name, an object list
no name at all. -/
def name : Content S B V → Option S
  | handshake => some d.protocolVersion
  | init name _ | initDynamic name _ _ | addObject name _ | removeObject name
  | invoke name _ _ _ _ _ | invokeReply name _ _ | propertyChange name _ _
  | ping name | pong name => some name
  | objectList _ => none

def fields : Content S B V → Fields S B V
  | handshake | removeObject _ | ping _ | pong _ => .empty
  | init _ properties => .values (properties.map d.received)
  | initDynamic _ type properties => .dynamic type (properties.map d.received)
  | addObject _ isDynamic => .isDynamic isDynamic
  | invoke _ call index args serialId propertyIndex =>
    .call call index (args.map fun arg => .plain (d.encodeVariant arg)) serialId propertyIndex
  | invokeReply _ ackedSerialId value => .reply ackedSerialId (.plain value)
  | propertyChange _ internalIndex property => .change internalIndex (d.received property)
  | objectList objects => .objects objects

end Content

section Bytes

def propertyBytes (properties : List (Variant S B V)) : List UInt8 :=
  quint32.put (UInt32.ofNat properties.length) ++ properties.flatMap d.serializeProperty

def argumentBytes (args : List V) : List UInt8 :=
  quint32.put (UInt32.ofNat args.length) ++
    args.flatMap fun arg => d.putVariant (d.encodeVariant arg)

def fieldBytes : Content S B V → List UInt8
  | .handshake | .removeObject _ | .ping _ | .pong _ => []
  | .init _ properties => propertyBytes d properties
  | .initDynamic _ type properties => (definition d).put type ++ propertyBytes d properties
  | .addObject _ isDynamic => bool.put isDynamic
  | .invoke _ call index args serialId propertyIndex =>
    int.put call ++ (int.put index ++ (argumentBytes d args ++
      (int.put serialId ++ int.put propertyIndex)))
  | .invokeReply _ ackedSerialId value => int.put ackedSerialId ++ d.putVariant value
  | .propertyChange _ internalIndex property =>
    int.put internalIndex ++ d.serializeProperty property
  | .objectList objects => (checkedList (objectInfo d)).put objects

def nameBytes : Option S → List UInt8
  | none => []
  | some name => d.string.put name

/-- The counted bytes of a packet. -/
def bodyBytes (c : Content S B V) : List UInt8 :=
  quint16.put c.type.toId ++ (nameBytes d (c.name d) ++ fieldBytes d c)

end Bytes

section Writing
variable {p : DataStreamPacket} {written body bytes : List UInt8}

/-- Behind `setId`: the zeroed length, then the bytes of the body so far. -/
structure Open (p : DataStreamPacket) (written body : List UInt8) : Prop where
  base : p.baseAddress = written.length
  array : p.array = written ++ quint32.put 0 ++ body
  pos : p.pos = p.array.length

theorem Open.write (opened : Open p written body) (bytes : List UInt8) :
    Open (p.write bytes) written (body ++ bytes) := by
  rw [DataStreamPacket.write_at_end opened.pos]
  exact ⟨opened.base, by simp only [opened.array, List.append_assoc],
    by simp only [opened.pos, List.length_append]⟩

theorem Open.foldl {α : Type} (put : α → List UInt8) (values : List α)
    (opened : Open p written body) :
    Open (values.foldl (fun p a => p.write (put a)) p) written (body ++ values.flatMap put) := by
  induction values generalizing p body with
  | nil => simpa only [List.foldl_nil, List.flatMap_nil, List.append_nil] using opened
  | cons a as ih =>
    simpa only [List.foldl_cons, List.flatMap_cons, List.append_assoc] using
      ih (opened.write (put a))

theorem Open.of_setId (holds : p.Holds written) (id : UInt16) :
    Open (p.setId id) written (quint16.put id) := by
  rw [holds.setId]
  refine ⟨holds.baseAddress_eq, rfl, ?_⟩
  simp only [List.length_append, length_put_quint32, length_put_quint16]

theorem Open.properties (opened : Open p written body) (properties : List (Variant S B V)) :
    Open (serializeProperties d p properties) written (body ++ propertyBytes d properties) := by
  rw [propertyBytes, ← List.append_assoc]
  exact (opened.write _).foldl d.serializeProperty properties

theorem Open.finish (opened : Open p written body)
    (bound : written.length + 4 + body.length < 2 ^ 31) :
    p.finishPacket.Holds (written ++ frame body) :=
  DataStreamPacket.finishPacket_holds opened.base opened.array opened.pos bound

/-- One call of the codec extends the payload by exactly its packet's frame. -/
theorem serialize_holds (holds : p.Holds written) (c : Content S B V)
    (bound : written.length + 4 + (bodyBytes d c).length < 2 ^ 31) :
    (serialize d p c).Holds (written ++ frame (bodyBytes d c)) := by
  have opened (id : UInt16) := Open.of_setId holds id
  have finished {q : DataStreamPacket} {bytes : List UInt8} (whole : Open q written bytes)
      (same : bytes = bodyBytes d c) :
      q.finishPacket.Holds (written ++ frame (bodyBytes d c)) := by
    subst same
    exact whole.finish bound
  cases c with
  | handshake | removeObject | ping | pong =>
    exact finished ((opened _).write _) (by
      simp only [bodyBytes, Content.type, Content.name, nameBytes, fieldBytes, List.append_nil])
  | objectList objects => exact finished ((opened _).write _) rfl
  | addObject name isDynamic =>
    exact finished (((opened _).write _).write _) (List.append_assoc ..)
  | init name properties =>
    exact finished (((opened _).write _).properties d _) (List.append_assoc ..)
  | initDynamic name type properties =>
    exact finished ((((opened _).write _).write _).properties d _) (by
      simp only [bodyBytes, Content.type, Content.name, nameBytes, fieldBytes, List.append_assoc])
  | invokeReply name ackedSerialId value =>
    exact finished ((((opened _).write _).write _).write _) (by
      simp only [bodyBytes, Content.type, Content.name, nameBytes, fieldBytes, List.append_assoc])
  | propertyChange name internalIndex property =>
    exact finished ((((opened _).write _).write _).write _) (by
      simp only [bodyBytes, Content.type, Content.name, nameBytes, fieldBytes, List.append_assoc])
  | invoke name call index args serialId propertyIndex =>
    exact finished (((((((opened _).write _).write _).write _).write _).foldl
      (fun arg => d.putVariant (d.encodeVariant arg)) args |>.write _).write _) (by
      simp only [bodyBytes, Content.type, Content.name, nameBytes, fieldBytes, argumentBytes,
        List.append_assoc])

end Writing

section Reading

/-- Whatever the shared list holds, the result is the counted list of variants:
a list left over from an earlier packet is not observable. -/
theorem deserializeQVariantList_eq (l : List (Variant S B V)) :
    deserializeQVariantList d l = quint32.get >>= fun c => times c.toNat d.getVariant := by
  have element : (fun bytes : List UInt8 => if bytes.isEmpty then none else d.getVariant bytes) =
      d.getVariant := by
    funext bytes
    cases bytes with
    | nil => exact d.getVariant_atEnd.symm
    | cons byte bytes => rfl
  refine bind_congr fun c => ?_
  have count : (l.take c.toNat).length + (c.toNat - (l.take c.toNat).length) = c.toNat := by
    rw [List.length_take]
    omega
  rw [← count, times_add, count]
  simp only [element]

theorem deserialize_stale (l : List (Variant S B V)) (type : PacketType) :
    deserialize d l type = deserialize d [] type := by
  cases type <;>
    simp only [deserialize, deserializeInitPacket, deserializeInitDynamicPacket,
      deserializeInvokePacket, deserializeQVariantList_eq]

theorem deserialize_delimiting (type : PacketType) :
    SelfDelimiting (deserialize d [] type) := by
  have list : SelfDelimiting (deserializeQVariantList d []) := by
    rw [deserializeQVariantList_eq]
    exact quint32.delimiting.bind fun c => d.getVariant_delimiting.times c.toNat
  cases type with
  | initPacket => exact list.map
  | initDynamicPacket =>
    exact (definition d).delimiting.bind fun _ => list.bind fun _ => .pure _
  | addObject => exact bool.delimiting.map
  | invokePacket =>
    exact int.delimiting.bind fun _ => int.delimiting.bind fun _ => list.bind fun _ =>
      int.delimiting.bind fun _ => int.delimiting.bind fun _ => .pure _
  | invokeReplyPacket | propertyChangePacket =>
    exact int.delimiting.bind fun _ => d.getVariant_delimiting.bind fun _ => .pure _
  | objectList => exact (checkedList (objectInfo d)).delimiting.map
  | handshake | removeObject | ping | pong | invalid => exact .pure _

/-- A list of variants is read back, element by element, when each element is. -/
theorem reads_variants {put : α → List UInt8} {value : α → Variant S B V}
    (put_ne : ∀ a, put a ≠ [])
    (each : ∀ a, (put a).length < 2 ^ 32 → Reads d.getVariant (put a) (value a))
    (l : List (Variant S B V)) (values : List α)
    (bound : (quint32.put (UInt32.ofNat values.length) ++ values.flatMap put).length < 2 ^ 32) :
    Reads (deserializeQVariantList d l)
      (quint32.put (UInt32.ofNat values.length) ++ values.flatMap put) (values.map value) := by
  have loop (values : List α) (bound : (values.flatMap put).length < 2 ^ 32) :
      values.length ≤ (values.flatMap put).length ∧
        Reads (times values.length d.getVariant) (values.flatMap put) (values.map value) := by
    induction values with
    | nil => exact ⟨Nat.le_refl 0, reads_pure []⟩
    | cons a as ih =>
      have positive := List.length_pos_of_ne_nil (put_ne a)
      rw [List.flatMap_cons, List.length_append] at bound
      obtain ⟨count, tail⟩ := ih (by omega)
      refine ⟨by simp only [List.flatMap_cons, List.length_append, List.length_cons]; omega, ?_⟩
      exact (each a (by omega)).bind (tail.last (reads_pure _))
  rw [List.length_append] at bound
  obtain ⟨count, elements⟩ := loop values (by omega)
  have toNat : (UInt32.ofNat values.length).toNat = values.length :=
    UInt32.toNat_ofNat_of_lt' (by rw [UInt32.size]; omega)
  rw [deserializeQVariantList_eq]
  refine (quint32.reads _ (by omega)).bind ?_
  rw [toNat]
  exact elements

theorem reads_properties (l properties : List (Variant S B V))
    (bound : (propertyBytes d properties).length < 2 ^ 32) :
    Reads (deserializeQVariantList d l) (propertyBytes d properties)
      (properties.map d.received) :=
  reads_variants d d.serializeProperty_ne d.reads_property l properties bound

theorem reads_arguments (l : List (Variant S B V)) (args : List V)
    (bound : (argumentBytes d args).length < 2 ^ 32) :
    Reads (deserializeQVariantList d l) (argumentBytes d args)
      (args.map fun arg => .plain (d.encodeVariant arg)) :=
  reads_variants d (fun _ => d.putVariant_ne _) (fun _ => d.reads_plain _) l args bound

/-- The reader of a packet's type reads exactly the bytes behind its name. -/
theorem reads_fields (l : List (Variant S B V)) (c : Content S B V)
    (bound : (fieldBytes d c).length < 2 ^ 32) :
    Reads (deserialize d l c.type) (fieldBytes d c) (c.fields d) := by
  cases c with
  | handshake | removeObject | ping | pong => exact reads_pure _
  | init name properties => exact (reads_properties d l properties bound).map
  | initDynamic name type properties =>
    rw [fieldBytes, List.length_append] at bound
    exact ((definition d).reads type (by omega)).bind
      ((reads_properties d l properties (by omega)).last (reads_pure _))
  | addObject name isDynamic => exact (bool.reads isDynamic bound).map
  | invoke name call index args serialId propertyIndex =>
    simp only [fieldBytes, List.length_append] at bound
    exact (int.reads call (by omega)).bind ((int.reads index (by omega)).bind
      ((reads_arguments d l args (by omega)).bind ((int.reads serialId (by omega)).bind
        ((int.reads propertyIndex (by omega)).last (reads_pure _)))))
  | invokeReply name ackedSerialId value =>
    rw [fieldBytes, List.length_append] at bound
    exact (int.reads ackedSerialId (by omega)).bind
      ((d.reads_plain value (by omega)).last (reads_pure _))
  | propertyChange name internalIndex property =>
    rw [fieldBytes, List.length_append] at bound
    exact (int.reads internalIndex (by omega)).bind
      ((d.reads_property property (by omega)).last (reads_pure _))
  | objectList objects => exact ((checkedList (objectInfo d)).reads objects bound).map

end Reading
end RemoteObjects.Packet
