import RemoteObjects.Packet.QtStream

/-! Streams of both byte orders. A packet is written in little-endian order; a `QDataStream`
on a byte array is left as it is made, with the big-endian one. -/
namespace RemoteObjects.Packet.QtStream
open Wire Reader

section Words
variable {α : Type}

/-- A word of `width` bytes that stands for the values of `α`, its first byte the highest. -/
def bigEndianWord (width : Nat) (positive : 0 < width) (encode : α → Nat) (decode : Nat → α)
    (inverse : ∀ a, decode (encode a % 256 ^ width) = a) : Format UInt8 α where
  put a := (littleEndian width (encode a)).reverse
  get := (fun bytes => decode (fromLittleEndian bytes.reverse)) <$> block width
  put_ne a := List.ne_nil_of_length_pos (by simpa using positive)
  reads a _ := by
    have bytes := reads_block (littleEndian width (encode a)).reverse
    rw [List.length_reverse, length_littleEndian] at bytes
    have value := bytes.map (g := fun bytes => decode (fromLittleEndian bytes.reverse))
    rwa [List.reverse_reverse, fromLittleEndian_littleEndian, inverse] at value
  delimiting := (block_delimiting width).map

/-- `QDataStream::ByteOrder`. -/
inductive ByteOrder
  | bigEndian | littleEndian
deriving DecidableEq, Repr

namespace ByteOrder

def quint16 : ByteOrder → Format UInt8 UInt16
  | .littleEndian => Wire.quint16
  | .bigEndian => bigEndianWord 2 Nat.two_pos UInt16.toNat UInt16.ofNat quint16_inverse

def quint32 : ByteOrder → Format UInt8 UInt32
  | .littleEndian => Wire.quint32
  | .bigEndian => bigEndianWord 4 four_bytes UInt32.toNat UInt32.ofNat quint32_inverse

def int : ByteOrder → Format UInt8 Int32
  | .littleEndian => Wire.int
  | .bigEndian => bigEndianWord 4 four_bytes (fun a => a.toUInt32.toNat)
      (fun n => (UInt32.ofNat n).toInt32) int_inverse

theorem length_quint32 (order : ByteOrder) (a : UInt32) : (order.quint32.put a).length = 4 := by
  cases order with
  | littleEndian => exact length_littleEndian
  | bigEndian => exact List.length_reverse.trans length_littleEndian

end ByteOrder
end Words

section Order
variable (order : ByteOrder)

def readStringOf : Reader UInt8 QString := do
  let n ← order.quint32.get
  if n = nullMark then pure default
  else if n.toNat % 2 = 1 then corrupt default
  else toQString <$> times (n.toNat / 2) order.quint16.get

def readByteArrayOf : Reader UInt8 QByteArray := do
  let n ← order.quint32.get
  if n = nullMark then pure default else toQByteArray <$> block n.toNat

def stringOf : Format UInt8 QString where
  put s := order.quint32.put (UInt32.ofNat (2 * s.1.length)) ++ s.1.flatMap order.quint16.put
  get := readStringOf order
  put_ne s := List.append_ne_nil_of_left_ne_nil (order.quint32.put_ne _) _
  reads s bound := by
    obtain ⟨toNat, notNull⟩ := ofNat_ne_nullMark s.2
    rw [List.length_append] at bound
    refine (order.quint32.reads _ (by omega)).bind ?_
    have even : ¬ 2 * s.1.length % 2 = 1 := by omega
    have half : 2 * s.1.length / 2 = s.1.length := by omega
    rw [if_neg notNull, toNat, if_neg even, half]
    have units := Reads.times fun a (member : a ∈ s.1) => order.quint16.reads a (by
      have one := length_put_le_flatMap order.quint16 member
      omega)
    have same : toQString s.1 = s := dif_pos s.2
    have read := units.map (g := toQString)
    rwa [same] at read
  delimiting := order.quint32.delimiting.bind fun n => by
    split
    · exact .pure _
    · split
      · exact .corrupt _
      · exact (order.quint16.delimiting.times _).map

def byteArrayOf : Format UInt8 QByteArray where
  put b := order.quint32.put (UInt32.ofNat b.1.length) ++ b.1
  get := readByteArrayOf order
  put_ne b := List.append_ne_nil_of_left_ne_nil (order.quint32.put_ne _) _
  reads b bound := by
    obtain ⟨toNat, notNull⟩ := ofNat_ne_nullMark b.2
    rw [List.length_append] at bound
    refine (order.quint32.reads _ (by omega)).bind ?_
    rw [if_neg notNull, toNat]
    have same : toQByteArray b.1 = b := dif_pos b.2
    have read := (reads_block b.1).map (g := toQByteArray)
    rwa [same] at read
  delimiting := order.quint32.delimiting.bind fun n => by
    split
    · exact .pure _
    · exact (block_delimiting _).map

def readVariantOf : Reader UInt8 (Variant QString QByteArray Int32) := do
  let id ← order.quint32.get
  let _ ← quint8.get
  if id = intId then Variant.plain <$> order.int.get
  else if id = userId then do
    let name ← (byteArrayOf order).get
    if name = qroName then Variant.qro <$> readQro (stringOf order) (byteArrayOf order) else corrupt (.plain 0)
  else corrupt (.plain 0)

theorem readVariantOf_delimiting : SelfDelimiting (readVariantOf order) := by
  refine order.quint32.delimiting.bind fun id => quint8.delimiting.bind fun _ => ?_
  split
  · exact order.int.delimiting.map
  · split
    · refine (byteArrayOf order).delimiting.bind fun name => ?_
      split
      · exact (readQro_delimiting (stringOf order) (byteArrayOf order)).map
      · exact .corrupt _
    · exact .corrupt _

def putIntOf (value : Int32) : List UInt8 :=
  order.quint32.put intId ++ (quint8.put 0 ++ order.int.put value)

def qroHeaderOf : List UInt8 :=
  order.quint32.put userId ++ (quint8.put 0 ++ (byteArrayOf order).put qroName)

theorem reads_putIntOf (value : Int32) (bound : (putIntOf order value).length < 2 ^ 32) :
    Reads (readVariantOf order) (putIntOf order value) (.plain value) := by
  simp only [putIntOf, List.length_append] at bound
  refine (order.quint32.reads _ (by omega)).bind ((quint8.reads _ (by omega)).bind ?_)
  exact (order.int.reads value (by omega)).map

theorem readVariantOf_qroHeader (bytes : List UInt8) : readVariantOf order (qroHeaderOf order ++ bytes) =
    (Variant.qro <$> readQro (stringOf order) (byteArrayOf order)) bytes := by
  have id := order.quint32.reads userId (by rw [order.length_quint32]; decide)
  have null := quint8.reads 0 (by decide)
  have name := (byteArrayOf order).reads qroName (by
    rw [byteArrayOf, List.length_append, order.length_quint32]
    decide)
  have custom : ¬ userId = intId := by decide
  simp only [readVariantOf, qroHeaderOf, List.append_assoc, bind_apply, id _, null _, Option.bind_some,
    if_neg custom, if_true, name _, Option.map_map]
  cases (Variant.qro <$> readQro (stringOf order) (byteArrayOf order)) bytes with
  | none => rfl
  | some x => simp only [Option.map_some, Function.comp_apply, Bool.true_and]

def streamOf : DataStream QString QByteArray Int32 where
  string := stringOf order
  byteArray := byteArrayOf order
  putVariant := putIntOf order
  getVariant := readVariantOf order
  putVariant_ne _ := List.append_ne_nil_of_left_ne_nil (order.quint32.put_ne _) _
  reads_plain := reads_putIntOf order
  qroHeader := qroHeaderOf order
  qroHeader_ne := List.append_ne_nil_of_left_ne_nil (order.quint32.put_ne _) _
  get_qro := readVariantOf_qroHeader order
  getVariant_delimiting := readVariantOf_delimiting order
  getVariant_atEnd := by cases order <;> rfl
  encodeVariant v := v
  protocolVersion := toQString ("QtRO 2.0".toList.map fun c => UInt16.ofNat c.toNat)
  protocolVersion_short := by cases order <;> decide

end Order
end RemoteObjects.Packet.QtStream
