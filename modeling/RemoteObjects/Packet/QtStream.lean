import RemoteObjects.Packet.Stream

/-! A stream that obeys the laws: strings of UTF-16 units, byte arrays and
integer variants laid out as `QDataStream` does. Null strings and null byte
arrays are read as empty ones; other variant types are left out. -/
namespace RemoteObjects.Packet.QtStream
open Wire Reader

/-- The length word that marks a null string or a null byte array. -/
def nullMark : UInt32 := 0xffffffff

abbrev QString := { units : List UInt16 // 2 * units.length < 2 ^ 32 - 1 }

abbrev QByteArray := { bytes : List UInt8 // bytes.length < 2 ^ 32 - 1 }

instance : Inhabited QString := ⟨[], by decide⟩

instance : Inhabited QByteArray := ⟨[], by decide⟩

def toQString (units : List UInt16) : QString :=
  if bound : 2 * units.length < 2 ^ 32 - 1 then ⟨units, bound⟩ else default

def toQByteArray (bytes : List UInt8) : QByteArray :=
  if bound : bytes.length < 2 ^ 32 - 1 then ⟨bytes, bound⟩ else default

/-- `operator>>` of `QString`: an odd number of bytes is corrupt. -/
def readString : Reader UInt8 QString := do
  let n ← quint32.get
  if n = nullMark then pure default
  else if n.toNat % 2 = 1 then corrupt default
  else toQString <$> times (n.toNat / 2) quint16.get

def readByteArray : Reader UInt8 QByteArray := do
  let n ← quint32.get
  if n = nullMark then pure default else toQByteArray <$> block n.toNat

theorem ofNat_ne_nullMark (bound : n < 2 ^ 32 - 1) :
    (UInt32.ofNat n).toNat = n ∧ UInt32.ofNat n ≠ nullMark := by
  have toNat : (UInt32.ofNat n).toNat = n := UInt32.toNat_ofNat_of_lt' (by rw [UInt32.size]; omega)
  refine ⟨toNat, fun mark => ?_⟩
  have same := congrArg UInt32.toNat mark
  rw [toNat] at same
  have word : nullMark.toNat = 2 ^ 32 - 1 := by decide
  omega

def string : Format UInt8 QString where
  put s := quint32.put (UInt32.ofNat (2 * s.1.length)) ++ s.1.flatMap quint16.put
  get := readString
  put_ne s := List.append_ne_nil_of_left_ne_nil (quint32.put_ne _) _
  reads s bound := by
    obtain ⟨toNat, notNull⟩ := ofNat_ne_nullMark s.2
    rw [List.length_append] at bound
    refine (quint32.reads _ (by omega)).bind ?_
    have even : ¬ 2 * s.1.length % 2 = 1 := by omega
    have half : 2 * s.1.length / 2 = s.1.length := by omega
    rw [if_neg notNull, toNat, if_neg even, half]
    have units := Reads.times fun a (_ : a ∈ s.1) => quint16.reads a (by
      simp [quint16, word])
    have same : toQString s.1 = s := dif_pos s.2
    have read := units.map (g := toQString)
    rwa [same] at read
  delimiting := quint32.delimiting.bind fun n => by
    split
    · exact .pure _
    · split
      · exact .corrupt _
      · exact (quint16.delimiting.times _).map

def byteArray : Format UInt8 QByteArray where
  put b := quint32.put (UInt32.ofNat b.1.length) ++ b.1
  get := readByteArray
  put_ne b := List.append_ne_nil_of_left_ne_nil (quint32.put_ne _) _
  reads b bound := by
    obtain ⟨toNat, notNull⟩ := ofNat_ne_nullMark b.2
    rw [List.length_append] at bound
    refine (quint32.reads _ (by omega)).bind ?_
    rw [if_neg notNull, toNat]
    have same : toQByteArray b.1 = b := dif_pos b.2
    have read := (reads_block b.1).map (g := toQByteArray)
    rwa [same] at read
  delimiting := quint32.delimiting.bind fun n => by
    split
    · exact .pure _
    · exact (block_delimiting _).map

/-- The meta type ids of `int` and of the first custom type. -/
def intId : UInt32 := 2

def userId : UInt32 := 65536

/-- The name of `QRO_`, terminating zero included. -/
def qroName : QByteArray :=
  ⟨"QRemoteObjectPackets::QRO_".toList.map (fun c => UInt8.ofNat c.toNat) ++ [0], by decide⟩

/-- `QVariant::load`: a type id, whether the value is null, for a custom type its
name, then the value. -/
def readVariant : Reader UInt8 (Variant QString QByteArray Int32) := do
  let id ← quint32.get
  let _ ← quint8.get
  if id = intId then Variant.plain <$> int.get
  else if id = userId then do
    let name ← byteArray.get
    if name = qroName then Variant.qro <$> readQro string byteArray else corrupt (.plain 0)
  else corrupt (.plain 0)

theorem readVariant_delimiting : SelfDelimiting readVariant := by
  refine quint32.delimiting.bind fun id => quint8.delimiting.bind fun _ => ?_
  split
  · exact int.delimiting.map
  · split
    · refine byteArray.delimiting.bind fun name => ?_
      split
      · exact (readQro_delimiting string byteArray).map
      · exact .corrupt _
    · exact .corrupt _

def putInt (value : Int32) : List UInt8 :=
  quint32.put intId ++ (quint8.put 0 ++ int.put value)

def qroHeader : List UInt8 :=
  quint32.put userId ++ (quint8.put 0 ++ byteArray.put qroName)

theorem reads_putInt (value : Int32) (bound : (putInt value).length < 2 ^ 32) :
    Reads readVariant (putInt value) (.plain value) := by
  simp only [putInt, List.length_append] at bound
  refine (quint32.reads _ (by omega)).bind ((quint8.reads _ (by omega)).bind ?_)
  exact (int.reads value (by omega)).map

theorem readVariant_qroHeader (bytes : List UInt8) :
    readVariant (qroHeader ++ bytes) = (Variant.qro <$> readQro string byteArray) bytes := by
  have id := quint32.reads userId (by decide)
  have null := quint8.reads 0 (by decide)
  have name := byteArray.reads qroName (by decide)
  have custom : ¬ userId = intId := by decide
  simp only [readVariant, qroHeader, List.append_assoc, bind_apply, id _, null _, Option.bind_some,
    if_neg custom, if_true, name _, Option.map_map]
  cases (Variant.qro <$> readQro string byteArray) bytes with
  | none => rfl
  | some x => simp only [Option.map_some, Function.comp_apply, Bool.true_and]

def stream : DataStream QString QByteArray Int32 where
  string := string
  byteArray := byteArray
  putVariant := putInt
  getVariant := readVariant
  putVariant_ne _ := List.append_ne_nil_of_left_ne_nil (quint32.put_ne _) _
  reads_plain := reads_putInt
  qroHeader := qroHeader
  qroHeader_ne := List.append_ne_nil_of_left_ne_nil (quint32.put_ne _) _
  get_qro := readVariant_qroHeader
  getVariant_delimiting := readVariant_delimiting
  getVariant_atEnd := rfl
  encodeVariant v := v
  protocolVersion := toQString ("QtRO 2.0".toList.map fun c => UInt16.ofNat c.toNat)
  protocolVersion_short := by decide

end RemoteObjects.Packet.QtStream
