import Mathlib.Data.Int.DivMod
import RemoteObjects.Packet.ByteOrder
import RemoteObjects.Text

/-! Values as they are streamed: enumerations as integers, gadgets member by member, containers of
gadgets packed into `QSQ_` and `QAS_` together with the names of their types. The receiver looks
these names up again. -/
namespace RemoteObjects.Packet.Variants
open Wire Reader Text
open QtStream (ByteOrder)

/-- A name in a `QByteArray`. -/
abbrev Name := List UInt8

def latin1 (s : String) : Name := s.toList.map fun c => UInt8.ofNat c.toNat

section Types

/-- The sizes of enumerations, in bytes. -/
inductive Size
  | one | two | four
deriving DecidableEq, Repr

def Size.width : Size → Nat
  | .one => 1
  | .two => 2
  | .four => 4

def Size.modulus (size : Size) : Nat := 256 ^ size.width

/-- `transferTypeForEnum`. -/
def transferType : Size → Name
  | .one => latin1 "signed char"
  | .two => latin1 "short"
  | .four => latin1 "int"

def qsqName : Name := latin1 "QRemoteObjectPackets::QSQ_"

def qasName : Name := latin1 "QRemoteObjectPackets::QAS_"

/-- The meta object of a class with enumerations: the value of its class info
`RemoteObject Type`, and the enumerators that are flags, by the name of their enumeration. -/
structure Scope where
  className : Name
  typeInfo : Option Name
  flags : List (Name × Name)
deriving DecidableEq

structure Enumeration where
  size : Size
  isUnsigned : Bool
  scope : Option Scope
deriving DecidableEq

/-- What the codec asks of a meta type. Only containers of gadgets count as containers; the types
that have a stream operator of their own, and nothing else, are leaves. -/
inductive MetaType
  | leaf
  | integer (size : Size)
  | enumeration (enumeration : Enumeration)
  | gadget (members : List Name)
  | sequence (value : Name)
  | association (key mapped : Name)
deriving DecidableEq

variable (X : Type)

mutual

/-- The content of a variant; an integer is also what an enumeration holds. The entries of a map
stand in the order in which it iterates. -/
inductive Value
  | leaf (x : X)
  | integer (n : Int)
  | gadget (members : Values)
  | sequence (elements : Values)
  | association (entries : Entries)
deriving DecidableEq

inductive Values
  | nil
  | cons (value : Value) (values : Values)
deriving DecidableEq

inductive Entries
  | nil
  | cons (key value : Value) (entries : Entries)
deriving DecidableEq

end

/-- The types that are registered on both sides, how a variant names its type, and the stream
operators of the leaves. `convert` stands for the registered converters. -/
structure Registry where
  kind : Name → Option MetaType
  header : ByteOrder → Format UInt8 Name
  saveLeaf : ByteOrder → Name → X → List UInt8
  loadLeaf : ByteOrder → Name → Reader UInt8 X
  default : Name → Value X
  convert : Name → Value X → Name → Option (Value X)
  valid : Name → X → Prop
  inverse : ∀ order type x, valid type x → (saveLeaf order type x).length < 2 ^ 32 →
    Reads (loadLeaf order type) (saveLeaf order type x) x
  integers : ∀ type size, kind type = some (.integer size) ↔ type = transferType size
  wrappers : kind qsqName = none ∧ kind qasName = none
  elements : ∀ type value, kind type = some (.sequence value) → ∃ members, kind value = some (.gadget members)
  mapped : ∀ type key value, kind type = some (.association key value) → ∃ members, kind value = some (.gadget members)

/-- A `QVariant` on the wire. -/
inductive Encoded
  | integer (size : Size) (n : Int)
  | plain (type : Name) (value : Value X)
  | qsq (typeName valueTypeName : Name) (values : List UInt8)
  | qas (typeName keyTypeName valueTypeName : Name) (values : List UInt8)

/-- What `decodeVariant` returns: a variant, a `QtROSequentialContainer` or
`QtROAssociativeContainer` for a type that is not registered, or an invalid variant. -/
inductive Decoded
  | variant (type : Name) (value : Value X)
  | container (typeName : Name)
  | invalid
deriving DecidableEq

end Types

section Formats

/-- Conversion to an integer type. -/
def wrap (size : Size) (isUnsigned : Bool) (n : Int) : Int :=
  if isUnsigned then n % size.modulus else Int.bmod n size.modulus

def arrange (order : ByteOrder) (bytes : List UInt8) : List UInt8 :=
  match order with
  | .bigEndian => bytes.reverse
  | .littleEndian => bytes

def putInteger (order : ByteOrder) (size : Size) (n : Int) : List UInt8 :=
  arrange order (littleEndian size.width (n % size.modulus).toNat)

def getInteger (order : ByteOrder) (size : Size) : Reader UInt8 Int :=
  (fun bytes => wrap size false (fromLittleEndian (arrange order bytes))) <$> block size.width

/-- A null byte array is read as an empty one. -/
def readBytes (order : ByteOrder) : Reader UInt8 (List UInt8) := do
  let n ← order.quint32.get
  if n = QtStream.nullMark then pure [] else block n.toNat

def byteArray (order : ByteOrder) : Format UInt8 (List UInt8) where
  put b := order.quint32.put (UInt32.ofNat b.length) ++ b
  get := readBytes order
  put_ne b := List.append_ne_nil_of_left_ne_nil (order.quint32.put_ne _) _
  reads b bound := by
    rw [List.length_append, order.length_quint32] at bound
    obtain ⟨toNat, notNull⟩ := QtStream.ofNat_ne_nullMark (n := b.length) (by omega)
    refine (order.quint32.reads _ (by rw [order.length_quint32]; decide)).bind ?_
    rw [if_neg notNull, toNat]
    exact reads_block b
  delimiting := order.quint32.delimiting.bind fun n => by
    split
    · exact .pure _
    · exact block_delimiting _

end Formats

section Encode

/-- The alias of the flags `QFlags<Scope::Enum>` in the scope. -/
def Scope.alias (metaObject : Scope) (keyTypeName : Name) : Name :=
  let inner := (keyTypeName.drop 7).dropLast
  let name := (inner.reverse.takeWhile (· ≠ 58)).reverse
  inner.take (inner.length - name.length) ++
    metaObject.flags.foldl (fun name flag => if flag.1 = name then flag.2 else name) name

/-- The names of the container and of its keys in a `QAS_`. -/
def Enumeration.sentTypes (e : Enumeration) (typeName keyTypeName : Name) : Name × Name :=
  match e.scope with
  | none => (typeName, keyTypeName)
  | some metaObject =>
    match metaObject.typeInfo with
    | none => (typeName, keyTypeName)
    | some info =>
      let isFlag := latin1 "QFlags<" <+: keyTypeName
      if isFlag ∨ metaObject.className <+: keyTypeName then
        (replace metaObject.className (info ++ latin1 "Replica") typeName,
          replace metaObject.className info (if isFlag then metaObject.alias keyTypeName else keyTypeName))
      else (typeName, keyTypeName)

variable {X : Type}

def Values.length : Values X → Nat
  | .nil => 0
  | .cons _ values => values.length + 1

def Entries.length : Entries X → Nat
  | .nil => 0
  | .cons _ _ entries => entries.length + 1

namespace Registry
variable (s : Registry X)

def sentTypes (typeName keyTypeName : Name) : Name × Name :=
  match s.kind keyTypeName with
  | some (.enumeration e) => e.sentTypes typeName keyTypeName
  | _ => (typeName, keyTypeName)

/-- The array of a `QSQ_`. A stream on a byte array is big-endian. -/
def putSequence (valueType : Name) (count : Nat) (elements : List UInt8) : List UInt8 :=
  (byteArray .bigEndian).put valueType ++ (ByteOrder.bigEndian.quint32.put (UInt32.ofNat count) ++ elements)

def putAssociation (keyType valueType : Name) (count : Nat) (entries : List UInt8) : List UInt8 :=
  (byteArray .bigEndian).put keyType ++ ((byteArray .bigEndian).put valueType ++
    (ByteOrder.bigEndian.quint32.put (UInt32.ofNat count) ++ entries))

/-- `operator<<` of a `QVariant`; `saved` is what its type makes of a plain value. -/
def putVariant (order : ByteOrder) (saved : List UInt8) : Encoded X → List UInt8
  | .integer size n => (s.header order).put (transferType size) ++ putInteger order size n
  | .plain type _ => (s.header order).put type ++ saved
  | .qsq typeName valueTypeName values => (s.header order).put qsqName ++
    ((byteArray order).put typeName ++ ((byteArray order).put valueTypeName ++ (byteArray order).put values))
  | .qas typeName keyTypeName valueTypeName values => (s.header order).put qasName ++
    ((byteArray order).put typeName ++ ((byteArray order).put keyTypeName ++
      ((byteArray order).put valueTypeName ++ (byteArray order).put values)))

/-- A key that is an enumeration is saved as its transfer type; `saved` is what the type of any other
key makes of it. -/
def transferKey (key : Name) (saved : List UInt8) (k : Value X) : List UInt8 :=
  match s.kind key, k with
  | some (.enumeration e), .integer n => putInteger .bigEndian e.size (wrap e.size false n)
  | _, _ => saved

mutual

def encodeVariant (type : Name) : Value X → Encoded X
  | .leaf x => .plain type (.leaf x)
  | .gadget members => .plain type (.gadget members)
  | .integer n =>
    match s.kind type with
    | some (.enumeration e) => .integer e.size (wrap e.size false n)
    | some (.integer size) => .integer size n
    | _ => .plain type (.integer n)
  | .sequence elements =>
    match s.kind type with
    | some (.sequence value) => .qsq type value (putSequence value elements.length (saveElements value elements))
    | _ => .plain type (.sequence elements)
  | .association entries =>
    match s.kind type with
    | some (.association key mapped) =>
      let sent := s.sentTypes type key
      .qas sent.1 sent.2 mapped (putAssociation sent.2 mapped entries.length (saveEntries key mapped entries))
    | _ => .plain type (.association entries)

/-- `QMetaType::save`. Enumerations and containers of gadgets are streamed by their encoding only. -/
def save (order : ByteOrder) (type : Name) : Value X → List UInt8
  | .leaf x => s.saveLeaf order type x
  | .integer n =>
    match s.kind type with
    | some (.integer size) => putInteger order size n
    | _ => []
  | .gadget values =>
    match s.kind type with
    | some (.gadget members) => copyStoredProperties order members values
    | _ => []
  | .sequence _ => []
  | .association _ => []

/-- The members of a gadget, each as an encoded variant. -/
def copyStoredProperties (order : ByteOrder) : List Name → Values X → List UInt8
  | type :: types, .cons value values =>
    s.putVariant order (save order type value) (encodeVariant type value) ++ copyStoredProperties order types values
  | _, _ => []

def saveElements (value : Name) : Values X → List UInt8
  | .nil => []
  | .cons v values => save .bigEndian value v ++ saveElements value values

def saveEntries (key mapped : Name) : Entries X → List UInt8
  | .nil => []
  | .cons k v entries =>
    s.transferKey key (save .bigEndian key k) k ++ (save .bigEndian mapped v ++ saveEntries key mapped entries)

end

/-- A variant on a stream. -/
def stream (order : ByteOrder) (type : Name) (value : Value X) : List UInt8 :=
  s.putVariant order (s.save order type value) (s.encodeVariant type value)

end Registry
end Encode

section Decode
variable {X : Type}

/-- A content that is read into: streams fill what is there. -/
def Value.members : Value X → Values X
  | .gadget members => members
  | _ => .nil

def Values.head (default : Value X) : Values X → Value X
  | .nil => default
  | .cons value _ => value

def Values.tail : Values X → Values X
  | .nil => .nil
  | .cons _ values => values

def Values.map (f : Value X → Value X) : Values X → Values X
  | .nil => .nil
  | .cons value values => .cons (f value) (values.map f)

/-- `QAssociativeIterable::setValue`: one value for each key. -/
def Entries.setValue [DecidableEq X] (key value : Value X) : Entries X → Entries X
  | .nil => .cons key value .nil
  | .cons k v entries => if k = key then .cons key value entries else .cons k v (entries.setValue key value)

namespace Registry
variable (s : Registry X)

/-- `QVariant::convert`. -/
def convertTo (type : Name) (value : Value X) (target : Name) : Option (Value X) :=
  if type = target then some value
  else
    match s.kind target, value with
    | some (.enumeration e), .integer n => some (.integer (wrap e.size e.isUnsigned n))
    | some (.integer size), .integer n => some (.integer (wrap size false n))
    | _, _ => s.convert type value target

/-- A value that a container takes in. -/
def coerce (type target : Name) (value : Value X) : Value X := (s.convertTo type value target).getD (s.default target)

/-- One element after the other into the same variant. -/
def loadElements (load : Value X → Reader UInt8 (Value X)) : Nat → Value X → Reader UInt8 (Values X)
  | 0, _ => pure .nil
  | count + 1, tmp => do
    let value ← load tmp
    let values ← loadElements load count value
    pure (.cons value values)

/-- The entries that are added to a map. -/
def loadEntries (loadKey load : Value X → Reader UInt8 (Value X)) (add : Entries X → Value X → Value X → Entries X) :
    Nat → Value X → Value X → Entries X → Reader UInt8 (Entries X)
  | 0, _, _, map => pure map
  | count + 1, key, val, map => do
    let key ← loadKey key
    let val ← load val
    loadEntries loadKey load add count key val (add map key val)

/-- Values of a type that is not known cannot be loaded: the list stays empty. -/
def decodeSequence (load : Name → Value X → Reader UInt8 (Value X)) (typeName : Name) (bytes : List UInt8) : Option (Decoded X) :=
  match s.kind typeName with
  | none => some (.container typeName)
  | some (.sequence target) =>
    let elements : Reader UInt8 (Values X) := do
      let valueTypeName ← (byteArray .bigEndian).get
      let count ← ByteOrder.bigEndian.quint32.get
      let isKnown := (s.kind valueTypeName).isSome
      (·.map (s.coerce valueTypeName target)) <$>
        loadElements (load valueTypeName) (if isKnown then count.toNat else 0) (s.default valueTypeName)
    (elements bytes).map fun x => .variant typeName (.sequence x.value)
  | some _ => some .invalid

/-- `transferType.load` and the conversion to the key type. -/
def loadKey (load : Name → Value X → Reader UInt8 (Value X)) (keyType : Name) (key : Value X) : Reader UInt8 (Value X) :=
  match s.kind keyType with
  | some (.enumeration e) => (fun n => .integer (wrap e.size e.isUnsigned n)) <$> getInteger .bigEndian e.size
  | _ => load keyType key

/-- A key type that is not known is that of the container. -/
def decodeAssociation [DecidableEq X] (load : Name → Value X → Reader UInt8 (Value X)) (typeName : Name) (bytes : List UInt8) :
    Option (Decoded X) :=
  match s.kind typeName with
  | none => some (.container typeName)
  | some (.association key target) =>
    let entries : Reader UInt8 (Entries X) := do
      let keyTypeName ← (byteArray .bigEndian).get
      let keyType := if (s.kind keyTypeName).isNone then key else keyTypeName
      let valueTypeName ← (byteArray .bigEndian).get
      let count ← ByteOrder.bigEndian.quint32.get
      let add (map : Entries X) (k v : Value X) := map.setValue (s.coerce keyType key k) (s.coerce valueTypeName target v)
      let isKnown := (s.kind valueTypeName).isSome
      loadEntries (s.loadKey load keyType) (load valueTypeName) add (if isKnown then count.toNat else 0)
        (s.default keyType) (s.default valueTypeName) .nil
    (entries bytes).map fun x => .variant typeName (.association x.value)
  | some _ => some .invalid

/-- The type says whether an integer becomes an enumeration; containers go by the names that came
along. Nothing comes out where the bytes of a container end too early. -/
def decodeVariant [DecidableEq X] (load : Name → Value X → Reader UInt8 (Value X)) (encoded : Encoded X) (metaType : Name) :
    Option (Decoded X) :=
  match s.kind metaType with
  | some (.enumeration _) =>
    match encoded with
    | .integer size n => some (.variant metaType (s.coerce (transferType size) metaType (.integer n)))
    | .plain type value => some (.variant metaType (s.coerce type metaType value))
    | _ => some (.variant metaType (s.default metaType))
  | _ =>
    match encoded with
    | .integer size n => some (.variant (transferType size) (.integer n))
    | .plain type value => some (.variant type value)
    | .qsq typeName _ values => s.decodeSequence load typeName values
    | .qas typeName _ _ values => s.decodeAssociation load typeName values

/-- `operator>>` of a `QVariant`. -/
def getVariant (load : ByteOrder → Name → Value X → Reader UInt8 (Value X)) (order : ByteOrder) : Reader UInt8 (Encoded X) := do
  let type ← (s.header order).get
  if type = qsqName then do
    let typeName ← (byteArray order).get
    let valueTypeName ← (byteArray order).get
    let values ← (byteArray order).get
    pure (.qsq typeName valueTypeName values)
  else if type = qasName then do
    let typeName ← (byteArray order).get
    let keyTypeName ← (byteArray order).get
    let valueTypeName ← (byteArray order).get
    let values ← (byteArray order).get
    pure (.qas typeName keyTypeName valueTypeName values)
  else
    match s.kind type with
    | none => corrupt (.plain type (s.default type))
    | some (.integer size) => .integer size <$> getInteger order size
    | some _ => .plain type <$> load order type (s.default type)

/-- A value that is there without reading. -/
def known {α : Type} (value : Option α) : Reader UInt8 α := fun bytes => value.map fun value => ⟨value, true, bytes⟩

/-- `writeOnGadget`: a variant that cannot be converted changes nothing. -/
def writeOnGadget (type : Name) (decoded : Decoded X) (old : Value X) : Value X :=
  match decoded with
  | .variant source value => (s.convertTo source value type).getD old
  | .container _ => old
  | .invalid => s.default type

/-- The members of a gadget from a stream. -/
def copyFromStream [DecidableEq X] (load : ByteOrder → Name → Value X → Reader UInt8 (Value X)) (order : ByteOrder) :
    List Name → Values X → Reader UInt8 (Values X)
  | [], _ => pure .nil
  | type :: types, old => do
    let encoded ← s.getVariant load order
    let decoded ← known (s.decodeVariant (load .bigEndian) encoded type)
    let members ← copyFromStream load order types old.tail
    pure (.cons (s.writeOnGadget type decoded (old.head (s.default type))) members)

/-- `QMetaType::load`, for gadgets that are nested no deeper than `fuel`. -/
def load [DecidableEq X] : Nat → ByteOrder → Name → Value X → Reader UInt8 (Value X)
  | 0, _, _, _ => fun _ => none
  | fuel + 1, order, type, old =>
    match s.kind type with
    | some (.integer size) => .integer <$> getInteger order size
    | some (.gadget members) => .gadget <$> s.copyFromStream (load fuel) order members old.members
    | _ => .leaf <$> s.loadLeaf order type

end Registry
end Decode
end RemoteObjects.Packet.Variants
