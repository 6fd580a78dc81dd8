import Mathlib.Data.Char
import Mathlib.Data.List.Lex
import RemoteObjects.Packet.VariantProofs
import RemoteObjects.SortedMap

/-! The stream operators of the containers that stand for lists and maps of unregistered types, with their way out when an
element cannot be saved or loaded. -/
namespace RemoteObjects.Packet.FallbackContainers
open Wire Reader SortedMap
open Variants (Name byteArray)
open QtStream (ByteOrder)

section Model
variable (T D K : Type)

/-- A type name in a `QByteArray`. -/
abbrev TypeName := { name : Name // name.length < 2 ^ 31 }

def noName : TypeName := ⟨[], by decide⟩

/-- `QMetaType` and `QVariant`, of which the operators make use. `save` says whether it succeeded, `load` does so with the status of
its item. -/
structure MetaTypes where
  fromName : TypeName → T
  save : T → D → List UInt8 × Bool
  load : T → Reader UInt8 D
  load_save : ∀ type data bytes, save type data = (bytes, true) → Reads (load type) bytes data
  isEnumeration : T → Bool
  transferTypeForEnum : T → T
  isFlag : T → Bool
  convert : T → T → D → D
  qString : T
  ofText : K → D
  toText : T → D → K
  toText_ofText : ∀ text, toText qString (ofText text) = text
  invalid_enumeration : isEnumeration (fromName noName) = false
  invalid_load : ∀ bytes, ∃ data, load (fromName noName) bytes = some ⟨data, false, bytes⟩

structure QVariant where
  type : T
  data : D
deriving DecidableEq

/-- A `QBuffer`, before and behind its position. -/
structure Device where
  before : List UInt8
  behind : List UInt8
deriving Inhabited

namespace Device
variable (d : Device)

def write (bytes : List UInt8) : Device := ⟨d.before ++ bytes, d.behind.drop bytes.length⟩

/-- To a position that was passed. -/
def seek (pos : Nat) : Device := ⟨d.before.take pos, d.before.drop pos ++ d.behind⟩

end Device

variable {T D K}

/-- `QtROSequentialContainer`. One that was made from an iterable has no name for the type of its values. -/
structure SequentialContainer (m : MetaTypes T D K) where
  values : List (QVariant T D)
  m_valueType : T
  m_typeName : TypeName
  m_valueTypeName : TypeName
  named : m_valueTypeName ≠ noName → m_valueType = m.fromName m_valueTypeName

/-- `QtROAssociativeContainer`, a `QVariantMap` with the keys beside it. -/
structure AssociativeContainer [LinearOrder K] (m : MetaTypes T D K) where
  map : List (K × QVariant T D)
  sorted : Sorted map
  m_keys : List (QVariant T D)
  m_keyType : T
  m_valueType : T
  m_typeName : TypeName
  m_keyTypeName : TypeName
  m_valueTypeName : TypeName
  named : m_keyTypeName ≠ noName → m_keyType = m.fromName m_keyTypeName ∧ m_valueType = m.fromName m_valueTypeName

def putName (name : TypeName) : List UInt8 := (byteArray .bigEndian).put name.1

def getName : Reader UInt8 TypeName :=
  (fun name => if short : name.length < 2 ^ 31 then ⟨name, short⟩ else noName) <$> (byteArray .bigEndian).get

def putCount (count : UInt32) : List UInt8 := ByteOrder.bigEndian.quint32.put count

/-- What comes of one call of `save`: nothing can be said where the data is not of that type. -/
abbrev Saving := Option (List UInt8 × Bool)

/-- The calls of `save`, up to the first that fails. -/
def saveAll : List Saving → Device → Option (Device × Bool)
  | [], d => some (d, true)
  | none :: _, _ => none
  | some (bytes, true) :: more, d => saveAll more (d.write bytes)
  | some (bytes, false) :: _, d => some (d.write bytes, false)

/-- Both operators write the names, the count and what is saved; after a failure they go back behind the names. -/
def putContainer (names : List UInt8) (count : UInt32) (savings : List Saving) (d : Device) : Option Device := do
  let d := d.write names
  let pos := d.before.length
  let (d, saved) ← saveAll savings (d.write (putCount count))
  some (if saved then d else (d.seek pos).write (putCount 0))

variable [DecidableEq T] (m : MetaTypes T D K)

def saveVariant (type : T) (value : QVariant T D) : Saving :=
  if value.type = type then some (m.save type value.data) else none

namespace SequentialContainer
variable {m} (c target : SequentialContainer m)

def count : UInt32 := .ofNat c.values.length

def savings : List Saving := (c.values.take c.count.toNat).map (saveVariant m c.m_valueType)

/-- `operator<<`. -/
def put (d : Device) : Option Device := putContainer (putName c.m_valueTypeName) c.count c.savings d

omit [DecidableEq T] in
/-- `operator>>`, into a container that may have been used before. -/
def get : Reader UInt8 (SequentialContainer m) := do
  let valueTypeName ← getName
  let count ← ByteOrder.bigEndian.quint32.get
  let values ← checked count.toNat (m.load (m.fromName valueTypeName))
  pure ⟨values.map (.mk (m.fromName valueTypeName)), m.fromName valueTypeName, target.m_typeName, valueTypeName, fun _ => rfl⟩

end SequentialContainer

namespace MetaTypes

def transferType (keyType : T) : T := if m.isEnumeration keyType then m.transferTypeForEnum keyType else keyType

/-- The integer that an enumeration's key is written as: the text of the key, converted. -/
def intKey (keyType : T) (text : K) : D := m.convert m.qString (m.transferType keyType) (m.ofText text)

/-- The key of an entry is its text, in a `QString`. -/
def saveKey (keyType : T) (text : K) : Saving :=
  if m.isEnumeration keyType then some (m.save (m.transferType keyType) (m.intKey keyType text))
  else if keyType = m.qString then some (m.save keyType (m.ofText text)) else none

variable [LinearOrder K]

/-- The map and the keys after one more entry. -/
def insertEntry (keyType valueType : T) (key value : D) (c : List (K × QVariant T D) × List (QVariant T D)) :
    List (K × QVariant T D) × List (QVariant T D) :=
  if m.isEnumeration keyType then
    let enumKey := m.convert (m.transferType keyType) keyType key
    let text := if m.isFlag keyType then m.toText (m.transferType keyType) key else m.toText keyType enumKey
    (insert text ⟨valueType, value⟩ c.1, c.2 ++ [⟨keyType, enumKey⟩])
  else (insert (m.toText keyType key) ⟨valueType, value⟩ c.1, c.2 ++ [⟨keyType, key⟩])

/-- The loop of `operator>>`: `clear` empties the map, not the keys. -/
def loadEntries (keyType valueType : T) : Nat → List (K × QVariant T D) × List (QVariant T D) →
    Reader UInt8 (List (K × QVariant T D) × List (QVariant T D))
  | 0, c => pure c
  | count + 1, c => fun bytes => (m.load (m.transferType keyType) bytes).bind fun key =>
    if key.ok then (m.load valueType key.rest).bind fun value =>
      if value.ok then loadEntries keyType valueType count (m.insertEntry keyType valueType key.value value.value c) value.rest
      else some ⟨([], c.2), false, value.rest⟩
    else some ⟨([], c.2), false, key.rest⟩

end MetaTypes

variable [LinearOrder K]

namespace AssociativeContainer
variable {m} (c target : AssociativeContainer m)

def count : UInt32 := .ofNat c.map.length

def savings : List Saving := (c.map.take c.count.toNat).flatMap fun entry =>
  [m.saveKey c.m_keyType entry.1, saveVariant m c.m_valueType entry.2]

def put (d : Device) : Option Device := putContainer (putName c.m_keyTypeName ++ putName c.m_valueTypeName) c.count c.savings d

/-- The names of the types, the map and the keys that were read. -/
structure Read (T D K : Type) where
  m_typeName : TypeName
  m_keyTypeName : TypeName
  m_valueTypeName : TypeName
  map : List (K × QVariant T D)
  m_keys : List (QVariant T D)

def get : Reader UInt8 (Read T D K) := do
  let keyTypeName ← getName
  let valueTypeName ← getName
  let count ← ByteOrder.bigEndian.quint32.get
  let (map, m_keys) ← m.loadEntries (m.fromName keyTypeName) (m.fromName valueTypeName) count.toNat ([], [])
  pure ⟨target.m_typeName, keyTypeName, valueTypeName, map, m_keys⟩

end AssociativeContainer
end Model

section Statement
variable {T D K : Type} [DecidableEq T] {m : MetaTypes T D K}

/-- All entries are saved. -/
def Saved (savings : List Saving) : Prop := ∀ saving ∈ savings, ∃ bytes, saving = some (bytes, true)

/-- One cannot be saved, after others that are. -/
def Breaks (savings : List Saving) : Prop := ∃ front bytes back, savings = front ++ some (bytes, false) :: back ∧ Saved front

namespace SequentialContainer

/-- The stream ends up behind what was written. A reader gets the container back, or an empty one where an element could not be
saved or loaded. -/
def RoundTrip (c target : SequentialContainer m) : Prop :=
  ∀ d, ∃ written behind, c.put d = some ⟨d.before ++ written, behind⟩ ∧ ∀ rest, ∃ item, target.get (written ++ rest) = some item ∧
    item.value.m_valueTypeName = c.m_valueTypeName ∧
    (Saved c.savings → item.ok → item.value.m_typeName = c.m_typeName ∧ item.value.values = c.values ∧ item.rest = rest) ∧
    (¬ (Saved c.savings ∧ item.ok) → item.value.values = []) ∧ (¬ Saved c.savings → item.rest = rest)

/-- Each value is of the container's type, up to one that cannot be saved; where all are saved, the type has a name, the number
fits its field, and the name of the container is the one that the reader has. -/
def Fits (c target : SequentialContainer m) : Prop :=
  (Saved c.savings ∨ Breaks c.savings) ∧ (Saved c.savings →
    c.m_valueTypeName = noName ∧ c.count ≠ 0 ∨ c.values.length < 2 ^ 32 ∧ c.m_typeName = target.m_typeName)

end SequentialContainer

namespace MetaTypes

/-- The enumerator of a text, by way of its integer. -/
def enumKey (m : MetaTypes T D K) (keyType : T) (text : K) : D := m.convert (m.transferType keyType) keyType (m.intKey keyType text)

/-- The text of that enumerator: for flags the integer. -/
def retold (m : MetaTypes T D K) (keyType : T) (text : K) : K :=
  if m.isFlag keyType then m.toText (m.transferType keyType) (m.intKey keyType text) else m.toText keyType (m.enumKey keyType text)

end MetaTypes

namespace AssociativeContainer
variable [LinearOrder K]

def RoundTrip (c target : AssociativeContainer m) : Prop :=
  ∀ d, ∃ written behind, c.put d = some ⟨d.before ++ written, behind⟩ ∧ ∀ rest, ∃ item, target.get (written ++ rest) = some item ∧
    item.value.m_keyTypeName = c.m_keyTypeName ∧ item.value.m_valueTypeName = c.m_valueTypeName ∧
    (Saved c.savings → item.ok → item.value.m_typeName = c.m_typeName ∧ item.value.m_keys = c.m_keys ∧ item.value.map = c.map ∧
      item.rest = rest) ∧
    (¬ (Saved c.savings ∧ item.ok) → item.value.map = [] ∧ item.value.m_keys = []) ∧ (¬ Saved c.savings → item.rest = rest)

/-- The keys are those that the texts stand for, in the order of the texts: strings, or enumerators whose texts lead back to the
same map. -/
def KeysFit (c : AssociativeContainer m) : Prop :=
  if m.isEnumeration c.m_keyType then
    c.m_keys = c.map.map (fun entry => ⟨c.m_keyType, m.enumKey c.m_keyType entry.1⟩) ∧
      insertAll [] (c.map.map fun entry => (m.retold c.m_keyType entry.1, entry.2)) = c.map
  else c.m_keys = c.map.map fun entry => ⟨m.qString, m.ofText entry.1⟩

def Fits (c target : AssociativeContainer m) : Prop :=
  (Saved c.savings ∨ Breaks c.savings) ∧ (Saved c.savings →
    c.m_keyTypeName = noName ∧ c.count ≠ 0 ∨ c.map.length < 2 ^ 32 ∧ c.m_typeName = target.m_typeName ∧ c.KeysFit)

end AssociativeContainer
end Statement

section Writing
variable {d : Device} {names : List UInt8} {n : UInt32} {savings : List Saving}

theorem Device.write_write (a b : List UInt8) : (d.write a).write b = d.write (a ++ b) := by
  simp [Device.write]

/-- What the calls write if all succeed. -/
def bytesOf (savings : List Saving) : List UInt8 := savings.flatMap fun saving => (saving.map Prod.fst).getD []

theorem saved_cons {saving : Saving} : Saved (saving :: savings) ↔ (∃ bytes, saving = some (bytes, true)) ∧ Saved savings :=
  List.forall_mem_cons

theorem saveAll_saved (saved : Saved savings) : saveAll savings d = some (d.write (bytesOf savings), true) := by
  induction savings generalizing d with
  | nil => simp [saveAll, bytesOf, Device.write]
  | cons saving savings ih =>
    obtain ⟨⟨bytes, rfl⟩, others⟩ := saved_cons.mp saved
    rw [saveAll, ih others, Device.write_write]
    rfl

theorem saveAll_breaks (breaks : Breaks savings) : ∃ more behind, saveAll savings d = some (⟨d.before ++ more, behind⟩, false) := by
  obtain ⟨front, bytes, back, rfl, saved⟩ := breaks
  induction front generalizing d with
  | nil => exact ⟨bytes, d.behind.drop bytes.length, rfl⟩
  | cons saving front ih =>
    obtain ⟨⟨first, rfl⟩, others⟩ := saved_cons.mp saved
    obtain ⟨more, behind, done⟩ := ih (d := d.write first) others
    exact ⟨first ++ more, behind, by simpa [saveAll, Device.write] using done⟩

theorem saveAll_none (undefined : ¬ (Saved savings ∨ Breaks savings)) : saveAll savings d = none := by
  induction savings generalizing d with
  | nil => exact absurd (.inl nofun) undefined
  | cons saving savings ih =>
    match saving with
    | none => rfl
    | some (bytes, false) => exact absurd (.inr ⟨[], bytes, savings, rfl, nofun⟩) undefined
    | some (bytes, true) =>
      refine ih fun later => undefined ?_
      rcases later with saved | ⟨front, bytes', back, rfl, saved⟩
      · exact .inl (saved_cons.mpr ⟨⟨bytes, rfl⟩, saved⟩)
      · exact .inr ⟨some (bytes, true) :: front, bytes', back, rfl, saved_cons.mpr ⟨⟨bytes, rfl⟩, saved⟩⟩

theorem not_breaks (saved : Saved savings) : ¬ Breaks savings := by
  rintro ⟨front, bytes, back, rfl, _⟩
  obtain ⟨_, same⟩ := saved (some (bytes, false)) (by simp)
  simp at same

theorem putContainer_saved (saved : Saved savings) :
    putContainer names n savings d = some (d.write (names ++ (putCount n ++ bytesOf savings))) := by
  simp [putContainer, saveAll_saved saved, Device.write_write]

/-- Back behind the names, where the count is zero then. -/
theorem putContainer_breaks (breaks : Breaks savings) : ∃ behind,
    putContainer names n savings d = some ⟨d.before ++ (names ++ putCount 0), behind⟩ := by
  obtain ⟨more, behind, done⟩ := saveAll_breaks (d := (d.write names).write (putCount n)) breaks
  have back : (d.before ++ (names ++ (putCount n ++ more))).take (d.before.length + names.length) = d.before ++ names := by
    rw [← List.append_assoc, ← List.length_append]
    exact List.take_left
  refine ⟨((d.before ++ (names ++ (putCount n ++ more))).drop (d.before.length + names.length) ++ behind).drop (putCount 0).length, ?_⟩
  simp only [putContainer, done, Option.bind_eq_bind, Option.bind_some]
  simp [Device.seek, Device.write, back]

theorem putContainer_none (undefined : ¬ (Saved savings ∨ Breaks savings)) : putContainer names n savings d = none := by
  simp [putContainer, saveAll_none undefined]

/-- What is written, and what it has to be for a property of it. -/
theorem putContainer_iff {P : List UInt8 → Prop} :
    (∃ written behind, putContainer names n savings d = some ⟨d.before ++ written, behind⟩ ∧ P written) ↔
      Saved savings ∧ P (names ++ (putCount n ++ bytesOf savings)) ∨ Breaks savings ∧ P (names ++ putCount 0) := by
  constructor
  · rintro ⟨written, behind, done, holds⟩
    by_cases saved : Saved savings
    · have same := congrArg Device.before (Option.some.inj (done.symm.trans (putContainer_saved saved)))
      exact .inl ⟨saved, List.append_cancel_left same ▸ holds⟩
    · by_cases breaks : Breaks savings
      · obtain ⟨_, back⟩ := putContainer_breaks (d := d) (n := n) breaks
        have same := congrArg Device.before (Option.some.inj (done.symm.trans back))
        exact .inr ⟨breaks, List.append_cancel_left same ▸ holds⟩
      · cases done.symm.trans (putContainer_none fun defined => defined.elim saved breaks)
  · rintro (⟨saved, holds⟩ | ⟨breaks, holds⟩)
    · exact ⟨_, _, putContainer_saved saved, holds⟩
    · obtain ⟨behind, back⟩ := putContainer_breaks (d := d) (n := n) breaks
      exact ⟨_, behind, back, holds⟩

end Writing

section Reading
variable {T D K : Type} {m : MetaTypes T D K} {bytes more rest : List UInt8}

theorem reads_name (name : TypeName) : Reads getName (putName name) name := by
  have short := name.2
  have read := ((byteArray .bigEndian).reads name.1 (by
    rw [byteArray, List.length_append, ByteOrder.length_quint32]
    omega)).map (g := fun bytes => if short : bytes.length < 2 ^ 31 then (⟨bytes, short⟩ : TypeName) else noName)
  rwa [dif_pos short] at read

theorem reads_count (n : UInt32) : Reads ByteOrder.bigEndian.quint32.get (putCount n) n :=
  ByteOrder.bigEndian.quint32.reads n (by rw [ByteOrder.length_quint32]; decide)

theorem toNat_count_le (length : Nat) : (UInt32.ofNat length).toNat ≤ length := by
  rw [UInt32.toNat_ofNat']
  exact Nat.mod_le _ _

theorem exists_toNat_succ {n : UInt32} (some : n ≠ 0) : ∃ k, n.toNat = k + 1 :=
  Nat.exists_eq_succ_of_ne_zero fun zero => some (UInt32.toNat_inj.mp zero)

variable [DecidableEq T] {type : T} {value : QVariant T D} {values : List (QVariant T D)}

theorem saveVariant_saved : saveVariant m type value = some (bytes, true) ↔ value.type = type ∧ m.save type value.data = (bytes, true) := by
  unfold saveVariant
  split <;> simp [*]

theorem reads_variants (saved : Saved (values.map (saveVariant m type))) (own : ∀ value ∈ values, value.type = type) :
    Reads (checked values.length (m.load type)) (bytesOf (values.map (saveVariant m type))) (values.map QVariant.data) := by
  have each (data : D) (member : data ∈ values.map QVariant.data) : Reads (m.load type) (m.save type data).1 data := by
    obtain ⟨value, here, rfl⟩ := List.mem_map.mp member
    obtain ⟨bytes, same⟩ := saved _ (List.mem_map_of_mem here)
    exact m.load_save type value.data _ (by rw [(saveVariant_saved.mp same).2])
  have written : bytesOf (values.map (saveVariant m type)) = (values.map QVariant.data).flatMap fun data => (m.save type data).1 := by
    rw [bytesOf, List.flatMap_map, List.flatMap_map]
    exact List.flatMap_congr fun value here => by simp [saveVariant, own value here]
  have read := Reads.checked each
  rwa [List.length_map, ← written] at read

namespace SequentialContainer
variable {c : SequentialContainer m} (target : SequentialContainer m) {n : UInt32}

omit [DecidableEq T] in
theorem get_put (name : TypeName) : target.get (putName name ++ (putCount n ++ more)) =
    (checked n.toNat (m.load (m.fromName name)) more).map fun item =>
      ⟨⟨item.value.map (.mk (m.fromName name)), m.fromName name, target.m_typeName, name, fun _ => rfl⟩, item.ok, item.rest⟩ := by
  rw [get, (reads_name name).head, (reads_count n).head, bind_apply]
  cases checked n.toNat (m.load (m.fromName name)) more <;> simp [pure_apply]

/-- The elements that are counted come back, where the name of their type is known or there are none. -/
theorem get_saved (rest : List UInt8) (saved : Saved c.savings) (known : c.m_valueTypeName = noName → c.count = 0) :
    ∃ read : SequentialContainer m, target.get (putName c.m_valueTypeName ++ (putCount c.count ++ bytesOf c.savings) ++ rest) =
      some ⟨read, true, rest⟩ ∧ read.values = c.values.take c.count.toNat ∧ read.m_typeName = target.m_typeName ∧
        read.m_valueTypeName = c.m_valueTypeName := by
  have length : (c.values.take c.count.toNat).length = c.count.toNat :=
    List.length_take_of_le (toNat_count_le c.values.length)
  have own (value) (here : value ∈ c.values.take c.count.toNat) : value.type = c.m_valueType := by
    obtain ⟨bytes, same⟩ := saved _ (List.mem_map_of_mem here)
    exact (saveVariant_saved.mp same).1
  have read : checked c.count.toNat (m.load (m.fromName c.m_valueTypeName)) (bytesOf c.savings ++ rest) =
        some ⟨(c.values.take c.count.toNat).map QVariant.data, true, rest⟩ ∧
      ((c.values.take c.count.toNat).map QVariant.data).map (.mk (m.fromName c.m_valueTypeName)) = c.values.take c.count.toNat := by
    by_cases unnamed : c.m_valueTypeName = noName
    · have zero : c.count.toNat = 0 := by rw [known unnamed]; rfl
      simp [savings, zero, checked, bytesOf, pure_apply]
    · rw [← c.named unnamed]
      have loaded := reads_variants saved own rest
      rw [length] at loaded
      refine ⟨loaded, ?_⟩
      rw [List.map_map]
      exact (List.map_congr_left fun value here => by simp [← own value here]).trans (List.map_id _)
  rw [List.append_assoc, List.append_assoc, get_put, read.1]
  exact ⟨_, rfl, read.2, rfl, rfl⟩

omit [DecidableEq T] in
/-- A type without a name cannot be loaded. -/
theorem get_unnamed (unnamed : c.m_valueTypeName = noName) (some : n ≠ 0) : ∃ read : SequentialContainer m,
    target.get (putName c.m_valueTypeName ++ (putCount n ++ more)) = .some ⟨read, false, more⟩ ∧ read.values = [] ∧
      read.m_valueTypeName = c.m_valueTypeName := by
  obtain ⟨k, positive⟩ := exists_toNat_succ some
  obtain ⟨data, failed⟩ := m.invalid_load more
  rw [get_put, unnamed, positive]
  simp only [checked, failed, Option.bind_some, Bool.false_eq_true, if_false, Option.map_some]
  exact ⟨_, rfl, rfl, rfl⟩

omit [DecidableEq T] in
/-- What a reader finds after a failure of the writer. -/
theorem get_empty (rest : List UInt8) : ∃ read : SequentialContainer m,
    target.get (putName c.m_valueTypeName ++ putCount 0 ++ rest) = some ⟨read, true, rest⟩ ∧
    read.values = [] ∧ read.m_valueTypeName = c.m_valueTypeName := by
  rw [List.append_assoc, get_put]
  exact ⟨_, rfl, rfl, rfl⟩

theorem roundTrip_iff (c target : SequentialContainer m) : c.RoundTrip target ↔ c.Fits target := by
  unfold RoundTrip Fits put
  simp only [putContainer_iff, forall_const]
  by_cases saved : Saved c.savings
  · simp only [saved, not_breaks saved, not_true_eq_false, true_and, false_and, or_false, forall_const, false_implies, and_true]
    by_cases lost : c.m_valueTypeName = noName ∧ c.count ≠ 0
    · refine iff_of_true (fun rest => ?_) (.inl lost)
      obtain ⟨read, done, empty, named⟩ := get_unnamed target (n := c.count) lost.1 lost.2
      rw [List.append_assoc, List.append_assoc]
      exact ⟨_, done, named, nofun, fun _ => empty⟩
    · rw [or_iff_right lost]
      have known (unnamed : c.m_valueTypeName = noName) : c.count = 0 := by_contra fun some => lost ⟨unnamed, some⟩
      constructor
      · intro returns
        obtain ⟨item, found, _, same, _⟩ := returns []
        obtain ⟨read, done, values, typeName, _⟩ := get_saved target [] saved known
        obtain rfl := Option.some.inj (done.symm.trans found)
        obtain ⟨typeName', values', _⟩ := same rfl
        refine ⟨?_, typeName'.symm.trans typeName⟩
        have whole := congrArg List.length (values.symm.trans values')
        rw [List.length_take] at whole
        have := c.count.toNat_lt
        omega
      · rintro ⟨small, typeName⟩ rest
        obtain ⟨read, done, values, typeName', named⟩ := get_saved target rest saved known
        have all : c.count.toNat = c.values.length := by
          exact Variants.toNat_count small
        rw [all, List.take_length] at values
        exact ⟨_, done, named, fun _ => ⟨typeName'.trans typeName.symm, values, rfl⟩, fun failed => absurd rfl failed⟩
  · simp only [saved, false_and, false_or, false_implies, not_false_eq_true, forall_const, true_and, and_true]
    refine and_iff_left_of_imp fun _ rest => ?_
    obtain ⟨read, done, empty, named⟩ := get_empty (c := c) target rest
    exact ⟨_, done, named, empty, rfl⟩

end SequentialContainer

namespace MetaTypes
variable {keyType valueType : T} {text : K}

omit [DecidableEq T] in
/-- What a key is written as, and what comes of it: the text of its entry and the key itself. -/
def wireKey (m : MetaTypes T D K) (keyType : T) (text : K) : D :=
  if m.isEnumeration keyType then m.intKey keyType text else m.ofText text

def readText (m : MetaTypes T D K) (keyType : T) (text : K) : K :=
  if m.isEnumeration keyType then m.retold keyType text else text

def readKey (m : MetaTypes T D K) (keyType : T) (text : K) : QVariant T D :=
  if m.isEnumeration keyType then ⟨keyType, m.enumKey keyType text⟩ else ⟨m.qString, m.ofText text⟩

theorem saveKey_saved : m.saveKey keyType text = some (bytes, true) ↔
    (m.isEnumeration keyType ∨ keyType = m.qString) ∧ m.save (m.transferType keyType) (m.wireKey keyType text) = (bytes, true) := by
  by_cases enumeration : m.isEnumeration keyType
  · simp [saveKey, wireKey, enumeration]
  · simp [saveKey, wireKey, transferType, enumeration]

variable [LinearOrder K]

omit [DecidableEq T] in
theorem insertEntry_wireKey {value : D} {s : List (K × QVariant T D) × List (QVariant T D)}
    (known : m.isEnumeration keyType ∨ keyType = m.qString) :
    m.insertEntry keyType valueType (m.wireKey keyType text) value s =
      (insert (m.readText keyType text) ⟨valueType, value⟩ s.1, s.2 ++ [m.readKey keyType text]) := by
  by_cases enumeration : m.isEnumeration keyType
  · simp [insertEntry, wireKey, readText, readKey, retold, enumKey, enumeration]
  · obtain rfl := known.resolve_left enumeration
    simp [insertEntry, wireKey, readText, readKey, enumeration, m.toText_ofText]

/-- The calls of `save` for entries. -/
def saveEntries (m : MetaTypes T D K) (keyType valueType : T) (entries : List (K × QVariant T D)) : List Saving :=
  entries.flatMap fun entry => [m.saveKey keyType entry.1, saveVariant m valueType entry.2]

theorem loadEntries_saved (entries : List (K × QVariant T D)) (map : List (K × QVariant T D)) (keys : List (QVariant T D))
    (saved : Saved (m.saveEntries keyType valueType entries)) :
    Reads (m.loadEntries keyType valueType entries.length (map, keys)) (bytesOf (m.saveEntries keyType valueType entries))
      (insertAll map (entries.map fun entry => (m.readText keyType entry.1, entry.2)),
        keys ++ entries.map fun entry => m.readKey keyType entry.1) := by
  induction entries generalizing map keys with
  | nil =>
    intro rest
    simp [saveEntries, bytesOf, loadEntries, insertAll, pure_apply]
  | cons entry entries ih =>
    obtain ⟨⟨first, keySaved⟩, saved⟩ := saved_cons.mp saved
    obtain ⟨⟨second, valueSaved⟩, saved⟩ := saved_cons.mp saved
    obtain ⟨known, key⟩ := saveKey_saved.mp keySaved
    obtain ⟨own, value⟩ := saveVariant_saved.mp valueSaved
    have written : bytesOf (m.saveEntries keyType valueType (entry :: entries)) =
        first ++ (second ++ bytesOf (m.saveEntries keyType valueType entries)) := by
      simp [saveEntries, bytesOf, keySaved, valueSaved]
    intro rest
    simp only [List.length_cons, loadEntries, written, List.append_assoc, m.load_save _ _ _ key _, m.load_save _ _ _ value _,
      Option.bind_some, if_true, insertEntry_wireKey known]
    subst own
    exact (ih (insert (m.readText keyType entry.1) entry.2 map) (keys ++ [m.readKey keyType entry.1]) saved rest).trans (by simp [insertAll])

end MetaTypes

namespace AssociativeContainer
variable [LinearOrder K] {c : AssociativeContainer m} (target : AssociativeContainer m) {n : UInt32}

omit [DecidableEq T] in
theorem keysFit_iff : c.KeysFit ↔ c.m_keys = c.map.map (fun entry => m.readKey c.m_keyType entry.1) ∧
    insertAll [] (c.map.map fun entry => (m.readText c.m_keyType entry.1, entry.2)) = c.map := by
  by_cases enumeration : m.isEnumeration c.m_keyType
  · simp [KeysFit, MetaTypes.readKey, MetaTypes.readText, enumeration]
  · simp [KeysFit, MetaTypes.readKey, MetaTypes.readText, enumeration, insertAll_sorted c.sorted]

omit [DecidableEq T] in
theorem get_put (keyName valueName : TypeName) : target.get (putName keyName ++ (putName valueName ++ (putCount n ++ more))) =
    (m.loadEntries (m.fromName keyName) (m.fromName valueName) n.toNat ([], []) more).map fun item =>
      ⟨⟨target.m_typeName, keyName, valueName, item.value.1, item.value.2⟩, item.ok, item.rest⟩ := by
  rw [get, (reads_name keyName).head, (reads_name valueName).head, (reads_count n).head, bind_apply]
  cases m.loadEntries (m.fromName keyName) (m.fromName valueName) n.toNat ([], []) more <;> simp [pure_apply]

theorem get_saved (rest : List UInt8) (saved : Saved c.savings) (known : c.m_keyTypeName = noName → c.count = 0) :
    target.get (putName c.m_keyTypeName ++ putName c.m_valueTypeName ++ (putCount c.count ++ bytesOf c.savings) ++ rest) =
      some ⟨⟨target.m_typeName, c.m_keyTypeName, c.m_valueTypeName,
        insertAll [] ((c.map.take c.count.toNat).map fun entry => (m.readText c.m_keyType entry.1, entry.2)),
        (c.map.take c.count.toNat).map fun entry => m.readKey c.m_keyType entry.1⟩, true, rest⟩ := by
  have length : (c.map.take c.count.toNat).length = c.count.toNat :=
    List.length_take_of_le (toNat_count_le c.map.length)
  rw [List.append_assoc, List.append_assoc, List.append_assoc, get_put]
  by_cases unnamed : c.m_keyTypeName = noName
  · have zero : c.count.toNat = 0 := by rw [known unnamed]; rfl
    simp [savings, zero, MetaTypes.loadEntries, bytesOf, insertAll, pure_apply]
  · have loaded := MetaTypes.loadEntries_saved _ [] [] saved rest
    obtain ⟨keyType, valueType⟩ := c.named unnamed
    rw [length] at loaded
    rw [← keyType, ← valueType]
    exact congrArg _ loaded

omit [DecidableEq T] in
theorem get_unnamed (unnamed : c.m_keyTypeName = noName) (some : n ≠ 0) :
    target.get (putName c.m_keyTypeName ++ putName c.m_valueTypeName ++ (putCount n ++ more)) =
      .some ⟨⟨target.m_typeName, c.m_keyTypeName, c.m_valueTypeName, [], []⟩, false, more⟩ := by
  obtain ⟨k, positive⟩ := exists_toNat_succ some
  obtain ⟨data, failed⟩ := m.invalid_load more
  rw [List.append_assoc, get_put, unnamed, positive]
  simp [MetaTypes.loadEntries, MetaTypes.transferType, m.invalid_enumeration, failed]

omit [DecidableEq T] in
theorem get_empty (rest : List UInt8) : target.get (putName c.m_keyTypeName ++ putName c.m_valueTypeName ++ putCount 0 ++ rest) =
    some ⟨⟨target.m_typeName, c.m_keyTypeName, c.m_valueTypeName, [], []⟩, true, rest⟩ := by
  rw [List.append_assoc, List.append_assoc, get_put]
  rfl

theorem roundTrip_iff (c target : AssociativeContainer m) : c.RoundTrip target ↔ c.Fits target := by
  unfold RoundTrip Fits put
  simp only [putContainer_iff, forall_const]
  by_cases saved : Saved c.savings
  · simp only [saved, not_breaks saved, not_true_eq_false, true_and, false_and, or_false, forall_const, false_implies, and_true]
    by_cases lost : c.m_keyTypeName = noName ∧ c.count ≠ 0
    · refine iff_of_true (fun rest => ?_) (.inl lost)
      rw [List.append_assoc (putName _ ++ putName _), List.append_assoc (putCount _)]
      exact ⟨_, get_unnamed target lost.1 lost.2, rfl, rfl, nofun, fun _ => ⟨rfl, rfl⟩⟩
    · rw [or_iff_right lost, keysFit_iff]
      have known (unnamed : c.m_keyTypeName = noName) : c.count = 0 := by_contra fun some => lost ⟨unnamed, some⟩
      have all (small : c.map.length < 2 ^ 32) : c.map.take c.count.toNat = c.map := by
        rw [count, Variants.toNat_count small, List.take_length]
      constructor
      · intro returns
        obtain ⟨item, found, _, _, same, _⟩ := returns []
        obtain rfl := Option.some.inj ((get_saved target [] saved known).symm.trans found)
        obtain ⟨typeName, keys, map, _⟩ := same rfl
        have small : c.map.length < 2 ^ 32 := by
          have shorter := length_insertAll_le.trans_eq' (congrArg List.length map)
          have := c.count.toNat_lt
          simp at shorter
          omega
        rw [all small] at keys map
        exact ⟨small, typeName.symm, keys.symm, map⟩
      · rintro ⟨small, typeName, keys, map⟩ rest
        have read := get_saved target rest saved known
        rw [all small, map, ← keys] at read
        exact ⟨_, read, rfl, rfl, fun _ => ⟨typeName.symm, rfl, rfl, rfl⟩, fun failed => absurd rfl failed⟩
  · simp only [saved, false_and, false_or, false_implies, not_false_eq_true, forall_const, true_and, and_true]
    exact and_iff_left_of_imp fun _ rest => ⟨_, get_empty target rest, rfl, rfl, ⟨rfl, rfl⟩, rfl⟩

end AssociativeContainer
end Reading

theorem roundTrips_iff {T D K : Type} [DecidableEq T] [LinearOrder K] (m : MetaTypes T D K) :
    (∀ c target : SequentialContainer m, c.RoundTrip target ↔ c.Fits target) ∧
      ∀ c target : AssociativeContainer m, c.RoundTrip target ↔ c.Fits target :=
  ⟨SequentialContainer.roundTrip_iff, AssociativeContainer.roundTrip_iff⟩

namespace Sample

inductive MetaType
  | invalid
  | qString
  | qint8
  | color
deriving DecidableEq

inductive Datum
  | none
  | text (text : List Char)
  | integer (value : UInt8)
  | enumerator (value : UInt8)
deriving DecidableEq

def colorName : TypeName := ⟨Variants.latin1 "Color", by decide⟩

def qint8Name : TypeName := ⟨Variants.latin1 "qint8", by decide⟩

/-- The number in a text, or zero. -/
def toInteger (text : List Char) : UInt8 :=
  if text.all Char.isDigit then text.foldl (fun n c => 10 * n + .ofNat (c.toNat - 48)) 0 else 0

def convert : MetaType → Datum → Datum
  | .qint8, .text text => .integer (toInteger text)
  | .color, .integer value => .enumerator value
  | _, _ => .none

def toText : Datum → List Char
  | .none => []
  | .text text => text
  | .integer value => (toString value.toNat).toList
  | .enumerator 0 => "Red".toList
  | .enumerator 1 => "Green".toList
  | .enumerator _ => []

def load : MetaType → Reader UInt8 Datum
  | .qint8, value :: rest => some ⟨.integer value, true, rest⟩
  | _, bytes => some ⟨.none, false, bytes⟩

def save : MetaType → Datum → List UInt8 × Bool
  | .qint8, .integer value => ([value], true)
  | _, _ => ([], false)

/-- An enumeration of two colors, and the integers that it is written as. -/
def metaTypes : MetaTypes MetaType Datum (List Char) where
  fromName name := if name = colorName then .color else if name = qint8Name then .qint8 else .invalid
  save := save
  load := load
  load_save type data bytes saved := by
    intro rest
    match type, data with
    | .qint8, .integer value =>
      obtain rfl : bytes = [value] := (congrArg Prod.fst saved).symm
      rfl
    | .qint8, .none | .qint8, .text _ | .qint8, .enumerator _ | .invalid, _ | .qString, _ | .color, _ => simp [save] at saved
  isEnumeration type := type = .color
  transferTypeForEnum _ := .qint8
  isFlag _ := false
  convert _ type data := convert type data
  qString := .qString
  ofText := .text
  toText _ data := toText data
  toText_ofText _ := rfl
  invalid_enumeration := by decide
  invalid_load bytes := ⟨.none, by rw [if_neg (by decide), if_neg (by decide)]; cases bytes <;> rfl⟩

/-- The number of a color. -/
def colors (name : String) (key : UInt8) : AssociativeContainer metaTypes where
  map := [(name.toList, ⟨.qint8, .integer 7⟩)]
  sorted := List.pairwise_singleton _ _
  m_keys := [⟨.color, .enumerator key⟩]
  m_keyType := .color
  m_valueType := .qint8
  m_typeName := noName
  m_keyTypeName := colorName
  m_valueTypeName := qint8Name
  named _ := by decide

end Sample

/-- The enumerator is written as zero. -/
theorem green_read_as_red : ¬ (Sample.colors "Green" 1).RoundTrip (Sample.colors "Red" 0) := by
  intro returns
  have fits := (AssociativeContainer.roundTrip_iff _ _).mp returns
  have saved : Saved (Sample.colors "Green" 1).savings := by
    have written : (Sample.colors "Green" 1).savings = [some ([0], true), some ([7], true)] := by decide
    exact written ▸ saved_cons.mpr ⟨⟨_, rfl⟩, saved_cons.mpr ⟨⟨_, rfl⟩, nofun⟩⟩
  rcases fits.2 saved with ⟨unnamed, _⟩ | ⟨_, _, keys⟩
  · exact absurd unnamed (by decide)
  · exact absurd (congrArg (List.map Prod.fst) keys.2) (by decide)

end RemoteObjects.Packet.FallbackContainers
