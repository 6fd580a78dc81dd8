import Mathlib.Algebra.Order.BigOperators.Group.List
import Mathlib.Data.Char
import Mathlib.Data.List.Lex
import RemoteObjects.Packet.VariantRoundTrip
import RemoteObjects.SortedMap

/-! Maps that pass a node on which their type is not registered. A `QtROAssociativeContainer`
has the values in the order of the texts of their keys, and the keys in the order in which they
came; a proxy puts the two together again. -/
namespace RemoteObjects.Packet.Variants
open Wire Reader SortedMap
open QtStream (ByteOrder)

section Model
variable (X K : Type)

structure AssociativeContainer where
  m_typeName : Name
  m_keyTypeName : Name
  m_valueTypeName : Name
  map : List (K × Value X)
  m_keys : List (Value X)

variable {X K}

def descopedName (type : Name) : Name := (type.reverse.takeWhile (· ≠ 58)).reverse

def Enumeration.isFlag (e : Enumeration) (type : Name) : Bool :=
  e.scope.any fun metaObject => metaObject.flags.any fun flag => flag.2 = descopedName type

/-- Two parallel lists, as far as both go. -/
def Entries.ofLists : List (Value X) → List (Value X) → Entries X
  | key :: keys, value :: values => .cons key value (ofLists keys values)
  | _, _ => .nil

namespace Registry
variable [LinearOrder K] (s : Registry X) (toString : Name → Value X → K)

/-- An entry that was read: flags have their number as text, other enumerations that of their key. -/
def insertEntry (c : AssociativeContainer X K) (key value : Value X) : AssociativeContainer X K :=
  match s.kind c.m_keyTypeName, key with
  | some (.enumeration e), .integer n =>
    let enumKey : Value X := .integer (wrap e.size e.isUnsigned n)
    let text := if e.isFlag c.m_keyTypeName then toString (transferType e.size) key else toString c.m_keyTypeName enumKey
    { c with map := insert text value c.map, m_keys := c.m_keys ++ [enumKey] }
  | _, _ => { c with map := insert (toString c.m_keyTypeName key) value c.map, m_keys := c.m_keys ++ [key] }

/-- `transferType.load`. -/
def loadTransferred (load : Name → Value X → Reader UInt8 (Value X)) (keyType : Name) (key : Value X) :
    Reader UInt8 (Value X) :=
  match s.kind keyType with
  | some (.enumeration e) => .integer <$> getInteger .bigEndian e.size
  | _ => load keyType key

def loadContainer (loadKey load : Value X → Reader UInt8 (Value X)) :
    Nat → Value X → Value X → AssociativeContainer X K → Reader UInt8 (AssociativeContainer X K)
  | 0, _, _, c => pure c
  | count + 1, key, value, c => do
    let key ← loadKey key
    let value ← load value
    loadContainer loadKey load count key value (s.insertEntry toString c key value)

/-- `operator>>`: where the type of the keys or of the values is not known, the map stays empty. -/
def readContainer (load : Name → Value X → Reader UInt8 (Value X)) (typeName : Name) :
    Reader UInt8 (AssociativeContainer X K) := do
  let keyTypeName ← (byteArray .bigEndian).get
  let valueTypeName ← (byteArray .bigEndian).get
  let count ← ByteOrder.bigEndian.quint32.get
  let isKnown := (s.kind keyTypeName).isSome && (s.kind valueTypeName).isSome
  s.loadContainer toString (s.loadTransferred load keyTypeName) (load valueTypeName) (if isKnown then count.toNat else 0)
    (s.default keyTypeName) (s.default valueTypeName) ⟨typeName, keyTypeName, valueTypeName, [], []⟩

/-- `decodeVariant` where the type of the map is not registered. -/
def decodeContainer (load : Name → Value X → Reader UInt8 (Value X)) : Encoded X → Option (AssociativeContainer X K)
  | .qas typeName _ _ values =>
    match s.kind typeName with
    | none => (s.readContainer toString load typeName values).map Item.value
    | some _ => none
  | _ => none

omit [LinearOrder K] in
/-- `QAS_` of a container: as many of the keys as there are values. -/
def encodeContainer (c : AssociativeContainer X K) : Encoded X :=
  .qas c.m_typeName c.m_keyTypeName c.m_valueTypeName (putAssociation c.m_keyTypeName c.m_valueTypeName c.map.length
    (s.saveEntries c.m_keyTypeName c.m_valueTypeName (.ofLists c.m_keys (c.map.map Prod.snd))))

/-- A map of the owner, through a proxy, where its type is registered. -/
def throughProxy [DecidableEq X] (proxy : Registry X) (fuel : Nat) (type : Name) (entries : Entries X) : Option (Decoded X) :=
  (proxy.decodeContainer toString (proxy.load fuel .bigEndian) (s.encodeVariant type (.association entries))).bind fun c =>
    s.decodeVariant (s.load fuel .bigEndian) (proxy.encodeContainer c) type

end Registry
end Model

section Statement
variable {X K : Type}

def Entries.pairs : Entries X → List (Value X × Value X)
  | .nil => []
  | .cons key value entries => (key, value) :: entries.pairs

/-- Both maps have the same value for each key. -/
def SameAssociation (a b : Entries X) : Prop := ∀ entry, entry ∈ a.pairs ↔ entry ∈ b.pairs

/-- The proxy streams the keys and the values of a map as their owner does. -/
structure Carries (s proxy : Registry X) (key mapped : Name) (entries : Entries X) : Prop where
  keys : ∀ entry ∈ entries.pairs, proxy.Saved key entry.1 ∧ proxy.save .bigEndian key entry.1 = s.save .bigEndian key entry.1
  values : ∀ entry ∈ entries.pairs,
    proxy.Saved mapped entry.2 ∧ proxy.save .bigEndian mapped entry.2 = s.save .bigEndian mapped entry.2

/-- No two keys have the same text, and the order of these texts does not move any value. -/
def TextsFit [LinearOrder K] (text : Value X → K) (entries : Entries X) : Prop :=
  (entries.pairs.map fun entry => text entry.1).Nodup ∧
    (entries.pairs.insertionSort fun a b => text a.1 ≤ text b.1).map Prod.snd = entries.pairs.map Prod.snd

instance [DecidableEq X] (a b : Entries X) : Decidable (SameAssociation a b) :=
  decidable_of_iff (a.pairs ⊆ b.pairs ∧ b.pairs ⊆ a.pairs)
    ⟨fun same _ => ⟨fun member => same.1 member, fun member => same.2 member⟩,
      fun same => ⟨fun entry => (same entry).mp, fun entry => (same entry).mpr⟩⟩

instance [DecidableEq X] [LinearOrder K] (text : Value X → K) (entries : Entries X) : Decidable (TextsFit text entries) := by
  unfold TextsFit
  infer_instance

end Statement

section Pairs
variable {X : Type} {s : Registry X} {key mapped : Name}

theorem Entries.length_pairs (es : Entries X) : es.pairs.length = es.length := by
  cases es with
  | nil => rfl
  | cons _ _ es => exact congrArg (· + 1) es.length_pairs

theorem Entries.keys_pairs (es : Entries X) : es.keys = es.pairs.map Prod.fst := by
  cases es with
  | nil => rfl
  | cons key _ es => exact congrArg (key :: ·) es.keys_pairs

theorem Entries.depth_lt {fuel : Nat} (positive : 0 < fuel) (es : Entries X) :
    es.depth < fuel ↔ ∀ entry ∈ es.pairs, entry.1.depth < fuel ∧ entry.2.depth < fuel := by
  cases es with
  | nil => exact iff_of_true positive fun _ member => absurd member List.not_mem_nil
  | cons key value es =>
    rw [Entries.depth, Entries.pairs, List.forall_mem_cons, ← es.depth_lt positive, Nat.max_lt, Nat.max_lt]

theorem Registry.associates_iff (es : Entries X) : s.Associates key mapped es ↔ ∀ entry ∈ es.pairs,
    ((∃ e n, s.kind key = some (.enumeration e) ∧ entry.1 = .integer n ∧ InRange e.size e.isUnsigned n) ∨
      s.Saved key entry.1) ∧ s.Saved mapped entry.2 := by
  cases es with
  | nil => exact iff_of_true (by rw [Registry.Associates]; trivial) fun _ member => absurd member List.not_mem_nil
  | cons key' value es =>
    rw [Registry.Associates, Entries.pairs, List.forall_mem_cons, ← Registry.associates_iff es, and_assoc]

theorem Registry.saveEntries_eq (es : Entries X) : s.saveEntries key mapped es = es.pairs.flatMap fun entry =>
    s.transferKey key (s.save .bigEndian key entry.1) entry.1 ++ s.save .bigEndian mapped entry.2 := by
  cases es with
  | nil =>
    rw [Registry.saveEntries]
    rfl
  | cons k v es =>
    rw [Registry.saveEntries, Entries.pairs, List.flatMap_cons, ← Registry.saveEntries_eq es, List.append_assoc]

theorem Entries.pairs_ofLists (keys values : List (Value X)) : (ofLists keys values).pairs = keys.zip values := by
  induction keys generalizing values with
  | nil => rfl
  | cons key keys ih =>
    cases values with
    | nil => rfl
    | cons value values => rw [ofLists, pairs, ih, List.zip_cons_cons]

theorem map_fst_zip_sublist (keys values : List (Value X)) : ((keys.zip values).map Prod.fst).Sublist keys := by
  induction keys generalizing values with
  | nil => exact List.Sublist.refl _
  | cons key keys ih =>
    cases values with
    | nil => exact List.nil_sublist _
    | cons value values => exact (ih values).cons_cons key

/-- Lists that are put together are no longer than by themselves. -/
theorem sum_zip_le (f g : Value X → Nat) (keys values : List (Value X)) :
    ((keys.zip values).map fun entry => f entry.1 + g entry.2).sum ≤ (keys.map f).sum + (values.map g).sum := by
  induction keys generalizing values with
  | nil => exact Nat.zero_le _
  | cons key keys ih =>
    cases values with
    | nil => exact Nat.zero_le _
    | cons value values =>
      have rest := ih values
      simp only [List.zip_cons_cons, List.map_cons, List.sum_cons]
      omega

theorem sum_subperm_le {f : Value X → Nat} {a b : List (Value X)} (sub : a.Subperm b) : (a.map f).sum ≤ (b.map f).sum := by
  obtain ⟨c, perm, sublist⟩ := sub
  rw [← (perm.map f).sum_eq]
  exact (sublist.map f).sum_le_sum fun _ _ => Nat.zero_le _

/-- Any other key is saved by its own type. -/
theorem Registry.transferKey_other (other : ∀ e, s.kind key ≠ some (.enumeration e)) (saved : List UInt8) (k : Value X) :
    s.transferKey key saved k = saved := by
  unfold Registry.transferKey
  split
  · rename_i e n known
    exact absurd known (other e)
  · rfl

end Pairs

section Reading
variable {X K : Type} [LinearOrder K] {toString : Name → Value X → K} {s proxy : Registry X} {key mapped : Name}
  {fuel : Nat}

theorem insertEntry_other {c : AssociativeContainer X K} (other : ∀ e, s.kind c.m_keyTypeName ≠ some (.enumeration e))
    (k v : Value X) : s.insertEntry toString c k v =
      { c with map := insert (toString c.m_keyTypeName k) v c.map, m_keys := c.m_keys ++ [k] } := by
  unfold Registry.insertEntry
  split
  · rename_i e n known
    exact absurd known (other e)
  · rfl

variable [DecidableEq X] (toString)

/-- The entries as the proxy reads them. -/
theorem reads_container {c : AssociativeContainer X K} (named : c.m_keyTypeName = key) (pairs : List (Value X × Value X))
    (saved : ∀ entry ∈ pairs, proxy.Saved key entry.1 ∧ proxy.Saved mapped entry.2)
    (deep : ∀ entry ∈ pairs, entry.1.depth < fuel ∧ entry.2.depth < fuel)
    (bound : (pairs.flatMap fun entry => proxy.save .bigEndian key entry.1 ++ proxy.save .bigEndian mapped entry.2).length < 2 ^ 32)
    (tmpKey tmpValue : Value X) :
    Reads (proxy.loadContainer toString (proxy.loadTransferred (proxy.load fuel .bigEndian) key)
        (proxy.load fuel .bigEndian mapped) pairs.length tmpKey tmpValue c)
      (pairs.flatMap fun entry => proxy.save .bigEndian key entry.1 ++ proxy.save .bigEndian mapped entry.2)
      { c with
        map := insertAll c.map (pairs.map fun entry => (toString key entry.1, entry.2))
        m_keys := c.m_keys ++ pairs.map Prod.fst } := by
  induction pairs generalizing c tmpKey tmpValue with
  | nil =>
    simp only [List.map_nil, List.append_nil, List.flatMap_nil]
    exact reads_pure c
  | cons entry pairs ih =>
    obtain ⟨here, saved⟩ := List.forall_mem_cons.mp saved
    have other := saved_not_enumeration here.1
    obtain ⟨shallow, deep⟩ := List.forall_mem_cons.mp deep
    rw [List.flatMap_cons, List.length_append, List.length_append] at bound
    have readKey := entry.1.returns.loads .bigEndian key fuel tmpKey here.1 shallow.1 (by omega)
    have readValue := entry.2.returns.loads .bigEndian mapped fuel tmpValue here.2 shallow.2 (by omega)
    have transferred : proxy.loadTransferred (proxy.load fuel .bigEndian) key tmpKey = proxy.load fuel .bigEndian key tmpKey := by
      unfold Registry.loadTransferred
      split
      · rename_i e known
        exact absurd known (other e)
      · rfl
    have added : proxy.insertEntry toString c entry.1 entry.2 =
        { c with map := insert (toString key entry.1) entry.2 c.map, m_keys := c.m_keys ++ [entry.1] } := by
      subst named
      exact insertEntry_other other entry.1 entry.2
    have rest := ih (c := { c with map := insert (toString key entry.1) entry.2 c.map, m_keys := c.m_keys ++ [entry.1] })
      named saved deep (by omega) entry.1 entry.2
    rw [List.append_assoc] at rest
    rw [List.flatMap_cons, List.append_assoc, List.length_cons, Registry.loadContainer, transferred]
    refine readKey.bind (readValue.bind ?_)
    rw [added]
    exact rest

omit [LinearOrder K] [DecidableEq X] in
theorem encodeVariant_association {type : Name} (known : s.kind type = some (.association key mapped))
    (other : ∀ e, s.kind key ≠ some (.enumeration e)) (entries : Entries X) : s.encodeVariant type (.association entries) =
      .qas type key mapped (Registry.putAssociation key mapped entries.length (s.saveEntries key mapped entries)) := by
  have unnamed : s.Unnamed type := by
    intro key' mapped' e _ known' enumeration
    obtain ⟨rfl, rfl⟩ : key' = key ∧ mapped' = mapped := by simpa using known'.symm.trans known
    exact absurd enumeration (other e)
  simp only [Registry.encodeVariant, known, sentTypes_unnamed unnamed known]

/-- What the stream of a container says, up to the entries. -/
theorem readContainer_put {type : Name} {count : Nat} {bytes : List UInt8} {c : AssociativeContainer X K}
    (small : count < 2 ^ 32) (bound : (Registry.putAssociation key mapped count bytes).length < 2 ^ 32)
    (read : Reads (proxy.loadContainer toString (proxy.loadTransferred (proxy.load fuel .bigEndian) key)
      (proxy.load fuel .bigEndian mapped) (if (proxy.kind key).isSome && (proxy.kind mapped).isSome then count else 0)
      (proxy.default key) (proxy.default mapped) ⟨type, key, mapped, [], []⟩) bytes c) :
    Reads (proxy.readContainer toString (proxy.load fuel .bigEndian) type) (Registry.putAssociation key mapped count bytes) c := by
  simp only [Registry.putAssociation, List.length_append] at bound
  have keyName := (byteArray .bigEndian).reads key (by omega)
  have valueName := (byteArray .bigEndian).reads mapped (by omega)
  have number := ByteOrder.bigEndian.quint32.reads (UInt32.ofNat count) (by omega)
  refine keyName.bind (valueName.bind (number.bind ?_))
  rw [toNat_count small]
  exact read

/-- A proxy that knows the types of keys and values. -/
theorem decodeContainer_known {type : Name} {entries : Entries X} (known : s.kind type = some (.association key mapped))
    (other : ∀ e, s.kind key ≠ some (.enumeration e)) (unknown : proxy.kind type = none)
    (isKnown : (proxy.kind key).isSome && (proxy.kind mapped).isSome) (carries : Carries s proxy key mapped entries)
    (small : entries.length < 2 ^ 32) (deep : entries.depth < fuel)
    (bound : (Registry.putAssociation key mapped entries.length (s.saveEntries key mapped entries)).length < 2 ^ 32) :
    proxy.decodeContainer toString (proxy.load fuel .bigEndian) (s.encodeVariant type (.association entries)) =
      some ⟨type, key, mapped, insertAll [] (entries.pairs.map fun entry => (toString key entry.1, entry.2)), entries.keys⟩ := by
  have same : s.saveEntries key mapped entries = entries.pairs.flatMap fun entry =>
      proxy.save .bigEndian key entry.1 ++ proxy.save .bigEndian mapped entry.2 := by
    rw [Registry.saveEntries_eq]
    refine List.flatMap_congr fun entry member => ?_
    rw [Registry.transferKey_other other, (carries.keys entry member).2, (carries.values entry member).2]
  have bytes : (s.saveEntries key mapped entries).length < 2 ^ 32 := by
    simp only [Registry.putAssociation, List.length_append] at bound
    omega
  rw [same] at bytes bound
  have read := reads_container toString (c := ⟨type, key, mapped, [], []⟩) rfl entries.pairs
    (fun entry member => ⟨(carries.keys entry member).1, (carries.values entry member).1⟩)
    ((entries.depth_lt (Nat.zero_lt_of_lt deep)).mp deep) bytes (proxy.default key) (proxy.default mapped)
  rw [entries.length_pairs] at read
  have whole := readContainer_put toString small bound (by rw [if_pos isKnown]; exact read)
  rw [encodeVariant_association known other, same]
  simp only [Registry.decodeContainer, unknown]
  rw [whole.exact, Entries.keys_pairs]
  rfl

/-- One that does not gets an empty container. -/
theorem decodeContainer_unknown {type : Name} {entries : Entries X} (known : s.kind type = some (.association key mapped))
    (other : ∀ e, s.kind key ≠ some (.enumeration e)) (unknown : proxy.kind type = none)
    (notKnown : ¬ ((proxy.kind key).isSome && (proxy.kind mapped).isSome)) (small : entries.length < 2 ^ 32)
    (bound : (Registry.putAssociation key mapped entries.length (s.saveEntries key mapped entries)).length < 2 ^ 32) :
    proxy.decodeContainer toString (proxy.load fuel .bigEndian) (s.encodeVariant type (.association entries)) =
      some ⟨type, key, mapped, [], []⟩ := by
  -- the entries stay unread
  have split : Registry.putAssociation key mapped entries.length (s.saveEntries key mapped entries) =
      Registry.putAssociation key mapped entries.length [] ++ s.saveEntries key mapped entries := by
    simp only [Registry.putAssociation, List.append_nil, List.append_assoc]
  rw [split, List.length_append] at bound
  have whole : Reads (proxy.readContainer toString (proxy.load fuel .bigEndian) type)
      (Registry.putAssociation key mapped entries.length []) ⟨type, key, mapped, [], []⟩ :=
    readContainer_put toString small (Nat.lt_of_le_of_lt (Nat.le_add_right _ _) bound) (by rw [if_neg notKnown]; exact reads_pure _)
  rw [encodeVariant_association known other, split]
  simp only [Registry.decodeContainer, unknown]
  rw [whole]
  rfl

end Reading

section Back
variable {X K : Type} {s proxy : Registry X} {key mapped : Name} {fuel : Nat} {entries es : Entries X}

/-- Each key and each value is one of the map. -/
def Entries.Among (es entries : Entries X) : Prop :=
  ∀ entry ∈ es.pairs, (∃ a ∈ entries.pairs, a.1 = entry.1) ∧ ∃ a ∈ entries.pairs, a.2 = entry.2

theorem Entries.Among.saved (among : es.Among entries) (carries : Carries s proxy key mapped entries)
    (other : ∀ e, s.kind key ≠ some (.enumeration e)) : proxy.saveEntries key mapped es = s.saveEntries key mapped es := by
  rw [Registry.saveEntries_eq, Registry.saveEntries_eq]
  refine List.flatMap_congr fun entry member => ?_
  obtain ⟨⟨a, inside, isKey⟩, b, inside', isValue⟩ := among entry member
  obtain ⟨keySaved, keySame⟩ := carries.keys a inside
  rw [Registry.transferKey_other (saved_not_enumeration keySaved), Registry.transferKey_other other, ← isKey, ← isValue,
    keySame, (carries.values b inside').2]

theorem Entries.Among.associates (among : es.Among entries) (associates : s.Associates key mapped entries) :
    s.Associates key mapped es := by
  refine (Registry.associates_iff es).mpr fun entry member => ?_
  obtain ⟨⟨a, inside, isKey⟩, b, inside', isValue⟩ := among entry member
  have each := (Registry.associates_iff entries).mp associates
  rw [← isKey, ← isValue]
  exact ⟨(each a inside).1, (each b inside').2⟩

theorem Entries.Among.depth_lt (among : es.Among entries) (deep : entries.depth < fuel) : es.depth < fuel := by
  have positive := Nat.zero_lt_of_lt deep
  refine (es.depth_lt positive).mpr fun entry member => ?_
  obtain ⟨⟨a, inside, isKey⟩, b, inside', isValue⟩ := among entry member
  have each := (entries.depth_lt positive).mp deep
  rw [← isKey, ← isValue]
  exact ⟨(each a inside).1, (each b inside').2⟩

variable {values : List (Value X)} (sub : values.Subperm (entries.pairs.map Prod.snd))
include sub

theorem ofLists_among : (Entries.ofLists entries.keys values).Among entries := by
  intro entry member
  rw [Entries.pairs_ofLists, Entries.keys_pairs] at member
  obtain ⟨isKey, isValue⟩ := List.of_mem_zip (a := entry.1) (b := entry.2) member
  exact ⟨List.mem_map.mp isKey, List.mem_map.mp (sub.subset isValue)⟩

theorem length_ofLists : (Entries.ofLists entries.keys values).length = values.length := by
  have shorter := sub.length_le
  rw [← Entries.length_pairs, Entries.pairs_ofLists, List.length_zip, Entries.keys_pairs, List.length_map]
  rw [List.length_map] at shorter
  omega

theorem length_saveEntries_ofLists (other : ∀ e, s.kind key ≠ some (.enumeration e)) :
    (s.saveEntries key mapped (.ofLists entries.keys values)).length ≤ (s.saveEntries key mapped entries).length := by
  simp only [Registry.saveEntries_eq, List.length_flatMap, List.length_append, Registry.transferKey_other other,
    Entries.pairs_ofLists]
  refine (sum_zip_le (fun k => (s.save .bigEndian key k).length) (fun v => (s.save .bigEndian mapped v).length) _ _).trans ?_
  have less := sum_subperm_le (f := fun v => (s.save .bigEndian mapped v).length) sub
  rw [List.map_map] at less
  rw [List.sum_map_add, Entries.keys_pairs, List.map_map]
  exact Nat.add_le_add_left less _

/-- Where the type is registered again, the first keys have the values in their new order. -/
theorem decodeVariant_encodeContainer [DecidableEq X] {type : Name} {c : AssociativeContainer X K}
    (typed : s.HasType type (.association entries)) (known : s.kind type = some (.association key mapped))
    (other : ∀ e, s.kind key ≠ some (.enumeration e)) (carries : Carries s proxy key mapped entries)
    (deep : entries.depth < fuel)
    (bound : (Registry.putAssociation key mapped entries.length (s.saveEntries key mapped entries)).length < 2 ^ 32)
    (names : c.m_typeName = type ∧ c.m_keyTypeName = key ∧ c.m_valueTypeName = mapped)
    (keys : c.m_keys = entries.keys) (held : c.map.map Prod.snd = values) :
    s.decodeVariant (s.load fuel .bigEndian) (proxy.encodeContainer c) type =
      some (.variant type (.association (.ofLists entries.keys values))) := by
  obtain ⟨key', mapped', known', small, distinct, associates⟩ := typed
  obtain ⟨rfl, rfl⟩ : key' = key ∧ mapped' = mapped := by simpa using known'.symm.trans known
  obtain ⟨members, inner⟩ := s.mapped type key' mapped' known
  have count := length_ofLists sub
  have among := ofLists_among sub
  have fewer : (s.saveEntries key' mapped' (.ofLists entries.keys values)).length ≤ (s.saveEntries key' mapped' entries).length :=
    length_saveEntries_ofLists sub other
  have nodup : (Entries.ofLists entries.keys values).keys.Nodup := by
    rw [Entries.keys_pairs, Entries.pairs_ofLists]
    exact distinct.sublist (map_fst_zip_sublist _ _)
  have shorter := sub.length_le
  rw [List.length_map, entries.length_pairs] at shorter
  have length : c.map.length = (Entries.ofLists entries.keys values).length := by rw [count, ← held, List.length_map]
  obtain ⟨typeName, keyTypeName, valueTypeName⟩ := names
  simp only [Registry.encodeContainer, typeName, keyTypeName, valueTypeName, keys, held, among.saved carries other, length,
    Registry.decodeVariant, known]
  generalize Entries.ofLists entries.keys values = es at *
  have within : (Registry.putAssociation key' mapped' es.length (s.saveEntries key' mapped' es)).length < 2 ^ 32 := by
    simp only [Registry.putAssociation, List.length_append, ByteOrder.length_quint32] at bound ⊢
    omega
  refine decodeAssociation_put known inner (by omega) within fun keyType isKeyType tmpKey tmpValue => ?_
  have same : s.SameKey key' keyType := by
    rw [isKeyType]
    split <;> exact .inl rfl
  refine es.entriesReturn key' mapped' key' keyType fuel tmpKey tmpValue .nil (among.associates associates) same (.inl rfl)
    (among.depth_lt deep) ?_ nodup
  simp only [Registry.putAssociation, List.length_append] at within
  omega

end Back

section Main
variable {X K : Type} [LinearOrder K] {toString : Name → Value X → K} {s proxy : Registry X} {type key mapped : Name}
  {fuel : Nat} {entries : Entries X}

/-- The values in the order of the texts of their keys. -/
def Entries.byText (text : Value X → K) (entries : Entries X) : List (K × Value X) :=
  insertAll [] (entries.pairs.map fun entry => (text entry.1, entry.2))

theorem byText_subperm (text : Value X → K) (entries : Entries X) :
    ((entries.byText text).map Prod.snd).Subperm (entries.pairs.map Prod.snd) := by
  have inserted : (entries.byText text).Subperm ([] ++ entries.pairs.map fun entry => (text entry.1, entry.2)) := insertAll_subperm
  obtain ⟨found, perm, sublist⟩ := inserted
  have moved := sublist.map Prod.snd
  rw [List.nil_append, List.map_map] at moved
  exact ⟨found.map Prod.snd, perm.map Prod.snd, moved⟩

theorem eq_of_same_keys {a b : List (Value X × Value X)} (keys : a.map Prod.fst = b.map Prod.fst)
    (distinct : (b.map Prod.fst).Nodup) (among : ∀ entry ∈ a, entry ∈ b) : a = b := by
  have length : a.length = b.length := by simpa using congrArg List.length keys
  refine List.ext_getElem length fun i inside inside' => ?_
  have same : a[i].1 = b[i].1 := by
    have at' := List.getElem_of_eq keys (by rwa [List.length_map])
    rwa [List.getElem_map, List.getElem_map] at at'
  exact List.inj_on_of_nodup_map distinct (among _ (List.getElem_mem inside)) (List.getElem_mem inside') same

theorem sameAssociation_iff (text : Value X → K) (distinct : entries.keys.Nodup) :
    SameAssociation (.ofLists entries.keys ((entries.byText text).map Prod.snd)) entries ↔ TextsFit text entries := by
  have order : (entries.pairs.insertionSort fun a b => text a.1 ≤ text b.1).map (fun entry => (text entry.1, entry.2)) =
      (entries.pairs.map fun entry => (text entry.1, entry.2)).insertionSort (·.1 ≤ ·.1) :=
    List.map_insertionSort _ _ _ _ fun _ _ _ _ => Iff.rfl
  have sorted (apart : (entries.pairs.map fun entry => text entry.1).Nodup) : (entries.byText text).map Prod.snd =
      (entries.pairs.insertionSort fun a b => text a.1 ≤ text b.1).map Prod.snd := by
    rw [Entries.byText, insertAll_eq_insertionSort (by rwa [List.map_map]), ← order, List.map_map]
    rfl
  rw [Entries.keys_pairs] at distinct ⊢
  constructor
  · intro same
    have zipped := map_fst_zip_sublist (entries.pairs.map Prod.fst) ((entries.byText text).map Prod.snd)
    have perm : ((entries.pairs.map Prod.fst).zip ((entries.byText text).map Prod.snd)).Perm entries.pairs := by
      rw [← Entries.pairs_ofLists]
      refine (List.perm_ext_iff_of_nodup ?_ distinct.of_map).mpr same
      rw [Entries.pairs_ofLists]
      exact (distinct.sublist zipped).of_map
    have length := perm.length_eq
    have shorter := (byText_subperm text entries).length_le
    rw [List.length_zip, List.length_map, List.length_map] at length
    rw [List.length_map, List.length_map] at shorter
    have full : (entries.byText text).length = entries.pairs.length := by omega
    have apart : (([] ++ entries.pairs.map fun (entry : Value X × Value X) => (text entry.1, entry.2)).map Prod.fst).Nodup := by
      apply nodup_of_length .nil
      rw [List.length_nil, List.length_map, Nat.zero_add]
      exact full
    rw [List.nil_append, List.map_map] at apart
    have whole := eq_of_same_keys (zipped.eq_of_length (by simp; omega)) distinct fun entry member => perm.mem_iff.mp member
    refine ⟨apart, ?_⟩
    rw [← sorted apart, ← whole, List.map_snd_zip (by simp; omega)]
  · rintro ⟨apart, kept⟩ entry
    rw [Entries.pairs_ofLists, sorted apart, kept, List.zip_map']
    simp

/-- A map that passes a proxy which knows the types of its keys and values. -/
theorem throughProxy_known [DecidableEq X] (typed : s.HasType type (.association entries))
    (known : s.kind type = some (.association key mapped)) (other : ∀ e, s.kind key ≠ some (.enumeration e))
    (unknown : proxy.kind type = none) (isKnown : (proxy.kind key).isSome && (proxy.kind mapped).isSome)
    (carries : Carries s proxy key mapped entries) (deep : entries.depth < fuel)
    (bound : (Registry.putAssociation key mapped entries.length (s.saveEntries key mapped entries)).length < 2 ^ 32) :
    s.throughProxy toString proxy fuel type entries =
      some (.variant type (.association (.ofLists entries.keys ((entries.byText (toString key)).map Prod.snd)))) := by
  have small : entries.length < 2 ^ 32 := typed.choose_spec.choose_spec.2.1
  rw [Registry.throughProxy, decodeContainer_known toString known other unknown isKnown carries small deep bound, Option.bind_some]
  exact decodeVariant_encodeContainer (byText_subperm (toString key) entries) typed known other carries deep bound
    ⟨rfl, rfl, rfl⟩ rfl rfl

/-- One that does not know them makes the map empty. -/
theorem throughProxy_unknown [DecidableEq X] (typed : s.HasType type (.association entries))
    (known : s.kind type = some (.association key mapped)) (other : ∀ e, s.kind key ≠ some (.enumeration e))
    (unknown : proxy.kind type = none) (notKnown : ¬ ((proxy.kind key).isSome && (proxy.kind mapped).isSome))
    (deep : entries.depth < fuel)
    (bound : (Registry.putAssociation key mapped entries.length (s.saveEntries key mapped entries)).length < 2 ^ 32) :
    s.throughProxy toString proxy fuel type entries = some (.variant type (.association .nil)) := by
  have small : entries.length < 2 ^ 32 := typed.choose_spec.choose_spec.2.1
  have typedNil : s.HasType type (.association .nil) :=
    ⟨key, mapped, known, Nat.two_pow_pos 32, List.nodup_nil, by rw [Registry.Associates]; trivial⟩
  have carries : Carries s proxy key mapped .nil := ⟨fun _ member => (nomatch member), fun _ member => (nomatch member)⟩
  rw [Registry.throughProxy, decodeContainer_unknown toString known other unknown notKnown small bound, Option.bind_some]
  refine decodeVariant_encodeContainer (List.Subperm.refl []) typedNil known other carries
    (Nat.zero_lt_of_lt deep) ?_ ⟨rfl, rfl, rfl⟩ rfl rfl
  simp only [Registry.putAssociation, Registry.saveEntries, List.length_append, ByteOrder.length_quint32, List.length_nil] at bound ⊢
  omega

/-- A map with keys of a type other than an enumeration keeps its associations on the way through
a proxy exactly if the proxy knows the types of keys and values and the texts of the keys fit. -/
theorem sameAssociation_throughProxy_iff [DecidableEq X] (typed : s.HasType type (.association entries))
    (known : s.kind type = some (.association key mapped)) (other : ∀ e, s.kind key ≠ some (.enumeration e))
    (unknown : proxy.kind type = none)
    (carries : (proxy.kind key).isSome → (proxy.kind mapped).isSome → Carries s proxy key mapped entries)
    (deep : entries.depth < fuel)
    (bound : (Registry.putAssociation key mapped entries.length (s.saveEntries key mapped entries)).length < 2 ^ 32) :
    (∃ es, s.throughProxy toString proxy fuel type entries = some (.variant type (.association es)) ∧
        SameAssociation es entries) ↔
      entries = .nil ∨ (proxy.kind key).isSome ∧ (proxy.kind mapped).isSome ∧ TextsFit (toString key) entries := by
  by_cases isKnown : (proxy.kind key).isSome && (proxy.kind mapped).isSome
  · obtain ⟨knowsKey, knowsValue⟩ := Bool.and_eq_true_iff.mp isKnown
    obtain ⟨key', mapped', known', _, distinct, _⟩ := id typed
    simp only [throughProxy_known typed known other unknown isKnown (carries knowsKey knowsValue) deep bound,
      Option.some.injEq, Decoded.variant.injEq, true_and, Value.association.injEq, exists_eq_left',
      sameAssociation_iff (toString key) distinct, knowsKey, knowsValue]
    refine ⟨.inr, ?_⟩
    rintro (rfl | fit)
    · exact ⟨List.nodup_nil, rfl⟩
    · exact fit
  · simp only [throughProxy_unknown typed known other unknown isKnown deep bound, Option.some.injEq, Decoded.variant.injEq,
      true_and, Value.association.injEq, exists_eq_left']
    constructor
    · intro same
      cases entries with
      | nil => exact .inl rfl
      | cons k v rest => exact (nomatch (same (k, v)).mpr List.mem_cons_self)
    · rintro (rfl | ⟨knowsKey, knowsValue, _⟩)
      · exact fun _ => Iff.rfl
      · exact absurd (Bool.and_eq_true_iff.mpr ⟨knowsKey, knowsValue⟩) isKnown

end Main

section Examples

def podsMap : Name := latin1 "QMap<int,Pod>"

/-- The types on a proxy, and behind them the one that only the owner has. -/
def storeTypes : List (Name × MetaType) :=
  [(transferType .one, .integer .one), (transferType .two, .integer .two), (transferType .four, .integer .four),
    (latin1 "QByteArray", .leaf), (latin1 "Pod", .gadget [transferType .four, latin1 "QByteArray"])]

def ownerTypes : List (Name × MetaType) := storeTypes ++ [(podsMap, .association (transferType .four) (latin1 "Pod"))]

def store : Registry (List UInt8) := ofTable storeTypes
  { integers := by decide +kernel, wrappers := by decide +kernel, entries := by decide +kernel }

def owner : Registry (List UInt8) := ofTable ownerTypes
  { integers := by decide +kernel, wrappers := by decide +kernel, entries := by decide +kernel }

/-- The text of a number. -/
def decimal (_ : Name) : Value (List UInt8) → List Char
  | .integer n => Nat.toDigits 10 n.toNat
  | _ => []

def podOf (n : Int) : Value (List UInt8) := .gadget (.cons (.integer n) (.cons (.leaf [1]) .nil))

/-- Two numbers with a value each. -/
def podsAt (m n : Int) : Entries (List UInt8) := .cons (.integer m) (podOf m) (.cons (.integer n) (podOf n) .nil)

theorem store_kind (index : Nat) (inside : index < storeTypes.length) :
    store.kind storeTypes[index].1 = some storeTypes[index].2 := by
  have found : ∀ entry ∈ storeTypes, kindOf storeTypes entry.1 = some entry.2 := by decide +kernel
  exact found _ (List.getElem_mem inside)

theorem owner_kind (index : Nat) (inside : index < ownerTypes.length) :
    owner.kind ownerTypes[index].1 = some ownerTypes[index].2 := by
  have found : ∀ entry ∈ ownerTypes, kindOf ownerTypes entry.1 = some entry.2 := by decide +kernel
  exact found _ (List.getElem_mem inside)

theorem podOf_saved {s : Registry (List UInt8)} (int : s.kind (transferType .four) = some (.integer .four))
    (bytes : s.kind (latin1 "QByteArray") = some .leaf)
    (pod : s.kind (latin1 "Pod") = some (.gadget [transferType .four, latin1 "QByteArray"])) (valid : s.valid (latin1 "QByteArray") [1])
    {n : Int} (range : InRange .four false n) : s.Saved (latin1 "Pod") (podOf n) := by
  refine ⟨[transferType .four, latin1 "QByteArray"], pod, ⟨?_, ?_⟩, ⟨?_, ?_⟩, trivial⟩
  · exact .inl ⟨.four, int, range⟩
  · exact keeps_of_kind int fun _ _ => nofun
  · exact ⟨bytes, valid⟩
  · exact keeps_of_kind bytes fun _ _ => nofun

theorem podOf_store {n : Int} (range : InRange .four false n) : store.Saved (latin1 "Pod") (podOf n) :=
  podOf_saved (store_kind 2 (by decide)) (store_kind 3 (by decide)) (store_kind 4 (by decide)) trivial range

theorem podOf_owner {n : Int} (range : InRange .four false n) : owner.Saved (latin1 "Pod") (podOf n) :=
  podOf_saved (owner_kind 2 (by decide)) (owner_kind 3 (by decide)) (owner_kind 4 (by decide)) trivial range

theorem podsAt_hasType {m n : Int} (range : InRange .four false m ∧ InRange .four false n) (apart : m ≠ n) :
    owner.HasType podsMap (.association (podsAt m n)) := by
  have int : owner.kind (transferType .four) = some (.integer .four) := owner_kind 2 (by decide)
  refine ⟨transferType .four, latin1 "Pod", owner_kind 5 (by decide), (by decide : 2 < 2 ^ 32), ?_, ?_,
    podOf_owner range.1, ?_, podOf_owner range.2, trivial⟩
  · simp [podsAt, Entries.keys, apart]
  · exact .inr ⟨.four, int, range.1⟩
  · exact .inr ⟨.four, int, range.2⟩

theorem podsAt_carried {m n : Int} (range : InRange .four false m ∧ InRange .four false n) :
    Carries owner store (transferType .four) (latin1 "Pod") (podsAt m n) := by
  have int : store.kind (transferType .four) = some (.integer .four) := store_kind 2 (by decide)
  constructor
  · exact List.forall_mem_cons.mpr ⟨⟨⟨.four, int, range.1⟩, by rfl⟩, List.forall_mem_singleton.mpr ⟨⟨.four, int, range.2⟩, by rfl⟩⟩
  · exact List.forall_mem_cons.mpr ⟨⟨podOf_store range.1, by rfl⟩, List.forall_mem_singleton.mpr ⟨podOf_store range.2, by rfl⟩⟩

/-- Numbers whose texts are in the order of the map. -/
theorem podsAt_kept : ∃ es, owner.throughProxy decimal store 2 podsMap (podsAt 1 2) = some (.variant podsMap (.association es)) ∧
    SameAssociation es (podsAt 1 2) :=
  have range : InRange .four false 1 ∧ InRange .four false 2 := by decide
  have int : owner.kind (transferType .four) = some (.integer .four) := owner_kind 2 (by decide)
  (sameAssociation_throughProxy_iff (podsAt_hasType range (by decide)) (owner_kind 5 (by decide))
    (fun _ known => absurd (int.symm.trans known) (by simp)) (by decide +kernel) (fun _ _ => podsAt_carried range) (by decide) (by decide +kernel)).mpr
    (.inr ⟨by decide +kernel, by decide +kernel, by decide +kernel⟩)

/-- The text of ten comes before that of two. -/
theorem podsAt_exchanged : owner.throughProxy decimal store 2 podsMap (podsAt 2 10) =
    some (.variant podsMap (.association (.cons (.integer 2) (podOf 10) (.cons (.integer 10) (podOf 2) .nil)))) ∧
    ¬ SameAssociation (.cons (.integer 2) (podOf 10) (.cons (.integer 10) (podOf 2) .nil)) (podsAt 2 10) := by
  decide +kernel

end Examples
end RemoteObjects.Packet.Variants
