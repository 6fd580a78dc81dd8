import RemoteObjects.Packet.Variants

/-! A value that is encoded, streamed, read and decoded is the value again. -/
namespace RemoteObjects.Packet.Variants
open Wire Reader Text
open QtStream (ByteOrder)

section Integers
variable {size : Size} {order : ByteOrder} {n : Int}

/-- The numbers of an integer type or of an enumeration. -/
def InRange (size : Size) (isUnsigned : Bool) (n : Int) : Prop := wrap size isUnsigned n = n

instance (isUnsigned : Bool) : Decidable (InRange size isUnsigned n) := inferInstanceAs (Decidable (wrap size isUnsigned n = n))

/-- The signed transfer type keeps the bits of an unsigned number. -/
theorem wrap_wrap (size : Size) (isUnsigned : Bool) (n : Int) : wrap size isUnsigned (wrap size false n) = wrap size isUnsigned n := by
  unfold wrap
  cases isUnsigned with
  | true => simp
  | false => simp

theorem arrange_arrange (order : ByteOrder) (bytes : List UInt8) : arrange order (arrange order bytes) = bytes := by
  cases order with
  | bigEndian => exact List.reverse_reverse bytes
  | littleEndian => rfl

theorem length_putInteger (order : ByteOrder) (size : Size) (n : Int) : (putInteger order size n).length = size.width := by
  cases order with
  | bigEndian => exact List.length_reverse.trans length_littleEndian
  | littleEndian => exact length_littleEndian

theorem modulus_pos (size : Size) : 0 < size.modulus := Nat.pow_pos (by decide)

theorem reads_integer (order : ByteOrder) (size : Size) (n : Int) :
    Reads (getInteger order size) (putInteger order size n) (wrap size false n) := by
  have bytes := reads_block (putInteger order size n)
  rw [length_putInteger] at bytes
  have value := bytes.map (g := fun bytes => wrap size false (fromLittleEndian (arrange order bytes)))
  have nonneg : 0 ≤ n % size.modulus := Int.emod_nonneg n (by have := modulus_pos size; omega)
  have less : n % size.modulus < size.modulus := Int.emod_lt_of_pos n (by have := modulus_pos size; omega)
  have below : (n % size.modulus).toNat < size.modulus := by omega
  have same : wrap size false (fromLittleEndian (arrange order (putInteger order size n))) = wrap size false n := by
    rw [putInteger, arrange_arrange, fromLittleEndian_littleEndian, ← Size.modulus, Nat.mod_eq_of_lt below,
      Int.toNat_of_nonneg nonneg]
    simp [wrap]
  rwa [same] at value

end Integers

section Typing
variable {X : Type}

mutual

/-- How deep gadgets are nested in each other. -/
def Value.depth : Value X → Nat
  | .leaf _ => 0
  | .integer _ => 0
  | .gadget members => members.depth + 1
  | .sequence elements => elements.depth
  | .association entries => entries.depth

def Values.depth : Values X → Nat
  | .nil => 0
  | .cons value values => max value.depth values.depth

def Entries.depth : Entries X → Nat
  | .nil => 0
  | .cons key value entries => max (max key.depth value.depth) entries.depth

end

def Entries.keys : Entries X → List (Value X)
  | .nil => []
  | .cons key _ entries => key :: entries.keys

def Entries.append : Entries X → Entries X → Entries X
  | .nil, rest => rest
  | .cons key value entries, rest => .cons key value (entries.append rest)

namespace Registry
variable (s : Registry X)

/-- The same type, or enumerations of the same size and sign. -/
def SameKey (a b : Name) : Prop :=
  a = b ∨ ∃ e e', s.kind a = some (.enumeration e) ∧ s.kind b = some (.enumeration e') ∧
    e'.size = e.size ∧ e'.isUnsigned = e.isUnsigned

/-- The type by which a value is looked up. -/
def sentName (type : Name) : Name :=
  match s.kind type with
  | some (.association key _) => (s.sentTypes type key).1
  | _ => type

/-- What a map is looked up as is a map with such keys and the same values. -/
def Readable (type : Name) : Prop :=
  ∀ key mapped, s.kind type = some (.association key mapped) →
    (∃ target, s.kind (s.sentName type) = some (.association target mapped) ∧ s.SameKey key target) ∧
      (s.kind (s.sentTypes type key).2 = none ∨ s.SameKey key (s.sentTypes type key).2)

/-- No map whose keys are an enumeration of a class with class info. -/
def Unnamed (type : Name) : Prop :=
  ∀ key mapped e scope, s.kind type = some (.association key mapped) → s.kind key = some (.enumeration e) →
    e.scope = some scope → scope.typeInfo = none

/-- The type of a member is looked up by its own name. -/
def Keeps (type : Name) : Prop := s.Readable type ∧ s.sentName type = type

mutual

/-- What `QMetaType::save` takes: anything but enumerations and containers of gadgets, whose own
stream operators make leaves of them. -/
def Saved (type : Name) : Value X → Prop
  | .leaf x => s.valid type x ∧ ∀ kind, s.kind type = some kind →
    match kind with
    | .integer _ | .enumeration _ | .gadget _ => False
    | _ => True
  | .integer n => ∃ size, s.kind type = some (.integer size) ∧ InRange size false n
  | .gadget values => ∃ members, s.kind type = some (.gadget members) ∧ HaveTypes members values
  | .sequence _ => False
  | .association _ => False

/-- The values of a type. -/
def HasType (type : Name) : Value X → Prop
  | .leaf x => s.kind type = some .leaf ∧ s.valid type x
  | .integer n => (∃ size, s.kind type = some (.integer size) ∧ InRange size false n) ∨
    ∃ e, s.kind type = some (.enumeration e) ∧ InRange e.size e.isUnsigned n
  | .gadget values => ∃ members, s.kind type = some (.gadget members) ∧ HaveTypes members values
  | .sequence elements => ∃ value, s.kind type = some (.sequence value) ∧ elements.length < 2 ^ 32 ∧ Elements value elements
  | .association entries => ∃ key mapped, s.kind type = some (.association key mapped) ∧ entries.length < 2 ^ 32 ∧
    entries.keys.Nodup ∧ Associates key mapped entries

def HaveTypes : List Name → Values X → Prop
  | [], .nil => True
  | type :: types, .cons value values => (HasType type value ∧ s.Keeps type) ∧ HaveTypes types values
  | _, _ => False

def Elements (type : Name) : Values X → Prop
  | .nil => True
  | .cons value values => Saved type value ∧ Elements type values

/-- Keys are of any type, enumerations included. -/
def Associates (key mapped : Name) : Entries X → Prop
  | .nil => True
  | .cons k value entries => ((∃ e n, s.kind key = some (.enumeration e) ∧ k = .integer n ∧ InRange e.size e.isUnsigned n) ∨
      Saved key k) ∧ Saved mapped value ∧ Associates key mapped entries

end

end Registry
end Typing

section Pieces
variable {X : Type} [DecidableEq X] (s : Registry X) {type : Name} {fuel : Nat} {order : ByteOrder}

/-- A value comes back from `QMetaType::save`. -/
def Loads (v : Value X) : Prop :=
  ∀ order type fuel old, s.Saved type v → v.depth < fuel → (s.save order type v).length < 2 ^ 32 →
    Reads (s.load fuel order type old) (s.save order type v) v

/-- Its variant comes back from a stream. -/
def Streams (v : Value X) : Prop :=
  ∀ order type fuel, s.HasType type v → v.depth < fuel → (s.stream order type v).length < 2 ^ 32 →
    Reads (s.getVariant (s.load fuel) order) (s.stream order type v) (s.encodeVariant type v)

/-- It comes back from its variant. -/
def Decodes (v : Value X) : Prop :=
  ∀ order type fuel, s.HasType type v → s.Readable type → v.depth < fuel → (s.stream order type v).length < 2 ^ 32 →
    s.decodeVariant (s.load fuel .bigEndian) (s.encodeVariant type v) type = some (.variant (s.sentName type) v)

structure Returns (v : Value X) : Prop where
  loads : Loads s v
  streams : Streams s v
  decodes : Decodes s v

def MembersReturn (vs : Values X) : Prop :=
  ∀ order types fuel old, s.HaveTypes types vs → vs.depth < fuel → (s.copyStoredProperties order types vs).length < 2 ^ 32 →
    Reads (s.copyFromStream (s.load fuel) order types old) (s.copyStoredProperties order types vs) vs

def ElementsReturn (vs : Values X) : Prop :=
  ∀ type fuel tmp, s.Elements type vs → vs.depth < fuel → (s.saveElements type vs).length < 2 ^ 32 →
    Reads (Registry.loadElements (s.load fuel .bigEndian type) vs.length tmp) (s.saveElements type vs) vs

/-- Entries are added behind those that are there. -/
def EntriesReturn (es : Entries X) : Prop :=
  ∀ key mapped target keyType fuel tmpKey tmpVal map, s.Associates key mapped es → s.SameKey key keyType →
    s.SameKey key target → es.depth < fuel → (s.saveEntries key mapped es).length < 2 ^ 32 → (Entries.keys map ++ es.keys).Nodup →
    Reads (Registry.loadEntries (s.loadKey (s.load fuel .bigEndian) keyType) (s.load fuel .bigEndian mapped)
      (fun map k v => map.setValue (s.coerce keyType target k) (s.coerce mapped mapped v)) es.length tmpKey tmpVal map)
      (s.saveEntries key mapped es) (map.append es)

omit [DecidableEq X] in
theorem convertTo_self (type : Name) (v : Value X) : s.convertTo type v type = some v := by
  unfold Registry.convertTo
  rw [if_pos rfl]

omit [DecidableEq X] in
theorem coerce_self (type : Name) (v : Value X) : s.coerce type type v = v := by
  rw [Registry.coerce, convertTo_self, Option.getD_some]

omit [DecidableEq X] in
theorem writeOnGadget_self (type : Name) (v old : Value X) : s.writeOnGadget type (.variant type v) old = v := by
  change (s.convertTo type v type).getD old = v
  rw [convertTo_self, Option.getD_some]

variable {s}

omit [DecidableEq X] in
/-- The wrappers are no types of values. -/
theorem ne_wrapper {kind : MetaType} (known : s.kind type = some kind) : type ≠ qsqName ∧ type ≠ qasName := by
  obtain ⟨qsq, qas⟩ := s.wrappers
  constructor
  · rintro rfl
    exact absurd (qsq.symm.trans known) (Option.some_ne_none _).symm
  · rintro rfl
    exact absurd (qas.symm.trans known) (Option.some_ne_none _).symm

omit [DecidableEq X] in
theorem reads_plain {kind : MetaType} {L : ByteOrder → Name → Value X → Reader UInt8 (Value X)} {saved : List UInt8} {v : Value X}
    (known : s.kind type = some kind) (other : ∀ size, kind ≠ .integer size)
    (bound : ((s.header order).put type ++ saved).length < 2 ^ 32) (read : Reads (L order type (s.default type)) saved v) :
    Reads (s.getVariant L order) ((s.header order).put type ++ saved) (.plain type v) := by
  obtain ⟨notQsq, notQas⟩ := ne_wrapper known
  rw [List.length_append] at bound
  refine ((s.header order).reads type (by omega)).bind ?_
  rw [if_neg notQsq, if_neg notQas, known]
  cases kind with
  | integer size => exact absurd rfl (other size)
  | leaf | enumeration | gadget | sequence | association => exact read.map

omit [DecidableEq X] in
theorem reads_transferred (s : Registry X) (L : ByteOrder → Name → Value X → Reader UInt8 (Value X)) (order : ByteOrder)
    (size : Size) (n : Int)
    (bound : ((s.header order).put (transferType size) ++ putInteger order size n).length < 2 ^ 32) :
    Reads (s.getVariant L order) ((s.header order).put (transferType size) ++ putInteger order size n)
      (.integer size (wrap size false n)) := by
  have known := (s.integers (transferType size) size).mpr rfl
  obtain ⟨notQsq, notQas⟩ := ne_wrapper known
  rw [List.length_append] at bound
  refine ((s.header order).reads _ (by omega)).bind ?_
  rw [if_neg notQsq, if_neg notQas, known]
  exact (reads_integer order size n).map

theorem decodeVariant_plain {kind : MetaType} {v : Value X} {L : Name → Value X → Reader UInt8 (Value X)}
    (known : s.kind type = some kind) (other : ∀ e, kind ≠ .enumeration e) :
    s.decodeVariant L (.plain type v) type = some (.variant type v) := by
  rw [Registry.decodeVariant, known]
  cases kind with
  | enumeration e => exact absurd rfl (other e)
  | leaf | integer | gadget | sequence | association => rfl

omit [DecidableEq X] in
theorem sentName_other {kind : MetaType} (known : s.kind type = some kind) (other : ∀ key mapped, kind ≠ .association key mapped) :
    s.sentName type = type := by
  rw [Registry.sentName, known]
  cases kind with
  | association key mapped => exact absurd rfl (other key mapped)
  | leaf | integer | gadget | sequence | enumeration => rfl

theorem returns_leaf (x : X) : Returns s (.leaf x) := by
  have loads : Loads s (.leaf x) := by
    intro order type fuel old saved deep bound
    obtain ⟨valid, own⟩ := saved
    cases fuel with
    | zero => exact absurd deep (Nat.not_lt_zero _)
    | succ fuel =>
      have read := (s.inverse order type x valid bound).map (g := Value.leaf)
      rw [Registry.load]
      cases kind : s.kind type with
      | none => exact read
      | some kind' =>
        have possible := own kind' kind
        cases kind' with
        | leaf | sequence | association => exact read
        | integer | enumeration | gadget => exact possible.elim
  refine ⟨loads, ?_, ?_⟩
  · intro order type fuel typed deep bound
    obtain ⟨known, valid⟩ := typed
    have saved : s.Saved type (.leaf x) := ⟨valid, fun kind same => by
      obtain rfl := Option.some.inj (known.symm.trans same)
      trivial⟩
    refine reads_plain known (fun _ => nofun) bound (loads order type fuel _ saved deep ?_)
    rw [Registry.stream, Registry.encodeVariant, Registry.putVariant, List.length_append] at bound
    omega
  · intro order type fuel typed _ _ _
    rw [sentName_other typed.1 fun _ _ => nofun]
    exact decodeVariant_plain typed.1 fun _ => nofun

theorem returns_integer (n : Int) : Returns s (.integer n) := by
  refine ⟨?_, ?_, ?_⟩
  · intro order type fuel old saved deep _
    obtain ⟨size, known, range⟩ := saved
    cases fuel with
    | zero => exact absurd deep (Nat.not_lt_zero _)
    | succ fuel =>
      have read := (reads_integer order size n).map (g := Value.integer (X := X))
      rw [range] at read
      rw [Registry.load, Registry.save, known]
      exact read
  · intro order type fuel typed _ bound
    rcases typed with ⟨size, known, range⟩ | ⟨e, known, range⟩
    · obtain rfl := (s.integers type size).mp known
      have read := reads_transferred s (s.load fuel) order size n
      simp only [Registry.stream, Registry.encodeVariant, Registry.putVariant, known] at bound ⊢
      have result := read bound
      rwa [range] at result
    · have read := reads_transferred s (s.load fuel) order e.size (wrap e.size false n)
      simp only [Registry.stream, Registry.encodeVariant, Registry.putVariant, known] at bound ⊢
      have result := read bound
      rwa [wrap_wrap] at result
  · intro order type fuel typed _ _ _
    rcases typed with ⟨size, known, range⟩ | ⟨e, known, range⟩
    · obtain rfl := (s.integers type size).mp known
      rw [sentName_other known fun _ _ => nofun]
      simp only [Registry.decodeVariant, Registry.encodeVariant, known]
    · rw [sentName_other known fun _ _ => nofun]
      have other : transferType e.size ≠ type := by
        rintro rfl
        exact absurd (((s.integers _ e.size).mpr rfl).symm.trans known) (by simp)
      simp only [Registry.decodeVariant, Registry.encodeVariant, known, Registry.coerce, Registry.convertTo, if_neg other,
        wrap_wrap, Option.getD_some]
      rw [range]

theorem returns_gadget {vs : Values X} (members : MembersReturn s vs) : Returns s (.gadget vs) := by
  have loads : Loads s (.gadget vs) := by
    intro order type fuel old saved deep bound
    obtain ⟨types, known, typed⟩ := saved
    cases fuel with
    | zero => exact absurd deep (Nat.not_lt_zero _)
    | succ fuel =>
      rw [Registry.save, known] at bound ⊢
      rw [Registry.load, known]
      rw [Value.depth] at deep
      exact (members order types fuel old.members typed (by omega) bound).map
  refine ⟨loads, ?_, ?_⟩
  · intro order type fuel typed deep bound
    obtain ⟨types, known, _⟩ := id typed
    refine reads_plain known (fun _ => nofun) bound (loads order type fuel _ typed deep ?_)
    rw [Registry.stream, Registry.encodeVariant, Registry.putVariant, List.length_append] at bound
    omega
  · intro order type fuel typed _ _ _
    obtain ⟨types, known, _⟩ := typed
    rw [sentName_other known fun _ _ => nofun]
    exact decodeVariant_plain known fun _ => nofun

theorem membersReturn_nil : MembersReturn s (.nil : Values X) := by
  intro order types fuel old typed _ _
  cases types with
  | nil => exact reads_pure _
  | cons type types => exact typed.elim

theorem membersReturn_cons {v : Value X} {vs : Values X} (value : Returns s v) (values : MembersReturn s vs) :
    MembersReturn s (.cons v vs) := by
  intro order types fuel old typed deep bound
  cases types with
  | nil => exact typed.elim
  | cons type types =>
    obtain ⟨⟨typed, readable, keeps⟩, rest⟩ := typed
    rw [Values.depth] at deep
    rw [Registry.copyStoredProperties, ← Registry.stream] at bound ⊢
    rw [List.length_append] at bound
    have first := value.streams order type fuel typed (by omega) (by omega)
    have decoded := value.decodes order type fuel typed readable (by omega) (by omega)
    rw [keeps] at decoded
    have later := values order types fuel old.tail rest (by omega) (by omega)
    apply first.bind
    have decode : Reads (Registry.known (s.decodeVariant (s.load fuel .bigEndian) (s.encodeVariant type v) type)) []
        (.variant type v) := fun bytes => by
      rw [decoded]
      rfl
    rw [← List.nil_append (s.copyStoredProperties order types vs)]
    refine decode.bind (later.last ?_)
    rw [writeOnGadget_self]
    exact reads_pure _

theorem elementsReturn_nil : ElementsReturn s (.nil : Values X) := fun _ _ _ _ _ _ => reads_pure _

theorem elementsReturn_cons {v : Value X} {vs : Values X} (value : Returns s v) (values : ElementsReturn s vs) :
    ElementsReturn s (.cons v vs) := by
  intro type fuel tmp typed deep bound
  obtain ⟨saved, rest⟩ := typed
  rw [Values.depth] at deep
  rw [Registry.saveElements] at bound ⊢
  rw [List.length_append] at bound
  refine (value.loads .bigEndian type fuel tmp saved (by omega) (by omega)).bind ?_
  exact (values type fuel v rest (by omega) (by omega)).last (reads_pure _)

theorem length_le_byteArray (order : ByteOrder) (b : List UInt8) : b.length ≤ ((byteArray order).put b).length := by
  rw [byteArray, List.length_append]
  exact Nat.le_add_left _ _

theorem toNat_count {count : Nat} (small : count < 2 ^ 32) : (UInt32.ofNat count).toNat = count :=
  UInt32.toNat_ofNat_of_lt' (by rw [UInt32.size]; omega)

omit [DecidableEq X] in
theorem map_coerce (s : Registry X) (type : Name) (vs : Values X) : vs.map (s.coerce type type) = vs := by
  match vs with
  | .nil => rfl
  | .cons v vs => rw [Values.map, coerce_self, map_coerce s type vs]

omit [DecidableEq X] in
theorem decodeSequence_put {L : Name → Value X → Reader UInt8 (Value X)} {value : Name} {inner : MetaType} {vs : Values X}
    {bytes : List UInt8} (kind : s.kind type = some (.sequence value)) (isKnown : s.kind value = some inner)
    (small : vs.length < 2 ^ 32) (bound : (Registry.putSequence value vs.length bytes).length < 2 ^ 32)
    (read : ∀ tmp, Reads (Registry.loadElements (L value) vs.length tmp) bytes vs) :
    s.decodeSequence L type (Registry.putSequence value vs.length bytes) = some (.variant type (.sequence vs)) := by
  simp only [Registry.putSequence, List.length_append] at bound
  have elements := (read (s.default value)).map (g := (·.map (s.coerce value value)))
  rw [map_coerce] at elements
  have count := (ByteOrder.bigEndian.quint32.reads (UInt32.ofNat vs.length) (by omega))
  have name := (byteArray .bigEndian).reads value (by omega)
  unfold Registry.decodeSequence Registry.putSequence
  rw [kind]
  have whole : Reads (do
      let valueTypeName ← (byteArray .bigEndian).get
      let count ← ByteOrder.bigEndian.quint32.get
      let isKnown := (s.kind valueTypeName).isSome
      (·.map (s.coerce valueTypeName value)) <$>
        Registry.loadElements (L valueTypeName) (if isKnown then count.toNat else 0) (s.default valueTypeName))
      ((byteArray .bigEndian).put value ++ (ByteOrder.bigEndian.quint32.put (UInt32.ofNat vs.length) ++ bytes)) vs := by
    refine name.bind (count.bind ?_)
    rw [toNat_count small, isKnown]
    exact elements
  exact congrArg (Option.map _) whole.exact

theorem returns_sequence {vs : Values X} (elements : ElementsReturn s vs) : Returns s (.sequence vs) := by
  refine ⟨fun _ _ _ _ saved => saved.elim, ?_, ?_⟩
  · intro order type fuel typed deep bound
    obtain ⟨value, known, small, typed⟩ := typed
    simp only [Registry.stream, Registry.encodeVariant, Registry.putVariant, known, List.length_append] at bound ⊢
    refine ((s.header order).reads _ (by omega)).bind ?_
    rw [if_pos rfl]
    refine ((byteArray order).reads _ (by omega)).bind (((byteArray order).reads _ (by omega)).bind ?_)
    exact ((byteArray order).reads _ (by omega)).last (reads_pure _)
  · intro order type fuel typed _ deep bound
    obtain ⟨value, known, small, typed⟩ := typed
    obtain ⟨members, inner⟩ := s.elements type value known
    rw [sentName_other known fun _ _ => nofun]
    simp only [Registry.stream, Registry.encodeVariant, Registry.putVariant, known, List.length_append] at bound
    have inside := length_le_byteArray order (Registry.putSequence value vs.length (s.saveElements value vs))
    have array : (Registry.putSequence value vs.length (s.saveElements value vs)).length < 2 ^ 32 := by omega
    simp only [Registry.decodeVariant, Registry.encodeVariant, known]
    apply decodeSequence_put known inner small array
    intro tmp
    refine elements value fuel tmp typed deep ?_
    simp only [Registry.putSequence, List.length_append] at array
    omega

omit [DecidableEq X] in
theorem Entries.append_assoc (a b c : Entries X) : (a.append b).append c = a.append (b.append c) := by
  match a with
  | .nil => rfl
  | .cons key value a => rw [Entries.append, Entries.append, Entries.append, Entries.append_assoc a b c]

omit [DecidableEq X] in
theorem Entries.append_nil (a : Entries X) : a.append .nil = a := by
  match a with
  | .nil => rfl
  | .cons key value a => rw [Entries.append, Entries.append_nil a]

omit [DecidableEq X] in
theorem Entries.keys_append (a b : Entries X) : (a.append b).keys = a.keys ++ b.keys := by
  match a with
  | .nil => rfl
  | .cons key value a => rw [Entries.append, Entries.keys, Entries.keys, Entries.keys_append a b, List.cons_append]

theorem Entries.setValue_new {key : Value X} (value : Value X) {map : Entries X} (new : key ∉ map.keys) :
    map.setValue key value = map.append (.cons key value .nil) := by
  match map with
  | .nil => rfl
  | .cons k v map =>
    rw [Entries.keys, List.mem_cons, not_or] at new
    rw [Entries.setValue, if_neg (Ne.symm new.1), Entries.append, Entries.setValue_new value new.2]

omit [DecidableEq X] in
theorem sameKey_eq {a b : Name} (same : s.SameKey a b) (other : ∀ e, s.kind a ≠ some (.enumeration e)) : a = b := by
  rcases same with rfl | ⟨e, _, known, _⟩
  · rfl
  · exact absurd known (other e)

omit [DecidableEq X] in
theorem sameKey_enumeration {a b : Name} {e : Enumeration} (same : s.SameKey a b) (known : s.kind a = some (.enumeration e)) :
    ∃ e', s.kind b = some (.enumeration e') ∧ e'.size = e.size ∧ e'.isUnsigned = e.isUnsigned := by
  rcases same with rfl | ⟨e₁, e', first, second, size, sign⟩
  · exact ⟨e, known, rfl, rfl⟩
  · obtain rfl : e₁ = e := by simpa using first.symm.trans known
    exact ⟨e', second, size, sign⟩

omit [DecidableEq X] in
theorem saved_not_enumeration {v : Value X} (saved : s.Saved type v) : ∀ e, s.kind type ≠ some (.enumeration e) := by
  intro e known
  cases v with
  | leaf x => exact saved.2 _ known
  | integer n =>
    obtain ⟨size, integer, _⟩ := saved
    exact absurd (integer.symm.trans known) (by simp)
  | gadget members =>
    obtain ⟨members, gadget, _⟩ := saved
    exact absurd (gadget.symm.trans known) (by simp)
  | sequence | association => exact saved

theorem entriesReturn_nil : EntriesReturn s (.nil : Entries X) := by
  intro key mapped target keyType fuel tmpKey tmpVal map _ _ _ _ _ _
  rw [Entries.append_nil]
  exact reads_pure _

/-- The key type of the receiver may be another enumeration of the same size and sign. -/
theorem reads_key {key keyType target : Name} {k : Value X} (returns : Returns s k)
    (typed : (∃ e n, s.kind key = some (.enumeration e) ∧ k = .integer n ∧ InRange e.size e.isUnsigned n) ∨ s.Saved key k)
    (same : s.SameKey key keyType) (sameTarget : s.SameKey key target) (deep : k.depth < fuel)
    (bound : (s.transferKey key (s.save .bigEndian key k) k).length < 2 ^ 32) (tmp : Value X) :
    Reads (s.loadKey (s.load fuel .bigEndian) keyType tmp) (s.transferKey key (s.save .bigEndian key k) k) k ∧
      s.coerce keyType target k = k := by
  rcases typed with ⟨e, n, known, rfl, range⟩ | saved
  · obtain ⟨e₁, knownType, size₁, sign₁⟩ := sameKey_enumeration same known
    obtain ⟨e₂, knownTarget, size₂, sign₂⟩ := sameKey_enumeration sameTarget known
    constructor
    · have read := (reads_integer .bigEndian e.size (wrap e.size false n)).map
        (g := fun n => Value.integer (X := X) (wrap e.size e.isUnsigned n))
      rw [wrap_wrap, wrap_wrap, range] at read
      simp only [Registry.transferKey, Registry.loadKey, known, knownType, size₁, sign₁]
      exact read
    · unfold Registry.coerce Registry.convertTo
      split
      · rfl
      · simp only [knownTarget, size₂, sign₂, Option.getD_some]
        rw [range]
  · have other := saved_not_enumeration saved
    obtain rfl := sameKey_eq same other
    obtain rfl := sameKey_eq sameTarget other
    refine ⟨?_, coerce_self s _ k⟩
    have plain : s.transferKey key (s.save .bigEndian key k) k = s.save .bigEndian key k := by
      unfold Registry.transferKey
      split
      · rename_i e n known
        exact absurd known (other e)
      · rfl
    rw [plain] at bound ⊢
    have read := returns.loads .bigEndian key fuel tmp saved deep bound
    unfold Registry.loadKey
    split
    · rename_i e known
      exact absurd known (other e)
    · exact read

theorem entriesReturn_cons {k v : Value X} {es : Entries X} (key : Returns s k) (value : Returns s v) (entries : EntriesReturn s es) :
    EntriesReturn s (.cons k v es) := by
  intro keyName mapped target keyType fuel tmpKey tmpVal map typed same sameTarget deep bound distinct
  obtain ⟨keyTyped, saved, rest⟩ := typed
  rw [Entries.depth] at deep
  rw [Registry.saveEntries] at bound ⊢
  simp only [List.length_append] at bound
  have keyDeep : k.depth < fuel := by omega
  obtain ⟨readKey, coerced⟩ := reads_key key keyTyped same sameTarget keyDeep (by omega) tmpKey
  have readValue := value.loads .bigEndian mapped fuel tmpVal saved (by omega) (by omega)
  rw [Entries.keys] at distinct
  have new : k ∉ map.keys := fun inside =>
    (List.nodup_append.mp distinct).2.2 k inside k List.mem_cons_self rfl
  have later : ((map.append (.cons k v .nil)).keys ++ es.keys).Nodup := by
    rw [Entries.keys_append, List.append_assoc]
    exact distinct
  have readRest := entries keyName mapped target keyType fuel k v (map.append (.cons k v .nil)) rest same sameTarget
    (by omega) (by omega) later
  rw [Entries.append_assoc] at readRest
  have added : map.setValue (s.coerce keyType target k) (s.coerce mapped mapped v) = map.append (.cons k v .nil) := by
    rw [coerced, coerce_self, Entries.setValue_new v new]
  rw [← added] at readRest
  exact readKey.bind (readValue.bind readRest)

theorem decodeAssociation_put {L : Name → Value X → Reader UInt8 (Value X)} {sent sentKey mapped target : Name}
    {inner : MetaType} {es : Entries X} {bytes : List UInt8} (kind : s.kind sent = some (.association target mapped))
    (isKnown : s.kind mapped = some inner) (small : es.length < 2 ^ 32)
    (bound : (Registry.putAssociation sentKey mapped es.length bytes).length < 2 ^ 32)
    (read : ∀ keyType, keyType = (if (s.kind sentKey).isNone then target else sentKey) → ∀ tmpKey tmpVal,
      Reads (Registry.loadEntries (s.loadKey L keyType) (L mapped)
        (fun map k v => map.setValue (s.coerce keyType target k) (s.coerce mapped mapped v)) es.length tmpKey tmpVal .nil) bytes es) :
    s.decodeAssociation L sent (Registry.putAssociation sentKey mapped es.length bytes) = some (.variant sent (.association es)) := by
  simp only [Registry.putAssociation, List.length_append] at bound
  have keyName := (byteArray .bigEndian).reads sentKey (by omega)
  have valueName := (byteArray .bigEndian).reads mapped (by omega)
  have count := (ByteOrder.bigEndian.quint32.reads (UInt32.ofNat es.length) (by omega))
  unfold Registry.decodeAssociation Registry.putAssociation
  rw [kind]
  have whole : Reads (do
      let keyTypeName ← (byteArray .bigEndian).get
      let keyType := if (s.kind keyTypeName).isNone then target else keyTypeName
      let valueTypeName ← (byteArray .bigEndian).get
      let count ← ByteOrder.bigEndian.quint32.get
      let add (map : Entries X) (k v : Value X) := map.setValue (s.coerce keyType target k) (s.coerce valueTypeName mapped v)
      let isKnown := (s.kind valueTypeName).isSome
      Registry.loadEntries (s.loadKey L keyType) (L valueTypeName) add (if isKnown then count.toNat else 0)
        (s.default keyType) (s.default valueTypeName) .nil)
      ((byteArray .bigEndian).put sentKey ++ ((byteArray .bigEndian).put mapped ++
        (ByteOrder.bigEndian.quint32.put (UInt32.ofNat es.length) ++ bytes))) es := by
    refine keyName.bind (valueName.bind (count.bind ?_))
    rw [toNat_count small, isKnown]
    exact read _ rfl _ _
  exact congrArg (Option.map _) whole.exact

theorem returns_association {es : Entries X} (entries : EntriesReturn s es) : Returns s (.association es) := by
  refine ⟨fun _ _ _ _ saved => saved.elim, ?_, ?_⟩
  · intro order type fuel typed deep bound
    obtain ⟨key, mapped, known, small, distinct, typed⟩ := typed
    simp only [Registry.stream, Registry.encodeVariant, Registry.putVariant, known, List.length_append] at bound ⊢
    refine ((s.header order).reads _ (by omega)).bind ?_
    have other : ¬ qasName = qsqName := by decide
    rw [if_neg other, if_pos rfl]
    refine ((byteArray order).reads _ (by omega)).bind (((byteArray order).reads _ (by omega)).bind
      (((byteArray order).reads _ (by omega)).bind ?_))
    exact ((byteArray order).reads _ (by omega)).last (reads_pure _)
  · intro order type fuel typed readable deep bound
    obtain ⟨key, mapped, known, small, distinct, typed⟩ := typed
    obtain ⟨members, inner⟩ := s.mapped type key mapped known
    obtain ⟨⟨target, found, sameTarget⟩, sameKey⟩ := readable key mapped known
    have name : s.sentName type = (s.sentTypes type key).1 := by
      unfold Registry.sentName
      rw [known]
    simp only [Registry.stream, Registry.encodeVariant, Registry.putVariant, known, List.length_append] at bound
    have inside := length_le_byteArray order
      (Registry.putAssociation (s.sentTypes type key).2 mapped es.length (s.saveEntries key mapped es))
    have array : (Registry.putAssociation (s.sentTypes type key).2 mapped es.length (s.saveEntries key mapped es)).length < 2 ^ 32 := by
      omega
    simp only [Registry.decodeVariant, Registry.encodeVariant, known]
    rw [name] at found ⊢
    apply decodeAssociation_put found inner small array
    intro keyType isKeyType tmpKey tmpVal
    have same : s.SameKey key keyType := by
      rw [isKeyType]
      split
      · exact sameTarget
      · rename_i registered
        refine sameKey.resolve_left fun none => registered ?_
        rw [none, Option.isNone_none]
    refine entries key mapped target keyType fuel tmpKey tmpVal .nil typed same sameTarget deep ?_ distinct
    simp only [Registry.putAssociation, List.length_append] at array
    omega

end Pieces

end RemoteObjects.Packet.Variants
