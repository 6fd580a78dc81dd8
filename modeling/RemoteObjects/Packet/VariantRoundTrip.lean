import RemoteObjects.Packet.VariantProofs

/-! The round trip of encoded values, over registries that are built from tables of types. -/
namespace RemoteObjects.Packet.Variants
open Wire Reader
open QtStream (ByteOrder)

section RoundTrip
variable {X : Type} [DecidableEq X] {s : Registry X}

mutual

theorem Value.returns : (v : Value X) → Returns s v
  | .leaf x => returns_leaf x
  | .integer n => returns_integer n
  | .gadget members => returns_gadget members.membersReturn
  | .sequence elements => returns_sequence elements.elementsReturn
  | .association entries => returns_association entries.entriesReturn

theorem Values.membersReturn : (vs : Values X) → MembersReturn s vs
  | .nil => membersReturn_nil
  | .cons value values => membersReturn_cons value.returns values.membersReturn

theorem Values.elementsReturn : (vs : Values X) → ElementsReturn s vs
  | .nil => elementsReturn_nil
  | .cons value values => elementsReturn_cons value.returns values.elementsReturn

theorem Entries.entriesReturn : (es : Entries X) → EntriesReturn s es
  | .nil => entriesReturn_nil
  | .cons key value entries => entriesReturn_cons key.returns value.returns entries.entriesReturn

end

omit [DecidableEq X] in
theorem sentTypes_unnamed {type key mapped : Name} (unnamed : s.Unnamed type) (known : s.kind type = some (.association key mapped)) :
    s.sentTypes type key = (type, key) := by
  unfold Registry.sentTypes
  split
  · rename_i e enumeration
    cases scope : e.scope with
    | none => simp only [Enumeration.sentTypes, scope]
    | some metaObject =>
      have none := unnamed key mapped e metaObject known enumeration scope
      simp only [Enumeration.sentTypes, scope, none]
  · rfl

omit [DecidableEq X] in
/-- Names change only for keys that are enumerations of a class with class info. -/
theorem keeps_of_unnamed {type : Name} (unnamed : s.Unnamed type) : s.Keeps type := by
  have name : s.sentName type = type := by
    unfold Registry.sentName
    split
    · rename_i key mapped known
      rw [sentTypes_unnamed unnamed known]
    · rfl
  refine ⟨fun key mapped known => ?_, name⟩
  rw [name, sentTypes_unnamed unnamed known]
  exact ⟨⟨key, known, .inl rfl⟩, .inr (.inl rfl)⟩

end RoundTrip

section Tables

/-- The ids of built-in types; other types are named. -/
def builtinTypes : List (Name × UInt32) :=
  [(transferType .one, 40), (transferType .two, 33), (transferType .four, 2), (latin1 "QByteArray", 12)]

def putHeader (order : ByteOrder) (type : Name) : List UInt8 :=
  match builtinTypes.find? fun entry => entry.1 = type with
  | some entry => order.quint32.put entry.2 ++ quint8.put 0
  | none => order.quint32.put QtStream.userId ++ (quint8.put 0 ++ (byteArray order).put (type ++ [0]))

/-- The type of a variant, and whether it is null. -/
def getHeader (order : ByteOrder) : Reader UInt8 Name := do
  let id ← order.quint32.get
  let _ ← quint8.get
  if id = QtStream.userId then (·.dropLast) <$> (byteArray order).get
  else
    match builtinTypes.find? fun entry => entry.2 = id with
    | some entry => pure entry.1
    | none => corrupt []

theorem builtinTypes_found : ∀ entry ∈ builtinTypes, entry.2 ≠ QtStream.userId ∧
    builtinTypes.find? (fun other => other.2 = entry.2) = some entry := by
  decide +kernel

def header (order : ByteOrder) : Format UInt8 Name where
  put := putHeader order
  get := getHeader order
  put_ne type := by
    unfold putHeader
    split <;> exact List.append_ne_nil_of_left_ne_nil (order.quint32.put_ne _) _
  reads type bound := by
    unfold putHeader at bound ⊢
    cases found : builtinTypes.find? fun entry => entry.1 = type with
    | some entry =>
      obtain ⟨builtin, back⟩ := builtinTypes_found entry (List.mem_of_find?_eq_some found)
      have name : entry.1 = type := by simpa using List.find?_some found
      simp only [found, List.length_append] at bound ⊢
      refine (order.quint32.reads _ (by omega)).bind ((quint8.reads _ (by omega)).last ?_)
      rw [if_neg builtin, back, ← name]
      exact reads_pure _
    | none =>
      simp only [found, List.length_append] at bound ⊢
      refine (order.quint32.reads _ (by omega)).bind ((quint8.reads _ (by omega)).bind ?_)
      have read := ((byteArray order).reads (type ++ [0]) (by omega)).map (g := List.dropLast)
      rw [List.dropLast_concat] at read
      exact read
  delimiting := order.quint32.delimiting.bind fun id => quint8.delimiting.bind fun _ => by
    split
    · exact (byteArray order).delimiting.map
    · split
      · exact .pure _
      · exact .corrupt _

def kindOf (table : List (Name × MetaType)) (type : Name) : Option MetaType :=
  (table.find? fun entry => entry.1 = type).map (·.2)

theorem mem_of_kindOf {table : List (Name × MetaType)} {type : Name} {kind : MetaType} (found : kindOf table type = some kind) :
    (type, kind) ∈ table := by
  obtain ⟨entry, at', rfl⟩ := Option.map_eq_some_iff.mp found
  have name : entry.1 = type := by simpa using List.find?_some at'
  rw [← name]
  exact List.mem_of_find?_eq_some at'

def isGadget (table : List (Name × MetaType)) (type : Name) : Bool :=
  match kindOf table type with
  | some (.gadget _) => true
  | _ => false

theorem exists_of_isGadget {table : List (Name × MetaType)} {type : Name} (gadget : isGadget table type = true) :
    ∃ members, kindOf table type = some (.gadget members) := by
  unfold isGadget at gadget
  split at gadget
  · exact ⟨_, ‹_›⟩
  · exact absurd gadget Bool.false_ne_true

/-- A table of types with the integers, without the wrappers, and with containers of gadgets only. -/
structure IsTable (table : List (Name × MetaType)) : Prop where
  integers : ∀ size ∈ [Size.one, .two, .four], kindOf table (transferType size) = some (.integer size)
  wrappers : kindOf table qsqName = none ∧ kindOf table qasName = none
  entries : ∀ entry ∈ table, (match entry.2 with
    | .integer size => decide (entry.1 = transferType size)
    | .sequence value => isGadget table value
    | .association _ value => isGadget table value
    | _ => true) = true

/-- The types of a table; byte arrays are the only leaves. -/
def ofTable (table : List (Name × MetaType)) (isTable : IsTable table) : Registry (List UInt8) where
  kind := kindOf table
  header := header
  saveLeaf order _ x := (byteArray order).put x
  loadLeaf order _ := (byteArray order).get
  default _ := .leaf []
  convert _ _ _ := none
  valid _ _ := True
  inverse order _ x _ bound := (byteArray order).reads x bound
  integers type size := by
    constructor
    · intro found
      exact of_decide_eq_true (isTable.entries _ (mem_of_kindOf found))
    · rintro rfl
      exact isTable.integers size (by cases size <;> decide)
  wrappers := isTable.wrappers
  elements type value found := exists_of_isGadget (isTable.entries _ (mem_of_kindOf found))
  mapped type key value found := exists_of_isGadget (isTable.entries _ (mem_of_kindOf found))

end Tables
section Examples

/-- An enumeration of a class with class info, for its source and for its replicas. -/
def kindEnumeration (className : Name) : Enumeration :=
  ⟨.four, false, some ⟨className, some (latin1 "Engine"), []⟩⟩

def sourceMap : Name := latin1 "QMap<EngineSource::Kind,Pod>"

def replicaMap : Name := latin1 "QMap<EngineReplica::Kind,Pod>"

def engineTypes : List (Name × MetaType) :=
  [(transferType .one, .integer .one), (transferType .two, .integer .two), (transferType .four, .integer .four),
    (latin1 "QByteArray", .leaf), (latin1 "Pod", .gadget [transferType .four, latin1 "QByteArray"]),
    (latin1 "EngineSource::Kind", .enumeration (kindEnumeration (latin1 "EngineSource"))),
    (latin1 "EngineReplica::Kind", .enumeration (kindEnumeration (latin1 "EngineReplica"))),
    (sourceMap, .association (latin1 "EngineSource::Kind") (latin1 "Pod")),
    (replicaMap, .association (latin1 "EngineReplica::Kind") (latin1 "Pod")),
    (latin1 "QList<Pod>", .sequence (latin1 "Pod")),
    (latin1 "Reading", .gadget [latin1 "EngineReplica::Kind", latin1 "QList<Pod>", replicaMap])]

theorem engineTypes_isTable : IsTable engineTypes where
  integers := by decide +kernel
  wrappers := by decide +kernel
  entries := by decide +kernel

def engine : Registry (List UInt8) := ofTable engineTypes engineTypes_isTable

theorem engine_kind (index : Nat) (inside : index < engineTypes.length) :
    engine.kind engineTypes[index].1 = some engineTypes[index].2 := by
  have found : ∀ entry ∈ engineTypes, kindOf engineTypes entry.1 = some entry.2 := by decide +kernel
  exact found _ (List.getElem_mem inside)

def pod : Value (List UInt8) := .gadget (.cons (.integer 7) (.cons (.leaf [1]) .nil))

def podMap : Value (List UInt8) := .association (.cons (.integer 1) pod .nil)

def reading : Value (List UInt8) :=
  .gadget (.cons (.integer 1) (.cons (.sequence (.cons pod .nil)) (.cons podMap .nil)))

theorem keeps_of_kind {X : Type} {s : Registry X} {type : Name} {kind : MetaType} (known : s.kind type = some kind)
    (other : ∀ key mapped, kind ≠ .association key mapped) : s.Keeps type :=
  keeps_of_unnamed fun key mapped _ _ map => absurd (Option.some.inj (known.symm.trans map)) (other key mapped)

theorem pod_saved : engine.Saved (latin1 "Pod") pod := by
  have int : engine.kind (transferType .four) = some (.integer .four) := engine_kind 2 (by decide)
  have bytes : engine.kind (latin1 "QByteArray") = some .leaf := engine_kind 3 (by decide)
  refine ⟨[transferType .four, latin1 "QByteArray"], engine_kind 4 (by decide), ⟨?_, ?_⟩, ⟨?_, ?_⟩, trivial⟩
  · exact .inl ⟨.four, int, by decide⟩
  · exact keeps_of_kind int fun _ _ => nofun
  · exact ⟨bytes, trivial⟩
  · exact keeps_of_kind bytes fun _ _ => nofun

theorem podMap_hasType (type className : Name)
    (map : engine.kind type = some (.association className (latin1 "Pod"))) (e : Enumeration)
    (key : engine.kind className = some (.enumeration e)) (range : InRange e.size e.isUnsigned 1) : engine.HasType type podMap :=
  ⟨className, latin1 "Pod", map, by decide, by decide, .inl ⟨e, 1, key, rfl, range⟩, pod_saved, trivial⟩

theorem replicaMap_readable : engine.Readable replicaMap := by
  intro key mapped map
  have known : engine.kind replicaMap = some (.association (latin1 "EngineReplica::Kind") (latin1 "Pod")) :=
    engine_kind 8 (by decide)
  cases known.symm.trans map
  exact ⟨⟨latin1 "EngineReplica::Kind", by decide +kernel, .inl rfl⟩, .inl (by decide +kernel)⟩

theorem reading_hasType : engine.HasType (latin1 "Reading") reading := by
  have kind : engine.kind (latin1 "EngineReplica::Kind") = some (.enumeration (kindEnumeration (latin1 "EngineReplica"))) :=
    engine_kind 6 (by decide)
  have list : engine.kind (latin1 "QList<Pod>") = some (.sequence (latin1 "Pod")) := engine_kind 9 (by decide)
  refine ⟨[latin1 "EngineReplica::Kind", latin1 "QList<Pod>", replicaMap], engine_kind 10 (by decide), ⟨?_, ?_⟩, ⟨?_, ?_⟩, ⟨?_, ?_⟩, trivial⟩
  · exact .inr ⟨kindEnumeration (latin1 "EngineReplica"), kind, by decide⟩
  · exact keeps_of_kind kind fun _ _ => nofun
  · exact ⟨latin1 "Pod", list, by decide, pod_saved, trivial⟩
  · exact keeps_of_kind list fun _ _ => nofun
  · exact podMap_hasType replicaMap _ (engine_kind 8 (by decide)) _ kind (by decide)
  · exact ⟨replicaMap_readable, by decide +kernel⟩

end Examples
end RemoteObjects.Packet.Variants
