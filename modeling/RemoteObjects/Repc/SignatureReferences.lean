import RemoteObjects.Digests
import RemoteObjects.Repc.Signature

/-! The definitions on which the signature of a class depends, and those to which its type names
refer. -/
namespace RemoteObjects.Repc
open Relation

section Model

/-- Where a file declares a type. -/
inductive Place
  | global
  | inClass (name : QString)
  | inPod (name : QString)
deriving DecidableEq

/-- A type as it is parsed, before it gets a scope. -/
structure Declaration where
  place : Place
  type : SignedType
deriving DecidableEq

/-- What the parser makes of a type when it is reduced: in a POD only flags get a scope. -/
def Declaration.registered (d : Declaration) : SignedType :=
  match d.place, d.type with
  | .inClass name, .enum e => .enum { e with scope := name }
  | .inClass name, .flag f => .flag { f with scope := name }
  | .inClass name, .model m => .model { m with scope := name }
  | .inPod name, .flag f => .flag { f with scope := name }
  | _, t => t

/-- The types of a file in the order in which the parser reduces them. -/
abbrev RepFile := List Declaration

def RepFile.types (file : RepFile) : List SignedType := file.map Declaration.registered

/-- The position of the newest entry with a key. -/
def newest (key : QString) : List QString → Option Nat
  | [] => none
  | k :: older => if k = key then some older.length else newest key older

/-- The keys of the table behind some declarations, the newest one first. -/
def keys (types : List SignedType) : List QString := (types.map SignedType.typeName).reverse

/-- The entry that `typeData` finds. -/
def newestOf (keys : List QString) (className type : QString) : Option Nat :=
  match if className ≠ [] then newest (inScope className type) keys else none with
  | some position => some position
  | none => newest type keys

/-- What is fed, with the positions of the types whose digests stand in it. -/
def Datum.resolve (keys : List QString) : Datum → List (UInt8 ⊕ Nat)
  | .bytes b => b.map .inl
  | .enumerator value => (int32 value).map .inl
  | .plainType className type =>
    match newestOf keys className type with
    | some position => [.inr position]
    | none =>
      match lastComponent type with
      | some rest =>
        match newestOf keys className rest with
        | some position => [.inr position]
        | none => (toLatin1 rest).map .inl
      | none => (toLatin1 type).map .inl
  | .signature key => (newest key keys).toList.map .inr

def resolved (types : List SignedType) (position : Nat) : List (UInt8 ⊕ Nat) :=
  match types[position]? with
  | some t => t.signature_impl.flatMap (Datum.resolve (keys (types.take position)))
  | none => []

end Model

section Statement

def SignedType.name : SignedType → QString
  | enum e => e.name
  | flag f => f.name
  | model m => m.name
  | cls c => c.name
  | pod p => p.name

/-- The name of a type in the generated code: a global enum is in a class of its own. -/
def Declaration.cppName (d : Declaration) : QString :=
  match d.place with
  | .inClass name => inScope name d.type.name
  | .inPod name => inScope name d.type.name
  | .global =>
    match d.type with
    | .enum e => inScope (e.name ++ "Enum".toList) e.name
    | .flag f => inScope (f._enum ++ "Enum".toList) f.name
    | t => t.name

/-- A name is one of the class itself if there is such a type. -/
def RepFile.meant (file : RepFile) (className type : QString) : QString :=
  if ∃ d ∈ file, d.cppName = inScope className type then inScope className type else type

/-- The type that is meant is declared at the position, wherever that is. -/
def RepFile.Denotes (file : RepFile) (position : Nat) : Datum → Prop
  | .bytes _ => False
  | .enumerator _ => False
  | .plainType className type => ∃ d, file[position]? = some d ∧ d.cppName = file.meant className type
  | .signature key => ∃ d, file[position]? = some d ∧ d.cppName = key

/-- The second declaration refers to the first one. -/
def RepFile.Refers (file : RepFile) (i j : Nat) : Prop :=
  ∃ d, file[j]? = some d ∧ ∃ datum ∈ d.registered.signature_impl, file.Denotes i datum

/-- The second declaration finds the digest of the first one, or of one that does. -/
def RepFile.Finds (file : RepFile) : Nat → Nat → Prop := Digests.Affects (resolved file.types)

/-- Another definition of one type changes what is fed for a declaration exactly if that refers to
the type, itself or through other types. -/
def SignatureCovers (sha : Sha1) (file : RepFile) (position : Nat) : Prop :=
  ∀ i d other, file[i]? = some d → other.typeName = d.registered.typeName →
    checksumInput sha (file.types.set i other) i ≠ checksumInput sha file.types i →
    (checksumInput sha (file.types.set i other) position ≠ checksumInput sha file.types position ↔
      ReflTransGen file.Refers i position)

end Statement

section Lookup
variable {sha : Sha1} {types : List SignedType} {key className type : QString} {position i j : Nat}

theorem newest_lt {keys : List QString} (found : newest key keys = some position) : position < keys.length := by
  induction keys with
  | nil => cases found
  | cons k older ih =>
    unfold newest at found
    split at found
    · cases found
      exact Nat.lt_succ_self _
    · exact Nat.lt_succ_of_lt (ih found)

theorem keys_take_succ {t : SignedType} (at_i : types[i]? = some t) :
    keys (types.take (i + 1)) = t.typeName :: keys (types.take i) := by
  unfold keys
  rw [List.take_add_one, at_i, List.map_append, List.reverse_append]
  rfl

theorem signatures_take_succ {t : SignedType} (at_i : types[i]? = some t) :
    signatures sha (types.take (i + 1)) =
      (t.typeName, sha.digest (checksumInput sha types i)) :: signatures sha (types.take i) := by
  unfold signatures checksumInput
  rw [List.take_add_one, at_i, List.foldl_append]
  rfl

/-- An entry of the table is the digest of what was fed for the newest type with this name. -/
theorem find?_signatures (sha : Sha1) (types : List SignedType) (key : QString) (n : Nat) :
    Table.find? (signatures sha (types.take n)) key =
      (newest key (keys (types.take n))).map fun i => sha.digest (checksumInput sha types i) := by
  induction n with
  | zero => rfl
  | succ n ih =>
    cases at_n : types[n]? with
    | none =>
      rw [List.take_add_one, at_n, Option.toList_none, List.append_nil]
      exact ih
    | some t =>
      have inside := (List.getElem?_eq_some_iff.mp at_n).1
      rw [signatures_take_succ at_n, keys_take_succ at_n, Table.find?, List.find?_cons, newest]
      by_cases same : t.typeName = key
      · simp only [same, decide_true, ↓reduceIte, Option.map_some, Option.some.injEq]
        rw [keys, List.length_reverse, List.length_map, List.length_take, Nat.min_eq_left (Nat.le_of_lt inside)]
      · simp only [same, decide_false, ↓reduceIte]
        exact ih

theorem lookup_signatures (sha : Sha1) (types : List SignedType) (className type : QString) (n : Nat) :
    Table.lookup (signatures sha (types.take n)) className type =
      (newestOf (keys (types.take n)) className type).map fun i => sha.digest (checksumInput sha types i) := by
  unfold Table.lookup newestOf
  rw [find?_signatures sha types type, find?_signatures sha types (inScope className type)]
  by_cases named : className ≠ []
  · rw [if_pos named, if_pos named]
    cases newest (inScope className type) (keys (types.take n)) <;> rfl
  · rw [if_neg named, if_neg named]

theorem data_signatures (sha : Sha1) (types : List SignedType) (n : Nat) (datum : Datum) :
    Table.data (signatures sha (types.take n)) datum =
      Digests.render sha.digest (checksumInput sha types) (datum.resolve (keys (types.take n))) := by
  have spelled (b : List UInt8) : b.map (Sum.inl : UInt8 → UInt8 ⊕ sha.Digest) =
      Digests.render sha.digest (checksumInput sha types) (b.map .inl) := by
    rw [Digests.render, List.map_map]
    rfl
  cases datum with
  | bytes bytes => exact spelled bytes
  | enumerator value => exact spelled (int32 value)
  | signature key =>
    rw [Table.data, Datum.resolve, find?_signatures]
    cases newest key (keys (types.take n)) <;> rfl
  | plainType className type =>
    rw [Table.data, Datum.resolve, Table.plainTypeData, lookup_signatures]
    cases newestOf (keys (types.take n)) className type with
    | some position => rfl
    | none =>
      simp only [Option.map_none]
      cases lastComponent type with
      | none => exact spelled (toLatin1 type)
      | some rest =>
        simp only
        rw [lookup_signatures]
        cases newestOf (keys (types.take n)) className rest with
        | some position => rfl
        | none => exact spelled (toLatin1 rest)

/-- What is fed for a declaration depends on the others through the digests of the resolved types alone. -/
theorem checksumInput_eq (sha : Sha1) (types : List SignedType) (j : Nat) :
    checksumInput sha types j = Digests.render sha.digest (checksumInput sha types) (resolved types j) := by
  rw [checksumInput, resolved]
  cases types[j]? with
  | none => rfl
  | some t =>
    simp only
    rw [SignedType.fed, Digests.render, List.map_flatMap]
    exact congrArg (fun f => t.signature_impl.flatMap f) (funext (data_signatures sha types j))

theorem newestOf_lt {keys : List QString} (found : newestOf keys className type = some position) : position < keys.length := by
  unfold newestOf at found
  split at found
  · rename_i own at_own
    cases found
    split at at_own
    · exact newest_lt at_own
    · cases at_own
  · exact newest_lt found

theorem mem_resolve_lt {keys : List QString} {datum : Datum} (mem : .inr position ∈ datum.resolve keys) :
    position < keys.length := by
  cases datum with
  | bytes bytes => simp [Datum.resolve] at mem
  | enumerator value => simp [Datum.resolve] at mem
  | signature key =>
    rw [Datum.resolve] at mem
    obtain ⟨found, listed, equal⟩ := List.mem_map.mp mem
    cases equal
    exact newest_lt (Option.mem_toList.mp listed)
  | plainType className type =>
    rw [Datum.resolve] at mem
    split at mem
    · rename_i found
      cases List.mem_singleton.mp mem
      exact newestOf_lt found
    · split at mem
      · split at mem
        · rename_i found
          cases List.mem_singleton.mp mem
          exact newestOf_lt found
        · simp at mem
      · simp at mem

theorem resolved_backward (types : List SignedType) (i j : Nat) (reads : Digests.Reads (resolved types) i j) : i < j := by
  unfold Digests.Reads resolved at reads
  split at reads
  · obtain ⟨datum, -, mem⟩ := List.mem_flatMap.mp reads
    have small := mem_resolve_lt mem
    rw [keys, List.length_reverse, List.length_map, List.length_take] at small
    omega
  · cases reads

end Lookup

section Change
variable {sha : Sha1} {types : List SignedType} {other t : SignedType} {i j : Nat}

theorem keys_set (at_i : types[i]? = some t) (named : other.typeName = t.typeName) (n : Nat) :
    keys ((types.set i other).take n) = keys (types.take n) := by
  have same : (types.set i other).map SignedType.typeName = types.map SignedType.typeName := by
    obtain ⟨inside, rfl⟩ := List.getElem?_eq_some_iff.mp at_i
    rw [List.map_set, named, ← List.getElem_map SignedType.typeName (h := by rwa [List.length_map]), List.set_getElem_self]
  unfold keys
  rw [List.map_take, List.map_take, same]

theorem resolved_set (at_i : types[i]? = some t) (named : other.typeName = t.typeName) (apart : j ≠ i) :
    resolved (types.set i other) j = resolved types j := by
  unfold resolved
  rw [List.getElem?_set_ne apart.symm, keys_set at_i named]

/-- Another definition of a type changes what is fed for the types that find its digest. -/
theorem checksumInput_set_ne_iff (at_i : types[i]? = some t) (named : other.typeName = t.typeName)
    (differs : checksumInput sha (types.set i other) i ≠ checksumInput sha types i) (j : Nat) :
    checksumInput sha (types.set i other) j ≠ checksumInput sha types j ↔ Digests.Affects (resolved types) i j := by
  refine Digests.changed_iff sha.injective (resolved_backward types) (fun j apart => ?_) (fun j _ => checksumInput_eq sha types j)
    differs j
  rw [checksumInput_eq, resolved_set at_i named apart]

/-- An enum with this name and a long underlying type. -/
def longEnum (name : QString) (length : Nat) : SignedType :=
  .enum { name, type := List.replicate length 'x' }

theorem length_fed_longEnum (table : Table sha) (name : QString) (length : Nat) :
    length ≤ ((longEnum name length).fed table).length := by
  have spelled : toLatin1 (List.replicate length 'x') = List.replicate length 120 := by
    unfold toLatin1
    induction length with
    | zero => rfl
    | succ length ih =>
      rw [List.replicate_succ, List.flatMap_cons, ih, List.replicate_succ]
      rfl
  simp only [SignedType.fed, longEnum, SignedType.signature_impl, List.flatMap_cons, List.flatMap_nil, List.append_nil,
    text, Table.data, List.length_append, List.length_map, spelled, List.length_replicate, Bool.false_eq_true, ↓reduceIte,
    List.cons_append, List.nil_append]
  omega

/-- Every type has another definition, for which something else is fed. -/
theorem exists_other (sha : Sha1) (at_i : types[i]? = some t) :
    ∃ other : SignedType, other.typeName = t.typeName ∧
      checksumInput sha (types.set i other) i ≠ checksumInput sha types i := by
  refine ⟨longEnum t.typeName ((checksumInput sha types i).length + 1), rfl, fun same => ?_⟩
  have inside := (List.getElem?_eq_some_iff.mp at_i).1
  have long := length_fed_longEnum (signatures sha ((types.set i (longEnum t.typeName
    ((checksumInput sha types i).length + 1))).take i)) t.typeName ((checksumInput sha types i).length + 1)
  have fed := congrArg List.length same
  rw [checksumInput, List.getElem?_set_self inside] at fed
  simp only at fed
  omega

end Change

section Coverage
variable {sha : Sha1} {file : RepFile} {position : Nat}

end Coverage

section Example

/-- A digest that is its input. -/
inductive Tree
  | digest (input : List (UInt8 ⊕ Tree))

def treeSha : Sha1 := ⟨Tree, Tree.digest, fun _ _ same => Tree.digest.inj same⟩

def point (type : QString) : POD := { name := "Point".toList, attributes := [⟨type, "x".toList⟩] }

/-- `class User { PROP(Point at) }`, and behind it `POD Point(int x)`. -/
def laterPod : RepFile := [
  ⟨.global, .cls { name := "User".toList, properties := [{ type := "Point".toList, name := "at".toList }] }⟩,
  ⟨.global, .pod (point "int".toList)⟩]

end Example

end RemoteObjects.Repc
