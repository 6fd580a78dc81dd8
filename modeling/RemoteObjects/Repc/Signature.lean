import RemoteObjects.Repc.Ast

/-! The checksums of types: what the parser feeds to them, and the table in which it looks for the
checksums of the types that a declaration names. -/
namespace RemoteObjects.Repc

section Model

/-- SHA-1. Its digests, of 40 hexadecimal digits, count as single symbols. -/
structure Sha1 where
  Digest : Type
  digest : List (UInt8 ⊕ Digest) → Digest
  injective : Function.Injective digest

/-- A text in a checksum, with the digests of other types. -/
abbrev Fed (sha : Sha1) := List (UInt8 ⊕ sha.Digest)

/-- `AST::typeSignatures`, the newest entry first. -/
abbrev Table (sha : Sha1) := List (QString × sha.Digest)

/-- The types that derive from `SignedType`. -/
inductive SignedType
  | enum (e : ASTEnum)
  | flag (f : ASTFlag)
  | model (m : ASTModel)
  | cls (c : ASTClass)
  | pod (p : POD)
deriving DecidableEq

/-- The UTF-16 code units of a character, those beyond Latin-1 as question marks. -/
def latin1 (c : Char) : List UInt8 :=
  if c.toNat < 256 then [c.toNat.toUInt8] else if c.toNat < 65536 then [63] else [63, 63]

def toLatin1 (s : QString) : List UInt8 := s.flatMap latin1

namespace ASTProperty

def Modifier.value : Modifier → Nat
  | constant => 0
  | readOnly => 1
  | readPush => 2
  | readWrite => 3
  | sourceOnlySetter => 4

/-- `ReadOnly` and `SourceOnlySetter` are the same for a replica. -/
def Modifier.interface : Modifier → Modifier
  | sourceOnlySetter => readOnly
  | m => m

end ASTProperty

def ASTDeclaration.variableType (declaration : ASTDeclaration) : Nat :=
  (if declaration.constant then 1 else 0) + if declaration.reference then 2 else 0

/-- A small enumerator in memory. -/
def int32 (value : Nat) : List UInt8 := [value.toUInt8, 0, 0, 0]

def number (value : Int) : QString := (toString value).toList

def inScope (scope name : QString) : QString := scope ++ "::".toList ++ name

def ASTEnum.typeName (e : ASTEnum) : QString := if e.scope = [] then e.name else inScope e.scope e.name

def ASTFlag.typeName (f : ASTFlag) : QString := if f.scope = [] then f.name else inScope f.scope f.name

def ASTModel.typeName (m : ASTModel) : QString := inScope m.scope m.name

def SignedType.typeName : SignedType → QString
  | enum e => e.typeName
  | flag f => f.typeName
  | model m => m.typeName
  | cls c => c.name
  | pod p => p.name

/-- The matches of `[^<>,\s]+`; the first text is the one that has begun. -/
def tokensFrom : QString → QString → List QString
  | token, [] => if token = [] then [] else [token]
  | token, c :: s =>
    if isDelimiter c then if token = [] then tokensFrom [] s else token :: tokensFrom [] s
    else tokensFrom (token ++ [c]) s

def tokens (type : QString) : List QString := tokensFrom [] type

/-- Behind the last `::`, wherever it stands. -/
def behindLast : QString → Option QString
  | [] => none
  | c :: s =>
    match behindLast s with
    | some rest => some rest
    | none => match c, s with
      | ':', ':' :: rest => some rest
      | _, _ => none

/-- Behind the last `::` if there is one that is not in front of everything else. -/
def lastComponent (type : QString) : Option QString := behindLast type.tail

/-- What is added to a checksum: bytes, an enumerator as it is in memory, `typeData` of a type without
template arguments, or an entry of the table. -/
inductive Datum
  | bytes (bytes : List UInt8)
  | enumerator (value : Nat)
  | plainType (className type : QString)
  | signature (key : QString)
deriving DecidableEq

def text (s : QString) : Datum := .bytes (toLatin1 s)

def typeData (type className : QString) : List Datum :=
  if '<' ∈ type then (tokens type).map (.plainType className) else [.plainType className type]

def paramData (className : QString) (param : ASTDeclaration) : List Datum :=
  text param.name :: typeData param.type className ++ [.enumerator param.variableType]

def functionData (className : QString) (f : ASTFunction) : List Datum :=
  text f.name :: f.params.flatMap (paramData className) ++ typeData f.returnType className

def functionsData (functions : List ASTFunction) (className : QString) : List Datum :=
  functions.flatMap (functionData className)

def qAbstractItemModel : QString := "QAbstractItemModel".toList

/-- The type of a property: a model, of which `modelIndex` were before it, a child class, or another type. -/
def propertyTypeData (c : ASTClass) (propertyIndex modelIndex : Nat) (p : ASTProperty) : List Datum :=
  if p.type = qAbstractItemModel then ((c.modelMetadata[modelIndex]?).map fun m => .signature m.typeName).toList
  else if propertyIndex ∈ c.subClassPropertyIndices then [.signature p.type]
  else typeData p.type c.name

def propertyData (c : ASTClass) (propertyIndex modelIndex : Nat) (p : ASTProperty) : List Datum :=
  text p.name :: propertyTypeData c propertyIndex modelIndex p ++ [.enumerator p.modifier.interface.value]

def propertiesData (c : ASTClass) : Nat → Nat → List ASTProperty → List Datum
  | _, _, [] => []
  | propertyIndex, modelIndex, p :: properties =>
    propertyData c propertyIndex modelIndex p ++
      propertiesData c (propertyIndex + 1) (if p.type = qAbstractItemModel then modelIndex + 1 else modelIndex) properties

/-- `join` with an underscore. -/
def joined : List (List UInt8) → List UInt8
  | [] => []
  | [role] => role
  | role :: roles => role ++ 95 :: joined roles

def SignedType.signature_impl : SignedType → List Datum
  | enum e =>
    text e.name :: (if e.isScoped then [text "class".toList] else []) ++ text e.type ::
      e.params.flatMap fun param => [text param.name, text (number param.value)]
  | flag f => text f.name :: typeData f._enum f.scope
  | model m => [.bytes (joined ((m.roles.map toLatin1).mergeSort fun a b => decide (a ≤ b)))]
  | cls c =>
    text c.name :: propertiesData c 0 0 c.properties ++ functionsData c.signalsList c.name ++ functionsData c.slotsList c.name
  | pod p => text p.name :: p.attributes.flatMap fun a => text a.name :: typeData a.type p.name

section Data
variable {sha : Sha1} (table : Table sha)

def Table.find? (key : QString) : Option sha.Digest := (List.find? (fun entry => entry.1 = key) table).map (·.2)

/-- Enums and flags within the class come first. -/
def Table.lookup (className type : QString) : Option sha.Digest :=
  match if className ≠ [] then table.find? (inScope className type) else none with
  | some digest => some digest
  | none => table.find? type

/-- There is no `::` behind the last one, so that `typeData` calls itself once. -/
def Table.plainTypeData (className type : QString) : Fed sha :=
  match table.lookup className type with
  | some digest => [.inr digest]
  | none =>
    match lastComponent type with
    | some rest =>
      match table.lookup className rest with
      | some digest => [.inr digest]
      | none => (toLatin1 rest).map .inl
    | none => (toLatin1 type).map .inl

def Table.data : Datum → Fed sha
  | .bytes bytes => bytes.map .inl
  | .enumerator value => (int32 value).map .inl
  | .plainType className type => table.plainTypeData className type
  | .signature key => (table.find? key).toList.map .inr

/-- What the calls of `addData` feed. -/
def SignedType.fed (t : SignedType) : Fed sha := t.signature_impl.flatMap table.data

def SignedType.generateSignature (t : SignedType) : Table sha := (t.typeName, sha.digest (t.fed table)) :: table

end Data

/-- The table behind some declarations. -/
def signatures (sha : Sha1) (types : List SignedType) : Table sha :=
  types.foldl SignedType.generateSignature []

/-- What is fed for the declaration at a position. -/
def checksumInput (sha : Sha1) (types : List SignedType) (position : Nat) : Fed sha :=
  match types[position]? with
  | some t => t.fed (signatures sha (types.take position))
  | none => []

end Model

end RemoteObjects.Repc
