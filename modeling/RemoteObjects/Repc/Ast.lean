import RemoteObjects.Text

/-! What the parser of `.rep` files builds, and the texts that are made of it. -/
namespace RemoteObjects.Repc

section Model

abbrev QString := List Char

namespace ASTProperty

inductive Modifier
  | constant
  | readOnly
  | readPush
  | readWrite
  | sourceOnlySetter
deriving DecidableEq

end ASTProperty

structure ASTProperty where
  type : QString
  name : QString
  defaultValue : QString := []
  modifier : ASTProperty.Modifier := .readPush
  persisted : Bool := false
  isPointer : Bool := false
deriving DecidableEq

/-- A parameter; `constant` and `reference` are the flags of its `variableType`. -/
structure ASTDeclaration where
  type : QString
  name : QString
  constant : Bool := false
  reference : Bool := false
deriving DecidableEq

structure ASTFunction where
  returnType : QString := "void".toList
  name : QString
  params : List ASTDeclaration := []
deriving DecidableEq

structure ASTEnumParam where
  name : QString
  value : Int
deriving DecidableEq

structure ASTEnum where
  name : QString
  type : QString := []
  scope : QString := []
  params : List ASTEnumParam := []
  isSigned : Bool := false
  isScoped : Bool := false
  max : Int := 0
  flagIndex : Int := -1
deriving DecidableEq

structure ASTFlag where
  name : QString
  _enum : QString
  scope : QString := []
deriving DecidableEq

structure ASTModel where
  name : QString
  scope : QString
  roles : List QString := []
  propertyIndex : Int := -1
deriving DecidableEq

structure ASTClass where
  name : QString
  compilerAttribute : QString := []
  properties : List ASTProperty := []
  signalsList : List ASTFunction := []
  slotsList : List ASTFunction := []
  enums : List ASTEnum := []
  flags : List ASTFlag := []
  hasPersisted : Bool := false
  modelMetadata : List ASTModel := []
  subClassPropertyIndices : List Nat := []
deriving DecidableEq

structure PODAttribute where
  type : QString
  name : QString
deriving DecidableEq

structure POD where
  name : QString := []
  compilerAttribute : QString := []
  attributes : List PODAttribute := []
  enums : List ASTEnum := []
  flags : List ASTFlag := []
deriving DecidableEq

def ASTDeclaration.asString (declaration : ASTDeclaration) (withName : Bool) : QString :=
  (if declaration.constant then "const ".toList else []) ++ declaration.type ++
    (if declaration.reference then " &".toList else []) ++
    (if withName then ' ' :: declaration.name else [])

/-- `\s` of a regular expression. -/
def isSpace (c : Char) : Bool := c ∈ [' ', '\t', '\n', '\r', '\x0b', '\x0c']

/-- What ends the name of a type within the text of a type. -/
def isDelimiter (c : Char) : Bool := c = '<' || c = '>' || c = ',' || isSpace c

end Model

end RemoteObjects.Repc
