import RemoteObjects.Repc.Declarations
import RemoteObjects.Repc.Lexer
import RemoteObjects.Repc.Signature

/-! The parser of `.rep` files: the actions of its rules, and how the rules follow the tokens. An action
reads the captures of the token that was scanned last. -/
namespace RemoteObjects.Repc
open Patterns

section Model

/-- What of Qt Core the parser rests on: SHA-1, and the letters and digits of Unicode. -/
structure Core extends Sha1 where
  isLetterOrNumber : Char → Bool

structure AST (sha : Sha1) where
  classes : List ASTClass := []
  pods : List POD := []
  enums : List ASTEnum := []
  flags : List ASTFlag := []
  enumUses : List QString := []
  preprocessorDirectives : List QString := []
  headerLines : List QString := []
  footerLines : List QString := []
  typeSignatures : Table sha := []

structure RepParser (sha : Sha1) where
  ast : AST sha := {}
  astClass : ASTClass := { name := [] }
  astPod : POD := {}
  symbol : QString := []
  argString : QString := []
  astEnum : ASTEnum := { name := [] }
  astEnumValue : Int := -1
  captured : Captures := []

/-- A token without named groups leaves the captures. -/
def RepParser.scan {sha : Sha1} (p : RepParser sha) (t : Token) : RepParser sha :=
  if t.terminal.pattern.groups = [] then p else { p with captured := t.captures }

section Values

def digitValue (c : Char) : Nat :=
  if c.isDigit then c.toNat - 48 else if 'a' ≤ c then c.toNat - 87 else c.toNat - 55

def digits (base : Nat) (s : QString) : Nat := s.foldl (fun n c => base * n + digitValue c) 0

/-- A number that `toInt` cannot represent becomes zero. -/
def ofRange (n : Int) : Int := if -2147483648 ≤ n ∧ n ≤ 2147483647 then n else 0

/-- `toInt`, with base 16 behind `0x`. -/
def toInt : QString → Int
  | '-' :: s => ofRange (-digits 10 s)
  | '0' :: 'x' :: s => ofRange (digits 16 s)
  | '0' :: 'X' :: s => ofRange (digits 16 s)
  | s => ofRange (digits 10 s)

/-- The enums with the flag index of the first one of this name, if there is one. -/
def withFlag (name : QString) (count : Nat) : List ASTEnum → Option (List ASTEnum)
  | [] => none
  | en :: enums => if en.name = name then some ({ en with flagIndex := count } :: enums) else (withFlag name count enums).map (en :: ·)

end Values

namespace RepParser
variable {sha : Sha1} (p : RepParser sha)

def value (group : Capture) : QString := Patterns.captured p.captured group

def generateSignature (t : SignedType) : RepParser sha :=
  { p with ast.typeSignatures := t.generateSignature p.ast.typeSignatures }

def preprocessorDirective : RepParser sha :=
  let line := p.value .preprocessor_directive
  if "#HEADER".toList.isPrefixOf line then { p with ast.headerLines := p.ast.headerLines ++ [line.drop 8] }
  else if "#FOOTER".toList.isPrefixOf line then { p with ast.footerLines := p.ast.footerLines ++ [line.drop 8] }
  else { p with ast.preprocessorDirectives := p.ast.preprocessorDirectives ++ [line] }

/-- A word that begins with `ENUM` and no longer name. -/
def startsEnum (isLetterOrNumber : Char → Bool) (word : QString) : Bool :=
  "ENUM".toList.isPrefixOf word && !((word.drop 4).head?.any fun c => isLetterOrNumber c || c == '_')

def appendPods (pod : POD) (arguments : List ASTDeclaration) : POD :=
  { pod with attributes := pod.attributes ++ arguments.map fun arg => ⟨arg.type, arg.name⟩ }

def appendPod (pod : POD) : RepParser sha :=
  { p.generateSignature (.pod pod) with ast.pods := p.ast.pods ++ [pod] }

def pod (isLetterOrNumber : Char → Bool) : Except QString (RepParser sha) :=
  let argString := trimmed (p.value .types)
  if argString = [] then .ok p
  else if (argString.splitOn ' ').any (startsEnum isLetterOrNumber) then
    .error "ENUMs are only available in PODs using bracket syntax ('\x7b'), not parentheses".toList
  else .ok (p.appendPod (appendPods
    { name := trimmed (p.value .name), compilerAttribute := trimmed (p.value .attribute) } (parseArguments argString)))

def classStart : RepParser sha :=
  { p with astClass := { name := p.value .name, compilerAttribute := p.value .attribute } }

def cls : RepParser sha :=
  { p.generateSignature (.cls p.astClass) with ast.classes := p.ast.classes ++ [p.astClass] }

def podStart : RepParser sha :=
  { p with
    astPod := { name := trimmed (p.value .name), compilerAttribute := p.value .attribute }
    argString := [] }

/-- The members of the POD are appended before its signature is generated. -/
def pod2 : RepParser sha :=
  { p.appendPod (appendPods p.astPod (parseArguments p.argString)) with
    astPod := appendPods p.astPod (parseArguments p.argString) }

section Enums

def enumStart : RepParser sha :=
  { p with
    astEnum := { name := p.value .name, isScoped := p.value .cls ≠ [], type := p.value .type }
    astEnumValue := -1 }

def enumParam : RepParser sha :=
  let value := p.astEnumValue + 1
  { p with
    astEnumValue := value
    astEnum.max := if p.astEnum.max < value then value else p.astEnum.max
    astEnum.params := p.astEnum.params ++ [⟨p.symbol, value⟩] }

def enumParamValue : RepParser sha :=
  let value := p.astEnumValue
  let size := if value < 0 then -value else value
  { p with
    astEnum.isSigned := p.astEnum.isSigned || value < 0
    astEnum.max := if p.astEnum.max < size then size else p.astEnum.max
    astEnum.params := p.astEnum.params ++ [⟨p.symbol, value⟩] }

def readSymbol : RepParser sha := { p with symbol := trimmed (p.value .symbol) }

def readValue : RepParser sha := { p with astEnumValue := toInt (trimmed (p.value .value)) }

def globalEnum : RepParser sha := { p.generateSignature (.enum p.astEnum) with ast.enums := p.ast.enums ++ [p.astEnum] }

def classEnum : RepParser sha :=
  let en := { p.astEnum with scope := p.astClass.name }
  { p.generateSignature (.enum en) with
    astEnum := en
    astClass.enums := p.astClass.enums ++ [en] }

def podEnum : RepParser sha :=
  { p.generateSignature (.enum p.astEnum) with astPod.enums := p.astPod.enums ++ [p.astEnum] }

end Enums

section Flags

def flagOf (scope : QString) : ASTFlag := ⟨p.value .name, p.value .enum, scope⟩

def unknownEnum (where_ : String) : QString :=
  "FLAG: Unknown (".toList ++ where_.toList ++ ") enum: ".toList ++ p.value .enum

def classFlag : Except QString (RepParser sha) :=
  match withFlag (p.value .enum) p.astClass.flags.length p.astClass.enums with
  | none => .error (p.unknownEnum "class")
  | some enums => .ok { p.generateSignature (.flag (p.flagOf p.astClass.name)) with
      astClass.enums := enums
      astClass.flags := p.astClass.flags ++ [p.flagOf p.astClass.name] }

def podFlag : Except QString (RepParser sha) :=
  match withFlag (p.value .enum) p.astPod.flags.length p.astPod.enums with
  | none => .error (p.unknownEnum "pod")
  | some enums => .ok { p.generateSignature (.flag (p.flagOf p.astPod.name)) with
      astPod.enums := enums
      astPod.flags := p.astPod.flags ++ [p.flagOf p.astPod.name] }

def flag : Except QString (RepParser sha) :=
  match withFlag (p.value .enum) p.ast.flags.length p.ast.enums with
  | none => .error (p.unknownEnum "global")
  | some enums => .ok { p.generateSignature (.flag (p.flagOf [])) with
      ast.enums := enums
      ast.flags := p.ast.flags ++ [p.flagOf []] }

end Flags

section Members

def prop : Except QString (RepParser sha) := do
  let property ← parseProperty (p.value .args)
  return { p with
    astClass.properties := p.astClass.properties ++ [property]
    astClass.hasPersisted := p.astClass.hasPersisted || property.persisted }

def signal : RepParser sha :=
  let signal := { name := trimmed (p.value .name), params := parseArguments (trimmed (p.value .args)) }
  { p with astClass.signalsList := p.astClass.signalsList ++ [signal] }

/-- The return type and the name of a slot, with `void` where nothing stands in front of the name. -/
def slotName (s : QString) : QString × QString :=
  let returnTypeAndName := if ' ' ∈ s then s else "void ".toList ++ s
  ((returnTypeAndName.rdropWhile (· ≠ ' ')).dropLast, returnTypeAndName.rtakeWhile (· ≠ ' '))

def slot : RepParser sha :=
  let (returnType, name) := slotName (trimmed (p.value .type))
  let slot := { returnType := returnType, name := name, params := parseArguments (trimmed (p.value .args)) }
  { p with astClass.slotsList := p.astClass.slotsList ++ [slot] }

def objectProperty (type name : QString) : ASTProperty :=
  { type := type, name := name, defaultValue := "nullptr".toList, modifier := .sourceOnlySetter, isPointer := true }

def model : RepParser sha :=
  let name := trimmed (p.value .name)
  let model := {
    name := name
    scope := p.astClass.name
    roles := parseRoles (trimmed (p.value .args))
    propertyIndex := p.astClass.properties.length }
  { p.generateSignature (.model model) with
    astClass.modelMetadata := p.astClass.modelMetadata ++ [model]
    astClass.properties := p.astClass.properties ++ [objectProperty "QAbstractItemModel".toList name] }

def childRep : RepParser sha :=
  { p with
    astClass.subClassPropertyIndices := p.astClass.subClassPropertyIndices ++ [p.astClass.properties.length]
    astClass.properties := p.astClass.properties ++ [objectProperty (trimmed (p.value .type)) (trimmed (p.value .name))] }

def useEnum : RepParser sha := { p with ast.enumUses := p.ast.enumUses ++ [p.value .name] }

end Members

/-- Parameters are collected as text. -/
def addText (s : QString) : RepParser sha := { p with argString := p.argString ++ s }

end RepParser

end Model

end RemoteObjects.Repc
