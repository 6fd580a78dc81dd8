import Mathlib.Data.List.DropRight
import RemoteObjects.Repc.Ast

/-! What the parser of `.rep` files makes of the texts between brackets: properties, parameters, roles. -/
namespace RemoteObjects.Repc

section Model

/-- `QChar::isSpace` -/
def QChar.isSpace (c : Char) : Bool :=
  c == ' ' || ('\t' ≤ c && c ≤ '\r') || (0x2000 ≤ c.toNat && c.toNat ≤ 0x200a) ||
    c.toNat ∈ [0x85, 0xa0, 0x1680, 0x2028, 0x2029, 0x202f, 0x205f, 0x3000]

def trimmed (s : QString) : QString := (s.dropWhile QChar.isSpace).rdropWhile QChar.isSpace

/-- Split at `\r?\n`. -/
def lines : QString → List QString
  | [] => [[]]
  | '\n' :: s => [] :: lines s
  | '\r' :: '\n' :: s => [] :: lines s
  | c :: s => (lines s).modifyHead (c :: ·)

/-- Without the match of `//.*`. -/
def withoutComment : QString → QString
  | [] => []
  | '/' :: '/' :: _ => []
  | c :: s => c :: withoutComment s

def stripArgs (arguments : QString) : QString := (lines arguments).flatMap withoutComment

section Property

/-- The flags between matches of `\s*,\s*`. -/
def flagsFrom (first : Bool) : List QString → List QString
  | [] => []
  | [flag] => [if first then flag else flag.dropWhile isSpace]
  | flag :: flags => (if first then flag else flag.dropWhile isSpace).rdropWhile isSpace :: flagsFrom false flags

def modifierFlags (flag : QString) : List QString := flagsFrom true (flag.splitOn ',')

def parseModifierFlag (flag : QString) (modifier : ASTProperty.Modifier) : Except QString (ASTProperty.Modifier × Bool) :=
  let flags := (modifierFlags flag).filter (· ≠ "PERSISTED".toList)
  let persisted := "PERSISTED".toList ∈ modifierFlags flag
  match flags with
  | [] => .ok (modifier, persisted)
  | [f] =>
    if f = "READONLY".toList then .ok (.readOnly, persisted)
    else if f = "CONSTANT".toList then .ok (.constant, persisted)
    else if f = "READPUSH".toList then .ok (.readPush, persisted)
    else if f = "READWRITE".toList then .ok (.readWrite, persisted)
    else if f = "SOURCEONLYSETTER".toList then .ok (.sourceOnlySetter, persisted)
    else .error ("Invalid property declaration: flag ".toList ++ flag ++ " is unknown".toList)
  | _ =>
    if flags.length = 2 ∧ "READONLY".toList ∈ flags ∧ "CONSTANT".toList ∈ flags then .ok (.constant, persisted)
    else .error ("Invalid property declaration: combination not allowed (".toList ++ flag ++ ")".toList)

/-- The type, and the rest from the first space on that is not in a template. -/
def scanType (inTemplate : Bool) (templateDepth : Int) (propertyType : QString) : QString → Option (QString × QString)
  | [] => none
  | c :: s =>
    if c = '<' then scanType true (templateDepth + 1) (propertyType ++ [c]) s
    else if c = '>' then scanType (inTemplate && templateDepth - 1 ≠ 0) (templateDepth - 1) (propertyType ++ [c]) s
    else if QChar.isSpace c && !inTemplate then some (propertyType, c :: s)
    else scanType inTemplate templateDepth (propertyType ++ [c]) s

/-- Up to the first match of `\s`. -/
def beforeSpace (s : QString) : QString := s.takeWhile (!isSpace ·)

/-- Behind the first match of `\s`, if there is one. -/
def behindSpace (s : QString) : Option QString := (s.dropWhile (!isSpace ·)).tail?

/-- What stands behind the name or the default value, as flags. -/
def propertyFlags (input : QString) : Except QString (ASTProperty.Modifier × Bool) :=
  match behindSpace input with
  | none => .ok (.readPush, false)
  | some flag => parseModifierFlag (trimmed flag) .readPush

def parseProperty (propertyDeclaration : QString) : Except QString ASTProperty := do
  match scanType false 0 [] (trimmed (stripArgs propertyDeclaration)) with
  | none => throw ("PROP: Invalid property declaration: ".toList ++ propertyDeclaration)
  | some (propertyType, rest) =>
    let input := trimmed rest
    if '=' ∈ input then
      let value := trimmed (input.dropWhile (· ≠ '=')).tail
      let quoted := value.rdropWhile (· ≠ '"')
      let behind := value.drop quoted.length
      let (modifier, persisted) ← propertyFlags behind
      return {
        type := propertyType
        name := trimmed (input.takeWhile (· ≠ '='))
        defaultValue :=
          if quoted ≠ [] then quoted else if (behindSpace behind).isNone then behind else trimmed (beforeSpace behind)
        modifier := modifier
        persisted := persisted }
    else
      let (modifier, persisted) ← propertyFlags input
      return {
        type := propertyType
        name := if (behindSpace input).isNone then input else trimmed (beforeSpace input)
        modifier := modifier
        persisted := persisted }

end Property

def parseRoles (modelRoles : QString) : List QString :=
  if trimmed modelRoles = [] then [] else ((trimmed modelRoles).splitOn ',').map trimmed

section Arguments

/-- The variables of `parseArguments`. -/
structure TypeParser where
  arguments : List ASTDeclaration := []
  templateDepth : Int := 0
  inTemplate : Bool := false
  inVariable : Bool := false
  propertyType : QString := []
  variableName : QString := []
  constant : Bool := false
  reference : Bool := false
  variableNameIndex : Nat := 0
deriving DecidableEq

namespace TypeParser

def generateFunctionParameter (p : TypeParser) : TypeParser :=
  let unnamed := p.variableName = []
  let index := if unnamed then p.variableNameIndex + 1 else p.variableNameIndex
  let name := if unnamed then "__repc_variable_".toList ++ (toString index).toList else trimmed p.variableName
  { p with
    variableNameIndex := index
    arguments := p.arguments ++ [⟨p.propertyType, name, p.constant, p.reference⟩] }

def read (p : TypeParser) (c : Char) : TypeParser :=
  if c = '<' then
    { p with propertyType := p.propertyType ++ [c], inTemplate := true, templateDepth := p.templateDepth + 1 }
  else if c = '>' then
    { p with
      propertyType := p.propertyType ++ [c]
      templateDepth := p.templateDepth - 1
      inTemplate := p.inTemplate && p.templateDepth - 1 ≠ 0 }
  else if QChar.isSpace c then
    if p.inTemplate then { p with propertyType := p.propertyType ++ [c] }
    else if p.propertyType = [] then p
    else if p.propertyType = "const".toList then { p with propertyType := [], constant := true }
    else { p with inVariable := true }
  else if c = '&' then { p with reference := true }
  else if c = ',' then
    if p.inTemplate then { p with propertyType := p.propertyType ++ [c] }
    else { p.generateFunctionParameter with
      propertyType := [], variableName := [], constant := false, reference := false, inVariable := false }
  else if p.inVariable then { p with variableName := p.variableName ++ [c] }
  else { p with propertyType := p.propertyType ++ [c] }

end TypeParser

def parseArguments (arguments : QString) : List ASTDeclaration :=
  let p := (stripArgs arguments).foldl TypeParser.read {}
  (if p.propertyType = [] then p else p.generateFunctionParameter).arguments

end Arguments

end Model

section Trimmed

theorem trimmed_ne_nil {c : Char} {s : QString} (mem : c ∈ s) (visible : QChar.isSpace c = false) : trimmed s ≠ [] := by
  intro empty
  have front : ∀ d ∈ s.dropWhile QChar.isSpace, QChar.isSpace d = true := List.rdropWhile_eq_nil_iff.mp empty
  rw [← List.takeWhile_append_dropWhile (p := QChar.isSpace) (l := s)] at mem
  have space : QChar.isSpace c = true := (List.mem_append.mp mem).elim List.mem_takeWhile_imp (front c)
  rw [visible] at space
  exact Bool.false_ne_true space

end Trimmed

section Example

example : parseProperty "QMap<int, QString> names = \"a b\" READONLY, PERSISTED".toList = .ok
    { type := "QMap<int, QString>".toList, name := "names".toList, defaultValue := "\"a b\"".toList, modifier := .readOnly,
      persisted := true } := by
  decide +kernel

example : parseArguments "const QString & name, QMap<int, int>".toList =
    [⟨"QString".toList, "name".toList, true, true⟩, ⟨"QMap<int, int>".toList, "__repc_variable_1".toList, false, false⟩] := by
  decide +kernel

end Example

end RemoteObjects.Repc
