import RemoteObjects.Repc.Parser

/-! Classes as moc describes them in JSON, the `.rep` text that is generated for one, and what is built
from a list of them without a text. -/
namespace RemoteObjects.Repc

section Model

/-- An argument without a name lacks the key. -/
structure MocArgument where
  type : QString
  name : Option QString
deriving DecidableEq

structure MocFunction where
  name : QString
  access : QString
  returnType : QString
  arguments : List MocArgument
deriving DecidableEq

/-- What is optional lacks its key; moc writes no `arguments` for a property. -/
structure MocProperty where
  name : QString
  type : QString
  constant : Bool := false
  read : Option QString := none
  write : Option QString := none
  notify : Option QString := none
  arguments : List MocArgument := []
deriving DecidableEq

/-- An array that lacks its key reads as an empty one. -/
structure MocClass where
  className : QString
  gadget : Bool := false
  properties : List MocProperty := []
  signals : List MocFunction := []
  slots : List MocFunction := []
deriving DecidableEq

/-- The optional keys of a property. -/
def MocProperty.keys (prop : MocProperty) : List QString :=
  (if prop.read.isSome then ["read".toList] else []) ++ (if prop.write.isSome then ["write".toList] else []) ++
    if prop.notify.isSome then ["notify".toList] else []

def MocProperty.containsKey (prop : MocProperty) (key : String) : Bool := key.toList ∈ prop.keys

section Text

/-- `getBytes`; the bytes as Latin-1 characters. -/
def getBytes (s : QString) : QString := (toLatin1 s).map fun b => Char.ofNat b.toNat

def join (separator : QString) : List QString → QString
  | [] => []
  | [s] => s
  | s :: rest => s ++ separator ++ join separator rest

/-- Neither notifiable nor constant. -/
def MocProperty.skipped (prop : MocProperty) : Bool := !prop.containsKey "notify" && !prop.constant

def generateProperty (prop : MocProperty) : QString :=
  getBytes prop.type ++ [' '] ++ getBytes prop.name ++ (if prop.constant then " CONSTANT".toList else []) ++
    if !prop.containsKey "write" && prop.containsKey "read." then " READONLY".toList else []

def Moc.generateProperties (properties : List MocProperty) (isPod : Bool) : List QString :=
  (properties.filter fun prop => isPod || !prop.skipped).map generateProperty

def generateArgument (arg : MocArgument) : QString := getBytes arg.type ++ [' '] ++ getBytes (arg.name.getD [])

/-- Each argument is followed by a comma, and the last one is chopped. -/
def generateArguments (arguments : List MocArgument) : QString :=
  ((arguments.flatMap fun arg => generateArgument arg ++ ", ".toList).dropLast).dropLast

def generateFunction (type : String) (func : MocFunction) : QString :=
  type.toList ++ ['('] ++ getBytes func.returnType ++ [' '] ++ getBytes func.name ++ ['('] ++ generateArguments func.arguments ++
    "));\n".toList

def generateFunctions (type : String) (functions : List MocFunction) : QString := functions.flatMap (generateFunction type)

def MocFunction.notPublic (func : MocFunction) : Bool := func.access ≠ "public".toList

/-- A change signal. -/
def MocClass.notifies (cls : MocClass) (func : MocFunction) : Bool := cls.properties.any fun prop => prop.notify = some func.name

def cleanedSignalList (cls : MocClass) : List MocFunction :=
  if cls.properties = [] then cls.signals
  else cls.signals.filter fun func => !cls.notifies func && !func.notPublic

/-- A setter; the source looks for the argument among those of the property. -/
def MocClass.writes (cls : MocClass) (func : MocFunction) : Bool :=
  cls.properties.any fun prop => prop.write = some func.name &&
    match prop.arguments with
    | [arg] => arg.type = prop.type
    | _ => false

def cleanedSlotList (cls : MocClass) : List MocFunction :=
  if cls.properties ≠ [] then cls.slots
  else cls.slots.filter fun func => !cls.writes func && !func.notPublic

def MocClass.silent (cls : MocClass) : Bool := cls.signals.isEmpty && cls.slots.isEmpty

def generatePod (cls : MocClass) : QString :=
  "POD ".toList ++ getBytes cls.className ++ ['('] ++ join ", ".toList (Moc.generateProperties cls.properties true) ++ ")\n".toList

def generateClass (cls : MocClass) (alwaysGenerateClass : Bool) : QString :=
  if cls.gadget || alwaysGenerateClass || cls.silent then generatePod cls
  else
    "class ".toList ++ getBytes cls.className ++ "\n\x7b\n".toList ++
      (if cls.properties = [] then []
        else "    PROP(".toList ++ join ");\n    PROP(".toList (Moc.generateProperties cls.properties false) ++ ");\n".toList) ++
      generateFunctions "    SLOT" (cleanedSlotList cls) ++ generateFunctions "    SIGNAL" (cleanedSignalList cls) ++
      "\x7d\n".toList

end Text

section Ast

def propertyList2PODAttributes (list : List MocProperty) : List PODAttribute := list.map fun prop => ⟨prop.type, prop.name⟩

def MocProperty.modifier (prop : MocProperty) : ASTProperty.Modifier :=
  if prop.constant then .constant
  else if !prop.containsKey "write" && prop.containsKey "read" then .readOnly
  else .readWrite

def propertyList2AstProperties (list : List MocProperty) : List ASTProperty :=
  (list.filter fun prop => !prop.skipped).map fun prop => { type := prop.type, name := prop.name, modifier := prop.modifier }

def MocFunction.ast (func : MocFunction) : ASTFunction where
  name := func.name
  returnType := func.returnType
  params := func.arguments.map fun arg => { type := arg.type, name := arg.name.getD [] }

def functionList2AstFunctionList (list : List MocFunction) : List ASTFunction := list.map MocFunction.ast

def MocClass.pod (cls : MocClass) : POD :=
  { name := cls.className, attributes := propertyList2PODAttributes cls.properties }

def MocClass.ast (cls : MocClass) : ASTClass where
  name := cls.className
  properties := propertyList2AstProperties cls.properties
  signalsList := functionList2AstFunctionList (cleanedSignalList cls)
  slotsList := functionList2AstFunctionList (cleanedSlotList cls)

/-- No signatures are generated. -/
def classList2AST (sha : Sha1) (classes : List MocClass) : AST sha where
  pods := (classes.filter (·.silent)).map MocClass.pod
  classes := (classes.filter (!·.silent)).map MocClass.ast

end Ast

end Model

section Keys

/-- The key has a dot that no key of moc has. -/
theorem containsKey_read_dot (prop : MocProperty) : prop.containsKey "read." = false := by
  rw [MocProperty.containsKey, MocProperty.keys]
  generalize prop.read.isSome = read
  generalize prop.write.isSome = write
  generalize prop.notify.isSome = notify
  revert read write notify
  decide

end Keys

end RemoteObjects.Repc
