import Mathlib.Logic.Function.Basic
import RemoteObjects.Forest
import RemoteObjects.Text
import RemoteObjects.Transition

/-! The sources of a host. A root source has child sources for the pointer properties of
its object, and these for theirs; the host finds all of them by their names. -/
namespace RemoteObjects.Host
open RemoteObjects

abbrev Name := List Char

/-- Pointers to an object and to an item model are published in two ways. -/
inductive Kind
  | CLASS | MODEL
deriving DecidableEq

/-- The literals `CLASS()` and `MODEL()`. -/
def Kind.literal : Kind → Name
  | .CLASS => "Class::".toList
  | .MODEL => "Model::".toList

/-- A pointer property in a `SourceApiMap`. `bare` marks an api that was made for a plain
`QObject`, where the first property is the object name. The names of properties are
identifiers, unlike those of roots. -/
structure PointerProperty where
  name : Name
  kind : Kind
  bare : Bool
  identifier : ':' ∉ name := by decide
deriving DecidableEq

/-- The pointer properties of a `SourceApiMap` by their internal indices, with those of the
`m_subclasses` below. -/
abbrev Api := Forest PointerProperty

/-- A source is found by the number of its root and the property indices from there. -/
abbrev Id := List Nat

section Sources
variable {Obj : Type}

/-- `QRemoteObjectSourceBase`. A destroyed child is a null `QPointer` in `m_children`. -/
structure Source (Obj : Type) where
  name : Name
  apiName : Name
  kind : Kind
  bare : Bool
  api : Api
  object : Option Obj
  destroyed : Bool
deriving DecidableEq

/-- What an object is: an item model, or a dynamic replica with an api of its own. -/
structure Classes (Obj : Type) where
  isModel : Obj → Bool
  replicaApi : Obj → Option Api

/-- The name of a child source. -/
def childName (kind : Kind) (parentName name : Name) : Name :=
  kind.literal ++ (parentName ++ "::".toList ++ name)

/-- The children that the constructor makes for an object, `values` being what the pointer
properties read as. -/
def construct (values : Obj → Nat → Option Obj) (parentName : Name) (object : Obj) : Api → Forest (Source Obj)
  | .nil => .nil
  | .cons i property below rest =>
    let child := values object i
    .cons i ⟨childName property.kind parentName property.name, property.name, property.kind,
        property.bare, below, child, false⟩
      (match child with
        | some child => construct values property.name child below
        | none => .nil)
      (construct values parentName object rest)

/-- A dynamic replica in the place of a plain object brings its api along. -/
def Source.resetObject (classes : Classes Obj) (source : Source Obj) (newObject : Option Obj) : Source Obj :=
  match source.bare, newObject.bind classes.replicaApi with
  | true, some api => { source with api, bare := false, object := newObject }
  | _, _ => { source with object := newObject }

/-- `resetObject` on the children of a source whose object is now the given one. -/
def resetChildren (classes : Classes Obj) (values : Obj → Nat → Option Obj) :
    Option Obj → Forest (Source Obj) → Forest (Source Obj)
  | _, .nil => .nil
  | object, .cons i source below rest =>
    let child := object.bind (values · i)
    .cons i (source.resetObject classes child) (resetChildren classes values child below)
      (resetChildren classes values object rest)

/-- The sources that go with an object, and with their parent. -/
def destroyed [DecidableEq Obj] (object : Obj) (gone : Bool) : Forest (Source Obj) → Forest (Source Obj)
  | .nil => .nil
  | .cons i source below rest =>
    let here := gone || decide (source.object = some object)
    .cons i { source with destroyed := source.destroyed || here } (destroyed object here below)
      (destroyed object gone rest)

/-- All sources of a forest are deleted. -/
def deleted : Forest (Source Obj) → Forest (Source Obj)
  | .nil => .nil
  | .cons i source below rest => .cons i { source with destroyed := true } (deleted below) (deleted rest)

/-- The object that is read along a path of properties. -/
def readPath (values : Obj → Nat → Option Obj) (object : Option Obj) (path : List Nat) : Option Obj :=
  path.foldl (fun object i => object.bind (values · i)) object

end Sources

section Host
variable (Obj : Type)

/-- `QRemoteObjectSourceIo`, with the objects behind its sources. -/
structure SourceIo where
  values : Obj → Nat → Option Obj
  sources : Forest (Source Obj)
  serial : Nat
  m_sourceObjects : Name → Option Id
  m_sourceRoots : Name → Option Nat
  m_objectToSourceMap : Obj → Option Nat

inductive Event
  | enableRemoting (object : Obj) (name : Name) (api : Api)
  | disableRemoting (object : Obj)
  | destroy (object : Obj)
  | setPointer (object : Obj) (property : Nat) (value : Option Obj)
  | serializeProperty (source : Id) (internalIndex : Nat)

end Host

namespace SourceIo
variable {Obj : Type} (s : SourceIo Obj)

def initial (values : Obj → Nat → Option Obj) : SourceIo Obj where
  values := values
  sources := .nil
  serial := 0
  m_sourceObjects _ := none
  m_sourceRoots _ := none
  m_objectToSourceMap _ := none

/-- A source that has not been destroyed. -/
def source (id : Id) : Option (Source Obj) := (s.sources.get id).filter (!·.destroyed)

/-- `registerSource` for a list of sources. -/
def registered (table : Name → Option Id) (sources : List (Id × Source Obj)) : Name → Option Id :=
  sources.foldl (fun table node => Function.update table node.2.name (some node.1)) table

/-- `unregisterSource` for a root source. -/
def unregisterSource [DecidableEq Obj] (name : Name) (object : Option Obj) : SourceIo Obj where
  values := s.values
  sources := s.sources
  serial := s.serial
  m_sourceObjects := Function.update s.m_sourceObjects name none
  m_sourceRoots := Function.update s.m_sourceRoots name none
  m_objectToSourceMap := fun other => if some other = object then none else s.m_objectToSourceMap other

/-- The root source is made after its children, and each is registered if it has an object. -/
def enableRemoting [DecidableEq Obj] (object : Obj) (name : Name) (api : Api) : SourceIo Obj :=
  let root : Source Obj := ⟨name, name, .CLASS, false, api, some object, false⟩
  let tree := Forest.cons s.serial root (construct s.values name object api) .nil
  { s with
    sources := .cons s.serial root (construct s.values name object api) s.sources
    serial := s.serial + 1
    m_sourceObjects :=
      registered s.m_sourceObjects (tree.postorder.filter fun node => node.2.object.isSome)
    m_sourceRoots := Function.update s.m_sourceRoots name (some s.serial)
    m_objectToSourceMap := Function.update s.m_objectToSourceMap object (some s.serial) }

/-- `~QRemoteObjectRootSource`. -/
def deleteRoot [DecidableEq Obj] (number : Nat) : SourceIo Obj :=
  match s.sources.get [number] with
  | some root =>
    let change := fun (root : Source Obj) below => ({ root with destroyed := true }, deleted below)
    { s.unregisterSource root.name root.object with sources := s.sources.modify change [number] }
  | none => s

/-- An object is destroyed with the sources that are its children, and nothing reads as it
any more. -/
def destroy [DecidableEq Obj] (object : Obj) : SourceIo Obj :=
  let roots := s.sources.keys.filter fun number =>
    (s.source [number]).any fun root => decide (root.object = some object)
  let s := roots.foldl (fun s number => s.deleteRoot number) s
  { s with
    sources := destroyed object false s.sources
    values := fun other i => if s.values other i = some object then none else s.values other i }

/-- Serializing a property resets the child source whose object is another than the
property reads as. -/
def resets [DecidableEq Obj] (id : Id) (internalIndex : Nat) : Option (Option Obj) :=
  match (s.source id).bind Source.object, s.source (id ++ [internalIndex]) with
  | some object, some child =>
    if child.object = s.values object internalIndex then none else some (s.values object internalIndex)
  | _, _ => none

def resetObject (classes : Classes Obj) (id : Id) (newObject : Option Obj) : SourceIo Obj :=
  let change := fun (source : Source Obj) below =>
    (source.resetObject classes newObject, resetChildren classes s.values newObject below)
  let sources := s.sources.modify change id
  { s with
    sources
    m_sourceObjects := registered s.m_sourceObjects (sources.nodes.filter fun node =>
      decide (id <+: node.1) && node.2.object.any classes.isModel) }

/-- No source below was destroyed under its parent. -/
def Whole (id : Id) : Prop :=
  ∀ other source, s.sources.get other = some source → id <+: other → source.destroyed = false

instance (id : Id) : Decidable (s.Whole id) := by
  unfold Whole
  infer_instance

end SourceIo

variable {Obj : Type} [DecidableEq Obj]

/-- One step of the host, or nothing where it would follow a null pointer. -/
def step (classes : Classes Obj) (s : SourceIo Obj) : Event Obj → Option (SourceIo Obj)
  | .enableRemoting object name api =>
    if s.m_sourceRoots name = none then some (s.enableRemoting object name api) else none
  | .disableRemoting object => (s.m_objectToSourceMap object).map s.deleteRoot
  | .destroy object => some (s.destroy object)
  | .setPointer object i value =>
    some { s with values := fun other j => if other = object ∧ j = i then value else s.values other j }
  | .serializeProperty id i =>
    match (s.source id).bind Source.object, s.source (id ++ [i]) with
    | some _, some _ =>
      match s.resets id i with
      | some newObject =>
        if s.Whole (id ++ [i]) then some (s.resetObject classes (id ++ [i]) newObject) else none
      | none => some s
    | _, _ => none

end RemoteObjects.Host
