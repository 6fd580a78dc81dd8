import Mathlib.Logic.Function.Basic
import RemoteObjects.Text

/-! The names by which a listener finds the definitions of child classes: made of class info or
of the class name, and keys of what was sent on one side and of what is known on the other. -/
namespace RemoteObjects.Source.TypeNames
open RemoteObjects Text

abbrev Name := List Char

section Model
variable {A : Type*}

inductive ObjectType
  | CLASS | MODEL
deriving DecidableEq

/-- A child source: its class, the value of its class info `RemoteObject Type`, and what
`serializeDefinition` writes of it. A model has an adapter in front. -/
structure ChildSource (A : Type*) where
  classInfo : Option Name
  className : Name
  hasAdapter : Bool
  api : A

/-- The type name of a subclass in `DynamicApiMap`. -/
def subclassName (classInfo : Option Name) (className : Name) : Name :=
  match classInfo with
  | some typeName => typeName
  | none =>
    if indexOf "QQuick".toList className ≠ -1 then replace "QQuick".toList [] className
    else
      let index := indexOf "_QMLTYPE_".toList className
      if index ≠ 0 then truncate index className
      else if "Source".toList <:+ className then className.take (className.length - 6)
      else className

def ChildSource.typeName (c : ChildSource A) : Name :=
  if c.hasAdapter then "QAbstractItemModelAdapter".toList else subclassName c.classInfo c.className

/-- A receiver: the classes of compiled replicas that it registered, and the definitions that it
had before; `modelTypes` are names of registered types that are models. -/
structure Peers (A : Type*) where
  modelTypes : Name → Bool
  staticTypes : Name → Option A
  dynamicTypes : Name → Option A

def getObjectType (p : Peers A) (typeName : Name) : ObjectType :=
  if typeName = "QAbstractItemModelAdapter".toList then .MODEL else if p.modelTypes typeName then .MODEL else .CLASS

/-- The type in the `QRO_` of a child. -/
def ChildSource.type (p : Peers A) (c : ChildSource A) : ObjectType :=
  if c.hasAdapter then .MODEL else getObjectType p c.typeName

/-- `sentTypes` of the root sources, `dynamicTypes` of the receiver, and what it looked up for
values without a definition. -/
structure State (A : Type*) where
  sentTypes : List (Nat × Name)
  dynamicTypes : Name → Option A
  lookups : List (ChildSource A × Option A)

def Peers.initial (p : Peers A) : State A := ⟨[], p.dynamicTypes, []⟩

def metaObjectForType (p : Peers A) (s : State A) (typeName : Name) : Option A :=
  match p.staticTypes typeName with
  | some api => some api
  | none => s.dynamicTypes typeName

/-- A child of a root source is sent: `serializeProperty`, and `handlePointerToQObjectProperty`. -/
def send (p : Peers A) (s : State A) (root : Nat) (c : ChildSource A) : State A :=
  if c.type p = .CLASS then
    if (root, c.typeName) ∈ s.sentTypes then
      { s with lookups := (c, metaObjectForType p s c.typeName) :: s.lookups }
    else
      { s with
        sentTypes := (root, c.typeName) :: s.sentTypes
        dynamicTypes := Function.update s.dynamicTypes c.typeName (some c.api) }
  else s

def run (p : Peers A) (s : State A) (sends : List (Nat × ChildSource A)) : State A :=
  sends.foldl (fun s child => send p s child.1 child.2) s

end Model

section Statement
variable {A : Type*}

/-- Children with different APIs have different names, and in whatever order they are sent, a
definition that is left out is found. -/
def NamesIdentify (p : Peers A) (children : List (ChildSource A)) : Prop :=
  (∀ a ∈ children, ∀ b ∈ children, a.api ≠ b.api → a.typeName ≠ b.typeName) ∧
    ∀ sends : List (Nat × ChildSource A), (∀ child ∈ sends, child.2 ∈ children) →
      ∀ lookup ∈ (run p p.initial sends).lookups, lookup.2 = some lookup.1.api

/-- The name that a class is given, unless it has neither class info nor a QML name. -/
def ChildSource.givenName (c : ChildSource A) : Option Name :=
  if c.hasAdapter then some "QAbstractItemModelAdapter".toList
  else
    match c.classInfo with
    | some typeName => some typeName
    | none =>
      if (find "QQuick".toList c.className).isSome then some (replace "QQuick".toList [] c.className)
      else (find "_QMLTYPE_".toList c.className).map fun
        | 0 => if "Source".toList <:+ c.className then c.className.take (c.className.length - 6) else c.className
        | index => c.className.take index

/-- At most one of two classes is given no name, and then the other's is not empty. -/
def Apart : Option Name → Option Name → Prop
  | some m, some n => m ≠ n
  | some n, none | none, some n => n ≠ []
  | none, none => False

/-- Children with different APIs are given names apart, and the receiver has registered no other
class under a name that a child is given. -/
def GivenApart (p : Peers A) (children : List (ChildSource A)) : Prop :=
  (∀ a ∈ children, ∀ b ∈ children, a.api ≠ b.api → Apart a.givenName b.givenName) ∧
    ∀ c ∈ children, c.type p = .CLASS → ∀ api ∈ p.staticTypes (c.givenName.getD []), api = c.api

end Statement

section Names
variable {A : Type*}

/-- The index of a pattern that does not occur is not zero, and truncates all. -/
theorem typeName_eq (c : ChildSource A) : c.typeName = c.givenName.getD [] := by
  unfold ChildSource.typeName ChildSource.givenName
  split
  · rfl
  · unfold subclassName
    cases c.classInfo with
    | some typeName => rfl
    | none =>
      have quick : indexOf "QQuick".toList c.className ≠ -1 ↔ (find "QQuick".toList c.className).isSome := by
        rw [ne_eq, indexOf_eq_neg_one, ← ne_eq, Option.isSome_iff_ne_none]
      simp only [quick]
      split
      · rfl
      · unfold indexOf
        cases find "_QMLTYPE_".toList c.className with
        | none => exact truncate_neg_one c.className
        | some index =>
          cases index with
          | zero => rfl
          | succ index => exact truncate_natCast (index + 1) c.className

theorem apart_iff (m n : Option Name) : Apart m n ↔ m.getD [] ≠ n.getD [] := by
  cases m with
  | none =>
    cases n with
    | none => exact ⟨False.elim, fun differ => differ rfl⟩
    | some n => exact ne_comm
  | some m =>
    cases n with
    | none => exact Iff.rfl
    | some n => exact Iff.rfl

end Names

section Run
variable {A : Type*} {p : Peers A} {children : List (ChildSource A)} {s : State A}

/-- Every name that was sent is that of a child, whose definition the receiver has under it, and
what was looked up so far is the child's own. -/
structure Sound (p : Peers A) (children : List (ChildSource A)) (s : State A) : Prop where
  sent : ∀ entry ∈ s.sentTypes, ∃ c ∈ children, c.typeName = entry.2 ∧ s.dynamicTypes entry.2 = some c.api
  found : ∀ lookup ∈ s.lookups, lookup.2 = some lookup.1.api

theorem Sound.send (sound : Sound p children s)
    (names : ∀ a ∈ children, ∀ b ∈ children, a.api ≠ b.api → a.typeName ≠ b.typeName)
    (static : ∀ c ∈ children, c.type p = .CLASS → ∀ api ∈ p.staticTypes c.typeName, api = c.api)
    (root : Nat) {c : ChildSource A} (member : c ∈ children) : Sound p children (send p s root c) := by
  rw [TypeNames.send]
  split
  · rename_i type
    split
    · rename_i sent
      refine ⟨sound.sent, fun lookup listed => ?_⟩
      rcases List.mem_cons.mp listed with rfl | before
      · rw [metaObjectForType]
        split
        · rename_i api registered
          rw [static c member type api registered]
        · obtain ⟨other, known, same, defined⟩ := sound.sent _ sent
          have api : other.api = c.api := of_not_not fun differ => names other known c member differ same
          exact defined.trans (congrArg some api)
      · exact sound.found lookup before
    · refine ⟨fun entry listed => ?_, sound.found⟩
      by_cases here : entry.2 = c.typeName
      · refine ⟨c, member, here.symm, ?_⟩
        rw [here]
        exact Function.update_self ..
      · rcases List.mem_cons.mp listed with rfl | before
        · exact absurd rfl here
        · obtain ⟨other, known, same, defined⟩ := sound.sent entry before
          exact ⟨other, known, same, (Function.update_of_ne here ..).trans defined⟩
  · exact sound

theorem Sound.run (sound : Sound p children s)
    (names : ∀ a ∈ children, ∀ b ∈ children, a.api ≠ b.api → a.typeName ≠ b.typeName)
    (static : ∀ c ∈ children, c.type p = .CLASS → ∀ api ∈ p.staticTypes c.typeName, api = c.api)
    {sends : List (Nat × ChildSource A)} (within : ∀ child ∈ sends, child.2 ∈ children) :
    Sound p children (run p s sends) := by
  induction sends generalizing s with
  | nil => exact sound
  | cons child sends ih =>
    obtain ⟨here, later⟩ := List.forall_mem_cons.mp within
    exact ih (sound.send names static child.1 here) later

/-- A child that is sent twice is looked up the second time. -/
theorem lookup_again (c : ChildSource A) (type : c.type p = .CLASS) :
    (run p p.initial [(0, c), (0, c)]).lookups =
      [(c, match p.staticTypes c.typeName with
        | some api => some api
        | none => some c.api)] := by
  simp only [run, List.foldl_cons, List.foldl_nil, send, type, if_true, Peers.initial, List.not_mem_nil, if_false,
    List.mem_cons_self, metaObjectForType, Function.update_self]

end Run

section Main
variable {A : Type*}

/-- Names identify definitions exactly where children with different APIs are given names apart. -/
theorem namesIdentify_iff_givenApart (p : Peers A) (children : List (ChildSource A)) :
    NamesIdentify p children ↔ GivenApart p children := by
  have apart : (∀ a ∈ children, ∀ b ∈ children, a.api ≠ b.api → a.typeName ≠ b.typeName) ↔
      ∀ a ∈ children, ∀ b ∈ children, a.api ≠ b.api → Apart a.givenName b.givenName := by
    simp only [apart_iff, typeName_eq]
  constructor
  · rintro ⟨names, found⟩
    refine ⟨apart.mp names, fun c member type api registered => ?_⟩
    have twice := found [(0, c), (0, c)] (by simp [member])
    rw [← typeName_eq] at registered
    rw [lookup_again c type, registered] at twice
    exact Option.some.inj (twice _ List.mem_cons_self)
  · rintro ⟨given, static⟩
    have names := apart.mpr given
    refine ⟨names, fun sends within => ?_⟩
    have sound : Sound p children p.initial := ⟨fun _ member => (nomatch member), fun _ member => (nomatch member)⟩
    refine (sound.run names (fun c member type => ?_) within).found
    rw [typeName_eq]
    exact static c member type

/-- No class is registered, and no type is a model. -/
def strangers : Peers Nat := ⟨fun _ => false, fun _ => none, fun _ => none⟩

/-- Two plain classes, without class info, both have the empty name. -/
theorem plain_classes_collide :
    ¬ NamesIdentify strangers [⟨none, "Engine".toList, false, 0⟩, ⟨none, "Wheel".toList, false, 1⟩] := by
  rintro ⟨names, _⟩
  exact names _ List.mem_cons_self _ (List.mem_cons_of_mem _ List.mem_cons_self) (by decide) (by decide)

end Main
end RemoteObjects.Source.TypeNames
