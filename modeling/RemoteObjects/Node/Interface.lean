import Mathlib.Data.List.Basic

/-! Values as source and replica exchange them. An enumeration travels as an integer and
a container of gadgets as a `QSQ_` or `QAS_`; the type of the property or parameter tells
the receiver what to turn them back into. -/
namespace RemoteObjects.Node

/-- What the codec asks of a metatype. -/
inductive Kind (T : Type)
  | numeric
  | enumeration (transferType : T)
  | gadget
  | container
  | variant
  | other
deriving DecidableEq

/-- A `QVariant`: a value of a type of its own, or what stands for one on the wire, which
is a `QSQ_` or `QAS_` for a container and a `QRO_` for a gadget that is sent along with
its type. -/
inductive Variant (T C : Type)
  | bare (type : T) (content : C)
  | container (type : T) (content : C)
  | qro (type : T) (content : C)
deriving DecidableEq

structure Property (T : Type) where
  metaType : T
  notifySignal : Option Nat
deriving DecidableEq

/-- The part of a `SourceApiMap` and of the replica's metaobject that both sides share:
properties, the parameter types of the signals, and for the first signals the property
each one announces. `definedTypes` are the gadget types of the definition that an
`InitDynamicPacket` carries, `defaults` the values a replica class starts with. -/
structure Interface (T C : Type) where
  kind : T → Kind T
  properties : List (Property T)
  signals : List (List T)
  propertyAssociatedWithSignal : List Nat
  definedTypes : List T
  defaults : List (Variant T C)

namespace Interface
variable {T C : Type} (api : Interface T C)

def metaType (i : Nat) : Option T := (api.properties[i]?).map Property.metaType

def notifySignal (i : Nat) : Option Nat := (api.properties[i]?).bind Property.notifySignal

/-- The raw index of the property that the signal announces. -/
def announces (signal : Nat) : Option Nat := api.propertyAssociatedWithSignal[signal]?

def encodeVariant : Variant T C → Variant T C
  | .bare type content =>
    match api.kind type with
    | .enumeration transferType => .bare transferType content
    | .container => .container type content
    | _ => .bare type content
  | value => value

variable [Inhabited C]

/-- `QVariant::convert` to an enumeration: numbers keep their value, anything else
becomes the default one. -/
def convert (value : Variant T C) (metaType : T) : Variant T C :=
  match value with
  | .bare type content =>
    match api.kind type with
    | .numeric | .enumeration _ => .bare metaType content
    | _ => .bare metaType default
  | _ => .bare metaType default

def decodeVariant (value : Variant T C) (metaType : T) : Variant T C :=
  match api.kind metaType, value with
  | .enumeration _, value => api.convert value metaType
  | _, .container type content => .bare type content
  | _, value => value

omit [Inhabited C]

def canBeNumericallyCompared (a b : T) : Bool :=
  match api.kind a, api.kind b with
  | .numeric, .numeric | .enumeration _, .numeric | .numeric, .enumeration _ => true
  | _, _ => false

/-- `operator==` of `QVariant`. The types that only exist on the wire have none of their own. -/
def Equal : Variant T C → Variant T C → Prop
  | .bare a x, .bare b y => (a = b ∨ api.canBeNumericallyCompared a b) ∧ x = y
  | _, _ => False

instance [DecidableEq T] [DecidableEq C] (v w : Variant T C) : Decidable (api.Equal v w) := by
  unfold Equal
  split <;> infer_instance

/-- What a property of that type may hold: any value in a `QVariant`. -/
def Holds (metaType : T) : Variant T C → Prop
  | .bare type _ => type = metaType ∨ api.kind metaType = .variant
  | _ => False

instance [DecidableEq T] (metaType : T) (v : Variant T C) : Decidable (api.Holds metaType v) := by
  unfold Holds
  split <;> infer_instance

/-- What a replica stores for it, if nothing went wrong: enumerations inside of a
`QVariant` have become integers. -/
def Stores (metaType : T) : Variant T C → Prop
  | .bare type _ =>
    type = metaType ∨ api.kind metaType = .variant ∧ ∀ u, api.kind type ≠ .enumeration u
  | _ => False

end Interface

section Laws
variable {T C : Type} {api : Interface T C} {metaType type : T} {content : C} {old value : Variant T C}

/-- Transfer types of enumerations are integer types. -/
def TransferNumeric (api : Interface T C) : Prop :=
  ∀ t u, api.kind t = .enumeration u → api.kind u = .numeric

theorem encodeVariant_enumeration (kind : api.kind type = .enumeration transferType) :
    api.encodeVariant (.bare type content) = .bare transferType content := by
  simp only [Interface.encodeVariant, kind]

theorem encodeVariant_container (kind : api.kind type = .container) :
    api.encodeVariant (.bare type content) = .container type content := by
  simp only [Interface.encodeVariant, kind]

theorem encodeVariant_bare (plain : ∀ u, api.kind type ≠ .enumeration u)
    (single : api.kind type ≠ .container) :
    api.encodeVariant (.bare type content) = .bare type content := by
  simp only [Interface.encodeVariant]

theorem Interface.Holds.bare (holds : api.Holds metaType value) : ∃ type content,
    value = .bare type content ∧ (type = metaType ∨ api.kind metaType = .variant) := by
  cases value with
  | bare type content => exact ⟨type, content, rfl, holds⟩
  | container | qro => exact holds.elim

theorem Interface.Stores.bare (stores : api.Stores metaType value) : ∃ type content,
    value = .bare type content ∧
      (type = metaType ∨ api.kind metaType = .variant ∧ ∀ u, api.kind type ≠ .enumeration u) := by
  cases value with
  | bare type content => exact ⟨type, content, rfl, stores⟩
  | container | qro => exact stores.elim

variable [Inhabited C]

/-- A property of any type but `QVariant` receives the very value; in a `QVariant` an
enumeration has become an integer that compares equal to it. -/
theorem decode_encode (numeric : TransferNumeric api) (holds : api.Holds metaType value) :
    api.Stores metaType (api.decodeVariant (api.encodeVariant value) metaType) ∧
      api.Equal (api.decodeVariant (api.encodeVariant value) metaType) value := by
  obtain ⟨type, content, rfl, fits⟩ := holds.bare
  have equal : api.Equal (.bare type content) (.bare type content) := ⟨.inl rfl, rfl⟩
  cases kind : api.kind type with
  | enumeration u =>
    have integer := numeric type u kind
    rw [encodeVariant_enumeration kind]
    rcases fits with rfl | variant
    · simp only [Interface.decodeVariant, Interface.convert, kind, integer]
      exact ⟨.inl rfl, equal⟩
    · simp only [Interface.decodeVariant, variant]
      refine ⟨.inr ⟨variant, fun other same => ?_⟩, .inr ?_, rfl⟩
      · rw [integer] at same
        contradiction
      · simp only [Interface.canBeNumericallyCompared, integer, kind]
  | container =>
    rw [encodeVariant_container kind]
    have plain : ∀ u, api.kind type ≠ .enumeration u := by simp only [kind, ne_eq, reduceCtorEq,
      not_false_eq_true, implies_true]
    rcases fits with rfl | variant
    · simp only [Interface.decodeVariant, kind]
      exact ⟨.inl rfl, equal⟩
    · simp only [Interface.decodeVariant, variant]
      exact ⟨.inr ⟨variant, plain⟩, equal⟩
  | numeric | gadget | variant | other =>
    have plain : ∀ u, api.kind type ≠ .enumeration u := by simp only [kind, ne_eq, reduceCtorEq,
      not_false_eq_true, implies_true]
    rw [encodeVariant_bare plain (by simp only [kind, ne_eq, reduceCtorEq, not_false_eq_true])]
    rcases fits with rfl | variant
    · simp only [Interface.decodeVariant, kind]
      exact ⟨.inl rfl, equal⟩
    · simp only [Interface.decodeVariant, variant]
      exact ⟨.inr ⟨variant, plain⟩, equal⟩

omit [Inhabited C] in
/-- A stored value that `initialize` keeps, since it equals the one on the wire, equals
the one of the source too. -/
theorem equal_of_equal_encoded (numeric : TransferNumeric api) (stores : api.Stores metaType old)
    (holds : api.Holds metaType value) (same : api.Equal old (api.encodeVariant value)) :
    api.Equal old value := by
  obtain ⟨type, content, rfl, fits⟩ := holds.bare
  obtain ⟨stored, kept, rfl, storable⟩ := stores.bare
  cases kind : api.kind type with
  | enumeration u =>
    have integer := numeric type u kind
    rw [encodeVariant_enumeration kind] at same
    obtain ⟨alike, rfl⟩ := same
    refine ⟨?_, rfl⟩
    rcases storable with rfl | ⟨variant, plain⟩
    · rcases fits with rfl | variant
      · exact .inl rfl
      · rcases alike with rfl | comparable
        · rw [integer] at variant
          contradiction
        · simp only [Interface.canBeNumericallyCompared, variant, Bool.false_eq_true] at comparable
    · right
      have number : api.kind stored = .numeric := by
        rcases alike with rfl | comparable
        · exact integer
        · cases other : api.kind stored with
          | numeric => rfl
          | enumeration w => exact absurd other (plain w)
          | gadget | container | variant | other =>
            simp only [Interface.canBeNumericallyCompared, other, Bool.false_eq_true] at comparable
      simp only [Interface.canBeNumericallyCompared, number, kind]
  | container =>
    rw [encodeVariant_container kind] at same
    exact same.elim
  | numeric | gadget | variant | other =>
    rwa [encodeVariant_bare (by simp only [kind, ne_eq, reduceCtorEq, not_false_eq_true, implies_true])
      (by simp only [kind, ne_eq, reduceCtorEq, not_false_eq_true])] at same

end Laws
end RemoteObjects.Node
