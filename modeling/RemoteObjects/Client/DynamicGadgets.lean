import Mathlib.Logic.Function.Basic
import RemoteObjects.Transition

/-! The gadgets that a client makes from definitions. Each is a list of variants in the place of the members of the host's gadget, and
a stream puts into it what variants it carries. -/
namespace RemoteObjects.Client.DynamicGadgets
open Transition

section Host
variable (T X : Type)

/-- What the types of members are. Containers are those of gadgets; others have stream operators of their own. -/
inductive MetaType
  | builtin
  | qVariant
  | enumeration (transferType : T)
  | gadget (properties : List T)
  | container (wrapper : T)
deriving DecidableEq

/-- A value of the host. A `QVariant` is null, or it has another type. -/
inductive Value
  | data (x : X)
  | null
  | variant (type : T) (value : Value)
  | gadget (members : List Value)

/-- A `QVariant` on the wire. -/
inductive Encoded
  | null
  | data (type : T) (x : X)
  | gadget (type : T) (members : List Encoded)

/-- The types by their names. Integers, `QSQ_` and `QAS_` are there on both sides. -/
structure Host where
  metaType : T → MetaType T
  builtin_transferType : ∀ type transferType, metaType type = .enumeration transferType → metaType transferType = .builtin
  builtin_wrapper : ∀ type wrapper, metaType type = .container wrapper → metaType wrapper = .builtin
  toInteger : T → X → X
  pack : T → X → X

variable {T X}

namespace Host
variable (h : Host T X)

def properties (type : T) : List T :=
  match h.metaType type with
  | .gadget properties => properties
  | _ => []

mutual

def hasType (type : T) : Value T X → Bool
  | .data _ =>
    match h.metaType type with
    | .builtin | .enumeration _ | .container _ => true
    | _ => false
  | .null =>
    match h.metaType type with
    | .qVariant => true
    | _ => false
  | .variant content value =>
    match h.metaType type, h.metaType content with
    | .qVariant, .qVariant => false
    | .qVariant, _ => hasType content value
    | _, _ => false
  | .gadget members =>
    match h.metaType type with
    | .gadget properties => haveTypes properties members
    | _ => false

def haveTypes : List T → List (Value T X) → Bool
  | [], [] => true
  | type :: types, value :: values => hasType type value && haveTypes types values
  | _, _ => false

end

mutual

/-- `operator<<` of the variant that `encodeVariant` makes of what `readOnGadget` returns. -/
def encodeVariant (type : T) : Value T X → Encoded T X
  | .data x =>
    match h.metaType type with
    | .enumeration transferType => .data transferType (h.toInteger type x)
    | .container wrapper => .data wrapper (h.pack type x)
    | _ => .data type x
  | .null => .null
  | .variant content value => encodeVariant content value
  | .gadget members => .gadget type (copyStoredProperties (h.properties type) members)

/-- The stream operator of a gadget. -/
def copyStoredProperties : List T → List (Value T X) → List (Encoded T X)
  | type :: types, value :: values => encodeVariant type value :: copyStoredProperties types values
  | _, _ => []

end

end Host
end Host

section Model
variable {T X : Type} (h : Host T X)

/-- The gadgets that the client was compiled with: their stream operators decode each member by its type. -/
structure Compiled where
  isStatic : T → Bool
  default : T → Value T X
  load : T → List (Encoded T X) → Value T X
  load_copyStoredProperties : ∀ type values, isStatic type → h.haveTypes (h.properties type) values →
    load type (h.copyStoredProperties (h.properties type) values) = .gadget values

variable (T X)

/-- A variant of the client. -/
inductive QVariant
  | invalid
  | real (type : T) (value : Value T X)
  | dynamic (type : T) (members : List QVariant)

abbrev GadgetType := List (QVariant T X)

structure Object where
  type : T
  members : GadgetType T X

structure State where
  s_managedTypes : T → Option (GadgetType T X)
  objects : List (Object T X)

/-- `registerGadgets` comes after that of the types of properties. `known` tells which enumerations and containers are registered when
the properties are added. -/
inductive Event
  | registerGadgets (typeName : T) (known : T → Bool)
  | construct (typeName : T)
  | deserialize (object : Nat) (sent : List (Value T X))
  | writeProperty (object id : Nat) (buffer : QVariant T X)
  | copy (object : Nat)

variable {T X} [DecidableEq T] {h} (c : Compiled h)

def QVariant.metaType : QVariant T X → Option T
  | .invalid => none
  | .real type _ => some type
  | .dynamic type _ => some type

mutual

/-- What a variant stands for. -/
def QVariant.content : QVariant T X → Option (Value T X)
  | .invalid => none
  | .real _ value => some value
  | .dynamic _ members => (contents members).map .gadget

def contents : List (QVariant T X) → Option (List (Value T X))
  | [] => some []
  | member :: members => member.content.bind fun value => (contents members).map (value :: ·)

end

mutual

/-- Of the declared type, with members of theirs. -/
def Host.typed (h : Host T X) (declared : T) : QVariant T X → Bool
  | .invalid => false
  | .real type _ => type = declared
  | .dynamic type members => type = declared && h.typedMembers (h.properties declared) members

def Host.typedMembers (h : Host T X) : List T → List (QVariant T X) → Bool
  | [], [] => true
  | type :: types, member :: members => h.typed type member && h.typedMembers types members
  | _, _ => false

end

/-- `ReadProperty`: what is constructed in the buffer. -/
def readProperty (members : GadgetType T X) (id : Nat) : Option (QVariant T X) :=
  match members[id]? with
  | some .invalid | none => none
  | some prop => some prop

namespace State
variable (s : State T X)

/-- Whether `QMetaType` knows the type of a property. -/
def isKnown (known : T → Bool) (type : T) : Bool :=
  match h.metaType type with
  | .builtin | .qVariant => true
  | .gadget _ => c.isStatic type || (s.s_managedTypes type).isSome
  | .enumeration _ | .container _ => known type

/-- `QVariant(QMetaType(type))`. -/
def make (type : T) : QVariant T X :=
  match s.s_managedTypes type with
  | some gadgetType => .dynamic type gadgetType
  | none => .real type (c.default type)

mutual

/-- `operator>>` of a variant. A type that is not known leaves it invalid. -/
def load : Encoded T X → QVariant T X
  | .null => .invalid
  | .data type x => .real type (.data x)
  | .gadget type members =>
    match s.s_managedTypes type with
    | some gadgetType => .dynamic type (gadgetDataStreamInFn gadgetType members)
    | none => if c.isStatic type then .real type (c.load type members) else .invalid

/-- One variant for each member. -/
def gadgetDataStreamInFn : GadgetType T X → List (Encoded T X) → GadgetType T X
  | gadgetProperties, [] => gadgetProperties.map fun _ => .invalid
  | [], _ => []
  | _ :: gadgetProperties, variant :: ds => load variant :: gadgetDataStreamInFn gadgetProperties ds

end

end State

/-- A buffer holds an object of the declared type; nothing can be said where the member has another. -/
def step (s : State T X) : Event T X → Option (State T X)
  | .registerGadgets typeName known =>
    match h.metaType typeName with
    | .gadget properties =>
      if s.isKnown c known typeName then some s
      else
        let entry := properties.map fun type => if s.isKnown c known type then s.make c type else .invalid
        some { s with s_managedTypes := Function.update s.s_managedTypes typeName (some entry) }
    | _ => none
  | .construct typeName =>
    (s.s_managedTypes typeName).map fun gadgetType => { s with objects := s.objects ++ [⟨typeName, gadgetType⟩] }
  | .deserialize object sent =>
    s.objects[object]?.bind fun gadget =>
      let properties := h.properties gadget.type
      if h.haveTypes properties sent then
        let members := s.gadgetDataStreamInFn c gadget.members (h.copyStoredProperties properties sent)
        some { s with objects := s.objects.set object { gadget with members } }
      else none
  | .writeProperty object id buffer =>
    s.objects[object]?.bind fun gadget => (h.properties gadget.type)[id]?.bind fun declared =>
      if h.typed declared buffer then
        match gadget.members[id]?.bind QVariant.metaType with
        | none => some s
        | some type =>
          if type = declared then some { s with objects := s.objects.set object { gadget with members := gadget.members.set id buffer } }
          else none
      else none
  | .copy object => s.objects[object]?.map fun gadget => { s with objects := s.objects ++ [gadget] }

def initial : State T X := ⟨fun _ => none, []⟩

end Model

section Statement
variable {T X : Type} [DecidableEq T] {h : Host T X} (c : Compiled h)

/-- Each gadget has its members, and from each an object of the declared type is constructed. -/
def State.WellTyped (h : Host T X) (s : State T X) : Prop :=
  ∀ gadget ∈ s.objects, gadget.members.length = (h.properties gadget.type).length ∧
    ∀ id declared, (h.properties gadget.type)[id]? = some declared →
      ∃ prop, readProperty gadget.members id = some prop ∧ h.typed declared prop

/-- What was sent or written is there to read. -/
def State.Holds (s : State T X) : Event T X → Prop
  | .deserialize object sent => ∀ gadget, s.objects[object]? = some gadget → ∀ id value, sent[id]? = some value →
      ∃ prop, readProperty gadget.members id = some prop ∧ prop.content = some value
  | .writeProperty object id buffer => ∀ gadget, s.objects[object]? = some gadget → readProperty gadget.members id = some buffer
  | .registerGadgets _ _ | .construct _ | .copy _ => True

def KeepsTypes (s : State T X) (e : Event T X) : Prop :=
  ∀ t, step c s e = some t → t.WellTyped h ∧ t.Holds e

mutual

/-- Without a member of a type that was not known. -/
def QVariant.complete : QVariant T X → Bool
  | .invalid => false
  | .real _ _ => true
  | .dynamic _ members => allComplete members

def allComplete : List (QVariant T X) → Bool
  | [] => true
  | member :: members => member.complete && allComplete members

end

mutual

/-- Without an enumeration, a container of gadgets or a `QVariant` among the members, unless they are those of a gadget that the client
was compiled with. -/
def State.plain (s : State T X) (declared : T) : Value T X → Bool
  | .data _ =>
    match h.metaType declared with
    | .builtin => true
    | _ => false
  | .null | .variant _ _ => false
  | .gadget members =>
    match s.s_managedTypes declared with
    | some _ => s.allPlain (h.properties declared) members
    | none => c.isStatic declared

def State.allPlain (s : State T X) : List T → List (Value T X) → Bool
  | type :: types, value :: values => s.plain type value && s.allPlain types values
  | _, _ => true

end

/-- Gadgets are constructed where the types of all members were known to the registration, and plain ones are sent. -/
def Fits (s : State T X) : Event T X → Prop
  | .construct typeName => ∀ gadgetType, s.s_managedTypes typeName = some gadgetType → allComplete gadgetType
  | .deserialize object sent => ∀ gadget, s.objects[object]? = some gadget → h.haveTypes (h.properties gadget.type) sent →
      s.allPlain c (h.properties gadget.type) sent
  | .registerGadgets _ _ | .writeProperty _ _ _ | .copy _ => True

end Statement

section Members
variable {T X : Type} [DecidableEq T] {h : Host T X} {declared : T} {prop : QVariant T X} {members : List (QVariant T X)}

theorem metaType_typed (typed : h.typed declared prop) : prop.metaType = some declared := by
  cases prop <;> simp_all [Host.typed, QVariant.metaType]

theorem readProperty_typed {id : Nat} (here : members[id]? = some prop) (typed : h.typed declared prop) :
    readProperty members id = some prop := by
  cases prop with
  | invalid => simp [Host.typed] at typed
  | real type value => simp [readProperty, here]
  | dynamic type members => simp [readProperty, here]

omit [DecidableEq T] in
theorem readProperty_eq {id : Nat} (read : readProperty members id = some prop) : members[id]? = some prop := by
  unfold readProperty at read
  split at read
  · simp at read
  · simp at read
  · simp_all

theorem typedMembers_iff {types : List T} : h.typedMembers types members ↔ members.length = types.length ∧
    ∀ id declared, types[id]? = some declared → ∃ prop, readProperty members id = some prop ∧ h.typed declared prop := by
  induction types generalizing members with
  | nil => cases members <;> simp [Host.typedMembers]
  | cons type types ih =>
    cases members with
    | nil => simp [Host.typedMembers]
    | cons member members =>
      rw [Host.typedMembers, Bool.and_eq_true, ih, List.length_cons, List.length_cons, Nat.add_right_cancel_iff]
      constructor
      · rintro ⟨typed, count, others⟩
        refine ⟨count, fun id declared found => ?_⟩
        cases id with
        | zero =>
          obtain rfl := Option.some.inj found
          exact ⟨member, readProperty_typed rfl typed, typed⟩
        | succ id => exact others id declared found
      · rintro ⟨count, each⟩
        obtain ⟨prop, read, typed⟩ := each 0 type rfl
        obtain rfl := Option.some.inj (readProperty_eq read)
        exact ⟨typed, count, fun id => each (id + 1)⟩

theorem wellTyped_iff {s : State T X} :
    s.WellTyped h ↔ ∀ gadget ∈ s.objects, h.typedMembers (h.properties gadget.type) gadget.members := by
  simp only [State.WellTyped, typedMembers_iff]

mutual

/-- What a registration makes: of the declared type or invalid. -/
def Host.shaped (h : Host T X) (declared : T) : QVariant T X → Bool
  | .invalid => true
  | .real type _ => type = declared
  | .dynamic type members => type = declared && h.shapedMembers (h.properties declared) members

def Host.shapedMembers (h : Host T X) : List T → List (QVariant T X) → Bool
  | [], [] => true
  | type :: types, member :: members => h.shaped type member && h.shapedMembers types members
  | _, _ => false

end

mutual

theorem typed_shaped (declared : T) : (prop : QVariant T X) → h.shaped declared prop → h.typed declared prop = prop.complete
  | .invalid, _ => rfl
  | .real type value, shaped => by simpa [Host.typed, Host.shaped, QVariant.complete] using shaped
  | .dynamic type members, shaped => by
    rw [Host.shaped, Bool.and_eq_true] at shaped
    rw [Host.typed, shaped.1, QVariant.complete, typedMembers_shaped _ members shaped.2]
    rfl

theorem typedMembers_shaped : (types : List T) → (members : List (QVariant T X)) → h.shapedMembers types members →
    h.typedMembers types members = allComplete members
  | [], [], _ => rfl
  | type :: types, member :: members, shaped => by
    rw [Host.shapedMembers, Bool.and_eq_true] at shaped
    rw [Host.typedMembers, allComplete, typed_shaped type member shaped.1, typedMembers_shaped types members shaped.2]
  | [], _ :: _, shaped => by simp [Host.shapedMembers] at shaped
  | _ :: _, [], shaped => by simp [Host.shapedMembers] at shaped

end

end Members

section Loading
variable {T X : Type} [DecidableEq T] {h : Host T X} {c : Compiled h} {s : State T X}

/-- Entries are those of gadgets, and what a registration makes of their properties. -/
def State.Registered (h : Host T X) (s : State T X) : Prop := ∀ typeName gadgetType, s.s_managedTypes typeName = some gadgetType →
  (∃ properties, h.metaType typeName = .gadget properties) ∧ h.shapedMembers (h.properties typeName) gadgetType

theorem length_shaped {types : List T} {members : List (QVariant T X)} (shaped : h.shapedMembers types members) :
    members.length = types.length := by
  induction types generalizing members with
  | nil => cases members <;> simp_all [Host.shapedMembers]
  | cons type types ih => cases members <;> simp_all [Host.shapedMembers]

omit [DecidableEq T] in
theorem length_gadgetDataStreamInFn (members : GadgetType T X) (ds : List (Encoded T X)) :
    (s.gadgetDataStreamInFn c members ds).length = members.length := by
  induction members generalizing ds with
  | nil => cases ds <;> simp [State.gadgetDataStreamInFn]
  | cons member members ih => cases ds <;> simp [State.gadgetDataStreamInFn, ih]

/-- What a `QVariant` holds is of another type than `QVariant`. -/
theorem typed_content {declared content : T} {value : Value T X} (variant : h.metaType declared = .qVariant)
    (other : h.metaType content ≠ .qVariant) (typed : h.hasType content value) :
    h.typed declared (s.load c (h.encodeVariant content value)) = false := by
  have apart (type : T) (different : h.metaType type ≠ .qVariant) : type ≠ declared := fun same => different (same ▸ variant)
  cases value with
  | data x =>
    rw [Host.encodeVariant]
    split
    · rename_i transferType enumeration
      have := apart transferType (by simp [h.builtin_transferType _ _ enumeration])
      simpa [State.load, Host.typed] using this
    · rename_i wrapper container
      have := apart wrapper (by simp [h.builtin_wrapper _ _ container])
      simpa [State.load, Host.typed] using this
    · simpa [State.load, Host.typed] using apart content other
  | null => rfl
  | variant inner value => cases kind : h.metaType content <;> simp_all [Host.hasType]
  | gadget members =>
    rw [Host.encodeVariant, State.load]
    split
    · simp [Host.typed, apart content other]
    · split <;> simp [Host.typed, apart content other]

mutual

/-- A member gets its declared type if it is plain, and the value with it. -/
theorem typed_load (registered : s.Registered h) (declared : T) : (value : Value T X) → h.hasType declared value →
    h.typed declared (s.load c (h.encodeVariant declared value)) = s.plain c declared value ∧
      (s.plain c declared value → (s.load c (h.encodeVariant declared value)).content = some value)
  | .data x, typed => by
    rw [Host.hasType] at typed
    cases kind : h.metaType declared with
    | builtin => simp [Host.encodeVariant, kind, State.load, Host.typed, State.plain, QVariant.content]
    | enumeration transferType =>
      have other : transferType ≠ declared := fun same => by simp [← same, h.builtin_transferType _ _ kind] at kind
      simp [Host.encodeVariant, kind, State.load, Host.typed, State.plain, other]
    | container wrapper =>
      have other : wrapper ≠ declared := fun same => by simp [← same, h.builtin_wrapper _ _ kind] at kind
      simp [Host.encodeVariant, kind, State.load, Host.typed, State.plain, other]
    | qVariant => simp [kind] at typed
    | gadget properties => simp [kind] at typed
  | .null, _ => ⟨rfl, nofun⟩
  | .variant content value, typed => by
    rw [Host.hasType] at typed
    rw [Host.encodeVariant]
    refine ⟨?_, nofun⟩
    split at typed
    · simp at typed
    · rename_i variant other
      exact typed_content variant other typed
    · simp at typed
  | .gadget members, typed => by
    rw [Host.hasType] at typed
    split at typed
    · rename_i properties kind
      have own : h.properties declared = properties := by rw [Host.properties, kind]
      rw [Host.encodeVariant, State.load, State.plain]
      cases managed : s.s_managedTypes declared with
      | some gadgetType =>
        have count := length_shaped (registered declared gadgetType managed).2
        obtain ⟨same, holds⟩ := typedMembers_load registered (h.properties declared) members (own ▸ typed) gadgetType count
        refine ⟨by simp [Host.typed, same], fun plain => ?_⟩
        simp [QVariant.content, holds plain]
      | none =>
        by_cases static : c.isStatic declared
        · have back := c.load_copyStoredProperties declared members static (own ▸ typed)
          simp [static, Host.typed, QVariant.content, back]
        · simp [static, Host.typed]
    · simp at typed

theorem typedMembers_load (registered : s.Registered h) (types : List T) : (values : List (Value T X)) → h.haveTypes types values →
    ∀ members : GadgetType T X, members.length = types.length →
      h.typedMembers types (s.gadgetDataStreamInFn c members (h.copyStoredProperties types values)) = s.allPlain c types values ∧
      (s.allPlain c types values → contents (s.gadgetDataStreamInFn c members (h.copyStoredProperties types values)) = some values)
  | [], typed, members, count => by
    cases types with
    | nil =>
      obtain rfl := List.eq_nil_of_length_eq_zero count
      simp [Host.copyStoredProperties, State.gadgetDataStreamInFn, Host.typedMembers, State.allPlain, contents]
    | cons type types => simp [Host.haveTypes] at typed
  | value :: values, typed, members, count => by
    match types, members with
    | [], _ => simp [Host.haveTypes] at typed
    | _ :: _, [] => simp at count
    | type :: types, member :: members =>
      rw [Host.haveTypes, Bool.and_eq_true] at typed
      obtain ⟨first, holds⟩ := typed_load registered type value typed.1
      obtain ⟨others, hold⟩ := typedMembers_load registered types values typed.2 members (Nat.succ.inj count)
      rw [Host.copyStoredProperties, State.gadgetDataStreamInFn, Host.typedMembers, State.allPlain, first, others]
      refine ⟨rfl, fun plain => ?_⟩
      rw [Bool.and_eq_true] at plain
      simp [contents, holds plain.1, hold plain.2]

end

end Loading

section Runs
variable {T X : Type} [DecidableEq T] {h : Host T X} {c : Compiled h} {s t : State T X} {e : Event T X}

theorem shaped_make (registered : s.Registered h) (type : T) : h.shaped type (s.make c type) := by
  unfold State.make
  split
  · rename_i gadgetType managed
    simp [Host.shaped, (registered type gadgetType managed).2]
  · simp [Host.shaped]

theorem shapedMembers_entry (registered : s.Registered h) (known : T → Bool) (types : List T) :
    h.shapedMembers types (types.map fun type => if s.isKnown c known type then s.make c type else .invalid) := by
  induction types with
  | nil => rfl
  | cons type types ih =>
    rw [List.map_cons, Host.shapedMembers, ih, Bool.and_true]
    split
    · exact shaped_make registered type
    · rfl

/-- What comes of a step, by its event. -/
theorem step_cases (stepped : step c s e = some t) :
    match e with
    | .registerGadgets typeName known => t = s ∨ ∃ properties entry, h.metaType typeName = .gadget properties ∧
        entry = (properties.map fun type => if s.isKnown c known type then s.make c type else .invalid) ∧
        t = { s with s_managedTypes := Function.update s.s_managedTypes typeName (some entry) }
    | .construct typeName => ∃ gadgetType, s.s_managedTypes typeName = some gadgetType ∧
        t = { s with objects := s.objects ++ [⟨typeName, gadgetType⟩] }
    | .deserialize object sent => ∃ gadget members, s.objects[object]? = some gadget ∧ h.haveTypes (h.properties gadget.type) sent ∧
        members = s.gadgetDataStreamInFn c gadget.members (h.copyStoredProperties (h.properties gadget.type) sent) ∧
        t = { s with objects := s.objects.set object { gadget with members } }
    | .writeProperty object id buffer => ∃ gadget declared, s.objects[object]? = some gadget ∧
        (h.properties gadget.type)[id]? = some declared ∧ h.typed declared buffer ∧
        (gadget.members[id]?.bind QVariant.metaType = none ∧ t = s ∨ gadget.members[id]?.bind QVariant.metaType = some declared ∧
          t = { s with objects := s.objects.set object { gadget with members := gadget.members.set id buffer } })
    | .copy object => ∃ gadget, s.objects[object]? = some gadget ∧ t = { s with objects := s.objects ++ [gadget] } := by
  cases e with
  | registerGadgets typeName known =>
    simp only [step] at stepped
    split at stepped
    · rename_i properties kind
      split at stepped
      · exact .inl (Option.some.inj stepped).symm
      · exact .inr ⟨properties, _, kind, rfl, (Option.some.inj stepped).symm⟩
    · simp at stepped
  | construct typeName =>
    obtain ⟨gadgetType, managed, rfl⟩ := Option.map_eq_some_iff.mp stepped
    exact ⟨gadgetType, managed, rfl⟩
  | deserialize object sent =>
    obtain ⟨gadget, here, stepped⟩ := Option.bind_eq_some_iff.mp stepped
    dsimp only at stepped
    split at stepped
    · rename_i typed
      exact ⟨gadget, _, here, typed, rfl, (Option.some.inj stepped).symm⟩
    · simp at stepped
  | writeProperty object id buffer =>
    obtain ⟨gadget, here, stepped⟩ := Option.bind_eq_some_iff.mp stepped
    obtain ⟨declared, property, stepped⟩ := Option.bind_eq_some_iff.mp stepped
    split at stepped
    · rename_i typed
      refine ⟨gadget, declared, here, property, typed, ?_⟩
      split at stepped
      · rename_i invalid
        exact .inl ⟨invalid, (Option.some.inj stepped).symm⟩
      · rename_i type held
        split at stepped
        · rename_i same
          exact .inr ⟨same ▸ held, (Option.some.inj stepped).symm⟩
        · simp at stepped
    · simp at stepped
  | copy object =>
    obtain ⟨gadget, here, rfl⟩ := Option.map_eq_some_iff.mp stepped
    exact ⟨gadget, here, rfl⟩

/-- Only a registration changes the entries. -/
theorem step_registered (registered : s.Registered h) (stepped : step c s e = some t) : t.Registered h := by
  have cases := step_cases stepped
  cases e with
  | registerGadgets typeName known =>
    rcases cases with rfl | ⟨properties, _, kind, rfl, rfl⟩
    · exact registered
    · intro other gadgetType managed
      by_cases same : other = typeName
      · subst same
        simp only [Function.update_self, Option.some.injEq] at managed
        subst managed
        refine ⟨⟨properties, kind⟩, ?_⟩
        rw [Host.properties, kind]
        exact shapedMembers_entry registered known properties
      · simp only [Function.update_of_ne same] at managed
        exact registered other gadgetType managed
  | construct typeName =>
    obtain ⟨_, _, rfl⟩ := cases
    exact registered
  | deserialize object sent =>
    obtain ⟨_, _, _, _, _, rfl⟩ := cases
    exact registered
  | writeProperty object id buffer =>
    obtain ⟨_, _, _, _, _, ⟨_, rfl⟩ | ⟨_, rfl⟩⟩ := cases <;> exact registered
  | copy object =>
    obtain ⟨_, _, rfl⟩ := cases
    exact registered

omit [DecidableEq T] in
/-- One gadget is replaced by another of its type. -/
theorem forall_set {P : Object T X → Prop} {objects : List (Object T X)} {object : Nat} {gadget new : Object T X}
    (each : ∀ gadget ∈ objects, P gadget) (here : objects[object]? = some gadget) :
    (∀ other ∈ objects.set object new, P other) ↔ P new := by
  constructor
  · intro all
    exact all new (List.mem_set (List.getElem?_eq_some_iff.mp here).1 new)
  · intro holds other member
    rcases List.mem_or_eq_of_mem_set member with before | rfl
    · exact each other before
    · exact holds

omit [DecidableEq T] in
theorem getElem?_set_here {objects : List (Object T X)} {object : Nat} {gadget new : Object T X}
    (here : objects[object]? = some gadget) : (objects.set object new)[object]? = some new := by
  rw [List.getElem?_set_self (List.getElem?_eq_some_iff.mp here).1]

omit [DecidableEq T] in
theorem readProperty_contents {members : GadgetType T X} {values : List (Value T X)} (held : contents members = some values) (id : Nat)
    (value : Value T X) (found : values[id]? = some value) : ∃ prop, readProperty members id = some prop ∧ prop.content = some value := by
  induction members generalizing values id with
  | nil =>
    obtain rfl := Option.some.inj held
    simp at found
  | cons member members ih =>
    obtain ⟨first, here, held⟩ := Option.bind_eq_some_iff.mp held
    obtain ⟨others, behind, rfl⟩ := Option.map_eq_some_iff.mp held
    cases id with
    | zero =>
      obtain rfl := Option.some.inj found
      cases member with
      | invalid => simp [QVariant.content] at here
      | real type value => exact ⟨_, rfl, here⟩
      | dynamic type members => exact ⟨_, rfl, here⟩
    | succ id => exact ih behind id found

theorem typedMembers_set {types : List T} {members : GadgetType T X} {id : Nat} {declared : T} {buffer : QVariant T X}
    (typed : h.typedMembers types members) (property : types[id]? = some declared) (own : h.typed declared buffer) :
    h.typedMembers types (members.set id buffer) := by
  obtain ⟨count, each⟩ := typedMembers_iff.mp typed
  refine typedMembers_iff.mpr ⟨by rw [List.length_set, count], fun other type found => ?_⟩
  by_cases same : id = other
  · subst same
    obtain rfl := Option.some.inj (property.symm.trans found)
    have inside : id < members.length := count ▸ (List.getElem?_eq_some_iff.mp property).1
    exact ⟨buffer, readProperty_typed (List.getElem?_set_self inside) own, own⟩
  · obtain ⟨prop, read, own'⟩ := each other type found
    refine ⟨prop, readProperty_typed ?_ own', own'⟩
    rw [List.getElem?_set_ne same]
    exact readProperty_eq read

/-- Where all was well, the event decides. -/
theorem keepsTypes_step (registered : s.Registered h) (typed : s.WellTyped h) : KeepsTypes c s e ↔ Fits c s e := by
  have each := wellTyped_iff.mp typed
  cases e with
  | registerGadgets typeName known =>
    refine iff_of_true (fun t stepped => ⟨?_, trivial⟩) trivial
    rcases step_cases stepped with rfl | ⟨_, _, _, _, rfl⟩ <;> exact typed
  | construct typeName =>
    constructor
    · intro keeps gadgetType managed
      obtain ⟨new, _⟩ := keeps { s with objects := s.objects ++ [⟨typeName, gadgetType⟩] } (by simp [step, managed])
      rw [← typedMembers_shaped _ gadgetType (registered typeName gadgetType managed).2]
      exact wellTyped_iff.mp new ⟨typeName, gadgetType⟩ (by simp)
    · intro fits t stepped
      obtain ⟨gadgetType, managed, rfl⟩ := step_cases stepped
      refine ⟨wellTyped_iff.mpr (List.forall_mem_append.mpr ⟨each, ?_⟩), trivial⟩
      simp [typedMembers_shaped _ gadgetType (registered typeName gadgetType managed).2, fits gadgetType managed]
  | deserialize object sent =>
    have loads (gadget : Object T X) (here : s.objects[object]? = some gadget)
        (own : h.haveTypes (h.properties gadget.type) sent) :=
      typedMembers_load (c := c) registered _ sent own gadget.members (typed gadget (List.mem_of_getElem? here)).1
    constructor
    · intro keeps gadget here own
      obtain ⟨new, _⟩ := keeps _ (by rw [step, here, Option.bind_some, if_pos own])
      rw [← (loads gadget here own).1]
      exact (forall_set each here).mp (wellTyped_iff.mp new)
    · intro fits t stepped
      obtain ⟨gadget, _, here, own, rfl, rfl⟩ := step_cases stepped
      have plain := fits gadget here own
      refine ⟨wellTyped_iff.mpr ((forall_set each here).mpr ((loads gadget here own).1.trans plain)), fun other found => ?_⟩
      obtain rfl := Option.some.inj ((getElem?_set_here here).symm.trans found)
      exact readProperty_contents ((loads gadget here own).2 plain)
  | writeProperty object id buffer =>
    refine iff_of_true (fun t stepped => ?_) trivial
    obtain ⟨gadget, declared, here, property, own, cases⟩ := step_cases stepped
    have members := each gadget (List.mem_of_getElem? here)
    obtain ⟨prop, read, held⟩ := (typedMembers_iff.mp members).2 id declared property
    have there := readProperty_eq read
    rcases cases with ⟨invalid, _⟩ | ⟨_, rfl⟩
    · simp [there, metaType_typed held] at invalid
    · refine ⟨wellTyped_iff.mpr ((forall_set each here).mpr (typedMembers_set members property own)), fun other found => ?_⟩
      obtain rfl := Option.some.inj ((getElem?_set_here here).symm.trans found)
      exact readProperty_typed (List.getElem?_set_self (List.getElem?_eq_some_iff.mp there).1) own
  | copy object =>
    refine iff_of_true (fun t stepped => ⟨?_, trivial⟩) trivial
    obtain ⟨gadget, here, rfl⟩ := step_cases stepped
    refine List.forall_mem_append.mpr ⟨typed, ?_⟩
    simpa using typed gadget (List.mem_of_getElem? here)

/-- Each gadget has one member for each of its properties. -/
def State.Counts (h : Host T X) (s : State T X) : Prop :=
  ∀ gadget ∈ s.objects, gadget.members.length = (h.properties gadget.type).length

theorem step_counts (registered : s.Registered h) (counts : s.Counts h) (stepped : step c s e = some t) : t.Counts h := by
  have cases := step_cases stepped
  cases e with
  | registerGadgets typeName known => rcases cases with rfl | ⟨_, _, _, _, rfl⟩ <;> exact counts
  | construct typeName =>
    obtain ⟨gadgetType, managed, rfl⟩ := cases
    refine List.forall_mem_append.mpr ⟨counts, ?_⟩
    simpa using length_shaped (registered typeName gadgetType managed).2
  | deserialize object sent =>
    obtain ⟨gadget, _, here, _, rfl, rfl⟩ := cases
    refine (forall_set counts here).mpr ?_
    rw [length_gadgetDataStreamInFn]
    exact counts gadget (List.mem_of_getElem? here)
  | writeProperty object id buffer =>
    obtain ⟨gadget, _, here, _, _, ⟨_, rfl⟩ | ⟨_, rfl⟩⟩ := cases
    · exact counts
    · refine (forall_set counts here).mpr ?_
      rw [List.length_set]
      exact counts gadget (List.mem_of_getElem? here)
  | copy object =>
    obtain ⟨gadget, here, rfl⟩ := cases
    refine List.forall_mem_append.mpr ⟨counts, ?_⟩
    simpa using counts gadget (List.mem_of_getElem? here)

end Runs

theorem keepsTypes_iff {T X : Type} [DecidableEq T] (h : Host T X) (c : Compiled h) (es : List (Event T X)) :
    (∀ t, exec (step c) initial es = some t → ∀ gadget ∈ t.objects, gadget.members.length = (h.properties gadget.type).length) ∧
      (Admitted (step c) (KeepsTypes c) initial es ↔ Admitted (step c) (Fits c) initial es) := by
  have registered : (initial : State T X).Registered h := nofun
  constructor
  · intro t run
    exact (exec_always (P := fun s => s.Registered h ∧ s.Counts h)
      (fun before stepped => ⟨step_registered before.1 stepped, step_counts before.1 before.2 stepped⟩) run ⟨registered, nofun⟩).2
  · apply admitted_iff_of_kept (P := fun s => s.Registered h ∧ s.WellTyped h)
    · intro s e t good keeps stepped
      exact ⟨step_registered good.1 stepped, (keeps t stepped).1⟩
    · intro s e good
      exact keepsTypes_step good.1 good.2
    · exact ⟨registered, nofun⟩

namespace Sample

inductive Name
  | signedChar
  | color
  | pixel
deriving DecidableEq

/-- A gadget whose only member is an enumeration. -/
def host : Host Name Int where
  metaType
    | .signedChar => .builtin
    | .color => .enumeration .signedChar
    | .pixel => .gadget [.color]
  builtin_transferType type transferType enumeration := by
    cases type with
    | signedChar => cases enumeration
    | color =>
      obtain rfl := MetaType.enumeration.inj enumeration
      rfl
    | pixel => cases enumeration
  builtin_wrapper type wrapper container := by cases type <;> cases container
  toInteger _ x := x
  pack _ x := x

def compiled : Compiled host := ⟨fun _ => false, fun _ => .data 0, fun _ _ => .null, nofun⟩

end Sample

/-- The member is an integer once the gadget was sent. -/
theorem enumeration_read_as_integer : ¬ Admitted (step Sample.compiled) (KeepsTypes Sample.compiled) initial
    [.registerGadgets .pixel (fun _ => true), .construct .pixel, .deserialize 0 [.data 1]] := by
  intro keeps
  obtain ⟨typed, _⟩ := ((keeps.2 _ rfl).2 _ rfl).1 _ rfl
  obtain ⟨prop, read, own⟩ := (typed _ (.head _)).2 0 .color rfl
  obtain rfl := Option.some.inj read
  exact Bool.false_ne_true own
end RemoteObjects.Client.DynamicGadgets
