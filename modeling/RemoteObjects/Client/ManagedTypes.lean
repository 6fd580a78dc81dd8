import Mathlib.Logic.Function.Basic
import RemoteObjects.Transition

/-! The gadget types that definition packets bring to a client, and the connections for which
they are kept. A type id stands for the name under which it is registered. -/
namespace RemoteObjects.Client.ManagedTypes
open Transition

section Model
variable (N : Type)

/-- The name of a type. That of an enumeration has a scope. -/
inductive TypeName
  | type (name : N)
  | enumeration (scope name : N)
deriving DecidableEq

structure GadgetData where
  properties : List (TypeName N)
  enums : List N
deriving DecidableEq

abbrev Gadgets := List (N × GadgetData N)

/-- The types of the values are `none` where `QMetaType` does not know them. -/
structure ManagedGadgetTypeEntry where
  gadgetType : List (Option (TypeName N))
  enumMetaTypes : List (TypeName N)

structure Types where
  registered : List (TypeName N)
  s_managedTypes : N → Option (ManagedGadgetTypeEntry N)
  s_trackedConnections : List (N × Nat)

/-- `constBegin` of a hash, which may be any of its entries. -/
structure Hash where
  constBegin : Gadgets N → Option N
  mem_of_constBegin : ∀ gadgets, ∀ name ∈ constBegin gadgets, name ∈ gadgets.map Prod.fst
  isSome_constBegin : ∀ gadgets, gadgets ≠ [] → (constBegin gadgets).isSome

/-- A gadget type in a packet that came over a connection. -/
structure Announcement where
  connection : Nat
  name : N
  gadget : GadgetData N
deriving DecidableEq

/-- The types, and what the connections that are not destroyed have announced. -/
structure Process extends Types N where
  announced : List (Announcement N)

inductive Event
  | definition (connection : Nat) (qtEnums : List (N × N)) (gadgets : List (N × GadgetData N))
  | destroyed (connection : Nat)

end Model

variable {N : Type} [DecidableEq N]

/-- `gadgets.take`. -/
def Gadgets.take (gadgets : Gadgets N) (name : N) : Gadgets N := gadgets.filter (·.1 ≠ name)

namespace Types
variable (connection : Nat) (s : Types N)

def trackConnection (name : N) : Types N :=
  { s with s_trackedConnections := s.s_trackedConnections.insert (name, connection) }

/-- `unregisterMetaTypes`. A type that was not made here has an entry without a meta type. -/
def unregisterMetaTypes (name : N) : Types N :=
  match s.s_managedTypes name with
  | some entry => { s with registered := s.registered.filter fun type => type ≠ .type name ∧ type ∉ entry.enumMetaTypes }
  | none => s

def unregisterIfNotUsed (name : N) : Types N :=
  let s := { s with s_trackedConnections := s.s_trackedConnections.filter (· ≠ (name, connection)) }
  if name ∈ s.s_trackedConnections.map Prod.fst then s
  else { s.unregisterMetaTypes name with s_managedTypes := Function.update s.s_managedTypes name none }

/-- Every type that is tracked for the connection. -/
def destroyed : Types N :=
  ((s.s_trackedConnections.filter (·.2 = connection)).map Prod.fst).foldl (·.unregisterIfNotUsed connection) s

/-- The types of the enumerations of a gadget, where their names are new. -/
def registerEnums (name : N) (enums : List N) : List (TypeName N) :=
  (enums.map (TypeName.enumeration name)).filter (· ∉ s.registered)

end Types

/-- A property, with what registers its type when that is in the same packet. -/
def addProperty (registerGadgets : Gadgets N → N → Types N → Gadgets N × Types N)
    (state : (Gadgets N × Types N) × List (Option (TypeName N))) (type : TypeName N) :
    (Gadgets N × Types N) × List (Option (TypeName N)) :=
  let ((gadgets, s), gadgetType) := state
  if type ∈ s.registered then ((gadgets, s), gadgetType ++ [some type])
  else
    match type with
    | .type name =>
      if name ∈ gadgets.map Prod.fst then (registerGadgets gadgets name s, gadgetType ++ [some type])
      else ((gadgets, s), gadgetType ++ [none])
    | .enumeration _ _ => ((gadgets, s), gadgetType ++ [none])

/-- Each call takes one of the gadgets, so that their number is `fuel` enough. -/
def registerGadgets (connection : Nat) : Nat → Gadgets N → N → Types N → Gadgets N × Types N
  | 0, gadgets, _, s => (gadgets, s)
  | fuel + 1, gadgets, typeName, s =>
    let gadget := (gadgets.lookup typeName).getD ⟨[], []⟩
    let gadgets := gadgets.take typeName
    if .type typeName ∈ s.registered then (gadgets, s.trackConnection connection typeName)
    else
      let ((gadgets, s), gadgetType) :=
        gadget.properties.foldl (addProperty (registerGadgets connection fuel)) ((gadgets, s), [])
      let enumMetaTypes := s.registerEnums typeName gadget.enums
      let s := { s with registered := TypeName.type typeName :: enumMetaTypes ++ s.registered }
      let s := s.trackConnection connection typeName
      (gadgets, { s with s_managedTypes := Function.update s.s_managedTypes typeName (some ⟨gadgetType, enumMetaTypes⟩) })

def registerAllGadgets (hash : Hash N) (connection : Nat) : Nat → Gadgets N → Types N → Gadgets N × Types N
  | 0, gadgets, s => (gadgets, s)
  | fuel + 1, gadgets, s =>
    match hash.constBegin gadgets with
    | none => (gadgets, s)
    | some typeName =>
      let (gadgets, s) := registerGadgets connection gadgets.length gadgets typeName s
      registerAllGadgets hash connection fuel gadgets s

/-- The gadgets of a packet. Those of one name become one gadget. -/
def addGadget (gadgets : Gadgets N) (gadget : N × GadgetData N) : Gadgets N :=
  let before := (gadgets.lookup gadget.1).getD ⟨[], []⟩
  (gadget.1, ⟨before.properties ++ gadget.2.properties, before.enums ++ gadget.2.enums⟩) :: gadgets.take gadget.1

def parseGadgets (hash : Hash N) (connection : Nat) (qtEnums : List (N × N)) (gadgets : List (N × GadgetData N))
    (s : Types N) : Types N :=
  let s := { s with registered := qtEnums.map (fun name => .enumeration name.1 name.2) ++ s.registered }
  let gadgets := gadgets.foldl addGadget []
  (registerAllGadgets hash connection gadgets.length gadgets s).2

def step (hash : Hash N) (s : Process N) : Event N → Option (Process N)
  | .definition connection qtEnums gadgets => some {
      toTypes := parseGadgets hash connection qtEnums gadgets s.toTypes
      announced := (gadgets.map fun gadget => ⟨connection, gadget.1, gadget.2⟩) ++ s.announced }
  | .destroyed connection => some {
      toTypes := s.toTypes.destroyed connection
      announced := s.announced.filter (·.connection ≠ connection) }

/-- The types that are there before any packet. -/
def initial (statics : List (TypeName N)) : Process N := ⟨⟨statics, fun _ => none, []⟩, []⟩

section Statement
variable (statics : List (TypeName N)) (s : Process N)

def Types.Managed (s : Types N) (name : N) : Prop := (s.s_managedTypes name).isSome ∧ .type name ∈ s.registered

def Process.Announces (connection : Nat) (name : N) : Prop :=
  ∃ a ∈ s.announced, a.connection = connection ∧ a.name = name

/-- The connection announced a type with a property of this type. -/
def Process.HasProperty (connection : Nat) (name : N) : Prop :=
  ∃ a ∈ s.announced, a.connection = connection ∧ .type name ∈ a.gadget.properties

/-- What a step must keep of the types that are not there by themselves: a type is managed as long as
a connection announces it, or has it as the type of a property, and no longer. -/
def OutlivesUsers (hash : Hash N) (e : Event N) : Prop :=
  ∀ t, step hash s e = some t → ∀ name, .type name ∉ statics →
    ((∃ connection, t.Announces connection name) → t.Managed name) ∧
    (s.Managed name → (∃ connection, t.HasProperty connection name) → t.Managed name) ∧
    ((∀ connection, ¬ t.Announces connection name ∧ ¬ t.HasProperty connection name) →
      t.s_managedTypes name = none ∧ .type name ∉ t.registered)

/-- No type that only this connection has announced is one of a property of another's type. -/
def NotBorrowed : Event N → Prop
  | .definition _ _ _ => True
  | .destroyed connection => ∀ name, .type name ∉ statics →
      s.Announces connection name → (∀ other, s.Announces other name → other = connection) →
      ∀ other, s.HasProperty other name → other = connection

end Statement

section Invariant
variable {statics : List (TypeName N)} {s : Types N} {connection : Nat} {name : N}

/-- A gadget type that is registered was there, or it is managed. -/
structure WellFormed (statics : List (TypeName N)) (s : Types N) : Prop where
  registered : ∀ name, .type name ∈ s.registered ↔ .type name ∈ statics ∨ (s.s_managedTypes name).isSome
  apart : ∀ name, (s.s_managedTypes name).isSome → .type name ∉ statics
  enums : ∀ name, ∀ entry ∈ s.s_managedTypes name, ∀ other, .type other ∉ entry.enumMetaTypes

/-- What was taken from the gadgets of a packet is managed, and tracked for its connection. -/
structure Registers (statics : List (TypeName N)) (connection : Nat) (a b : Gadgets N × Types N) : Prop where
  wellFormed : WellFormed statics b.2
  sublist : b.1.Sublist a.1
  tracked : ∀ name other, (name, other) ∈ b.2.s_trackedConnections ↔
    (name, other) ∈ a.2.s_trackedConnections ∨ other = connection ∧ name ∈ a.1.map Prod.fst ∧ name ∉ b.1.map Prod.fst
  managed : ∀ name, (b.2.s_managedTypes name).isSome ↔
    (a.2.s_managedTypes name).isSome ∨ .type name ∉ statics ∧ name ∈ a.1.map Prod.fst ∧ name ∉ b.1.map Prod.fst

omit [DecidableEq N] in
theorem Registers.refl {a : Gadgets N × Types N} (wellFormed : WellFormed statics a.2) : Registers statics connection a a where
  wellFormed := wellFormed
  sublist := .refl _
  tracked _ _ := by tauto
  managed _ := by tauto

omit [DecidableEq N] in
theorem Registers.trans {a b c : Gadgets N × Types N} (first : Registers statics connection a b)
    (second : Registers statics connection b c) : Registers statics connection a c where
  wellFormed := second.wellFormed
  sublist := second.sublist.trans first.sublist
  tracked name other := by
    have early := (first.sublist.map Prod.fst).subset (a := name)
    have late := (second.sublist.map Prod.fst).subset (a := name)
    rw [second.tracked, first.tracked]
    tauto
  managed name := by
    have early := (first.sublist.map Prod.fst).subset (a := name)
    have late := (second.sublist.map Prod.fst).subset (a := name)
    rw [second.managed, first.managed]
    tauto

theorem mem_take {gadgets : Gadgets N} {other : N} :
    other ∈ (gadgets.take name).map Prod.fst ↔ other ∈ gadgets.map Prod.fst ∧ other ≠ name := by
  simp only [Gadgets.take, List.mem_map, List.mem_filter, decide_eq_true_eq]
  constructor
  · rintro ⟨gadget, ⟨member, apart⟩, rfl⟩
    exact ⟨⟨gadget, member, rfl⟩, apart⟩
  · rintro ⟨⟨gadget, member, rfl⟩, apart⟩
    exact ⟨gadget, ⟨member, apart⟩, rfl⟩

theorem mem_trackConnection {entry : N × Nat} : entry ∈ (s.trackConnection connection name).s_trackedConnections ↔
    entry = (name, connection) ∨ entry ∈ s.s_trackedConnections := List.mem_insert_iff

/-- The gadget that is taken, where its type is registered already. -/
theorem registers_known {gadgets : Gadgets N} (wellFormed : WellFormed statics s) (known : .type name ∈ s.registered)
    (member : name ∈ gadgets.map Prod.fst) :
    Registers statics connection (gadgets, s) (gadgets.take name, s.trackConnection connection name) where
  wellFormed := ⟨wellFormed.registered, wellFormed.apart, wellFormed.enums⟩
  sublist := List.filter_sublist
  tracked other c := by
    rw [mem_trackConnection, mem_take, Prod.mk.injEq]
    by_cases same : other = name
    · subst same
      tauto
    · tauto
  managed other := by
    have there := (wellFormed.registered name).mp known
    rw [mem_take]
    by_cases same : other = name
    · subst same
      tauto
    · tauto

/-- Where it is new, the types of its properties come before it. -/
theorem registers_new {gadgets gadgets' : Gadgets N} {s' : Types N} {gadgetType : List (Option (TypeName N))}
    {enumMetaTypes : List (TypeName N)} (wellFormed : WellFormed statics s) (new : .type name ∉ s.registered)
    (member : name ∈ gadgets.map Prod.fst) (enumerations : ∀ other, .type other ∉ enumMetaTypes)
    (nested : Registers statics connection (gadgets.take name, s) (gadgets', s')) :
    Registers statics connection (gadgets, s) (gadgets', {
      registered := TypeName.type name :: enumMetaTypes ++ s'.registered
      s_managedTypes := Function.update s'.s_managedTypes name (some ⟨gadgetType, enumMetaTypes⟩)
      s_trackedConnections := s'.s_trackedConnections.insert (name, connection) }) := by
  rw [wellFormed.registered, not_or] at new
  have taken : name ∉ gadgets'.map Prod.fst := fun inside =>
    (mem_take.mp ((nested.sublist.map Prod.fst).subset inside)).2 rfl
  refine ⟨⟨fun other => ?_, fun other => ?_, fun other entry => ?_⟩, nested.sublist.trans List.filter_sublist, fun other c => ?_,
    fun other => ?_⟩
  · rw [List.cons_append, List.mem_cons, List.mem_append, nested.wellFormed.registered]
    by_cases same : other = name
    · subst same
      simp
    · simp [same, enumerations]
  · by_cases same : other = name
    · subst same
      exact fun _ => new.1
    · simpa [same] using nested.wellFormed.apart other
  · by_cases same : other = name
    · subst same
      simpa using fun equal => equal ▸ enumerations
    · simpa [same] using nested.wellFormed.enums other entry
  · rw [List.mem_insert_iff, nested.tracked, mem_take, Prod.mk.injEq]
    by_cases same : other = name
    · subst same
      tauto
    · tauto
  · by_cases same : other = name
    · subst same
      simp [new, member, taken]
    · simp only [Function.update_of_ne same, nested.managed, mem_take]
      tauto

theorem addProperty_registers {registerGadgets : Gadgets N → N → Types N → Gadgets N × Types N}
    (nested : ∀ gadgets s name, WellFormed statics s → name ∈ gadgets.map Prod.fst →
      Registers statics connection (gadgets, s) (registerGadgets gadgets name s))
    {a : Gadgets N × Types N} {state : (Gadgets N × Types N) × List (Option (TypeName N))}
    (before : Registers statics connection a state.1) (type : TypeName N) :
    Registers statics connection a (addProperty registerGadgets state type).1 := by
  obtain ⟨⟨gadgets, s⟩, gadgetType⟩ := state
  unfold addProperty
  dsimp only
  split
  · exact before
  · split
    · split
      · rename_i member
        exact before.trans (nested gadgets s _ before.wellFormed member)
      · exact before
    · exact before

theorem addProperties_registers {registerGadgets : Gadgets N → N → Types N → Gadgets N × Types N}
    (nested : ∀ gadgets s name, WellFormed statics s → name ∈ gadgets.map Prod.fst →
      Registers statics connection (gadgets, s) (registerGadgets gadgets name s))
    {a : Gadgets N × Types N} (properties : List (TypeName N)) {state : (Gadgets N × Types N) × List (Option (TypeName N))}
    (before : Registers statics connection a state.1) :
    Registers statics connection a (properties.foldl (addProperty registerGadgets) state).1 := by
  induction properties generalizing state with
  | nil => exact before
  | cons type properties ih => exact ih (addProperty_registers nested before type)

variable (connection)

/-- By induction on the nesting of the calls. -/
theorem registerGadgets_registers (fuel : Nat) (gadgets : Gadgets N) (s : Types N) (typeName : N)
    (wellFormed : WellFormed statics s) (member : typeName ∈ gadgets.map Prod.fst) :
    Registers statics connection (gadgets, s) (registerGadgets connection fuel gadgets typeName s) := by
  induction fuel generalizing gadgets s typeName with
  | zero => exact .refl wellFormed
  | succ fuel ih =>
    rw [registerGadgets]
    split
    · rename_i known
      exact registers_known wellFormed known member
    · rename_i new
      apply registers_new wellFormed new member
      · intro other inside
        simp [Types.registerEnums] at inside
      · apply addProperties_registers ih
        exact .refl wellFormed

/-- With a call for each gadget, more calls make no difference. -/
theorem registerGadgets_enough (fuel : Nat) (gadgets : Gadgets N) (s : Types N) (typeName : N) (wellFormed : WellFormed statics s)
    (member : typeName ∈ gadgets.map Prod.fst) (enough : gadgets.length ≤ fuel) :
    registerGadgets connection (fuel + 1) gadgets typeName s = registerGadgets connection fuel gadgets typeName s := by
  induction fuel generalizing gadgets s typeName with
  | zero =>
    obtain rfl := List.eq_nil_of_length_eq_zero (Nat.le_zero.mp enough)
    exact (nomatch member)
  | succ fuel ih =>
    have shorter : (gadgets.take typeName).length ≤ fuel := by
      obtain ⟨gadget, inside, rfl⟩ := List.mem_map.mp member
      have strict : (gadgets.take gadget.1).length < gadgets.length :=
        List.length_filter_lt_length_iff_exists.mpr ⟨gadget, inside, by simp⟩
      exact Nat.le_of_lt_succ (Nat.lt_of_lt_of_le strict enough)
    have each : ∀ (properties : List (TypeName N)) (state : (Gadgets N × Types N) × List (Option (TypeName N))),
        Registers statics connection (gadgets.take typeName, s) state.1 →
        properties.foldl (addProperty (registerGadgets connection (fuel + 1))) state =
          properties.foldl (addProperty (registerGadgets connection fuel)) state := by
      intro properties
      induction properties with
      | nil => exact fun _ _ => rfl
      | cons type properties next =>
        intro state before
        have same : addProperty (registerGadgets connection (fuel + 1)) state type =
            addProperty (registerGadgets connection fuel) state type := by
          obtain ⟨⟨rest, s'⟩, gadgetType⟩ := state
          have nested := fun name inside => ih rest s' name before.wellFormed inside (Nat.le_trans before.sublist.length_le shorter)
          unfold addProperty
          dsimp only
          split
          · rfl
          · split
            · split
              · rename_i inside
                rw [nested _ inside]
              · rfl
            · rfl
        rw [List.foldl_cons, List.foldl_cons, same]
        exact next _ (addProperty_registers (registerGadgets_registers connection fuel) before type)
    rw [registerGadgets, each _ _ (.refl wellFormed)]
    rfl

theorem not_mem_registerGadgets (fuel : Nat) (gadgets : Gadgets N) (typeName : N) (wellFormed : WellFormed statics s) :
    typeName ∉ (registerGadgets connection (fuel + 1) gadgets typeName s).1.map Prod.fst := by
  rw [registerGadgets]
  split
  · exact fun inside => (mem_take.mp inside).2 rfl
  · have rest : Registers statics connection (gadgets.take typeName, s)
        (((gadgets.lookup typeName).getD ⟨[], []⟩).properties.foldl (addProperty (registerGadgets connection fuel))
          ((gadgets.take typeName, s), [])).1 :=
      addProperties_registers (registerGadgets_registers connection fuel) _ (.refl wellFormed)
    exact fun inside => (mem_take.mp ((rest.sublist.map Prod.fst).subset inside)).2 rfl

/-- In the end nothing of the packet is left. -/
theorem registerAllGadgets_registers (hash : Hash N) (fuel : Nat) (gadgets : Gadgets N) (s : Types N)
    (wellFormed : WellFormed statics s) (enough : gadgets.length ≤ fuel) :
    Registers statics connection (gadgets, s) (registerAllGadgets hash connection fuel gadgets s) ∧
      (registerAllGadgets hash connection fuel gadgets s).1 = [] := by
  induction fuel generalizing gadgets s with
  | zero => exact ⟨.refl wellFormed, List.eq_nil_of_length_eq_zero (Nat.le_zero.mp enough)⟩
  | succ fuel ih =>
    rw [registerAllGadgets]
    cases begins : hash.constBegin gadgets with
    | none =>
      refine ⟨.refl wellFormed, by_contra fun filled => ?_⟩
      exact absurd (hash.isSome_constBegin gadgets filled) (by simp [begins])
    | some typeName =>
      have member := hash.mem_of_constBegin gadgets typeName begins
      have positive : 0 < gadgets.length := by
        rw [← List.length_map (f := Prod.fst)]
        exact List.length_pos_of_mem member
      obtain ⟨count, counted⟩ := Nat.exists_eq_add_of_lt positive
      have first := registerGadgets_registers connection gadgets.length gadgets s typeName wellFormed member
      have taken : typeName ∉ (registerGadgets connection gadgets.length gadgets typeName s).1.map Prod.fst := by
        rw [counted]
        exact not_mem_registerGadgets connection _ gadgets typeName wellFormed
      have shorter : (registerGadgets connection gadgets.length gadgets typeName s).1.length < gadgets.length := by
        refine Nat.lt_of_le_of_ne first.sublist.length_le fun same => taken ?_
        rw [first.sublist.eq_of_length same]
        exact member
      obtain ⟨rest, done⟩ := ih _ _ first.wellFormed (Nat.le_of_lt_succ (Nat.lt_of_lt_of_le shorter enough))
      exact ⟨first.trans rest, done⟩

theorem mem_addGadget {gadgets : Gadgets N} {gadget : N × GadgetData N} :
    name ∈ (addGadget gadgets gadget).map Prod.fst ↔ name = gadget.1 ∨ name ∈ gadgets.map Prod.fst := by
  rw [addGadget, List.map_cons, List.mem_cons, mem_take]
  tauto

theorem mem_addGadgets (packet : List (N × GadgetData N)) {gadgets : Gadgets N} :
    name ∈ (packet.foldl addGadget gadgets).map Prod.fst ↔ name ∈ gadgets.map Prod.fst ∨ name ∈ packet.map Prod.fst := by
  induction packet generalizing gadgets with
  | nil => simp
  | cons gadget packet ih =>
    rw [List.foldl_cons, ih, mem_addGadget, List.map_cons, List.mem_cons]
    tauto

/-- The types that a packet names are tracked for its connection. -/
theorem parseGadgets_spec (hash : Hash N) (qtEnums : List (N × N)) (packet : List (N × GadgetData N)) (wellFormed : WellFormed statics s) :
    let t := parseGadgets hash connection qtEnums packet s
    WellFormed statics t ∧
      (∀ name other, (name, other) ∈ t.s_trackedConnections ↔
        (name, other) ∈ s.s_trackedConnections ∨ other = connection ∧ name ∈ packet.map Prod.fst) ∧
      ∀ name, (t.s_managedTypes name).isSome ↔
        (s.s_managedTypes name).isSome ∨ .type name ∉ statics ∧ name ∈ packet.map Prod.fst := by
  have start : WellFormed statics { s with registered := qtEnums.map (fun name => .enumeration name.1 name.2) ++ s.registered } := by
    refine ⟨fun name => ?_, wellFormed.apart, wellFormed.enums⟩
    rw [List.mem_append, ← wellFormed.registered]
    simp
  obtain ⟨whole, done⟩ := registerAllGadgets_registers connection hash _ (packet.foldl addGadget []) _ start (Nat.le_refl _)
  refine ⟨whole.wellFormed, fun name other => ?_, fun name => ?_⟩
  · have tracked := whole.tracked name other
    rw [done, mem_addGadgets] at tracked
    refine tracked.trans ?_
    simp
  · have managed := whole.managed name
    rw [done, mem_addGadgets] at managed
    refine managed.trans ?_
    simp

/-- One type that is not tracked any more for a connection. -/
theorem unregisterIfNotUsed_spec (name : N) (wellFormed : WellFormed statics s) :
    let t := s.unregisterIfNotUsed connection name
    WellFormed statics t ∧
      (∀ entry, entry ∈ t.s_trackedConnections ↔ entry ∈ s.s_trackedConnections ∧ entry ≠ (name, connection)) ∧
      ∀ other, (t.s_managedTypes other).isSome ↔ (s.s_managedTypes other).isSome ∧
        ¬ (other = name ∧ ∀ c, (name, c) ∈ s.s_trackedConnections → c = connection) := by
  have alone : name ∉ (s.s_trackedConnections.filter (· ≠ (name, connection))).map Prod.fst ↔
      ∀ c, (name, c) ∈ s.s_trackedConnections → c = connection := by
    simp only [List.mem_map, List.mem_filter, decide_eq_true_eq, not_exists, not_and]
    constructor
    · intro none c member
      by_contra other
      exact none (name, c) ⟨member, by simpa using other⟩ rfl
    · rintro only ⟨_, c⟩ ⟨member, other⟩ rfl
      exact other (by rw [only c member])
  unfold Types.unregisterIfNotUsed
  dsimp only
  split
  · rename_i used
    refine ⟨⟨wellFormed.registered, wellFormed.apart, wellFormed.enums⟩, fun entry => ?_, fun other => ?_⟩
    · rw [List.mem_filter, decide_eq_true_eq]
    · rw [← alone]
      tauto
  · rename_i unused
    have registered : ∀ other, .type other ∈ ({ s with
        s_trackedConnections := s.s_trackedConnections.filter (· ≠ (name, connection)) }.unregisterMetaTypes name : Types N).registered ↔
        .type other ∈ s.registered ∧ (other = name → s.s_managedTypes name = none) := by
      intro other
      unfold Types.unregisterMetaTypes
      cases found : s.s_managedTypes name with
      | none => simp
      | some entry => simp [wellFormed.enums name entry found other]
    refine ⟨⟨fun other => ?_, fun other managed => ?_, fun other entry found => ?_⟩, fun entry => ?_, fun other => ?_⟩
    · rw [registered, wellFormed.registered]
      by_cases same : other = name
      · subst same
        have apart := wellFormed.apart other
        cases found : s.s_managedTypes other with
        | none => simp
        | some entry => simpa [found] using apart
      · simp [same]
    · by_cases same : other = name
      · simp [same] at managed
      · exact wellFormed.apart other (by simpa [same] using managed)
    · by_cases same : other = name
      · simp [same] at found
      · exact wellFormed.enums other entry (by simpa [same] using found)
    · unfold Types.unregisterMetaTypes
      split <;> rw [List.mem_filter, decide_eq_true_eq]
    · by_cases same : other = name
      · simpa [same] using fun _ => alone.mp unused
      · simp [same]

theorem unregisterAll_spec (names : List N) (wellFormed : WellFormed statics s) :
    let t := names.foldl (·.unregisterIfNotUsed connection) s
    WellFormed statics t ∧
      (∀ entry, entry ∈ t.s_trackedConnections ↔
        entry ∈ s.s_trackedConnections ∧ ¬ (entry.1 ∈ names ∧ entry.2 = connection)) ∧
      ∀ other, (t.s_managedTypes other).isSome ↔ (s.s_managedTypes other).isSome ∧
        ¬ (other ∈ names ∧ ∀ c, (other, c) ∈ s.s_trackedConnections → c = connection) := by
  induction names generalizing s with
  | nil => exact ⟨wellFormed, by simp, by simp⟩
  | cons name names ih =>
    obtain ⟨formed, tracked, managed⟩ := unregisterIfNotUsed_spec connection name wellFormed
    obtain ⟨formed', tracked', managed'⟩ := ih formed
    refine ⟨formed', fun entry => ?_, fun other => ?_⟩
    · rw [List.foldl_cons, tracked', tracked, ne_eq, Prod.ext_iff, List.mem_cons]
      tauto
    · -- whether another connection is left is not changed by the first one
      have left : (∀ c, (other, c) ∈ (s.unregisterIfNotUsed connection name).s_trackedConnections → c = connection) ↔
          ∀ c, (other, c) ∈ s.s_trackedConnections → c = connection := by
        refine forall_congr' fun c => ?_
        rw [tracked, ne_eq, Prod.mk.injEq]
        tauto
      rw [List.foldl_cons, managed', managed, left, List.mem_cons]
      by_cases same : other = name
      · subst same
        tauto
      · tauto

end Invariant

section Main
variable {statics : List (TypeName N)} {hash : Hash N} {s t : Process N} {e : Event N} {es : List (Event N)}

/-- A type is tracked for the connections that have announced it. -/
structure Consistent (statics : List (TypeName N)) (s : Process N) : Prop extends WellFormed statics s.toTypes where
  tracked : ∀ name connection, (name, connection) ∈ s.s_trackedConnections ↔ s.Announces connection name
  managed : ∀ name, .type name ∉ statics →
    ((s.s_managedTypes name).isSome ↔ ∃ connection, s.Announces connection name)

omit [DecidableEq N] in
theorem consistent_initial : Consistent statics (initial statics) where
  registered _ := by simp [initial]
  apart _ := by simp [initial]
  enums _ := by simp [initial]
  tracked _ _ := by simp [initial, Process.Announces]
  managed _ _ := by simp [initial, Process.Announces]

omit [DecidableEq N] in
theorem Consistent.managed_iff (consistent : Consistent statics s) {name : N} (own : .type name ∉ statics) :
    s.Managed name ↔ ∃ connection, s.Announces connection name := by
  rw [Types.Managed, consistent.registered, ← consistent.managed name own]
  tauto

omit [DecidableEq N] in
theorem announces_definition {connection other : Nat} {name : N} {packet : List (N × GadgetData N)} {types : Types N} :
    Process.Announces ⟨types, (packet.map fun gadget => ⟨connection, gadget.1, gadget.2⟩) ++ s.announced⟩ other name ↔
      s.Announces other name ∨ other = connection ∧ name ∈ packet.map Prod.fst := by
  simp only [Process.Announces, List.mem_append, List.mem_map]
  constructor
  · rintro ⟨a, ⟨gadget, member, rfl⟩ | before, rfl, rfl⟩
    · exact .inr ⟨rfl, gadget, member, rfl⟩
    · exact .inl ⟨a, before, rfl, rfl⟩
  · rintro (⟨a, before, same⟩ | ⟨rfl, gadget, member, rfl⟩)
    · exact ⟨a, .inr before, same⟩
    · exact ⟨_, .inl ⟨gadget, member, rfl⟩, rfl, rfl⟩

omit [DecidableEq N] in
theorem announces_destroyed {connection other : Nat} {name : N} {types : Types N} :
    Process.Announces ⟨types, s.announced.filter (·.connection ≠ connection)⟩ other name ↔
      s.Announces other name ∧ other ≠ connection := by
  simp only [Process.Announces, List.mem_filter, decide_eq_true_eq]
  constructor
  · rintro ⟨a, ⟨member, apart⟩, rfl, rfl⟩
    exact ⟨⟨a, member, rfl, rfl⟩, apart⟩
  · rintro ⟨⟨a, member, rfl, rfl⟩, apart⟩
    exact ⟨a, ⟨member, apart⟩, rfl, rfl⟩

omit [DecidableEq N] in
theorem hasProperty_destroyed {connection other : Nat} {name : N} {types : Types N} :
    Process.HasProperty ⟨types, s.announced.filter (·.connection ≠ connection)⟩ other name ↔
      s.HasProperty other name ∧ other ≠ connection := by
  simp only [Process.HasProperty, List.mem_filter, decide_eq_true_eq]
  constructor
  · rintro ⟨a, ⟨member, apart⟩, rfl, inside⟩
    exact ⟨⟨a, member, rfl, inside⟩, apart⟩
  · rintro ⟨⟨a, member, rfl, inside⟩, apart⟩
    exact ⟨a, ⟨member, apart⟩, rfl, inside⟩

theorem consistent_step (consistent : Consistent statics s) (head : step hash s e = some t) : Consistent statics t := by
  cases e with
  | definition connection qtEnums packet =>
    obtain rfl := Option.some.inj head
    obtain ⟨formed, tracked, managed⟩ := parseGadgets_spec connection hash qtEnums packet
      consistent.toWellFormed
    refine ⟨formed, fun name other => ?_, fun name own => ?_⟩
    · rw [tracked, consistent.tracked, announces_definition]
    · rw [managed, consistent.managed name own]
      simp only [announces_definition, exists_or, exists_eq_left, own, not_false_eq_true, true_and]
  | destroyed connection =>
    obtain rfl := Option.some.inj head
    obtain ⟨formed, tracked, managed⟩ := unregisterAll_spec connection
      ((s.s_trackedConnections.filter (·.2 = connection)).map Prod.fst) consistent.toWellFormed
    have named (name : N) : name ∈ (s.s_trackedConnections.filter (·.2 = connection)).map Prod.fst ↔
        s.Announces connection name := by
      rw [← consistent.tracked]
      simp
    refine ⟨formed, fun name other => ?_, fun name own => ?_⟩
    · rw [announces_destroyed, ← consistent.tracked]
      refine (tracked (name, other)).trans (and_congr_right fun member => ?_)
      rw [named, ← consistent.tracked]
      constructor
      · rintro not rfl
        exact not ⟨member, rfl⟩
      · exact fun apart both => apart both.2
    · refine (managed name).trans ?_
      simp only [named, announces_destroyed, consistent.tracked, consistent.managed name own]
      constructor
      · rintro ⟨⟨other, announces⟩, not⟩
        by_contra none
        simp only [not_exists, not_and, not_not] at none
        exact not ⟨none other announces ▸ announces, none⟩
      · rintro ⟨other, announces, apart⟩
        exact ⟨⟨other, announces⟩, fun both => apart (both.2 other announces)⟩

/-- A type that is announced is managed, and one that nobody uses is gone, after each step. -/
theorem outlivesUsers_iff (consistent : Consistent statics s) (e : Event N) :
    OutlivesUsers statics s hash e ↔ NotBorrowed statics s e := by
  obtain ⟨t, head⟩ : ∃ t, step hash s e = some t := by cases e <;> exact ⟨_, rfl⟩
  have after := consistent_step consistent head
  have free : ∀ name, .type name ∉ statics → (∀ connection, ¬ t.Announces connection name ∧ ¬ t.HasProperty connection name) →
      t.s_managedTypes name = none ∧ .type name ∉ t.registered := by
    intro name own unused
    have unmanaged : ¬ (t.s_managedTypes name).isSome := by
      rw [after.managed name own]
      exact fun ⟨connection, announces⟩ => (unused connection).1 announces
    refine ⟨Option.not_isSome_iff_eq_none.mp unmanaged, ?_⟩
    rw [after.registered]
    exact fun either => either.elim own unmanaged
  have reduced : OutlivesUsers statics s hash e ↔ ∀ name, .type name ∉ statics → s.Managed name →
      (∃ connection, t.HasProperty connection name) → t.Managed name := by
    constructor
    · exact fun outlives name own => (outlives t head name own).2.1
    · intro kept u head' name own
      obtain rfl := Option.some.inj (head.symm.trans head')
      exact ⟨(after.managed_iff own).mpr, kept name own, free name own⟩
  rw [reduced]
  cases e with
  | definition connection qtEnums packet =>
    obtain rfl := Option.some.inj head
    refine iff_of_true (fun name own managed _ => ?_) trivial
    obtain ⟨other, announces⟩ := (consistent.managed_iff own).mp managed
    exact (after.managed_iff own).mpr ⟨other, announces_definition.mpr (.inl announces)⟩
  | destroyed connection =>
    obtain rfl := Option.some.inj head
    refine forall_congr' fun name => imp_congr_right fun own => ?_
    rw [after.managed_iff own, consistent.managed_iff own]
    simp only [announces_destroyed, hasProperty_destroyed]
    constructor
    · intro kept announces only other has
      by_contra apart
      obtain ⟨third, announces', different⟩ := kept ⟨connection, announces⟩ ⟨other, has, apart⟩
      exact different (only third announces')
    · rintro notBorrowed ⟨first, announces⟩ ⟨other, has, apart⟩
      by_contra none
      simp only [not_exists, not_and, not_not] at none
      exact apart (notBorrowed (none first announces ▸ announces) none other has)

/-- Gadget types outlive their users in a run exactly if no connection is destroyed that alone has
announced the type of a property of another's type. -/
theorem outlivesUsers_run_iff : Admitted (step hash) (fun s e => OutlivesUsers statics s hash e) (initial statics) es ↔
    Admitted (step hash) (NotBorrowed statics) (initial statics) es :=
  admitted_iff (fun good head => consistent_step good head) (fun good => outlivesUsers_iff good _) consistent_initial

end Main

section Examples

def Hash.first : Hash N where
  constBegin gadgets := gadgets.head?.map Prod.fst
  mem_of_constBegin gadgets name member := by
    obtain ⟨gadget, first, rfl⟩ := Option.map_eq_some_iff.mp member
    exact List.mem_map_of_mem (List.mem_of_mem_head? first)
  isSome_constBegin gadgets filled := by
    rw [Option.isSome_map, List.isSome_head?]
    simpa using filled

/-- One connection announces a type. Over another comes a variant with a gadget that has it as the
type of a property: its packet has no definition of the property's type. -/
def loan : List (Event (List Char)) :=
  [.definition 1 [] [("Inner".toList, ⟨[], []⟩)], .definition 2 [] [("Outer".toList, ⟨[.type "Inner".toList], []⟩)]]

/-- When the first connection is destroyed, the type is unregistered. -/
theorem loan_destroyed : ¬ Admitted (step Hash.first) (fun s e => OutlivesUsers [] s Hash.first e)
    (initial []) (loan ++ [.destroyed 1]) := by
  intro admitted
  have last := ((admitted.2 _ rfl).2 _ rfl).1 _ rfl "Inner".toList (by decide)
  have kept := last.2.1 ⟨by decide, by decide⟩ ⟨2, ⟨2, "Outer".toList, ⟨[.type "Inner".toList], []⟩⟩, by decide, rfl, by decide⟩
  exact absurd kept.1 (by decide)

end Examples
end RemoteObjects.Client.ManagedTypes
