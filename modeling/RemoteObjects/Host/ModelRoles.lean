import RemoteObjects.Host.Sources
import RemoteObjects.Transition

/-! The roles of the item models in the properties of a source: those that its class declares, and what is left of
that when a property gets another model. -/
namespace RemoteObjects.Host.ModelRoles
open Transition

section Model
variable (Obj : Type)

/-- The source of a `MODEL` property. `availableRoles` are those of its adapter, if it has one. -/
structure Source where
  m_object : Option Obj
  roles : Name
  availableRoles : Option (List Int)

/-- An object with `MODEL` properties; `m_models` has the role list of each. Without remoting there are no sources. -/
structure State where
  m_models : List Name
  values : Nat → Option Obj
  m_children : Option (List (Source Obj))

/-- `resetObject` of the whole source, where it is itself the child of another one. -/
inductive Event
  | setProperty (i : Nat) (value : Option Obj)
  | enableRemoting
  | serializeProperty (i : Nat)
  | resetObject (values : Nat → Option Obj)

variable {Obj}

/-- `QHash::key` of the role names. -/
def key (knownRoles : List (Int × Name)) (role : Name) (defaultKey : Int) : Int :=
  ((knownRoles.find? fun known => known.2 = role).map Prod.fst).getD defaultKey

/-- The loop over the roles that are declared. -/
def declaredRoles (roles : Name) (knownRoles : List (Int × Name)) : List Int :=
  (roles.splitOn '|').filterMap fun role =>
    if role.isEmpty then none
    else
      let roleIndex := key knownRoles role (-1)
      if roleIndex = -1 then none else some roleIndex

/-- What the adapter of a model gets when remoting is enabled: all roles if none is declared that is known. -/
def adapterRoles (roles : Name) (knownRoles : List (Int × Name)) : List Int :=
  if (declaredRoles roles knownRoles).isEmpty then knownRoles.map Prod.fst else declaredRoles roles knownRoles

variable (roleNames : Obj → List (Int × Name))

namespace Source

/-- As the constructor of the parent source makes it. -/
def new (roles : Name) (model : Option Obj) : Source Obj :=
  ⟨model, roles, model.map fun model => adapterRoles roles (roleNames model)⟩

def resetObject (source : Source Obj) (newObject : Option Obj) : Source Obj :=
  ⟨newObject, source.roles, newObject.map fun model => (roleNames model).map Prod.fst⟩

/-- The adapter has the roles that it would have got when remoting was enabled. -/
def Right (source : Source Obj) : Prop :=
  ∀ available, source.availableRoles = some available → ∃ model, source.m_object = some model ∧
    ∀ role, role ∈ available ↔ role ∈ adapterRoles source.roles (roleNames model)

end Source

def State.initial (m_models : List Name) (values : Nat → Option Obj) : State Obj := ⟨m_models, values, none⟩

def step [DecidableEq Obj] (s : State Obj) : Event Obj → Option (State Obj)
  | .setProperty i value => some { s with values := Function.update s.values i value }
  | .enableRemoting =>
    if s.m_children.isSome then none
    else some { s with m_children := some (s.m_models.mapIdx fun i roles => Source.new roleNames roles (s.values i)) }
  | .serializeProperty i =>
    some { s with m_children := s.m_children.map fun children => children.modify i fun childSource =>
      if childSource.m_object ≠ s.values i then childSource.resetObject roleNames (s.values i) else childSource }
  | .resetObject values =>
    some { s with
      values
      m_children := s.m_children.map fun children => children.mapIdx fun i child => child.resetObject roleNames (values i) }

/-- All adapters make the declared roles available. -/
def DeclaredOnly (s : State Obj) : Prop :=
  ∀ children : List (Source Obj), s.m_children = some children →
    ∀ (i : Nat) (source : Source Obj), children[i]? = some source → source.Right roleNames

/-- The source at an index gets an adapter anew, for that model. -/
def Replaces (s : State Obj) (i : Nat) (source : Source Obj) (model : Obj) : Event Obj → Prop
  | .serializeProperty j => j = i ∧ s.values i = some model ∧ source.m_object ≠ some model
  | .resetObject values => values i = some model
  | _ => False

/-- A model that takes the place of another one has no roles but those that are declared, or none is declared that it knows. -/
def hidesNothing (s : State Obj) (e : Event Obj) : Prop :=
  ∀ children : List (Source Obj), s.m_children = some children →
    ∀ (i : Nat) (source : Source Obj) (model : Obj), children[i]? = some source → Replaces s i source model e →
    ∀ role ∈ (roleNames model).map Prod.fst, role ∈ adapterRoles source.roles (roleNames model)

end Model

section Proofs
variable {Obj : Type} {roleNames : Obj → List (Int × Name)} {s t : State Obj} {e : Event Obj} {source : Source Obj} {model : Obj}
variable {roles : Name} {knownRoles : List (Int × Name)}

theorem key_mem {role : Name} (known : key knownRoles role (-1) ≠ -1) : key knownRoles role (-1) ∈ knownRoles.map Prod.fst := by
  unfold key at known ⊢
  cases found : knownRoles.find? fun known => known.2 = role with
  | none => simp [found] at known
  | some pair =>
    rw [Option.map_some, Option.getD_some]
    exact List.mem_map_of_mem (List.mem_of_find?_eq_some found)

theorem adapterRoles_known {role : Int} (available : role ∈ adapterRoles roles knownRoles) : role ∈ knownRoles.map Prod.fst := by
  unfold adapterRoles at available
  split at available
  · exact available
  · obtain ⟨name, _, found⟩ := List.mem_filterMap.mp available
    split at found
    · contradiction
    · dsimp only at found
      split at found
      · contradiction
      · rename_i known
        exact Option.some.inj found ▸ key_mem known

theorem right_new (roles : Name) (model : Option Obj) : (Source.new roleNames roles model).Right roleNames := by
  intro available made
  obtain ⟨model, rfl, rfl⟩ := Option.map_eq_some_iff.mp made
  exact ⟨model, rfl, fun role => Iff.rfl⟩

theorem right_resetObject {newObject : Option Obj} : (source.resetObject roleNames newObject).Right roleNames ↔
    ∀ model, newObject = some model → ∀ role ∈ (roleNames model).map Prod.fst, role ∈ adapterRoles source.roles (roleNames model) := by
  constructor
  · rintro right model rfl role known
    obtain ⟨_, same, available⟩ := right _ rfl
    obtain rfl := Option.some.inj same
    exact (available role).mp known
  · intro declared available made
    obtain ⟨model, rfl, rfl⟩ := Option.map_eq_some_iff.mp made
    exact ⟨model, rfl, fun role => ⟨declared model rfl role, adapterRoles_known⟩⟩

variable [DecidableEq Obj]

theorem declaredOnly_step (declared : DeclaredOnly roleNames s) :
    (∀ t, step roleNames s e = some t → DeclaredOnly roleNames t) ↔ hidesNothing roleNames s e := by
  cases e with
  | setProperty i value =>
    refine iff_of_true (fun t head => ?_) fun _ _ _ _ _ _ replaced => replaced.elim
    obtain rfl := Option.some.inj head
    exact declared
  | enableRemoting =>
    refine iff_of_true (fun t head => ?_) fun _ _ _ _ _ _ replaced => replaced.elim
    simp only [step] at head
    split at head
    · contradiction
    · obtain rfl := Option.some.inj head
      rintro children made i source found
      obtain rfl := Option.some.inj made
      obtain ⟨roles, _, rfl⟩ := by simpa using found
      exact right_new roles (s.values i)
  | serializeProperty i =>
    simp only [step, Option.some.injEq, forall_eq', hidesNothing, Replaces]
    constructor
    · rintro right children made j source model found ⟨rfl, value, other⟩
      have reset := right (children.modify i _) (by rw [made]; rfl) i (source.resetObject roleNames (s.values i))
        (by simp [found, value, other])
      exact right_resetObject.mp reset model value
    · intro hides children made j source found
      obtain ⟨before, present, rfl⟩ := Option.map_eq_some_iff.mp made
      rw [List.getElem?_modify] at found
      obtain ⟨old, there, rfl⟩ := Option.map_eq_some_iff.mp found
      split
      · rename_i same
        subst same
        split
        · rename_i other
          exact right_resetObject.mpr fun model value => hides before present i old model there ⟨rfl, value, value ▸ other⟩
        · exact declared before present i old there
      · exact declared before present j old there
  | resetObject values =>
    simp only [step, Option.some.injEq, forall_eq', hidesNothing, Replaces]
    constructor
    · intro right children made i source model found value
      have reset := right (children.mapIdx _) (by rw [made]; rfl) i (source.resetObject roleNames (values i)) (by simp [found])
      exact right_resetObject.mp reset model value
    · intro hides children made i source found
      obtain ⟨before, present, rfl⟩ := Option.map_eq_some_iff.mp made
      rw [List.getElem?_mapIdx] at found
      obtain ⟨old, there, rfl⟩ := Option.map_eq_some_iff.mp found
      exact right_resetObject.mpr fun model value => hides before present i old model there value

/-- In every state of a run the adapters have the declared roles, exactly if each model that replaces another one, or none, has no
other roles. -/
theorem declaredOnly_iff (m_models : List Name) (values : Nat → Option Obj) (es : List (Event Obj)) :
    Admitted (step roleNames) (fun s e => ∀ t, step roleNames s e = some t → DeclaredOnly roleNames t) (.initial m_models values) es ↔
      Admitted (step roleNames) (hidesNothing roleNames) (.initial m_models values) es :=
  admitted_iff_of_kept (fun _ claim head => claim _ head) declaredOnly_step nofun

/-- A property without a model when remoting is enabled, which gets one with a role that is not declared. -/
theorem undeclared_role_available :
    let roleNames (_ : Unit) : List (Int × Name) := [(256, "name".toList), (257, "secret".toList)]
    ¬ Admitted (step roleNames) (fun s e => ∀ t, step roleNames s e = some t → DeclaredOnly roleNames t)
        (.initial ["name".toList] fun _ => none) [.enableRemoting, .setProperty 0 (some ()), .serializeProperty 0] ∧
      adapterRoles "name".toList (roleNames ()) = [256] := by
  intro roleNames
  refine ⟨fun run => ?_, by decide⟩
  have right := ((run.2 _ rfl).2 _ rfl).1 _ rfl _ rfl 0 _ rfl
  obtain ⟨_, _, available⟩ := right _ rfl
  exact absurd ((available 257).mp (by decide)) (by decide)

end Proofs
end RemoteObjects.Host.ModelRoles
