import Mathlib.Data.List.Nodup
import RemoteObjects.Host.Sources

/-! The properties of a source by their indices in its API, as connected replicas and as those on
the host's own node find them. -/
namespace RemoteObjects.Host

section Model

/-- A property that is a pointer to an object may have no meta object, neither of its type nor of
the child that it has. -/
structure MetaProperty where
  name : Name
  hasMeta : Bool
deriving DecidableEq

/-- What a class adds to its base class. Of the class infos only `QCLASSINFO_REMOTEOBJECT_TYPE`
matters here. -/
structure MetaClass where
  properties : List MetaProperty
  remoteObjectType : Option Name
  distinct : (properties.map MetaProperty.name).Nodup

inductive MetaObject
  | QObject
  | derived (own : MetaClass) (superClass : MetaObject)

namespace MetaObject

def objectName : MetaProperty := ⟨"objectName".toList, true⟩

/-- The properties by their indices, those of the base classes first. -/
def properties : MetaObject → List MetaProperty
  | QObject => [objectName]
  | derived own superClass => superClass.properties ++ own.properties

def propertyCount (m : MetaObject) : Nat := m.properties.length

def propertyOffset : MetaObject → Nat
  | QObject => 0
  | derived _ superClass => superClass.propertyCount

/-- The most derived class is asked first. -/
def indexOfProperty (name : Name) : MetaObject → Option Nat
  | QObject => if objectName.name = name then some 0 else none
  | derived own superClass =>
    match own.properties.findIdx? fun property => property.name = name with
    | some i => some (i + superClass.propertyCount)
    | none => superClass.indexOfProperty name

/-- `getTypeNameAndMetaobjectFromClassInfo`: the class that has the class info itself. -/
def fromClassInfo : MetaObject → Option MetaObject
  | QObject => none
  | derived own superClass =>
    if own.remoteObjectType.isSome then some (derived own superClass) else superClass.fromClassInfo

def inherits : MetaObject → MetaObject → Prop
  | QObject, base => base = QObject
  | derived own superClass, base => base = derived own superClass ∨ superClass.inherits base

end MetaObject

/-- What is read here of a `SourceApiMap`. An index is missing where `indexOfProperty` gave none. -/
structure PropertyMap where
  m_properties : List (Option Nat)
  isAdapterProperty : Nat → Bool

namespace PropertyMap
variable (api : PropertyMap)

def propertyCount : Nat := api.m_properties.length

def sourcePropertyIndex (index : Nat) : Option Nat := (api.m_properties[index]?).join

/-- The loop in `DynamicApiMap`, from the index of a property. -/
def dynamicProperties : Nat → List MetaProperty → List Nat
  | _, [] => []
  | i, property :: properties =>
    if property.hasMeta then i :: dynamicProperties (i + 1) properties else dynamicProperties (i + 1) properties

/-- `DynamicApiMap`. -/
def dynamic (metaObject : MetaObject) : PropertyMap where
  m_properties :=
    (dynamicProperties metaObject.propertyOffset (metaObject.properties.drop metaObject.propertyOffset)).map some
  isAdapterProperty _ := false

/-- The API that repc generates for a class of a .rep file, with its properties. -/
def repc (objectType : MetaObject) (names : List Name) : PropertyMap where
  m_properties := names.map objectType.indexOfProperty
  isAdapterProperty _ := false

def adapterType : MetaObject :=
  .derived ⟨[⟨"availableRoles".toList, true⟩, ⟨"roleNames".toList, true⟩], none, by decide⟩ .QObject

/-- `QAbstractItemAdapterSourceAPI`. -/
def adapter : PropertyMap where
  m_properties := [adapterType.indexOfProperty "availableRoles".toList, adapterType.indexOfProperty "roleNames".toList]
  isAdapterProperty index := index < 2

end PropertyMap

/-- An object with the API under which it is remoted. The type for which an API was generated is
one of the object's classes. -/
inductive RemotedObject
  | dynamic (object : MetaObject)
  | repc (object objectType : MetaObject) (names : List Name) (inherits : object.inherits objectType)
  | model (object : MetaObject)

/-- Properties of the object of a source, or of its adapter, have an index there. -/
inductive SourceProperty
  | object (index : Nat)
  | adapter (index : Nat)
deriving DecidableEq

namespace RemotedObject
variable (s : RemotedObject)

def m_object : RemotedObject → MetaObject
  | dynamic object => object
  | repc object _ _ _ => object
  | model object => object

def m_api : RemotedObject → PropertyMap
  | dynamic object => .dynamic (object.fromClassInfo.getD object)
  | repc _ objectType names _ => .repc objectType names
  | model _ => .adapter

def qobjectPropertyOffset : Nat := MetaObject.QObject.propertyCount

/-- The property of an in-process replica, which must be one of the object. -/
def inProcessProperty (i : Nat) : Option SourceProperty :=
  let index := i + qobjectPropertyOffset
  if index < s.m_object.propertyCount then some (.object index) else none

/-- `QInProcessReplicaImplementation::getProperty`. -/
def getProperty (i : Nat) : Option SourceProperty := s.inProcessProperty i

/-- `QInProcessReplicaImplementation::setProperty`. -/
def setProperty (i : Nat) : Option SourceProperty := s.inProcessProperty i

/-- What `serializeProperty` reads. -/
def serializeProperty (internalIndex : Nat) : Option SourceProperty :=
  (s.m_api.sourcePropertyIndex internalIndex).map fun propertyIndex =>
    if s.m_api.isAdapterProperty internalIndex then .adapter propertyIndex else .object propertyIndex

/-- What `invoke` writes in a `WriteProperty`. -/
def invoke (index : Nat) : Option SourceProperty :=
  let forAdapter := s.m_api.isAdapterProperty index
  match s.m_api.sourcePropertyIndex index with
  | none => none
  | some resolvedIndex => some (if forAdapter then .adapter resolvedIndex else .object resolvedIndex)

/-- `QInProcessReplicaImplementation::_q_send` for a property. -/
def _q_send (index : Nat) : Option SourceProperty :=
  match s.m_api.sourcePropertyIndex index with
  | none => none
  | some _ => s.invoke index

end RemotedObject
end Model

section Statement
variable (s : RemotedObject)

/-- All ways to a property of the API lead to the same property of the source. -/
def RemotedObject.AccessesAgree (i : Nat) : Prop :=
  ∃ property, s.getProperty i = some property ∧ s.setProperty i = some property ∧ s._q_send i = some property ∧
    s.serializeProperty i = some property ∧ s.invoke i = some property

def MetaObject.names (m : MetaObject) : List Name := m.properties.map MetaProperty.name

/-- The properties that a class adds itself. -/
def MetaObject.ownProperties (m : MetaObject) : List MetaProperty := m.properties.drop m.propertyOffset

/-- A dynamic API without properties, or for a class whose base classes add none to `QObject`, where no
property is left out before another. An API of repc whose properties come right after `objectName` in
their order, none of them declared again by a more derived class. -/
def RemotedObject.Aligned : RemotedObject → Prop
  | dynamic object =>
    let described := object.fromClassInfo.getD object
    let known := described.ownProperties.filter MetaProperty.hasMeta
    known = [] ∨ described.propertyOffset = 1 ∧ known <+: described.ownProperties
  | repc _ objectType names _ =>
    names <+: objectType.names.tail ∧ ∀ i (inside : i < names.length), names[i] ∉ objectType.names.drop (i + 2)
  | model _ => False

end Statement

section MetaObjects
variable {m base : MetaObject} {name : Name} {i : Nat}

namespace MetaObject

theorem propertyCount_le (inherits : m.inherits base) : base.propertyCount ≤ m.propertyCount := by
  induction m with
  | QObject => rw [show base = QObject from inherits]
  | derived own superClass ih =>
    obtain rfl | above := inherits
    · exact Nat.le_refl _
    · refine Nat.le_trans (ih above) ?_
      rw [propertyCount, propertyCount, properties, List.length_append]
      omega

theorem inherits_refl (m : MetaObject) : m.inherits m := by
  cases m with
  | QObject => rfl
  | derived own superClass => exact .inl rfl

theorem inherits_fromClassInfo (m : MetaObject) : m.inherits (m.fromClassInfo.getD m) := by
  have found : ∀ m : MetaObject, ∀ base ∈ m.fromClassInfo, m.inherits base := by
    intro m
    induction m with
    | QObject => exact fun _ none => (nomatch none)
    | derived own superClass ih =>
      intro base found
      rw [fromClassInfo] at found
      split at found
      · exact .inl (Option.some.inj found).symm
      · exact .inr (ih base found)
  cases here : m.fromClassInfo with
  | none => exact m.inherits_refl
  | some base => exact found m base here

theorem names_derived (own : MetaClass) (superClass : MetaObject) :
    (derived own superClass).names = superClass.names ++ own.properties.map MetaProperty.name := List.map_append

theorem length_names (m : MetaObject) : m.names.length = m.propertyCount := List.length_map _

theorem not_mem_drop {l : List Name} (distinct : l.Nodup) (found : l[i]? = some name) : name ∉ l.drop (i + 1) := by
  obtain ⟨inside, rfl⟩ := List.getElem?_eq_some_iff.mp found
  have rest := distinct.sublist (List.drop_sublist i l)
  rw [List.drop_eq_getElem_cons inside] at rest
  exact (List.nodup_cons.mp rest).1

/-- A name stands for the last property that has it. -/
theorem indexOfProperty_eq_some : m.indexOfProperty name = some i ↔
    m.names[i]? = some name ∧ name ∉ m.names.drop (i + 1) := by
  induction m generalizing i with
  | QObject =>
    by_cases same : objectName.name = name
    · cases i <;> simp [indexOfProperty, names, properties, same]
    · cases i <;> simp [indexOfProperty, names, properties, same]
  | derived own superClass ih =>
    have distinct := own.distinct
    rw [names_derived, List.getElem?_append, List.drop_append, length_names, List.mem_append, not_or]
    cases found : own.properties.findIdx? (fun property => property.name = name) with
    | some j =>
      obtain ⟨inside, same, _⟩ := List.findIdx?_eq_some_iff_getElem.mp found
      have here : (own.properties.map MetaProperty.name)[j]? = some name := by
        rw [List.getElem?_map, List.getElem?_eq_getElem inside, Option.map_some, of_decide_eq_true same]
      simp only [indexOfProperty, found, Option.some.injEq]
      constructor
      · rintro rfl
        rw [if_neg (by omega), Nat.add_sub_cancel, List.drop_eq_nil_of_le (by rw [length_names]; omega),
          Nat.add_right_comm, Nat.add_sub_cancel]
        exact ⟨here, List.not_mem_nil, not_mem_drop distinct here⟩
      · rintro ⟨at', _, last⟩
        split at at'
        · -- a property of this class stands behind all those above
          rename_i above
          rw [Nat.sub_eq_zero_of_le above, List.drop_zero] at last
          exact absurd (List.mem_of_getElem? here) last
        · obtain ⟨inside', same'⟩ := List.getElem?_eq_some_iff.mp at'
          obtain ⟨inside, same⟩ := List.getElem?_eq_some_iff.mp here
          have equal := (distinct.getElem_inj_iff).mp (same.trans same'.symm)
          omega
    | none =>
      have absent : name ∉ own.properties.map MetaProperty.name := by
        intro member
        obtain ⟨property, inside, same⟩ := List.mem_map.mp member
        exact absurd (List.findIdx?_eq_none_iff.mp found property inside) (by simp [same])
      simp only [indexOfProperty, found, ih]
      constructor
      · rintro ⟨at', last⟩
        have inside := (List.getElem?_eq_some_iff.mp at').1
        rw [length_names] at inside
        rw [if_pos inside]
        exact ⟨at', last, fun member => absent (List.mem_of_mem_drop member)⟩
      · rintro ⟨at', last, _⟩
        split at at'
        · exact ⟨at', last⟩
        · exact absurd (List.mem_of_getElem? at') absent

end MetaObject

/-- The numbers of the properties with a meta object run on from a start exactly if those without one come
last. -/
theorem dynamicProperties_eq_range' {start k : Nat} (behind : start ≤ k) (properties : List MetaProperty) :
    PropertyMap.dynamicProperties k properties = List.range' start (PropertyMap.dynamicProperties k properties).length ↔
      properties.filter MetaProperty.hasMeta = [] ∨
        k = start ∧ properties.filter MetaProperty.hasMeta <+: properties := by
  induction properties generalizing start k with
  | nil => simp [PropertyMap.dynamicProperties]
  | cons property properties ih =>
    cases known : property.hasMeta with
    | true =>
      simp only [PropertyMap.dynamicProperties, known, ↓reduceIte, List.length_cons, List.range'_succ, List.cons.injEq,
        List.filter_cons_of_pos, reduceCtorEq, false_or, List.prefix_cons_inj]
      refine and_congr_right fun same => ?_
      subst same
      rw [ih (Nat.le_refl _)]
      refine ⟨?_, fun rest => .inr ⟨rfl, rest⟩⟩
      rintro (none | ⟨_, rest⟩)
      · rw [none]
        exact List.nil_prefix
      · exact rest
    | false =>
      have skipped : (property :: properties).filter MetaProperty.hasMeta = properties.filter MetaProperty.hasMeta :=
        List.filter_cons_of_neg (by simp [known])
      have step : PropertyMap.dynamicProperties k (property :: properties) = PropertyMap.dynamicProperties (k + 1) properties := by
        rw [PropertyMap.dynamicProperties, known, if_neg Bool.false_ne_true]
      rw [skipped, step, ih (by omega)]
      by_cases none : properties.filter MetaProperty.hasMeta = []
      · exact iff_of_true (.inl none) (.inl none)
      · refine iff_of_false (not_or.mpr ⟨none, by omega⟩) (not_or.mpr ⟨none, ?_⟩)
        rintro ⟨_, front⟩
        obtain ⟨first, rest, some⟩ := List.exists_cons_of_ne_nil none
        rw [some] at front
        have member : first ∈ properties.filter MetaProperty.hasMeta := some ▸ List.mem_cons_self
        rw [(List.cons_prefix_cons.mp front).1] at member
        exact absurd (List.mem_filter.mp member).2 (by simp [known])

theorem dynamicProperties_lt {k index : Nat} {properties : List MetaProperty}
    (member : index ∈ PropertyMap.dynamicProperties k properties) : index < k + properties.length := by
  induction properties generalizing k with
  | nil => exact (nomatch member)
  | cons property properties ih =>
    rw [List.length_cons]
    unfold PropertyMap.dynamicProperties at member
    split at member
    · rcases List.mem_cons.mp member with rfl | later
      · omega
      · have := ih later
        omega
    · have := ih member
      omega

theorem MetaObject.propertyOffset_le (m : MetaObject) : m.propertyOffset ≤ m.propertyCount := by
  cases m with
  | QObject => exact Nat.zero_le _
  | derived own superClass =>
    rw [propertyCount, properties, List.length_append]
    exact Nat.le_add_right _ _

theorem MetaObject.one_le_propertyCount (m : MetaObject) : 1 ≤ m.propertyCount := by
  induction m with
  | QObject => exact Nat.le_refl _
  | derived own superClass ih => exact Nat.le_trans ih (derived own superClass).propertyOffset_le

theorem eq_range'_iff {l : List Nat} : (∀ i, i < l.length → l[i]? = some (i + 1)) ↔ l = List.range' 1 l.length := by
  constructor
  · intro each
    refine List.ext_getElem (by simp) fun i inside _ => ?_
    have here := each i inside
    rw [List.getElem?_eq_getElem inside] at here
    rw [Option.some.inj here, List.getElem_range']
    omega
  · intro same i inside
    rw [same, List.getElem?_range' inside]
    simp [Nat.add_comm]

end MetaObjects

section Main
variable {s : RemotedObject} {i : Nat}

/-- The accesses agree on an index of the object's API exactly if the API resolves it to the next number. -/
theorem accessesAgree_iff (plain : s.m_api.isAdapterProperty i = false)
    (inside : ∀ index ∈ s.m_api.sourcePropertyIndex i, index < s.m_object.propertyCount) :
    s.AccessesAgree i ↔ s.m_api.sourcePropertyIndex i = some (i + 1) := by
  have offset : RemotedObject.qobjectPropertyOffset = 1 := rfl
  unfold RemotedObject.AccessesAgree RemotedObject.getProperty RemotedObject.setProperty RemotedObject._q_send
    RemotedObject.serializeProperty RemotedObject.invoke RemotedObject.inProcessProperty
  cases resolved : s.m_api.sourcePropertyIndex i with
  | none => simp
  | some index =>
    simp only [plain, offset, Bool.false_eq_true, ↓reduceIte, Option.map_some, Option.some.injEq]
    constructor
    · rintro ⟨property, same, _, _, rfl, _⟩
      split at same
      · exact (SourceProperty.object.inj (Option.some.inj same)).symm
      · contradiction
    · rintro rfl
      exact ⟨.object (i + 1), by rw [if_pos (inside _ resolved)], by rw [if_pos (inside _ resolved)], rfl, rfl, rfl⟩

theorem dynamic_iff (object : MetaObject) :
    (∀ i, i < (RemotedObject.dynamic object).m_api.propertyCount → (RemotedObject.dynamic object).AccessesAgree i) ↔
      (RemotedObject.dynamic object).Aligned := by
  let described := object.fromClassInfo.getD object
  let indices := PropertyMap.dynamicProperties described.propertyOffset described.ownProperties
  have resolves (i : Nat) : (RemotedObject.dynamic object).m_api.sourcePropertyIndex i = indices[i]? := by
    change ((indices.map some)[i]?).join = indices[i]?
    rw [List.getElem?_map]
    cases indices[i]? <;> rfl
  have inside (index : Nat) (member : index ∈ indices) : index < object.propertyCount := by
    have bound := dynamicProperties_lt member
    rw [MetaObject.ownProperties, List.length_drop] at bound
    have offset := described.propertyOffset_le
    have whole : described.properties.length = described.propertyCount := rfl
    have here : index < described.propertyCount := by omega
    exact Nat.lt_of_lt_of_le here (MetaObject.propertyCount_le object.inherits_fromClassInfo)
  have agree (i : Nat) : (RemotedObject.dynamic object).AccessesAgree i ↔ indices[i]? = some (i + 1) := by
    rw [← resolves]
    refine accessesAgree_iff rfl fun index found => inside index ?_
    rw [resolves] at found
    exact List.mem_of_getElem? found
  have count : (RemotedObject.dynamic object).m_api.propertyCount = indices.length := List.length_map _
  simp only [count, agree, eq_range'_iff]
  change _ ↔ described.ownProperties.filter MetaProperty.hasMeta = [] ∨
    described.propertyOffset = 1 ∧ described.ownProperties.filter MetaProperty.hasMeta <+: described.ownProperties
  by_cases base : described = .QObject
  · -- its own property has the index 0
    simp only [indices, base]
    decide
  · have behind : 1 ≤ described.propertyOffset := by
      cases same : described with
      | QObject => exact absurd same base
      | derived own superClass => exact superClass.one_le_propertyCount
    exact dynamicProperties_eq_range' behind _

theorem repc_iff (object objectType : MetaObject) (names : List Name) (inherits : object.inherits objectType) :
    (∀ i, i < (RemotedObject.repc object objectType names inherits).m_api.propertyCount →
        (RemotedObject.repc object objectType names inherits).AccessesAgree i) ↔
      (RemotedObject.repc object objectType names inherits).Aligned := by
  have resolves {i : Nat} (inside : i < names.length) :
      (RemotedObject.repc object objectType names inherits).m_api.sourcePropertyIndex i =
        objectType.indexOfProperty names[i] := by
    change ((names.map objectType.indexOfProperty)[i]?).join = _
    rw [List.getElem?_map, List.getElem?_eq_getElem inside]
    rfl
  have agree {i : Nat} (inside : i < names.length) :
      (RemotedObject.repc object objectType names inherits).AccessesAgree i ↔
        objectType.names.tail[i]? = some names[i] ∧ names[i] ∉ objectType.names.drop (i + 2) := by
    rw [accessesAgree_iff rfl, resolves inside, MetaObject.indexOfProperty_eq_some, List.getElem?_tail]
    rw [resolves inside]
    intro index found
    obtain ⟨bound, _⟩ := List.getElem?_eq_some_iff.mp (MetaObject.indexOfProperty_eq_some.mp found).1
    rw [MetaObject.length_names] at bound
    exact Nat.lt_of_lt_of_le bound (MetaObject.propertyCount_le inherits)
  have count : (RemotedObject.repc object objectType names inherits).m_api.propertyCount = names.length := List.length_map _
  rw [RemotedObject.Aligned, List.prefix_iff_getElem?, ← forall₂_and, count]
  exact forall_congr' fun i => forall_congr' agree

/-- In-process and remote access lead to the same properties exactly if the properties of the API come right
after that of `QObject`; for the adapters of models they never do. -/
theorem accessesAgree_iff_aligned (s : RemotedObject) :
    (∀ i, i < s.m_api.propertyCount → s.AccessesAgree i) ↔ s.Aligned := by
  cases s with
  | dynamic object => exact dynamic_iff object
  | repc object objectType names inherits => exact repc_iff object objectType names inherits
  | model object =>
    refine iff_of_false (fun agree => ?_) id
    obtain ⟨property, inProcess, _, _, remote, _⟩ := agree 0 Nat.two_pos
    have onAdapter : (RemotedObject.model object).serializeProperty 0 = some (.adapter 1) := rfl
    obtain rfl := Option.some.inj (onAdapter.symm.trans remote)
    unfold RemotedObject.getProperty RemotedObject.inProcessProperty at inProcess
    dsimp only at inProcess
    split at inProcess <;> contradiction

/-- A class with a property whose base class has one, too. -/
def counter : MetaObject :=
  .derived ⟨[⟨"count".toList, true⟩], none, by decide⟩ (.derived ⟨[⟨"unit".toList, true⟩], none, by decide⟩ .QObject)

/-- A replica on another node has the property of the class, one on the host's own node that of the base
class. -/
theorem counter_disagrees : (RemotedObject.dynamic counter).serializeProperty 0 = some (.object 2) ∧
    (RemotedObject.dynamic counter).getProperty 0 = some (.object 1) ∧
    ¬ ∀ i, i < (RemotedObject.dynamic counter).m_api.propertyCount → (RemotedObject.dynamic counter).AccessesAgree i := by
  refine ⟨by decide, by decide, fun agree => ?_⟩
  obtain ⟨property, inProcess, _, _, remote, _⟩ := agree 0 (by decide)
  have same := (inProcess.symm.trans (by decide : _ = some (SourceProperty.object 1))).symm.trans
    (remote.symm.trans (by decide : _ = some (SourceProperty.object 2)))
  contradiction

end Main
end RemoteObjects.Host
