import Mathlib.Logic.Function.Iterate
import RemoteObjects.Repc.Ast

/-! The members of a generated replica, the indices that Qt's meta objects give them, and the
indices of the generated source API. -/
namespace RemoteObjects.Repc

section Model

structure QMetaMethod where
  isSignal : Bool
  name : QString
  types : List QString
  cloned : Bool
deriving DecidableEq

/-- What a class adds to the meta object of the class that it inherits; of the class infos and the
properties their names. -/
structure MetaClass where
  classInfos : List QString
  properties : List QString
  methods : List QMetaMethod

/-- The class itself comes first. -/
abbrev QMetaObject := List MetaClass

/-- What is used of Qt's core: upper case, the normal form of the text of a type, and the class `QObject`. -/
structure QtCore where
  toUpper : Char → Char
  normalizeType : QString → QString
  qObject : MetaClass
  plain : qObject.classInfos = []

inductive Mode
  | replica
  | source
  | simpleSource
deriving DecidableEq

/-- A signal or slot of a generated class, with the type and the declarator of each parameter. -/
structure Declared where
  name : QString
  params : List (QString × QString)

/-- A member function of `ObjectType` that the source API refers to. -/
structure ApiMethod where
  name : QString
  types : List QString
deriving DecidableEq

/-- An array of the source API: the count at index 0, and the assignments to the elements behind it. -/
structure ApiArray (α : Type*) where
  count : Nat
  assigned : List (α × Nat)

structure SourceApi where
  m_properties : ApiArray QString
  m_signals : ApiArray ApiMethod
  m_methods : ApiArray ApiMethod
  propertyChangeIndex : List Nat

structure ReplicaImplementation where
  m_metaObject : QMetaObject
  m_numSignals : Nat
  m_methodOffset : Nat
  m_signalOffset : Nat
  m_propertyOffset : Nat

def cap (qt : QtCore) : QString → QString
  | [] => []
  | c :: name => qt.toUpper c :: name

def isClassEnum (c : ASTClass) (typeName : QString) : Bool := c.enums.any (·.name = typeName)

/-- The name of a type ends; nothing stands in front of the first character and between two delimiters. -/
def qualifiedToken (c : ASTClass) (className token : QString) : QString :=
  if token ≠ [] ∧ isClassEnum c token then className ++ "::".toList ++ token else token

def qualifyFrom (c : ASTClass) (className : QString) : QString → QString → QString
  | token, [] => qualifiedToken c className token
  | token, a :: text =>
    if isDelimiter a then qualifiedToken c className token ++ a :: qualifyFrom c className [] text
    else qualifyFrom c className (token ++ [a]) text

def fullyQualifiedName (c : ASTClass) (className typeName : QString) : QString := qualifyFrom c className [] typeName

def transformParams (c : ASTClass) (typeName : QString) (f : ASTFunction) : ASTFunction :=
  { f with params := f.params.map fun param => c.enums.foldl (fun param astEnum =>
      if astEnum.name = param.type then { param with type := typeName ++ "::".toList ++ param.type } else param) param }

def transformEnumParams (c : ASTClass) (methodList : List ASTFunction) (typeName : QString) : List ASTFunction :=
  methodList.map (transformParams c typeName)

def typeForMode (property : ASTProperty) (mode : Mode) : QString :=
  if ¬ property.isPointer then property.type
  else if "QAbstractItemModel".toList <+: property.type then
    property.type ++ (if mode = .replica then "Replica*".toList else "*".toList)
  else property.type ++ (if mode = .replica then "Replica*".toList else "Source*".toList)

def generatedName (c : ASTClass) : Mode → QString
  | .replica => c.name ++ "Replica".toList
  | .source => c.name ++ "Source".toList
  | .simpleSource => c.name ++ "SimpleSource".toList

section Class
variable (qt : QtCore) (c : ASTClass) (mode : Mode)

def changedSignal (property : ASTProperty) : Declared :=
  ⟨property.name ++ "Changed".toList,
    [(fullyQualifiedName c (generatedName c mode) (typeForMode property mode), property.name)]⟩

def pushSlot (property : ASTProperty) : Declared :=
  ⟨"push".toList ++ cap qt property.name,
    [(fullyQualifiedName c (generatedName c mode) property.type, property.name)]⟩

def declaredFunction (f : ASTFunction) : Declared :=
  ⟨f.name, f.params.map fun param => (param.asString false, param.name)⟩

/-- The signals of `generateClass`. -/
def generateSignals : List Declared :=
  if mode ≠ .simpleSource ∧ (c.properties ≠ [] ∨ c.signalsList ≠ []) then
    (c.properties.filter (·.modifier ≠ .constant)).map (changedSignal c mode) ++
      (transformEnumParams c c.signalsList (generatedName c mode)).map declaredFunction ++
      (c.properties.filter fun property => mode = .replica ∧ property.modifier = .constant).map (changedSignal c mode)
  else []

/-- The slots of `generateClass`. -/
def generateSlots : List Declared :=
  if mode ≠ .simpleSource ∧ (c.properties.any (·.modifier = .readPush) ∨ c.slotsList ≠ []) then
    (c.properties.filter (·.modifier = .readPush)).map (pushSlot qt c mode) ++
      (transformEnumParams c c.slotsList (generatedName c mode)).map declaredFunction
  else []

def QCLASSINFO_REMOTEOBJECT_TYPE : QString := "RemoteObject Type".toList

def QCLASSINFO_REMOTEOBJECT_SIGNATURE : QString := "RemoteObject Signature".toList

def modelName (model : ASTModel) : QString := ((c.properties[model.propertyIndex.toNat]?).map (·.name)).getD []

/-- The class infos of `generateClass`, without their values. -/
def generateClassInfos : List QString :=
  (if c.enums.any (·.isScoped) then ["RegisterEnumClassesUnscoped".toList] else []) ++
    (if mode ≠ .simpleSource then
      [QCLASSINFO_REMOTEOBJECT_TYPE, QCLASSINFO_REMOTEOBJECT_SIGNATURE] ++
        (c.modelMetadata.filter (·.roles ≠ [])).map fun model => (modelName c model).map qt.toUpper ++ "_ROLES".toList
    else [])

def generateProperties : List QString := if mode ≠ .simpleSource then c.properties.map (·.name) else []

end Class

section Moc
variable (qt : QtCore)

/-- A default value is part of the declarator. -/
def isDefault (param : QString × QString) : Bool := '=' ∈ param.2

/-- The parameters, from the last one on. -/
def withoutDefaults : List (QString × QString) → List (List (QString × QString))
  | [] => []
  | param :: params => if isDefault param then params.reverse :: withoutDefaults params else []

/-- As long as the last parameter has a default value, moc adds the method again without it. -/
def clones (params : List (QString × QString)) : List (List (QString × QString)) := withoutDefaults params.reverse

def mocMethod (isSignal : Bool) (name : QString) (params : List (QString × QString)) (cloned : Bool) : QMetaMethod :=
  ⟨isSignal, name, params.map fun param => qt.normalizeType param.1, cloned⟩

def mocMethods (isSignal : Bool) (declared : Declared) : List QMetaMethod :=
  mocMethod qt isSignal declared.name declared.params false ::
    (clones declared.params).map fun params => mocMethod qt isSignal declared.name params true

/-- Signals come before slots. -/
def moc (c : ASTClass) (mode : Mode) : MetaClass where
  classInfos := generateClassInfos qt c mode
  properties := generateProperties c mode
  methods := (generateSignals c mode).flatMap (mocMethods qt true) ++ (generateSlots qt c mode).flatMap (mocMethods qt false)

end Moc

namespace QMetaObject

/-- From the first base class on. -/
def methods : QMetaObject → List QMetaMethod
  | [] => []
  | own :: superClass => methods superClass ++ own.methods

def properties : QMetaObject → List QString
  | [] => []
  | own :: superClass => properties superClass ++ own.properties

def classInfoCount : QMetaObject → Nat
  | [] => 0
  | own :: superClass => classInfoCount superClass + own.classInfos.length

def methodCount (m : QMetaObject) : Nat := (methods m).length

def propertyCount (m : QMetaObject) : Nat := (properties m).length

def method (m : QMetaObject) (index : Int) : Option QMetaMethod :=
  if 0 ≤ index then (methods m)[index.toNat]? else none

def property (m : QMetaObject) (index : Int) : Option QString :=
  if 0 ≤ index then (properties m)[index.toNat]? else none

def indexOfProperty (name : QString) : QMetaObject → Int
  | [] => -1
  | own :: superClass =>
    match own.properties.findIdx? (· = name) with
    | some index => propertyCount superClass + index
    | none => indexOfProperty name superClass

/-- The index behind the last one that has a property. -/
def lastIdx? {α : Type*} (p : α → Bool) : List α → Option Nat
  | [] => none
  | a :: l => match lastIdx? p l with
    | some index => some (index + 1)
    | none => if p a then some 0 else none

/-- The text of the signature must be in normal form. -/
def indexOfSlot (name : QString) (types : List QString) : QMetaObject → Int
  | [] => -1
  | own :: superClass =>
    match lastIdx? (fun m => ¬ m.isSignal ∧ m.name = name ∧ m.types = types) own.methods with
    | some index => methodCount superClass + index
    | none => indexOfSlot name types superClass

def indexOfClassInfo (name : QString) : QMetaObject → Int
  | [] => -1
  | own :: superClass =>
    match lastIdx? (fun info => info = name) own.classInfos with
    | some index => classInfoCount superClass + index
    | none => indexOfClassInfo name superClass

end QMetaObject

/-- `QRemoteObjectReplica` itself. -/
def qRemoteObjectReplica (qt : QtCore) : QMetaObject :=
  [⟨[], ["node".toList, "state".toList],
    [⟨true, "initialized".toList, [], false⟩, ⟨true, "notified".toList, [], false⟩,
      ⟨true, "stateChanged".toList, ["State".toList, "State".toList], false⟩]⟩, qt.qObject]

def replicaMetaObject (qt : QtCore) (c : ASTClass) : QMetaObject := moc qt c .replica :: qRemoteObjectReplica qt

namespace ReplicaImplementation
open QMetaObject

def new (qt : QtCore) (metaObject : QMetaObject) : ReplicaImplementation where
  m_metaObject := metaObject
  m_numSignals := 0
  m_methodOffset := 0
  m_signalOffset := methodCount (qRemoteObjectReplica qt)
  m_propertyOffset := propertyCount (qRemoteObjectReplica qt)

/-- Up to the class that has the class info of this index itself. -/
def classWith (index : Int) : QMetaObject → QMetaObject
  | [] => []
  | own :: superClass =>
    if index ≠ indexOfClassInfo QCLASSINFO_REMOTEOBJECT_TYPE superClass then own :: superClass
    else classWith index superClass

def countedMetaObject (m : QMetaObject) : QMetaObject :=
  let index := indexOfClassInfo QCLASSINFO_REMOTEOBJECT_TYPE m
  if index ≠ -1 then classWith index m else m

/-- Only the first replica counts the signals. -/
def configurePrivate (r : ReplicaImplementation) : ReplicaImplementation :=
  if r.m_methodOffset = 0 then
    let numSignals := r.m_numSignals +
      ((methods (countedMetaObject r.m_metaObject)).drop r.m_signalOffset).countP (·.isSignal)
    { r with m_numSignals := numSignals, m_methodOffset := r.m_signalOffset + numSignals }
  else r

variable (r : ReplicaImplementation)

/-- The signal that an invocation from the source activates. -/
def received (index : Int) : Option QMetaMethod := method r.m_metaObject (index + r.m_signalOffset)

def sentMethod (index : Int) : Option Int :=
  if index < r.m_methodOffset then none else some (index - r.m_methodOffset)

def sentWithReply (index : Int) : Int := index - r.m_methodOffset

def sentProperty (index : Int) : Option Int :=
  if index < r.m_propertyOffset then none else some (index - r.m_propertyOffset)

end ReplicaImplementation

section Api
variable (qt : QtCore) (c : ASTClass)

def ApiArray.element {α : Type*} (a : ApiArray α) (index : Nat) : Option α :=
  a.assigned.foldl (fun found entry => if entry.2 = index then some entry.1 else found) none

/-- `sourcePropertyIndex` and its siblings; the array has one element more than its count. -/
def ApiArray.source {α : Type*} (a : ApiArray α) (index : Int) : Option α :=
  if index < 0 ∨ (a.count : Int) ≤ index ∨ ((a.count + 1 : Nat) : Int) ≤ index + 1 then none
  else a.element (index + 1).toNat

def objectType : QString := "typename ObjectType".toList

def apiChanged (property : ASTProperty) : ApiMethod :=
  ⟨property.name ++ "Changed".toList, [fullyQualifiedName c objectType (typeForMode property .source)]⟩

def apiPush (property : ASTProperty) : ApiMethod :=
  ⟨"push".toList ++ cap qt property.name, [fullyQualifiedName c objectType property.type]⟩

def apiFunction (f : ASTFunction) : ApiMethod := ⟨f.name, f.params.map fun param => qt.normalizeType (param.asString false)⟩

/-- The properties with a signal, and the index behind each. -/
def onChange : List (ASTProperty × Nat) := (c.properties.zipIdx 1).filter fun entry => entry.1.modifier ≠ .constant

def generateSourceAPI : SourceApi :=
  let onChangeProperties := (onChange c).map (·.1)
  let changedCount := onChangeProperties.length
  let pushProps := c.properties.filter (·.modifier = .readPush)
  { m_properties := ⟨c.properties.length, (c.properties.map (·.name)).zipIdx 1⟩
    m_signals := ⟨c.signalsList.length + onChangeProperties.length,
      (onChangeProperties.map (apiChanged c)).zipIdx 1 ++
        ((transformEnumParams c c.signalsList objectType).map (apiFunction qt)).zipIdx (changedCount + 1)⟩
    m_methods := ⟨c.slotsList.length + pushProps.length,
      (pushProps.map (apiPush qt c)).zipIdx 1 ++
        ((transformEnumParams c c.slotsList objectType).map (apiFunction qt)).zipIdx (pushProps.length + 1)⟩
    propertyChangeIndex := (onChange c).map (·.2) }

namespace SourceApi
variable (api : SourceApi)

/-- The case of a `switch` over the signals. -/
def changeCase (index : Int) : Option (Nat × Nat) :=
  (api.propertyChangeIndex.zipIdx).find? fun entry => (entry.2 : Int) = index

/-- The element of `m_properties`, `none` for `-1`. -/
def propertyIndexFromSignal (index : Int) : Option QString :=
  (api.changeCase index).bind fun entry => api.m_properties.element entry.1

def propertyRawIndexFromSignal (index : Int) : Int :=
  match api.changeCase index with
  | some entry => (entry.1 : Int) - 1
  | none => -1

end SourceApi

end Api

end Model

section Statement

/-- A declaration of a class that the source API numbers. -/
inductive Member
  | changed (property : ASTProperty)
  | signal (f : ASTFunction)
  | push (property : ASTProperty)
  | slot (f : ASTFunction)
deriving DecidableEq

variable (qt : QtCore) (c : ASTClass)

def Member.declared (mode : Mode) : Member → Declared
  | changed property => changedSignal c mode property
  | signal f => declaredFunction (transformParams c (generatedName c mode) f)
  | push property => pushSlot qt c mode property
  | slot f => declaredFunction (transformParams c (generatedName c mode) f)

def Member.inApi : Member → ApiMethod
  | changed property => apiChanged c property
  | signal f => apiFunction qt (transformParams c objectType f)
  | push property => apiPush qt c property
  | slot f => apiFunction qt (transformParams c objectType f)

def Member.isSignal : Member → Bool
  | changed _ => true
  | signal _ => true
  | push _ => false
  | slot _ => false

def Member.inReplica (member : Member) : QMetaMethod :=
  mocMethod qt member.isSignal (member.declared qt c .replica).name (member.declared qt c .replica).params false

/-- The last parameter has a default value. -/
def Member.endsInDefault (member : Member) : Bool := (member.declared qt c .replica).params.getLast?.any isDefault

def signalMembers : List Member :=
  (c.properties.filter (·.modifier ≠ .constant)).map .changed ++ c.signalsList.map .signal

def methodMembers : List Member :=
  (c.properties.filter (·.modifier = .readPush)).map .push ++ c.slotsList.map .slot

/-- The method of a replica and the entry of the source API come from one declaration. -/
def Corresponds (method : QMetaMethod) (entry : ApiMethod) : Prop :=
  ∃ member : Member, method = member.inReplica qt c ∧ entry = member.inApi qt c

/-- The implementation behind some replicas of the class. -/
def attached (replicas : Nat) : ReplicaImplementation :=
  ReplicaImplementation.configurePrivate^[replicas] (.new qt (replicaMetaObject qt c))

/-- The property and its position, and the index of its `Changed` signal among the signals of a source. -/
def ChangedAt (property : ASTProperty) (position : Nat) (index : Int) : Prop :=
  c.properties[position]? = some property ∧ property.modifier ≠ .constant ∧
    index = (c.properties.take position).countP (·.modifier ≠ .constant)

/-- The indices of a replica and of the source API, and those of the properties of the signals. -/
structure IndicesAgree (replicas : Nat) : Prop where
  signals : ∀ index entry, (generateSourceAPI qt c).m_signals.source index = some entry →
    ∃ method, (attached qt c replicas).received index = some method ∧ Corresponds qt c method entry
  methods : ∀ index entry, (generateSourceAPI qt c).m_methods.source index = some entry →
    ∃ method, QMetaObject.method (replicaMetaObject qt c) (index + (attached qt c replicas).m_methodOffset) = some method ∧
      Corresponds qt c method entry
  invoked : ∀ name types index entry,
    (attached qt c replicas).sentMethod (QMetaObject.indexOfSlot name types (replicaMetaObject qt c)) = some index →
    (generateSourceAPI qt c).m_methods.source index = some entry →
    ∃ method, method.name = name ∧ method.types = types ∧ Corresponds qt c method entry
  properties : ∀ index name, (generateSourceAPI qt c).m_properties.source index = some name →
    QMetaObject.property (replicaMetaObject qt c) (index + (attached qt c replicas).m_propertyOffset) = some name
  written : ∀ name index entry,
    (attached qt c replicas).sentProperty (QMetaObject.indexOfProperty name (replicaMetaObject qt c)) = some index →
    (generateSourceAPI qt c).m_properties.source index = some entry → entry = name
  changed : ∀ property position index, ChangedAt c property position index →
    (generateSourceAPI qt c).m_signals.source index = some (apiChanged c property) ∧
      (generateSourceAPI qt c).propertyRawIndexFromSignal index = position ∧
      (generateSourceAPI qt c).propertyIndexFromSignal index = (generateSourceAPI qt c).m_properties.source position
  unchanged : ∀ index : Int, (∀ property position, ¬ ChangedAt c property position index) →
    (generateSourceAPI qt c).propertyRawIndexFromSignal index = -1 ∧
      (generateSourceAPI qt c).propertyIndexFromSignal index = none

/-- Only the last signal and the last slot may end in a default value. -/
def InnerDefaultFree : Prop :=
  ∀ member ∈ (signalMembers c).dropLast ++ (methodMembers c).dropLast, member.endsInDefault qt c = false

end Statement

section Qualified
variable (c : ASTClass) (className : QString) {token rest : QString} {a : Char}

theorem qualifyFrom_delimiter (ends : isDelimiter a = true) (s : QString) :
    qualifyFrom c className [] (a :: s) = a :: qualifyFrom c className [] s := by
  rw [qualifyFrom, if_pos ends]
  rfl

theorem qualifyFrom_part (inside : ∀ a ∈ token, isDelimiter a = false) (stop : ∀ a ∈ rest.head?, isDelimiter a = true) (read : QString) :
    qualifyFrom c className read (token ++ rest) = qualifiedToken c className (read ++ token) ++ qualifyFrom c className [] rest := by
  induction token generalizing read with
  | nil =>
    rw [List.nil_append, List.append_nil]
    cases rest with
    | nil => simp [qualifyFrom, qualifiedToken]
    | cons a rest =>
      have ends := stop a rfl
      rw [qualifyFrom_delimiter c className ends, qualifyFrom, if_pos ends]
  | cons a token ih =>
    rw [List.forall_mem_cons] at inside
    rw [List.cons_append, qualifyFrom, inside.1, if_neg Bool.false_ne_true, ih inside.2, List.append_assoc, List.singleton_append]

end Qualified

section Arrays
variable {α : Type*}

theorem foldl_zipIdx (index : Nat) (l : List α) (first : Nat) (found : Option α) :
    (l.zipIdx first).foldl (fun found entry => if entry.2 = index then some entry.1 else found) found =
      if first ≤ index ∧ index < first + l.length then l[index - first]? else found := by
  induction l generalizing first found with
  | nil =>
    rw [if_neg (by simp only [List.length_nil]; omega)]
    rfl
  | cons a l ih =>
    rw [List.zipIdx_cons, List.foldl_cons, ih, List.length_cons]
    by_cases own : first = index
    · subst own
      rw [if_neg (by omega), if_pos rfl, if_pos (by omega), Nat.sub_self]
      rfl
    · by_cases later : first + 1 ≤ index ∧ index < first + 1 + l.length
      · rw [if_pos later, if_pos (by omega), show index - first = index - (first + 1) + 1 by omega]
        rfl
      · rw [if_neg later, if_neg own, if_neg (by omega)]

theorem element_zipIdx (count index : Nat) (l : List α) :
    (ApiArray.mk count (l.zipIdx 1)).element (index + 1) = l[index]? := by
  unfold ApiArray.element
  rw [foldl_zipIdx]
  split
  · rfl
  · exact (List.getElem?_eq_none (by omega)).symm

theorem source_natCast (l : List α) (index : Nat) : (ApiArray.mk l.length (l.zipIdx 1)).source index = l[index]? := by
  unfold ApiArray.source
  split
  · rename_i beyond
    exact (List.getElem?_eq_none (by simp only at beyond; omega)).symm
  · rw [show ((index : Int) + 1).toNat = index + 1 by omega, element_zipIdx]

theorem source_eq_some {l : List α} {index : Int} {entry : α} :
    (ApiArray.mk l.length (l.zipIdx 1)).source index = some entry ↔ ∃ k : Nat, index = k ∧ l[k]? = some entry := by
  constructor
  · intro found
    have inside : 0 ≤ index := by
      unfold ApiArray.source at found
      split at found
      · cases found
      · omega
    obtain ⟨k, rfl⟩ := Int.eq_ofNat_of_zero_le inside
    exact ⟨k, rfl, by rwa [source_natCast] at found⟩
  · rintro ⟨k, rfl, at_k⟩
    rwa [source_natCast]

theorem find_zipIdx (l : List Nat) (first : Nat) (index : Int) :
    (l.zipIdx first).find? (fun entry => (entry.2 : Int) = index) =
      if first ≤ index then (l[index.toNat - first]?).map fun a => (a, index.toNat) else none := by
  induction l generalizing first with
  | nil => simp
  | cons a l ih =>
    rw [List.zipIdx_cons, List.find?_cons]
    by_cases own : (first : Int) = index
    · subst own
      simp
    · simp only [own, decide_false, ih]
      by_cases later : (first : Int) + 1 ≤ index
      · rw [if_pos (by omega), if_pos (by omega), show index.toNat - first = index.toNat - (first + 1) + 1 by omega,
          List.getElem?_cons_succ]
      · rw [if_neg (by omega), if_neg (by omega)]

/-- The entries of a filtered list come with their indices in the whole list. -/
theorem getElem?_filter_zipIdx {p : α → Bool} {l : List α} {first i j : Nat} {a : α} :
    ((l.zipIdx first).filter fun entry => p entry.1)[i]? = some (a, j) ↔
      ∃ k, j = first + k ∧ l[k]? = some a ∧ p a = true ∧ i = (l.take k).countP p := by
  induction l generalizing first i with
  | nil => simp
  | cons b l ih =>
    rw [List.zipIdx_cons]
    by_cases kept : p b = true
    · rw [List.filter_cons_of_pos (by exact kept)]
      cases i with
      | zero =>
        constructor
        · intro here
          cases here
          exact ⟨0, rfl, rfl, kept, rfl⟩
        · rintro ⟨k, rfl, at_k, -, count⟩
          cases k with
          | zero =>
            cases at_k
            rfl
          | succ k => simp [kept] at count
      | succ i =>
        rw [List.getElem?_cons_succ, ih]
        constructor
        · rintro ⟨k, rfl, at_k, holds, rfl⟩
          exact ⟨k + 1, by omega, at_k, holds, by simp [kept]⟩
        · rintro ⟨k, rfl, at_k, holds, count⟩
          cases k with
          | zero => simp at count
          | succ k => exact ⟨k, by omega, at_k, holds, by simpa [kept] using count⟩
    · rw [List.filter_cons_of_neg (by exact kept), ih]
      constructor
      · rintro ⟨k, rfl, at_k, holds, rfl⟩
        exact ⟨k + 1, by omega, at_k, holds, by simp [kept]⟩
      · rintro ⟨k, rfl, at_k, holds, count⟩
        cases k with
        | zero =>
          cases at_k
          exact absurd holds kept
        | succ k => exact ⟨k, by omega, at_k, holds, by simpa [kept] using count⟩

end Arrays

section Api
variable {qt : QtCore} {c : ASTClass} {position : Nat} {index : Int}

theorem onChange_fst (c : ASTClass) : (onChange c).map (·.1) = c.properties.filter (·.modifier ≠ .constant) := by
  have kept := List.filter_map (f := Prod.fst) (l := c.properties.zipIdx 1)
    (p := fun property : ASTProperty => decide (property.modifier ≠ .constant))
  rw [List.zipIdx_map_fst] at kept
  exact kept.symm

theorem m_signals_eq (qt : QtCore) (c : ASTClass) :
    (generateSourceAPI qt c).m_signals =
      ⟨((signalMembers c).map (Member.inApi qt c)).length, ((signalMembers c).map (Member.inApi qt c)).zipIdx 1⟩ := by
  simp only [generateSourceAPI, onChange_fst, signalMembers, transformEnumParams, List.map_append, List.map_map,
    List.zipIdx_append, List.length_append, List.length_map, Nat.add_comm]
  rfl

theorem m_methods_eq (qt : QtCore) (c : ASTClass) :
    (generateSourceAPI qt c).m_methods =
      ⟨((methodMembers c).map (Member.inApi qt c)).length, ((methodMembers c).map (Member.inApi qt c)).zipIdx 1⟩ := by
  simp only [generateSourceAPI, methodMembers, transformEnumParams, List.map_append, List.map_map, List.zipIdx_append,
    List.length_append, List.length_map, Nat.add_comm]
  rfl

theorem m_properties_eq (qt : QtCore) (c : ASTClass) :
    (generateSourceAPI qt c).m_properties =
      ⟨(c.properties.map (·.name)).length, (c.properties.map (·.name)).zipIdx 1⟩ := by
  rw [List.length_map]
  rfl

theorem onChange_getElem? {property : ASTProperty} {behind i : Nat} :
    (onChange c)[i]? = some (property, behind) ↔ ∃ position, behind = position + 1 ∧ ChangedAt c property position i := by
  refine Iff.trans (getElem?_filter_zipIdx (p := fun property : ASTProperty => decide (property.modifier ≠ .constant))) ?_
  constructor
  · rintro ⟨position, rfl, at_position, varies, count⟩
    exact ⟨position, Nat.add_comm 1 position, at_position, of_decide_eq_true varies, congrArg Nat.cast count⟩
  · rintro ⟨position, rfl, at_position, varies, count⟩
    exact ⟨position, Nat.add_comm position 1, at_position, decide_eq_true varies, Int.ofNat.inj count⟩

theorem changeCase_natCast (i : Nat) :
    (generateSourceAPI qt c).changeCase i = ((onChange c)[i]?).map fun entry => (entry.2, i) := by
  unfold SourceApi.changeCase
  rw [find_zipIdx, if_pos (by omega), Int.toNat_natCast, Nat.sub_zero]
  change (((onChange c).map (·.2))[i]?).map _ = _
  rw [List.getElem?_map, Option.map_map]
  rfl

theorem changed_agrees {property : ASTProperty} (changed : ChangedAt c property position index) :
    (generateSourceAPI qt c).m_signals.source index = some (apiChanged c property) ∧
      (generateSourceAPI qt c).propertyRawIndexFromSignal index = position ∧
      (generateSourceAPI qt c).propertyIndexFromSignal index = (generateSourceAPI qt c).m_properties.source position := by
  obtain ⟨i, rfl⟩ : ∃ i : Nat, index = i := ⟨_, changed.2.2⟩
  have at_i := onChange_getElem?.mpr ⟨position, rfl, changed⟩
  have selected := @changeCase_natCast qt c i
  rw [at_i, Option.map_some] at selected
  refine ⟨?_, ?_, ?_⟩
  · have among := congrArg (Option.map Prod.fst) at_i
    rw [← List.getElem?_map, onChange_fst, Option.map_some] at among
    rw [m_signals_eq, source_natCast, List.getElem?_map, signalMembers, List.getElem?_append_left
      (by rw [List.length_map]; exact (List.getElem?_eq_some_iff.mp among).1), List.getElem?_map, among]
    rfl
  · unfold SourceApi.propertyRawIndexFromSignal
    rw [selected]
    exact Int.add_sub_cancel position 1
  · unfold SourceApi.propertyIndexFromSignal
    rw [selected, Option.bind_some, m_properties_eq, source_natCast, element_zipIdx]

theorem unchanged_agrees (unchanged : ∀ property position, ¬ ChangedAt c property position index) :
    (generateSourceAPI qt c).propertyRawIndexFromSignal index = -1 ∧
      (generateSourceAPI qt c).propertyIndexFromSignal index = none := by
  have selected : (generateSourceAPI qt c).changeCase index = none := by
    by_cases inside : 0 ≤ index
    · obtain ⟨i, rfl⟩ := Int.eq_ofNat_of_zero_le inside
      rw [changeCase_natCast]
      cases at_i : (onChange c)[i]? with
      | none => rfl
      | some entry =>
        obtain ⟨property, behind⟩ := entry
        obtain ⟨position, -, changed⟩ := onChange_getElem?.mp at_i
        exact absurd changed (unchanged property position)
    · unfold SourceApi.changeCase
      rw [find_zipIdx, if_neg (by omega)]
  constructor
  · unfold SourceApi.propertyRawIndexFromSignal
    rw [selected]
  · unfold SourceApi.propertyIndexFromSignal
    rw [selected, Option.bind_none]

end Api

section Moc
variable {qt : QtCore} {c : ASTClass}

theorem clones_eq_nil {params : List (QString × QString)} : clones params = [] ↔ params.getLast?.any isDefault = false := by
  unfold clones
  rw [List.getLast?_eq_head?_reverse]
  cases params.reverse with
  | nil => simp [withoutDefaults]
  | cons param params => by_cases given : isDefault param <;> simp [withoutDefaults, given]

/-- Without clones in between, the declared methods are the first ones. -/
theorem flatMap_mocMethods (isSignal : Bool) (l : List Declared)
    (inner : ∀ declared ∈ l.dropLast, clones declared.params = []) :
    ∃ rest, l.flatMap (mocMethods qt isSignal) =
      l.map (fun declared => mocMethod qt isSignal declared.name declared.params false) ++ rest := by
  induction l with
  | nil => exact ⟨[], rfl⟩
  | cons declared l ih =>
    cases l with
    | nil => exact ⟨_, List.append_nil _⟩
    | cons next l =>
      obtain ⟨rest, equal⟩ := ih fun declared mem => inner declared (List.mem_cons_of_mem _ mem)
      refine ⟨rest, ?_⟩
      rw [List.flatMap_cons, equal, mocMethods, inner declared List.mem_cons_self]
      rfl

/-- Where the first methods are the declared ones, there are no clones in between. -/
theorem clones_of_flatMap (isSignal : Bool) (l : List Declared)
    (originals : ∀ i < l.length, ∃ method, (l.flatMap (mocMethods qt isSignal))[i]? = some method ∧ method.cloned = false) :
    ∀ declared ∈ l.dropLast, clones declared.params = [] := by
  induction l with
  | nil => exact fun _ mem => nomatch mem
  | cons declared l ih =>
    cases l with
    | nil => exact fun _ mem => nomatch mem
    | cons next l =>
      have none_here : clones declared.params = [] := by
        obtain ⟨method, second, original⟩ := originals 1 (by simp)
        cases more : clones declared.params with
        | nil => rfl
        | cons params rest =>
          rw [List.flatMap_cons, mocMethods, more] at second
          cases second
          cases original
      intro other mem
      rcases List.mem_cons.mp mem with rfl | later
      · exact none_here
      · refine ih (fun i small => ?_) other later
        obtain ⟨method, at_i, original⟩ := originals (i + 1) (Nat.succ_lt_succ small)
        rw [List.flatMap_cons, mocMethods, none_here] at at_i
        exact ⟨method, at_i, original⟩

theorem generateSignals_eq (qt : QtCore) (c : ASTClass) :
    generateSignals c .replica =
      (signalMembers c).map (Member.declared qt c .replica) ++
        (c.properties.filter (·.modifier = .constant)).map (changedSignal c .replica) := by
  unfold generateSignals
  split
  · simp only [signalMembers, transformEnumParams, List.map_append, List.map_map, true_and]
    rfl
  · rename_i empty
    obtain ⟨no_properties, no_signals⟩ : c.properties = [] ∧ c.signalsList = [] := by
      simpa using empty
    simp [signalMembers, no_properties, no_signals]

theorem generateSlots_eq (qt : QtCore) (c : ASTClass) :
    generateSlots qt c .replica = (methodMembers c).map (Member.declared qt c .replica) := by
  unfold generateSlots
  split
  · simp only [methodMembers, transformEnumParams, List.map_append, List.map_map]
    rfl
  · rename_i empty
    obtain ⟨no_push, no_slots⟩ : (∀ property ∈ c.properties, property.modifier ≠ .readPush) ∧ c.slotsList = [] := by
      simpa using empty
    have none_pushed : c.properties.filter (·.modifier = .readPush) = [] := by
      simpa using no_push
    simp [methodMembers, none_pushed, no_slots]

end Moc

section Replica
open QMetaObject ReplicaImplementation
variable {qt : QtCore} {c : ASTClass}

def replicaSignals (qt : QtCore) (c : ASTClass) : List QMetaMethod :=
  (generateSignals c .replica).flatMap (mocMethods qt true)

def replicaSlots (qt : QtCore) (c : ASTClass) : List QMetaMethod :=
  (generateSlots qt c .replica).flatMap (mocMethods qt false)

theorem isSignal_of_mem_flatMap {isSignal : Bool} {l : List Declared} {method : QMetaMethod}
    (mem : method ∈ l.flatMap (mocMethods qt isSignal)) : method.isSignal = isSignal := by
  obtain ⟨declared, -, own⟩ := List.mem_flatMap.mp mem
  rcases List.mem_cons.mp own with rfl | cloned
  · rfl
  · obtain ⟨params, -, rfl⟩ := List.mem_map.mp cloned
    rfl

theorem methods_replicaMetaObject (qt : QtCore) (c : ASTClass) :
    methods (replicaMetaObject qt c) = methods (qRemoteObjectReplica qt) ++ (replicaSignals qt c ++ replicaSlots qt c) := rfl

theorem indexOfClassInfo_base (qt : QtCore) (name : QString) : indexOfClassInfo name (qRemoteObjectReplica qt) = -1 := by
  simp only [qRemoteObjectReplica, indexOfClassInfo, lastIdx?, qt.plain]

/-- A generated class has its class infos itself, so that its own methods are counted. -/
theorem counted_replicaMetaObject (qt : QtCore) (c : ASTClass) :
    countedMetaObject (replicaMetaObject qt c) = replicaMetaObject qt c := by
  unfold countedMetaObject
  simp only
  split
  · rename_i given
    change classWith _ (moc qt c .replica :: qRemoteObjectReplica qt) = _
    rw [classWith, indexOfClassInfo_base, if_pos given]
    rfl
  · rfl

theorem countP_signals (qt : QtCore) (c : ASTClass) :
    (replicaSignals qt c ++ replicaSlots qt c).countP (·.isSignal) = (replicaSignals qt c).length := by
  have signals : (replicaSignals qt c).countP (·.isSignal) = (replicaSignals qt c).length :=
    List.countP_eq_length.mpr fun method mem => isSignal_of_mem_flatMap mem
  have slots : (replicaSlots qt c).countP (·.isSignal) = 0 :=
    List.countP_eq_zero.mpr fun method mem => by simp [isSignal_of_mem_flatMap mem]
  rw [List.countP_append, signals, slots, Nat.add_zero]

theorem methodCount_base_pos (qt : QtCore) : 0 < methodCount (qRemoteObjectReplica qt) := by
  unfold methodCount qRemoteObjectReplica
  simp only [methods, List.length_append, List.length_cons]
  omega

/-- Later replicas keep the offsets of the first one. -/
theorem attached_succ (qt : QtCore) (c : ASTClass) (replicas : Nat) :
    attached qt c (replicas + 1) =
      { m_metaObject := replicaMetaObject qt c
        m_numSignals := (replicaSignals qt c).length
        m_methodOffset := methodCount (qRemoteObjectReplica qt) + (replicaSignals qt c).length
        m_signalOffset := methodCount (qRemoteObjectReplica qt)
        m_propertyOffset := propertyCount (qRemoteObjectReplica qt) } := by
  induction replicas with
  | zero =>
    change configurePrivate (.new qt (replicaMetaObject qt c)) = _
    rw [configurePrivate, ReplicaImplementation.new, if_pos rfl]
    simp only
    rw [counted_replicaMetaObject, methods_replicaMetaObject, methodCount, List.drop_left, countP_signals, Nat.zero_add]
  | succ replicas ih =>
    rw [attached, Function.iterate_succ_apply', ← attached, ih, configurePrivate, if_neg]
    have positive := methodCount_base_pos qt
    simp only
    omega

theorem method_base_add (k : Nat) :
    method (replicaMetaObject qt c) ((k : Int) + (methodCount (qRemoteObjectReplica qt) : Nat)) =
      (replicaSignals qt c ++ replicaSlots qt c)[k]? := by
  rw [method, if_pos (by omega), methods_replicaMetaObject, methodCount,
    show ((k : Int) + ((methods (qRemoteObjectReplica qt)).length : Nat)).toNat =
      (methods (qRemoteObjectReplica qt)).length + k by omega,
    List.getElem?_append_right (Nat.le_add_right _ _), Nat.add_sub_cancel_left]

theorem received_natCast (replicas k : Nat) :
    (attached qt c (replicas + 1)).received k = (replicaSignals qt c ++ replicaSlots qt c)[k]? := by
  rw [received, attached_succ]
  exact method_base_add k

theorem method_methodOffset_add (replicas k : Nat) :
    method (replicaMetaObject qt c) ((k : Int) + (attached qt c (replicas + 1)).m_methodOffset) = (replicaSlots qt c)[k]? := by
  rw [attached_succ]
  simp only
  rw [show (k : Int) + ((methodCount (qRemoteObjectReplica qt) + (replicaSignals qt c).length : Nat) : Int) =
      ((k + (replicaSignals qt c).length : Nat) : Int) + (methodCount (qRemoteObjectReplica qt) : Nat) by omega,
    method_base_add, List.getElem?_append_right (Nat.le_add_left _ _), Nat.add_sub_cancel]

theorem property_propertyOffset_add (replicas k : Nat) :
    property (replicaMetaObject qt c) ((k : Int) + (attached qt c (replicas + 1)).m_propertyOffset) =
      (c.properties.map ASTProperty.name)[k]? := by
  rw [attached_succ]
  simp only
  change (if _ then (properties (qRemoteObjectReplica qt) ++ c.properties.map ASTProperty.name)[_]? else none) = _
  rw [if_pos (by omega), propertyCount,
    show ((k : Int) + ((properties (qRemoteObjectReplica qt)).length : Nat)).toNat =
      (properties (qRemoteObjectReplica qt)).length + k by omega,
    List.getElem?_append_right (Nat.le_add_right _ _), Nat.add_sub_cancel_left]

theorem lastIdx?_eq_some {α : Type*} {p : α → Bool} {l : List α} {index : Nat} (found : lastIdx? p l = some index) :
    ∃ a, l[index]? = some a ∧ p a = true := by
  induction l generalizing index with
  | nil => cases found
  | cons a l ih =>
    unfold lastIdx? at found
    split at found
    · rename_i later at_later
      cases found
      exact ih at_later
    · split at found
      · rename_i holds
        cases found
        exact ⟨a, rfl, holds⟩
      · cases found

theorem indexOfSlot_lt (name : QString) (types : List QString) (m : QMetaObject) :
    indexOfSlot name types m < methodCount m := by
  induction m with
  | nil => exact Int.negSucc_lt_zero 0
  | cons own superClass ih =>
    have length : methodCount (own :: superClass) = methodCount superClass + own.methods.length := List.length_append
    rw [indexOfSlot, length]
    split
    · rename_i index found
      obtain ⟨_, at_index, -⟩ := lastIdx?_eq_some found
      have inside := (List.getElem?_eq_some_iff.mp at_index).1
      omega
    · omega

theorem indexOfProperty_lt (name : QString) (m : QMetaObject) : indexOfProperty name m < propertyCount m := by
  induction m with
  | nil => exact Int.negSucc_lt_zero 0
  | cons own superClass ih =>
    have length : propertyCount (own :: superClass) = propertyCount superClass + own.properties.length :=
      List.length_append
    rw [indexOfProperty, length]
    split
    · rename_i index found
      obtain ⟨inside, -⟩ := List.findIdx?_eq_some_iff_getElem.mp found
      omega
    · omega

/-- A call that is sent is one of a slot of the class itself with this signature. -/
theorem slot_of_sentMethod {replicas : Nat} {name : QString} {types : List QString} {index : Int}
    (sent : (attached qt c (replicas + 1)).sentMethod (indexOfSlot name types (replicaMetaObject qt c)) = some index) :
    ∃ (k : Nat) (method : QMetaMethod), index = k ∧ (replicaSlots qt c)[k]? = some method ∧
      method.name = name ∧ method.types = types := by
  rw [sentMethod, attached_succ] at sent
  simp only at sent
  split at sent
  · cases sent
  · rename_i behind
    cases sent
    rw [replicaMetaObject, indexOfSlot] at behind ⊢
    split
    · rename_i own found
      rw [found] at behind
      obtain ⟨method, at_own, matching⟩ := lastIdx?_eq_some found
      obtain ⟨-, named, typed⟩ := of_decide_eq_true matching
      refine ⟨own - (replicaSignals qt c).length, method, by simp only at behind; omega, ?_, named, typed⟩
      change (replicaSignals qt c ++ replicaSlots qt c)[own]? = some method at at_own
      rwa [List.getElem?_append_right (by simp only at behind; omega)] at at_own
    · rename_i absent
      rw [absent] at behind
      have small := indexOfSlot_lt name types (qRemoteObjectReplica qt)
      simp only at behind
      omega

theorem property_of_sentProperty {replicas : Nat} {name : QString} {index : Int}
    (sent : (attached qt c (replicas + 1)).sentProperty (indexOfProperty name (replicaMetaObject qt c)) = some index) :
    ∃ k : Nat, index = k ∧ (c.properties.map ASTProperty.name)[k]? = some name := by
  rw [sentProperty, attached_succ] at sent
  simp only at sent
  split at sent
  · cases sent
  · rename_i behind
    cases sent
    rw [replicaMetaObject, indexOfProperty] at behind ⊢
    split
    · rename_i own found
      obtain ⟨inside, matching, -⟩ := List.findIdx?_eq_some_iff_getElem.mp found
      refine ⟨own, by omega, ?_⟩
      rw [← of_decide_eq_true matching]
      exact List.getElem?_eq_getElem inside
    · rename_i absent
      rw [absent] at behind
      have small := indexOfProperty_lt name (qRemoteObjectReplica qt)
      simp only at behind
      omega

end Replica

section Agreement
open QMetaObject ReplicaImplementation
variable {qt : QtCore} {c : ASTClass} {replicas : Nat}

theorem isSignal_of_mem_signalMembers {member : Member} (mem : member ∈ signalMembers c) : member.isSignal = true := by
  rcases List.mem_append.mp mem with changed | signal
  · obtain ⟨property, -, rfl⟩ := List.mem_map.mp changed
    rfl
  · obtain ⟨f, -, rfl⟩ := List.mem_map.mp signal
    rfl

theorem isSignal_of_mem_methodMembers {member : Member} (mem : member ∈ methodMembers c) : member.isSignal = false := by
  rcases List.mem_append.mp mem with push | slot
  · obtain ⟨property, -, rfl⟩ := List.mem_map.mp push
    rfl
  · obtain ⟨f, -, rfl⟩ := List.mem_map.mp slot
    rfl

/-- The methods of some members that are all signals or all slots. -/
theorem flatMap_members {isSignal : Bool} {members : List Member} (kind : ∀ member ∈ members, member.isSignal = isSignal)
    (inner : ∀ member ∈ members.dropLast, member.endsInDefault qt c = false) :
    ∃ rest, (members.map (Member.declared qt c .replica)).flatMap (mocMethods qt isSignal) =
      members.map (Member.inReplica qt c) ++ rest := by
  have no_clones : ∀ declared ∈ (members.map (Member.declared qt c .replica)).dropLast, clones declared.params = [] := by
    intro declared mem
    rw [← List.map_dropLast] at mem
    obtain ⟨member, among, rfl⟩ := List.mem_map.mp mem
    exact clones_eq_nil.mpr (inner member among)
  obtain ⟨rest, equal⟩ := @flatMap_mocMethods qt isSignal _ no_clones
  refine ⟨rest, equal.trans (congrArg (· ++ rest) ?_)⟩
  rw [List.map_map]
  refine List.map_congr_left fun member mem => ?_
  rw [Member.inReplica, kind member mem]
  rfl

theorem endsInDefault_of_flatMap (isSignal : Bool) {members : List Member}
    (originals : ∀ i < members.length, ∃ method,
      ((members.map (Member.declared qt c .replica)).flatMap (mocMethods qt isSignal))[i]? = some method ∧
        method.cloned = false) :
    ∀ member ∈ members.dropLast, member.endsInDefault qt c = false := by
  intro member mem
  refine clones_eq_nil.mp (clones_of_flatMap isSignal _ (fun i small => originals i (by simpa using small)) _ ?_)
  rw [← List.map_dropLast]
  exact List.mem_map_of_mem mem

theorem replicaSignals_eq (qt : QtCore) (c : ASTClass) :
    ∃ more, replicaSignals qt c =
      ((signalMembers c).map (Member.declared qt c .replica)).flatMap (mocMethods qt true) ++ more := by
  unfold replicaSignals
  rw [generateSignals_eq, List.flatMap_append]
  exact ⟨_, rfl⟩

theorem replicaSlots_eq (qt : QtCore) (c : ASTClass) :
    replicaSlots qt c = ((methodMembers c).map (Member.declared qt c .replica)).flatMap (mocMethods qt false) := by
  unfold replicaSlots
  rw [generateSlots_eq]

theorem Corresponds.original {method : QMetaMethod} {entry : ApiMethod} (same : Corresponds qt c method entry) :
    method.cloned = false := by
  obtain ⟨member, rfl, -⟩ := same
  rfl

theorem length_flatMap_mocMethods (isSignal : Bool) (l : List Declared) :
    l.length ≤ (l.flatMap (mocMethods qt isSignal)).length := by
  induction l with
  | nil => exact Nat.le_refl 0
  | cons declared l ih =>
    rw [List.flatMap_cons, List.length_append, mocMethods, List.length_cons, List.length_cons]
    omega

theorem indicesAgree_of_innerDefaultFree (free : InnerDefaultFree qt c) : IndicesAgree qt c (replicas + 1) := by
  obtain ⟨more, signals_eq⟩ := replicaSignals_eq qt c
  obtain ⟨rest, signals⟩ := flatMap_members (fun _ => isSignal_of_mem_signalMembers)
    fun member mem => free member (List.mem_append_left _ mem)
  obtain ⟨rest', slots⟩ := flatMap_members (fun _ => isSignal_of_mem_methodMembers)
    fun member mem => free member (List.mem_append_right _ mem)
  rw [signals, List.append_assoc] at signals_eq
  rw [← replicaSlots_eq] at slots
  have slot_at {k : Nat} {entry : ApiMethod} (at_k : ((methodMembers c).map (Member.inApi qt c))[k]? = some entry) :
      ∃ method, (replicaSlots qt c)[k]? = some method ∧ Corresponds qt c method entry := by
    rw [List.getElem?_map] at at_k
    obtain ⟨member, member_at, rfl⟩ := Option.map_eq_some_iff.mp at_k
    refine ⟨member.inReplica qt c, ?_, member, rfl, rfl⟩
    have inside := (List.getElem?_eq_some_iff.mp member_at).1
    rw [slots, List.getElem?_append_left (by rwa [List.length_map]), List.getElem?_map, member_at]
    rfl
  constructor
  case signals =>
    intro index entry found
    rw [m_signals_eq, source_eq_some] at found
    obtain ⟨k, rfl, at_k⟩ := found
    rw [List.getElem?_map] at at_k
    obtain ⟨member, member_at, rfl⟩ := Option.map_eq_some_iff.mp at_k
    refine ⟨member.inReplica qt c, ?_, member, rfl, rfl⟩
    have inside := (List.getElem?_eq_some_iff.mp member_at).1
    rw [received_natCast, signals_eq, List.append_assoc, List.getElem?_append_left (by rwa [List.length_map]),
      List.getElem?_map, member_at]
    rfl
  case methods =>
    intro index entry found
    rw [m_methods_eq, source_eq_some] at found
    obtain ⟨k, rfl, at_k⟩ := found
    obtain ⟨method, at_method, same⟩ := slot_at at_k
    exact ⟨method, (method_methodOffset_add replicas k).trans at_method, same⟩
  case invoked =>
    intro name types index entry sent found
    obtain ⟨k, method, rfl, at_method, named, typed⟩ := slot_of_sentMethod sent
    rw [m_methods_eq, source_natCast] at found
    obtain ⟨method', at_method', same⟩ := slot_at found
    cases at_method.symm.trans at_method'
    exact ⟨method, named, typed, same⟩
  case properties =>
    intro index name found
    rw [m_properties_eq, source_eq_some] at found
    obtain ⟨k, rfl, at_k⟩ := found
    exact (property_propertyOffset_add replicas k).trans at_k
  case written =>
    intro name index entry sent found
    obtain ⟨k, rfl, at_k⟩ := property_of_sentProperty sent
    rw [m_properties_eq, source_natCast] at found
    exact Option.some.inj (found.symm.trans at_k)
  case changed => exact fun property position index changed => changed_agrees changed
  case unchanged => exact fun index unchanged => unchanged_agrees unchanged

/-- Where moc adds no clone in front of another signal or slot, all indices agree, and only there. -/
theorem indicesAgree_iff (qt : QtCore) (c : ASTClass) (replicas : Nat) :
    IndicesAgree qt c (replicas + 1) ↔ InnerDefaultFree qt c := by
  constructor
  · intro agree member mem
    rcases List.mem_append.mp mem with signal | method
    · refine endsInDefault_of_flatMap true (fun i small => ?_) member signal
      obtain ⟨more, signals_eq⟩ := replicaSignals_eq qt c
      have entry_at : ((signalMembers c).map (Member.inApi qt c))[i]? = some _ := List.getElem?_eq_getElem (by simpa using small)
      obtain ⟨method, at_i, same⟩ := agree.signals i _ (by rw [m_signals_eq, source_natCast]; exact entry_at)
      refine ⟨method, ?_, same.original⟩
      have inside := @length_flatMap_mocMethods qt true ((signalMembers c).map (Member.declared qt c .replica))
      rw [List.length_map] at inside
      rwa [received_natCast, signals_eq, List.append_assoc, List.getElem?_append_left (by omega)] at at_i
    · refine endsInDefault_of_flatMap false (fun i small => ?_) member method
      have entry_at : ((methodMembers c).map (Member.inApi qt c))[i]? = some _ := List.getElem?_eq_getElem (by simpa using small)
      obtain ⟨method, at_i, same⟩ := agree.methods i _ (by rw [m_methods_eq, source_natCast]; exact entry_at)
      refine ⟨method, ?_, same.original⟩
      rwa [method_methodOffset_add, replicaSlots_eq] at at_i
  · exact indicesAgree_of_innerDefaultFree

end Agreement

section Example

/-- Qt's core, as far as the class below needs it. -/
def plainCore : QtCore where
  toUpper := Char.toUpper
  normalizeType := id
  qObject := ⟨[], ["objectName".toList],
    [⟨true, "destroyed".toList, ["QObject*".toList], false⟩, ⟨true, "destroyed".toList, [], true⟩,
      ⟨true, "objectNameChanged".toList, ["QString".toList], false⟩, ⟨false, "deleteLater".toList, [], false⟩]⟩
  plain := rfl

/-- `SIGNAL(timeUpdated(int hour, int second=0))` and behind it `SIGNAL(stopped())`. -/
def clockClass : ASTClass where
  name := "Clock".toList
  signalsList := [
    { name := "timeUpdated".toList
      params := [⟨"int".toList, "hour".toList, false, false⟩, ⟨"int".toList, "second=0".toList, false, false⟩] },
    { name := "stopped".toList }]

/-- The index of `stopped` in the source API activates a clone of `timeUpdated` in the replica. -/
theorem stopped_notifies_clone :
    (generateSourceAPI plainCore clockClass).m_signals.source 1 = some ⟨"stopped".toList, []⟩ ∧
      (attached plainCore clockClass 1).received 1 = some ⟨true, "timeUpdated".toList, ["int".toList], true⟩ ∧
      ¬ IndicesAgree plainCore clockClass 1 := by
  have entry : (generateSourceAPI plainCore clockClass).m_signals.source 1 = some ⟨"stopped".toList, []⟩ := by decide
  have activated : (attached plainCore clockClass 1).received 1 =
      some ⟨true, "timeUpdated".toList, ["int".toList], true⟩ := by decide
  refine ⟨entry, activated, fun agree => ?_⟩
  obtain ⟨method, received, same⟩ := agree.signals 1 _ entry
  cases activated.symm.trans received
  exact nomatch same.original

end Example

end RemoteObjects.Repc
