import Mathlib.Algebra.GroupWithZero.Nat
import Mathlib.Data.List.Nodup
import Mathlib.Data.List.ReduceOption
import RemoteObjects.Node.Network

/-! Replicas that share an implementation: the signals that are activated on one more replica when it is attached, by the
offsets of its meta object and of that of the first replica. -/
namespace RemoteObjects.Replica.Attached
open Transition
open Node (ReplicaState)

section Model

/-- A class of a meta object: the signals come before the other methods, `notifySignals` has one of them for each property
that has a notify signal. -/
structure MetaClass where
  signals : Nat
  methods : Nat
  notifySignals : List (Option Nat)
  notify_lt : ∀ signal, some signal ∈ notifySignals → signal < signals

namespace MetaClass
variable (c : MetaClass)

def methodCount : Nat := c.signals + c.methods

def notifySignal (i : Nat) : Option Nat := c.notifySignals[i]?.join

end MetaClass

/-- The classes, with the root first. -/
abbrev QMetaObject := List MetaClass

namespace QMetaObject
variable (m : QMetaObject)

/-- Indices count what comes with the super classes: methods for the indices of methods, signals for those of signals. -/
def total (width : MetaClass → Nat) : Nat := (m.map width).sum

def notifyFrom (width : MetaClass → Nat) : Nat → QMetaObject → List (Option Nat)
  | _, [] => []
  | offset, c :: m => c.notifySignals.map (·.map (offset + ·)) ++ notifyFrom width (offset + width c) m

/-- `property(i).notifySignalIndex()`, an index of a method. -/
def notifySignalIndex (i : Nat) : Option Nat := (notifyFrom MetaClass.methodCount 0 m)[i]?.join

/-- The same signal by its number among the signals. -/
def notifySignal (i : Nat) : Option Nat := (notifyFrom MetaClass.signals 0 m)[i]?.join

def propertyCount : Nat := m.total (·.notifySignals.length)

def signalOffset : Nat := total m.dropLast MetaClass.signals

/-- The signal that `QMetaObject::activate` activates, if there is one. -/
def activate (localSignalIndex : Int) : Option Nat :=
  let signalIndex := localSignalIndex + m.signalOffset
  if 0 ≤ signalIndex ∧ signalIndex < m.total MetaClass.signals then some signalIndex.toNat else none

end QMetaObject

/-- With the signals `initialized`, `notified` and `stateChanged`, and the properties `node` and `state`. -/
def staticMetaObject : MetaClass where
  signals := 3
  methods := 0
  notifySignals := [none, some 2]
  notify_lt := by simp

/-- What a replica adds: the class that names the type, generated or made from a definition, and what is derived from it. -/
structure ReplicaMeta where
  replicaClass : MetaClass
  derived : List MetaClass

inductive QRemoteObjectReplica
  | typed (metaObject : ReplicaMeta)
  | dynamic

/-- A dynamic replica has the meta object of its implementation. -/
def QRemoteObjectReplica.metaObject (m_metaObject : ReplicaMeta) : QRemoteObjectReplica → ReplicaMeta
  | typed metaObject => metaObject
  | dynamic => m_metaObject

variable (qObject : MetaClass) (V : Type)

def ReplicaMeta.metaObject (r : ReplicaMeta) : QMetaObject := [qObject, staticMetaObject] ++ r.replicaClass :: r.derived

def m_signalOffset : Nat := QMetaObject.total [qObject, staticMetaObject] MetaClass.methodCount

def m_propertyOffset : Nat := QMetaObject.propertyCount [qObject, staticMetaObject]

/-- `QConnectedReplicaImplementation`. Without the definition of a dynamic object the replicas wait. -/
structure Implementation where
  m_metaObject : Option ReplicaMeta
  m_methodOffset : Nat
  m_state : ReplicaState
  m_propertyStorage : List V
  m_parentsNeedingConnect : List QRemoteObjectReplica

/-- What is emitted on one replica. A notify signal carries what is stored for a property. -/
inductive Emission
  | initialized
  | stateChanged (state oldState : ReplicaState)
  | notify (signal property : Nat) (value : V)

inductive Event
  | setReplicaImplementation (rep : QRemoteObjectReplica) (properties : List V)
  | setDynamicProperties (metaObject : MetaClass) (values : List V)
  | setProperty (i : Nat) (value : V)
  | setState (state : ReplicaState)

variable {V}

def Emission.signal? : Emission V → Option Nat
  | notify signal _ _ => some signal
  | _ => none

namespace Implementation
variable (impl : Implementation V)

def isInitialized : Bool := impl.m_state = .valid || impl.m_state = .suspect

/-- One turn of the loop over the storage. -/
def notifyOne (m_metaObject repMetaObject : QMetaObject) (i : Nat) : Option (Emission V) := do
  let notifyIndex ← m_metaObject.notifySignalIndex (i + m_propertyOffset qObject)
  let value ← impl.m_propertyStorage[i]?
  let signal ← repMetaObject.activate (notifyIndex - m_signalOffset qObject)
  some (.notify signal i value)

def configurePrivate (rep : QRemoteObjectReplica) : Implementation V × List (Emission V) :=
  match impl.m_metaObject with
  | none => ({ impl with m_parentsNeedingConnect := impl.m_parentsNeedingConnect ++ [rep] }, [])
  | some m_metaObject =>
    if impl.m_methodOffset = 0 then
      ({ impl with m_methodOffset := m_signalOffset qObject + m_metaObject.replicaClass.signals }, [])
    else
      (impl,
        (if impl.isInitialized then [.initialized] else []) ++
        (if impl.m_state ≠ .valid then [.stateChanged impl.m_state .default] else []) ++
        (List.range impl.m_propertyStorage.length).filterMap
          (impl.notifyOne qObject (m_metaObject.metaObject qObject) ((rep.metaObject m_metaObject).metaObject qObject)))

end Implementation

/-- The first replica makes the implementation and gives its storage, unless the definition comes later. -/
def step (s : Option (Implementation V)) : Event V → Option (Option (Implementation V))
  | .setReplicaImplementation rep properties =>
    match s, rep with
    | some impl, _ => some (some (impl.configurePrivate qObject rep).1)
    | none, .typed metaObject =>
      if properties.length = metaObject.replicaClass.notifySignals.length then
        let impl : Implementation V := ⟨some metaObject, 0, .default, [], []⟩
        some (some { (impl.configurePrivate qObject rep).1 with m_propertyStorage := properties })
      else none
    | none, .dynamic =>
      let impl : Implementation V := ⟨none, 0, .uninitialized, [], []⟩
      some (some (impl.configurePrivate qObject rep).1)
  | .setDynamicProperties metaObject values => do
    let impl ← s
    if impl.m_metaObject.isNone ∧ values.length = metaObject.notifySignals.length then
      let defined := { impl with m_metaObject := some ⟨metaObject, []⟩, m_propertyStorage := values, m_parentsNeedingConnect := [] }
      let configured := impl.m_parentsNeedingConnect.foldl (fun impl rep => (impl.configurePrivate qObject rep).1) defined
      some (some { configured with m_state := .valid })
    else none
  | .setProperty i value => s.map fun impl => some { impl with m_propertyStorage := impl.m_propertyStorage.set i value }
  | .setState state => s.map fun impl => some { impl with m_state := state }

/-- Each notify signal of a property of the replica class is activated once, with what is stored for that property, and no other
signal is. -/
structure Told (impl : Implementation V) (metaObject : ReplicaMeta) (emissions : List (Emission V)) : Prop where
  notified : ∀ i < metaObject.replicaClass.notifySignals.length, ∀ signal,
    (metaObject.metaObject qObject).notifySignal (i + m_propertyOffset qObject) = some signal →
      ∃ value, impl.m_propertyStorage[i]? = some value ∧ .notify signal i value ∈ emissions
  only : ∀ signal i value, .notify signal i value ∈ emissions →
    i < metaObject.replicaClass.notifySignals.length ∧
      (metaObject.metaObject qObject).notifySignal (i + m_propertyOffset qObject) = some signal ∧
        impl.m_propertyStorage[i]? = some value
  once : (emissions.filterMap Emission.signal?).Nodup

/-- A replica that is attached to an implementation that has been initialized is told of the values. -/
def AttachedTold (s : Option (Implementation V)) : Event V → Prop
  | .setReplicaImplementation rep _ => ∀ impl m_metaObject, s = some impl → impl.isInitialized → impl.m_metaObject = some m_metaObject →
    Told qObject impl (rep.metaObject m_metaObject) (impl.configurePrivate qObject rep).2
  | _ => True

/-- The replica has no class of its own below the replica class, which has the notify signals of the first replica's class, or
there is no notify signal and the lowest class has none in their place. -/
def Fits (first metaObject : ReplicaMeta) : Prop :=
  metaObject.replicaClass.notifySignals.reduceOption.Nodup ∧
    match metaObject.derived.getLast? with
    | none => ∀ i, (first.replicaClass.notifySignal i).filter (· < metaObject.replicaClass.signals) = metaObject.replicaClass.notifySignal i
    | some lowest => ∀ i, metaObject.replicaClass.notifySignal i = none ∧
      ∀ signal, first.replicaClass.notifySignal i = some signal → lowest.signals ≤ signal

def attachesFitting (s : Option (Implementation V)) : Event V → Prop
  | .setReplicaImplementation rep _ => ∀ impl m_metaObject, s = some impl → impl.isInitialized → impl.m_metaObject = some m_metaObject →
    Fits m_metaObject (rep.metaObject m_metaObject)
  | _ => True

end Model

section MetaObjects
variable {m n : QMetaObject} {width : MetaClass → Nat} {offset i signal : Nat} {c : MetaClass} {r : ReplicaMeta}
variable (qObject : MetaClass)

namespace QMetaObject

theorem total_append : total (m ++ n) width = total m width + total n width := by
  simp [total]

@[simp] theorem length_notifyFrom : (notifyFrom width offset m).length = propertyCount m := by
  induction m generalizing offset with
  | nil => rfl
  | cons c m ih => simp [notifyFrom, ih, propertyCount, total]

theorem notifyFrom_append : notifyFrom width offset (m ++ n) = notifyFrom width offset m ++ notifyFrom width (offset + total m width) n := by
  induction m generalizing offset with
  | nil => simp [notifyFrom, total]
  | cons c m ih => simp [notifyFrom, ih, total, Nat.add_assoc]

/-- The properties of a class come behind those of its super classes. -/
theorem notifyFrom_class (own : i < c.notifySignals.length) :
    (notifyFrom width 0 (m ++ c :: n))[i + propertyCount m]?.join = (c.notifySignal i).map (total m width + ·) := by
  have there : (notifyFrom width (total m width) (c :: n))[i]? = (c.notifySignals[i]?).map (Option.map (total m width + ·)) := by
    simp [notifyFrom, List.getElem?_append_left, own]
  rw [notifyFrom_append, List.getElem?_append_right (by simp), length_notifyFrom, Nat.add_sub_cancel, Nat.zero_add, there,
    MetaClass.notifySignal]
  cases c.notifySignals[i]? <;> rfl

end QMetaObject

theorem MetaClass.notifySignal_eq_some : c.notifySignal i = some signal ↔ c.notifySignals[i]? = some (some signal) :=
  Option.join_eq_some_iff

theorem MetaClass.notifySignal_length (found : c.notifySignal i = some signal) : i < c.notifySignals.length :=
  (List.getElem?_eq_some_iff.mp (notifySignal_eq_some.mp found)).1

theorem MetaClass.notifySignal_lt (found : c.notifySignal i = some signal) : signal < c.signals :=
  c.notify_lt signal (List.mem_of_getElem? (notifySignal_eq_some.mp found))

theorem notifySignalIndex_replica (own : i < r.replicaClass.notifySignals.length) :
    (r.metaObject qObject).notifySignalIndex (i + m_propertyOffset qObject) =
      (r.replicaClass.notifySignal i).map (m_signalOffset qObject + ·) :=
  QMetaObject.notifyFrom_class own

/-- The signals of the two classes that all replicas share. -/
def sharedSignals : Nat := QMetaObject.total [qObject, staticMetaObject] MetaClass.signals

theorem notifySignal_replica (own : i < r.replicaClass.notifySignals.length) :
    (r.metaObject qObject).notifySignal (i + m_propertyOffset qObject) =
      (r.replicaClass.notifySignal i).map (sharedSignals qObject + ·) :=
  QMetaObject.notifyFrom_class own

/-- For the replica class itself the index is that of the class's own signal. -/
theorem activate_replicaClass (alone : r.derived = []) : (r.metaObject qObject).activate (signal : Int) =
    if signal < r.replicaClass.signals then some (sharedSignals qObject + signal) else none := by
  have offset : (r.metaObject qObject).signalOffset = sharedSignals qObject := by
    simp [ReplicaMeta.metaObject, alone, QMetaObject.signalOffset, sharedSignals]
  have all : (r.metaObject qObject).total MetaClass.signals = sharedSignals qObject + r.replicaClass.signals := by
    rw [ReplicaMeta.metaObject, alone, QMetaObject.total_append]
    simp [QMetaObject.total, sharedSignals]
  unfold QMetaObject.activate
  dsimp only
  rw [offset, all]
  grind

/-- Below it the index is that of a signal of the lowest class, behind all signals of the replica class. -/
theorem activate_derived {above : List MetaClass} {lowest : MetaClass} (derived : r.derived = above ++ [lowest]) :
    ∃ offset, sharedSignals qObject + r.replicaClass.signals ≤ offset ∧ ∀ signal : Nat, (r.metaObject qObject).activate (signal : Int) =
      if signal < lowest.signals then some (offset + signal) else none := by
  have split : r.metaObject qObject = ([qObject, staticMetaObject] ++ r.replicaClass :: above) ++ [lowest] := by
    simp [ReplicaMeta.metaObject, derived]
  refine ⟨QMetaObject.total ([qObject, staticMetaObject] ++ r.replicaClass :: above) MetaClass.signals, ?_, fun signal => ?_⟩
  · rw [QMetaObject.total_append, sharedSignals]
    simp [QMetaObject.total]
  · have offset : (r.metaObject qObject).signalOffset =
        QMetaObject.total ([qObject, staticMetaObject] ++ r.replicaClass :: above) MetaClass.signals := by
      rw [split, QMetaObject.signalOffset, List.dropLast_concat]
    have all : (r.metaObject qObject).total MetaClass.signals =
        QMetaObject.total ([qObject, staticMetaObject] ++ r.replicaClass :: above) MetaClass.signals + lowest.signals := by
      rw [split, QMetaObject.total_append]
      simp [QMetaObject.total]
    unfold QMetaObject.activate
    dsimp only
    rw [offset, all]
    grind

end MetaObjects

section Proofs
variable {V : Type} {qObject : MetaClass} {impl : Implementation V} {first metaObject : ReplicaMeta} {rep : QRemoteObjectReplica}
variable {s t : Option (Implementation V)} {e : Event V} {i signal : Nat} {value : V}

/-- What is kept: an implementation without meta object has a replica that waits, the others have a value for each property. -/
structure Ready (qObject : MetaClass) (impl : Implementation V) : Prop where
  waiting : impl.m_metaObject = none → impl.m_methodOffset = 0 ∧ impl.m_parentsNeedingConnect ≠ []
  configured : ∀ first, impl.m_metaObject = some first →
    impl.m_methodOffset ≠ 0 ∧ impl.m_propertyStorage.length = first.replicaClass.notifySignals.length

/-- The signal that the loop activates for a property. -/
def activated (qObject : MetaClass) (first metaObject : ReplicaMeta) (i : Nat) : Option Nat :=
  (first.replicaClass.notifySignal i).bind fun signal => (metaObject.metaObject qObject).activate (signal : Int)

theorem notifyOne_eq (stored : impl.m_propertyStorage.length = first.replicaClass.notifySignals.length)
    (here : i < impl.m_propertyStorage.length) :
    impl.notifyOne qObject (first.metaObject qObject) (metaObject.metaObject qObject) i =
      (activated qObject first metaObject i).map fun signal => .notify signal i impl.m_propertyStorage[i] := by
  have index := notifySignalIndex_replica (r := first) qObject (stored ▸ here)
  simp only [Implementation.notifyOne, index, activated, here, List.getElem?_eq_getElem]
  cases first.replicaClass.notifySignal i with
  | none => rfl
  | some signal =>
    have back : ((m_signalOffset qObject + signal : Nat) : Int) - m_signalOffset qObject = signal := by omega
    simp only [Option.map_some, Option.bind_eq_bind, Option.bind_some, back]
    cases (metaObject.metaObject qObject).activate (signal : Int) <;> rfl

theorem mem_configurePrivate (ready : Ready qObject impl) (made : impl.m_metaObject = some first) :
    .notify signal i value ∈ (impl.configurePrivate qObject rep).2 ↔
      impl.m_propertyStorage[i]? = some value ∧ activated qObject first (rep.metaObject first) i = some signal := by
  obtain ⟨configured, stored⟩ := ready.configured first made
  simp only [Implementation.configurePrivate, made, if_neg configured, List.mem_append, List.mem_filterMap, List.mem_range]
  constructor
  · rintro ((initialized | changed) | ⟨j, here, notified⟩)
    · split at initialized <;> simp at initialized
    · split at changed <;> simp at changed
    · rw [notifyOne_eq stored here] at notified
      obtain ⟨_, reached, same⟩ := Option.map_eq_some_iff.mp notified
      obtain ⟨rfl, rfl, rfl⟩ := Emission.notify.inj same
      exact ⟨List.getElem?_eq_getElem here, reached⟩
  · rintro ⟨found, reached⟩
    obtain ⟨here, rfl⟩ := List.getElem?_eq_some_iff.mp found
    exact .inr ⟨i, here, by rw [notifyOne_eq stored here, reached]; rfl⟩

theorem signals_configurePrivate (ready : Ready qObject impl) (made : impl.m_metaObject = some first) :
    (impl.configurePrivate qObject rep).2.filterMap Emission.signal? =
      (List.range impl.m_propertyStorage.length).filterMap (activated qObject first (rep.metaObject first)) := by
  obtain ⟨configured, stored⟩ := ready.configured first made
  have plain : ((if impl.isInitialized then [.initialized] else []) ++
      (if impl.m_state ≠ .valid then [.stateChanged impl.m_state .default] else []) : List (Emission V)).filterMap Emission.signal? = [] := by
    split <;> split <;> rfl
  simp only [Implementation.configurePrivate, made, if_neg configured, List.filterMap_append, List.filterMap_filterMap] at plain ⊢
  rw [plain, List.nil_append]
  refine List.filterMap_congr fun i here => ?_
  rw [notifyOne_eq stored (List.mem_range.mp here)]
  cases activated qObject first (rep.metaObject first) i <;> rfl

/-- Where no signal is beyond the list, a longer range makes no difference. -/
theorem filterMap_range_of_none {α : Type} {f : Nat → Option α} {n m : Nat} (le : n ≤ m) (beyond : ∀ i, n ≤ i → f i = none) :
    (List.range m).filterMap f = (List.range n).filterMap f := by
  obtain ⟨k, rfl⟩ := Nat.exists_eq_add_of_le le
  have rest : ((List.range k).map (n + ·)).filterMap f = [] := by simp [beyond]
  rw [List.range_add, List.filterMap_append, rest, List.append_nil]

theorem MetaClass.reduceOption_notifySignals (c : MetaClass) :
    c.notifySignals.reduceOption = (List.range c.notifySignals.length).filterMap c.notifySignal := by
  have all : c.notifySignals = (List.range c.notifySignals.length).map c.notifySignal :=
    List.ext_getElem (by simp) fun i here _ => by simp [MetaClass.notifySignal, List.getElem?_eq_getElem here]
  conv_lhs => rw [all]
  simp [List.reduceOption, List.filterMap_map]

/-- The signals are those of the replica, each once, where every property has the right one. -/
theorem nodup_activated (right : ∀ i, activated qObject first metaObject i = (metaObject.replicaClass.notifySignal i).map (sharedSignals qObject + ·)) :
    ((List.range first.replicaClass.notifySignals.length).filterMap (activated qObject first metaObject)).Nodup ↔
      metaObject.replicaClass.notifySignals.reduceOption.Nodup := by
  have same : (List.range first.replicaClass.notifySignals.length).filterMap (activated qObject first metaObject) =
      metaObject.replicaClass.notifySignals.reduceOption.map (sharedSignals qObject + ·) := by
    have beyondOwn (i : Nat) (beyond : metaObject.replicaClass.notifySignals.length ≤ i) : activated qObject first metaObject i = none := by
      rw [right, Option.map_eq_none_iff]
      exact Option.eq_none_iff_forall_ne_some.mpr fun signal found => absurd (MetaClass.notifySignal_length found) (by omega)
    have beyondFirst (i : Nat) (beyond : first.replicaClass.notifySignals.length ≤ i) : activated qObject first metaObject i = none := by
      rw [activated, Option.bind_eq_none_iff]
      exact fun signal found => absurd (MetaClass.notifySignal_length found) (by omega)
    rw [MetaClass.reduceOption_notifySignals, List.map_filterMap, ← List.filterMap_congr (fun i _ => right i),
      ← filterMap_range_of_none (Nat.le_max_left _ metaObject.replicaClass.notifySignals.length) beyondFirst]
    exact filterMap_range_of_none (Nat.le_max_right _ _) beyondOwn
  rw [same, List.nodup_map_iff fun _ _ => Nat.add_left_cancel]

variable (qObject) in
theorem activated_iff_fits : (∀ i, activated qObject first metaObject i = (metaObject.replicaClass.notifySignal i).map (sharedSignals qObject + ·)) ∧
    metaObject.replicaClass.notifySignals.reduceOption.Nodup ↔ Fits first metaObject := by
  rw [Fits, and_comm]
  refine and_congr_right fun _ => ?_
  cases lowest : metaObject.derived.getLast? with
  | none =>
    refine forall_congr' fun i => ?_
    have reached : activated qObject first metaObject i =
        ((first.replicaClass.notifySignal i).filter (· < metaObject.replicaClass.signals)).map (sharedSignals qObject + ·) := by
      simp only [activated, activate_replicaClass qObject (List.getLast?_eq_none_iff.mp lowest)]
      cases first.replicaClass.notifySignal i with
      | none => rfl
      | some signal => by_cases own : signal < metaObject.replicaClass.signals <;> simp [Option.filter, own]
    rw [reached]
    exact (Option.map_injective fun _ _ => Nat.add_left_cancel).eq_iff
  | some last =>
    obtain ⟨above, derived⟩ := List.getLast?_eq_some_iff.mp lowest
    obtain ⟨offset, behind, activate⟩ := activate_derived qObject derived
    refine forall_congr' fun i => ?_
    constructor
    · intro same
      have none : metaObject.replicaClass.notifySignal i = none := by
        cases found : metaObject.replicaClass.notifySignal i with
        | none => rfl
        | some signal =>
          have own := MetaClass.notifySignal_lt found
          obtain ⟨_, _, reached⟩ := Option.bind_eq_some_iff.mp (same.trans (by rw [found]; rfl))
          rw [activate] at reached
          split at reached
          · have : _ = sharedSignals qObject + signal := Option.some.inj reached
            omega
          · contradiction
      refine ⟨none, fun signal found => ?_⟩
      by_contra! own
      have := Option.bind_eq_none_iff.mp (same.trans (by rw [none]; rfl)) signal found
      simp [activate, own] at this
    · rintro ⟨none, beyond⟩
      rw [none, Option.map_none, activated, Option.bind_eq_none_iff]
      exact fun signal found => by simp [activate, beyond signal found]

theorem told_iff_fits (ready : Ready qObject impl) (made : impl.m_metaObject = some first) :
    Told qObject impl (rep.metaObject first) (impl.configurePrivate qObject rep).2 ↔ Fits first (rep.metaObject first) := by
  obtain ⟨_, stored⟩ := ready.configured first made
  rw [← activated_iff_fits qObject]
  constructor
  · intro told
    have right (i : Nat) : activated qObject first (rep.metaObject first) i =
        ((rep.metaObject first).replicaClass.notifySignal i).map (sharedSignals qObject + ·) := by
      refine Option.ext fun signal => ?_
      constructor
      · intro reached
        obtain ⟨_, found, _⟩ := Option.bind_eq_some_iff.mp reached
        have value := List.getElem?_eq_getElem (stored ▸ MetaClass.notifySignal_length found : i < impl.m_propertyStorage.length)
        obtain ⟨own, notifies, _⟩ := told.only signal i _ ((mem_configurePrivate ready made).mpr ⟨value, reached⟩)
        exact (notifySignal_replica qObject own).symm.trans notifies
      · intro notifies
        obtain ⟨_, found, rfl⟩ := Option.map_eq_some_iff.mp notifies
        have own := MetaClass.notifySignal_length found
        obtain ⟨_, _, notified⟩ := told.notified i own _ ((notifySignal_replica qObject own).trans notifies)
        exact ((mem_configurePrivate ready made).mp notified).2
    refine ⟨right, (nodup_activated right).mp ?_⟩
    rw [← stored, ← signals_configurePrivate ready made]
    exact told.once
  · rintro ⟨right, distinct⟩
    refine ⟨fun i own signal notifies => ?_, fun signal i value notified => ?_, ?_⟩
    · have reached := (right i).trans ((notifySignal_replica qObject own).symm.trans notifies)
      obtain ⟨_, found, _⟩ := Option.bind_eq_some_iff.mp reached
      have value := List.getElem?_eq_getElem (stored ▸ MetaClass.notifySignal_length found : i < impl.m_propertyStorage.length)
      exact ⟨_, value, (mem_configurePrivate ready made).mpr ⟨value, reached⟩⟩
    · obtain ⟨stored, reached⟩ := (mem_configurePrivate ready made).mp notified
      have notifies := (right i).symm.trans reached
      obtain ⟨_, found, _⟩ := Option.map_eq_some_iff.mp notifies
      have own := MetaClass.notifySignal_length found
      exact ⟨own, (notifySignal_replica qObject own).trans notifies, stored⟩
    · rw [signals_configurePrivate ready made, stored]
      exact (nodup_activated right).mpr distinct

variable (qObject) in
theorem m_signalOffset_pos : 0 < m_signalOffset qObject := by
  simp [m_signalOffset, QMetaObject.total, MetaClass.methodCount, staticMetaObject]

variable (qObject) in
/-- The first replica that is configured sets the offset, the others leave the implementation as it is. -/
theorem configurePrivate_made (made : impl.m_metaObject = some first) (rep : QRemoteObjectReplica) : ∃ m_methodOffset,
    m_methodOffset ≠ 0 ∧ (impl.configurePrivate qObject rep).1 = { impl with m_methodOffset } := by
  by_cases unset : impl.m_methodOffset = 0
  · have := m_signalOffset_pos qObject
    exact ⟨m_signalOffset qObject + first.replicaClass.signals, by omega, by simp [Implementation.configurePrivate, made, unset]⟩
  · refine ⟨impl.m_methodOffset, unset, ?_⟩
    simp only [Implementation.configurePrivate, made, if_neg unset]
    rw [← made]

theorem Ready.configurePrivate (ready : Ready qObject impl) (rep : QRemoteObjectReplica) :
    Ready qObject (impl.configurePrivate qObject rep).1 := by
  cases made : impl.m_metaObject with
  | none =>
    have waits : (impl.configurePrivate qObject rep).1 =
        { impl with m_parentsNeedingConnect := impl.m_parentsNeedingConnect ++ [rep] } := by
      simp [Implementation.configurePrivate, made]
    rw [waits]
    exact ⟨fun _ => ⟨(ready.waiting made).1, by simp⟩, ready.configured⟩
  | some first =>
    obtain ⟨m_methodOffset, set, configured⟩ := configurePrivate_made qObject made rep
    rw [configured]
    refine ⟨fun unmade => ?_, fun first made => ⟨set, (ready.configured first made).2⟩⟩
    cases made.symm.trans unmade

variable (qObject) in
theorem foldl_configurePrivate (made : impl.m_metaObject = some first) {reps : List QRemoteObjectReplica}
    (any : impl.m_methodOffset ≠ 0 ∨ reps ≠ []) : ∃ m_methodOffset, m_methodOffset ≠ 0 ∧
      reps.foldl (fun impl rep => (impl.configurePrivate qObject rep).1) impl = { impl with m_methodOffset } := by
  induction reps generalizing impl with
  | nil => exact ⟨impl.m_methodOffset, any.resolve_right (absurd rfl), rfl⟩
  | cons rep reps ih =>
    obtain ⟨offset, set, configured⟩ := configurePrivate_made qObject made rep
    rw [List.foldl_cons, configured]
    exact ih made (.inl set)

theorem ready_step (ready : ∀ impl, s = some impl → Ready qObject impl) (head : step qObject s e = some t) :
    ∀ impl, t = some impl → Ready qObject impl := by
  rintro impl rfl
  cases e with
  | setReplicaImplementation rep properties =>
    cases s with
    | some before =>
      obtain rfl := Option.some.inj (Option.some.inj head)
      exact (ready before rfl).configurePrivate rep
    | none =>
      cases rep with
      | dynamic =>
        obtain rfl := Option.some.inj (Option.some.inj head)
        exact ⟨fun _ => ⟨rfl, by simp [Implementation.configurePrivate]⟩, nofun⟩
      | typed metaObject =>
        simp only [step] at head
        split at head
        · rename_i whole
          obtain rfl := Option.some.inj (Option.some.inj head)
          refine ⟨nofun, fun first made => ?_⟩
          obtain rfl := Option.some.inj made
          have := m_signalOffset_pos qObject
          exact ⟨by simp only [Implementation.configurePrivate, if_pos]; omega, whole⟩
        · contradiction
  | setDynamicProperties metaObject values =>
    obtain ⟨before, rfl, defined⟩ := Option.bind_eq_some_iff.mp head
    by_cases fits : before.m_metaObject.isNone ∧ values.length = metaObject.notifySignals.length
    · rw [if_pos fits] at defined
      obtain ⟨undefined, whole⟩ := fits
      obtain rfl := Option.some.inj (Option.some.inj defined)
      obtain ⟨unset, waiting⟩ := (ready before rfl).waiting (Option.isNone_iff_eq_none.mp undefined)
      have made : Implementation.m_metaObject
          { before with m_metaObject := some ⟨metaObject, []⟩, m_propertyStorage := values, m_parentsNeedingConnect := [] } =
            some ⟨metaObject, []⟩ := rfl
      obtain ⟨m_methodOffset, set, last⟩ := foldl_configurePrivate qObject made (.inr waiting)
      rw [last]
      refine ⟨nofun, fun first made => ?_⟩
      obtain rfl := Option.some.inj made
      exact ⟨set, whole⟩
    · rw [if_neg fits] at defined
      contradiction
  | setProperty i value =>
    obtain ⟨before, rfl, same⟩ := Option.map_eq_some_iff.mp head
    obtain rfl := Option.some.inj same
    obtain ⟨waiting, configured⟩ := ready before rfl
    exact ⟨waiting, fun first made => ⟨(configured first made).1, by simpa using (configured first made).2⟩⟩
  | setState state =>
    obtain ⟨before, rfl, same⟩ := Option.map_eq_some_iff.mp head
    obtain rfl := Option.some.inj same
    exact ⟨(ready before rfl).waiting, (ready before rfl).configured⟩

/-- In a run every replica that is attached is told of the values, exactly if each fits. -/
theorem attached_told_iff (qObject : MetaClass) (es : List (Event V)) :
    Admitted (step qObject) (AttachedTold qObject) none es ↔ Admitted (step qObject) attachesFitting none es := by
  refine admitted_iff (P := fun s => ∀ impl, s = some impl → Ready qObject impl) ready_step (fun {s e} ready => ?_) nofun
  cases e with
  | setReplicaImplementation rep properties =>
    exact forall_congr' fun impl => forall_congr' fun first => forall_congr' fun here => forall_congr' fun _ =>
      forall_congr' fun made => told_iff_fits (ready impl here) made
  | _ => exact Iff.rfl

/-- `QObject`, as far as indices go. -/
def exampleQObject : MetaClass where
  signals := 3
  methods := 2
  notifySignals := [some 2]
  notify_lt := by simp

/-- One property, one signal. -/
def exampleReplicaClass : MetaClass where
  signals := 1
  methods := 1
  notifySignals := [some 0]
  notify_lt := by simp

/-- Derived from it, with a signal of its own. -/
def exampleDerived : MetaClass where
  signals := 1
  methods := 0
  notifySignals := []
  notify_lt := by simp

/-- The second replica is of a derived class: its own signal is activated. -/
theorem derived_replica_misled :
    ¬ Admitted (step exampleQObject) (AttachedTold exampleQObject) none
      [.setReplicaImplementation (.typed ⟨exampleReplicaClass, []⟩) [5], .setState .valid,
        .setReplicaImplementation (.typed ⟨exampleReplicaClass, [exampleDerived]⟩) [5]] := by
  intro run
  have told := ((run.2 _ rfl).2 _ rfl).1 _ _ rfl rfl rfl
  obtain ⟨value, _, notified⟩ := told.notified 0 (by decide) 6 (by decide)
  have : Emission.notify 6 0 value ∈ [Emission.initialized, .notify 7 0 5] := notified
  simp at this

end Proofs
end RemoteObjects.Replica.Attached
