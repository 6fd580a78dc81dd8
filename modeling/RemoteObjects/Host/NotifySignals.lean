import Mathlib.Data.List.Basic
import RemoteObjects.Host.Sources

/-! The API that is made for the meta object of a source: which property a notify signal belongs to. -/
namespace RemoteObjects.Host

section Model

/-- Of a class: whether it inherits `QAbstractItemModel`. -/
structure PointedClass where
  isModel : Bool
deriving DecidableEq

/-- A property that is a pointer to an object has the meta object of its type, if that is known, and of its value, if
there is one. -/
inductive PropertyType
  | value
  | pointer (propertyMeta child : Option PointedClass)
deriving DecidableEq

structure QMetaProperty where
  name : Name
  type : PropertyType
  notifySignalIndex : Option Nat
deriving DecidableEq

inductive MethodType
  | signal
  | slot
  | method
  | constructor
deriving DecidableEq

/-- Indices start with those of the base classes. -/
structure QMetaObject where
  properties : List QMetaProperty
  propertyOffset : Nat
  methods : List MethodType
  methodOffset : Nat

/-- `DynamicApiMap`, with the properties of its models and subclasses. -/
structure DynamicApiMap where
  m_properties : List Nat
  m_signals : List Nat
  m_methods : List Nat
  m_propertyAssociatedWithSignal : List Nat
  m_models : List Name
  m_subclasses : List Name
deriving DecidableEq

/-- `meta` of a property, missing where neither a value nor the meta object of its type is known. -/
def PropertyType.meta? : PropertyType → Option PointedClass
  | value => none
  | pointer propertyMeta child => child <|> propertyMeta

/-- The loop goes on with the next property at once. -/
def QMetaProperty.skipped (property : QMetaProperty) : Bool :=
  property.type ≠ .value && property.type.meta?.isNone

namespace DynamicApiMap

/-- One property of the first loop, with `invalidSignals`. -/
def addProperty (propOffset i : Nat) (property : QMetaProperty) (made : DynamicApiMap × List Nat) : DynamicApiMap × List Nat :=
  let (api, invalidSignals) := made
  if property.skipped then (api, invalidSignals ++ property.notifySignalIndex.toList)
  else
    let api := match property.type.meta? with
      | none => api
      | some ⟨true⟩ => { api with m_models := api.m_models ++ [property.name] }
      | some ⟨false⟩ => { api with m_subclasses := api.m_subclasses ++ [property.name] }
    let api := { api with m_properties := api.m_properties ++ [i] }
    match property.notifySignalIndex with
    | none => (api, invalidSignals)
    | some notifyIndex =>
      ({ api with
        m_signals := api.m_signals ++ [notifyIndex]
        m_propertyAssociatedWithSignal := api.m_propertyAssociatedWithSignal ++ [i - propOffset] }, invalidSignals)

def addProperties (propOffset : Nat) : Nat → List QMetaProperty → DynamicApiMap × List Nat → DynamicApiMap × List Nat
  | _, [], made => made
  | i, property :: properties, made => addProperties propOffset (i + 1) properties (addProperty propOffset i property made)

/-- The second loop. -/
def addMethods (invalidSignals : List Nat) : Nat → List MethodType → DynamicApiMap → DynamicApiMap
  | _, [], api => api
  | i, .signal :: methods, api =>
    if i ∈ api.m_signals ∨ i ∈ invalidSignals then addMethods invalidSignals (i + 1) methods api
    else addMethods invalidSignals (i + 1) methods { api with m_signals := api.m_signals ++ [i] }
  | i, .slot :: methods, api | i, .method :: methods, api =>
    addMethods invalidSignals (i + 1) methods { api with m_methods := api.m_methods ++ [i] }
  | i, .constructor :: methods, api => addMethods invalidSignals (i + 1) methods api

/-- The constructor. -/
def ofMetaObject (metaObject : QMetaObject) : DynamicApiMap :=
  let (api, invalidSignals) := addProperties metaObject.propertyOffset metaObject.propertyOffset
    (metaObject.properties.drop metaObject.propertyOffset) (⟨[], [], [], [], [], []⟩, [])
  addMethods invalidSignals metaObject.methodOffset (metaObject.methods.drop metaObject.methodOffset) api

variable (api : DynamicApiMap)

/-- An element by an index that is looked at before. -/
def inside (list : List Nat) (index : Int) : Option Nat := if 0 ≤ index then list[index.toNat]? else none

def orMinusOne : Option Nat → Int
  | some index => index
  | none => -1

def propertyCount : Nat := api.m_properties.length

def sourcePropertyIndex (index : Int) : Int := orMinusOne (inside api.m_properties index)

def sourceSignalIndex (index : Int) : Int := orMinusOne (inside api.m_signals index)

def propertyRawIndexFromSignal (index : Int) : Int := orMinusOne (inside api.m_propertyAssociatedWithSignal index)

/-- Nothing where `at` is called with a position behind the end of the list. -/
def propertyIndexFromSignal (index : Int) : Option Int :=
  match inside api.m_propertyAssociatedWithSignal index with
  | some i => api.m_properties[i]?.map Int.ofNat
  | none => some (-1)

end DynamicApiMap
end Model

section Statement
variable (metaObject : QMetaObject)

/-- Where a signal has an internal property index, that is the index of the property with this notify signal. -/
def QMetaObject.AlignedAt (s : Int) : Prop :=
  let api := DynamicApiMap.ofMetaObject metaObject
  0 ≤ api.propertyRawIndexFromSignal s →
    api.propertyRawIndexFromSignal s < api.propertyCount ∧
    api.propertyIndexFromSignal s = some (api.sourcePropertyIndex (api.propertyRawIndexFromSignal s)) ∧
    ∃ i property notifyIndex, api.sourcePropertyIndex (api.propertyRawIndexFromSignal s) = Int.ofNat i ∧
      metaObject.properties[i]? = some property ∧
      property.notifySignalIndex = some notifyIndex ∧ api.sourceSignalIndex s = notifyIndex

/-- The properties of the class itself. -/
def QMetaObject.ownProperties : List QMetaProperty := metaObject.properties.drop metaObject.propertyOffset

/-- No property is skipped before one that is kept and has a notify signal. -/
def QMetaObject.SkipsLast : Prop :=
  ∀ j property, metaObject.ownProperties[j]? = some property → property.skipped = false → property.notifySignalIndex.isSome →
    ∀ earlier ∈ metaObject.ownProperties.take j, earlier.skipped = false

end Statement

section Kept
variable {properties : List QMetaProperty} {property : QMetaProperty} {start j m n : Nat}

/-- The properties that are not skipped, with their numbers. -/
def kept : Nat → List QMetaProperty → List (Nat × QMetaProperty)
  | _, [] => []
  | j, property :: properties => if property.skipped then kept (j + 1) properties else (j, property) :: kept (j + 1) properties

/-- The notify signal of a property that is kept, with the property's number. -/
def notifying (entry : Nat × QMetaProperty) : Option (Nat × Nat) :=
  entry.2.notifySignalIndex.map fun notifyIndex => (notifyIndex, entry.1)

/-- A property has as many before it among those that are kept as are kept of those before it. -/
theorem kept_getElem? : (kept start properties)[m]? = some (j, property) ↔
    start ≤ j ∧ properties[j - start]? = some property ∧ property.skipped = false ∧
      (properties.take (j - start)).countP (fun earlier => !earlier.skipped) = m := by
  induction properties generalizing start m with
  | nil => simp [kept]
  | cons first properties ih =>
    rw [kept]
    by_cases here : j = start
    · subst here
      split
      · rename_i skipped
        simp only [ih, Nat.sub_self, List.getElem?_cons_zero, List.take_zero, List.countP_nil, Option.some.injEq]
        constructor
        · intro ⟨later, _⟩
          omega
        · rintro ⟨_, rfl, unskipped, _⟩
          rw [skipped] at unskipped
          contradiction
      · rename_i unskipped
        cases m with
        | zero =>
          simp only [List.getElem?_cons_zero, Option.some.injEq, Prod.mk.injEq, Nat.sub_self, List.take_zero, List.countP_nil,
            and_true, true_and, Nat.le_refl]
          refine ⟨?_, fun ⟨same, _⟩ => same⟩
          rintro rfl
          exact ⟨rfl, Bool.not_eq_true _ ▸ unskipped⟩
        | succ m =>
          simp only [List.getElem?_cons_succ, ih, Nat.sub_self, List.take_zero, List.countP_nil]
          constructor
          · intro ⟨later, _⟩
            omega
          · rintro ⟨_, _, _, none⟩
            omega
    · have behind (least : start ≤ j) : j - start = (j - (start + 1)) + 1 := by omega
      have order : start ≤ j ↔ start + 1 ≤ j := by omega
      split
      · rename_i skipped
        rw [ih, ← order]
        refine and_congr_right fun least => ?_
        rw [behind least, List.getElem?_cons_succ, List.take_succ_cons, List.countP_cons_of_neg (by simp [skipped])]
      · rename_i unskipped
        have count (tail : List QMetaProperty) : (first :: tail).countP (fun earlier => !earlier.skipped) =
            tail.countP (fun earlier => !earlier.skipped) + 1 := List.countP_cons_of_pos (by simp [unskipped])
        cases m with
        | zero =>
          refine iff_of_false (fun same => ?_) ?_
          · exact here (Prod.mk.inj (Option.some.inj same)).1.symm
          · rintro ⟨least, _, _, first⟩
            rw [behind least, List.take_succ_cons, count] at first
            contradiction
        | succ m =>
          rw [List.getElem?_cons_succ, ih, ← order]
          refine and_congr_right fun least => ?_
          rw [behind least, List.getElem?_cons_succ, List.take_succ_cons, count, Nat.add_right_cancel_iff]

end Kept

section Lists
variable {propOffset i j : Nat} {properties : List QMetaProperty} {api : DynamicApiMap} {invalidSignals : List Nat}

/-- What one property adds to the lists. -/
theorem addProperty_lists (propOffset j : Nat) (property : QMetaProperty) (api : DynamicApiMap) (invalidSignals : List Nat) :
    let next := (DynamicApiMap.addProperty propOffset (propOffset + j) property (api, invalidSignals)).1
    let entries := kept j [property]
    next.m_properties = api.m_properties ++ entries.map (propOffset + ·.1) ∧
      next.m_signals = api.m_signals ++ (entries.filterMap notifying).map Prod.fst ∧
      next.m_propertyAssociatedWithSignal = api.m_propertyAssociatedWithSignal ++ (entries.filterMap notifying).map Prod.snd := by
  dsimp only
  rw [DynamicApiMap.addProperty, kept, kept]
  dsimp only
  split
  · simp
  · cases notify : property.notifySignalIndex with
    | none =>
      rcases property.type.meta? with _ | ⟨_ | _⟩ <;> simp [notifying, notify]
    | some notifyIndex =>
      rcases property.type.meta? with _ | ⟨_ | _⟩ <;> simp [notifying, notify]

theorem kept_cons (j : Nat) (property : QMetaProperty) (properties : List QMetaProperty) :
    kept j (property :: properties) = kept j [property] ++ kept (j + 1) properties := by
  rw [kept, kept, kept]
  split <;> rfl

/-- What the first loop adds to the lists. -/
theorem addProperties_lists (propOffset j : Nat) (properties : List QMetaProperty) (made : DynamicApiMap × List Nat) :
    let next := (DynamicApiMap.addProperties propOffset (propOffset + j) properties made).1
    let entries := kept j properties
    next.m_properties = made.1.m_properties ++ entries.map (propOffset + ·.1) ∧
      next.m_signals = made.1.m_signals ++ (entries.filterMap notifying).map Prod.fst ∧
      next.m_propertyAssociatedWithSignal =
        made.1.m_propertyAssociatedWithSignal ++ (entries.filterMap notifying).map Prod.snd := by
  induction properties generalizing j made with
  | nil => simp [DynamicApiMap.addProperties, kept]
  | cons property properties ih =>
    obtain ⟨api, invalidSignals⟩ := made
    obtain ⟨own, signals, associated⟩ :=
      ih (j + 1) (DynamicApiMap.addProperty propOffset (propOffset + j) property (api, invalidSignals))
    obtain ⟨own', signals', associated'⟩ := addProperty_lists propOffset j property api invalidSignals
    dsimp only at own signals associated own' signals' associated' ⊢
    rw [DynamicApiMap.addProperties, kept_cons, List.filterMap_append, List.map_append, List.map_append, List.map_append]
    exact ⟨by rw [Nat.add_assoc, own, own', List.append_assoc], by rw [Nat.add_assoc, signals, signals', List.append_assoc],
      by rw [Nat.add_assoc, associated, associated', List.append_assoc]⟩

/-- The second loop adds signals behind those that are there. -/
theorem addMethods_lists (invalidSignals : List Nat) (i : Nat) (methods : List MethodType) (api : DynamicApiMap) :
    let next := DynamicApiMap.addMethods invalidSignals i methods api
    next.m_properties = api.m_properties ∧ api.m_signals <+: next.m_signals ∧
      next.m_propertyAssociatedWithSignal = api.m_propertyAssociatedWithSignal := by
  dsimp only
  fun_induction DynamicApiMap.addMethods invalidSignals i methods api with
  | case1 => exact ⟨rfl, List.prefix_rfl, rfl⟩
  | case2 i methods api known ih => exact ih
  | case3 i methods api new ih => exact ⟨ih.1, (List.prefix_append _ _).trans ih.2.1, ih.2.2⟩
  | case4 i methods api ih => exact ih
  | case5 i methods api ih => exact ih
  | case6 i methods api ih => exact ih

/-- The lists of an API by the properties that are kept. -/
theorem ofMetaObject_lists (metaObject : QMetaObject) :
    let api := DynamicApiMap.ofMetaObject metaObject
    let entries := kept 0 metaObject.ownProperties
    api.m_properties = entries.map (metaObject.propertyOffset + ·.1) ∧
      (entries.filterMap notifying).map Prod.fst <+: api.m_signals ∧
      api.m_propertyAssociatedWithSignal = (entries.filterMap notifying).map Prod.snd := by
  obtain ⟨own, signals, associated⟩ :=
    addProperties_lists metaObject.propertyOffset 0 metaObject.ownProperties (⟨[], [], [], [], [], []⟩, [])
  dsimp only [Nat.add_zero] at own signals associated ⊢
  rw [List.nil_append] at own signals associated
  obtain ⟨same, more, same'⟩ := addMethods_lists _ metaObject.methodOffset (metaObject.methods.drop metaObject.methodOffset)
    (DynamicApiMap.addProperties metaObject.propertyOffset metaObject.propertyOffset metaObject.ownProperties
      (⟨[], [], [], [], [], []⟩, [])).1
  exact ⟨same.trans own, signals ▸ more, same'.trans associated⟩

end Lists

section Main
variable {metaObject : QMetaObject} {property other : QMetaProperty} {j k : Nat}

theorem take_all (all : ∀ earlier ∈ metaObject.ownProperties.take j, earlier.skipped = false)
    (here : metaObject.ownProperties[j]? = some property) :
    (metaObject.ownProperties.take j).countP (fun earlier => !earlier.skipped) = j := by
  obtain ⟨inside, _⟩ := List.getElem?_eq_some_iff.mp here
  rw [List.countP_eq_length.mpr fun earlier member => by rw [all earlier member]; rfl, List.length_take]
  omega

/-- A property that is kept has at least its number among them behind it, and more where one is skipped. -/
theorem number_lt (at' : (kept 0 metaObject.ownProperties)[j]? = some (k, other))
    (some' : ∃ earlier ∈ metaObject.ownProperties.take j, earlier.skipped = true) : j < k := by
  obtain ⟨_, _, _, count⟩ := kept_getElem?.mp at'
  rw [Nat.sub_zero] at count
  have atMost := List.countP_le_length (l := metaObject.ownProperties.take k) (p := fun earlier => !earlier.skipped)
  rw [List.length_take, count] at atMost
  refine Nat.lt_of_le_of_ne (Nat.le_trans atMost (Nat.min_le_left _ _)) ?_
  rintro rfl
  have whole : (metaObject.ownProperties.take j).countP (fun earlier => !earlier.skipped) = (metaObject.ownProperties.take j).length := by
    have bound := List.length_take_le j metaObject.ownProperties
    have least := List.countP_le_length (l := metaObject.ownProperties.take j) (p := fun earlier => !earlier.skipped)
    omega
  obtain ⟨earlier, member, skipped⟩ := some'
  have unskipped := List.countP_eq_length.mp whole earlier member
  rw [skipped] at unskipped
  contradiction

theorem kept_property (at' : (kept 0 metaObject.ownProperties)[j]? = some (k, other)) :
    metaObject.properties[metaObject.propertyOffset + k]? = some other := by
  obtain ⟨_, here, _⟩ := kept_getElem?.mp at'
  rwa [Nat.sub_zero, QMetaObject.ownProperties, List.getElem?_drop] at here

/-- A signal that notifies of the property with the number `j`: that number is used as an index in the list of those that
are kept. -/
theorem alignedAt_iff {s notifyIndex : Nat}
    (entry : ((kept 0 metaObject.ownProperties).filterMap notifying)[s]? = some (notifyIndex, j)) :
    metaObject.AlignedAt s ↔
      ∃ k other, (kept 0 metaObject.ownProperties)[j]? = some (k, other) ∧ other.notifySignalIndex = some notifyIndex := by
  obtain ⟨own, ⟨later, signals⟩, associated⟩ := ofMetaObject_lists metaObject
  have index : (DynamicApiMap.ofMetaObject metaObject).m_propertyAssociatedWithSignal[s]? = some j := by
    rw [associated, List.getElem?_map, entry, Option.map_some]
  have signal : (DynamicApiMap.ofMetaObject metaObject).m_signals[s]? = some notifyIndex := by
    obtain ⟨inside, _⟩ := List.getElem?_eq_some_iff.mp entry
    rw [← signals, List.getElem?_append_left (by simpa using inside), List.getElem?_map, entry, Option.map_some]
  have raw : (DynamicApiMap.ofMetaObject metaObject).propertyRawIndexFromSignal s = j := by
    rw [DynamicApiMap.propertyRawIndexFromSignal, DynamicApiMap.inside, if_pos (Int.natCast_nonneg s), Int.toNat_natCast, index]
    rfl
  have source : (DynamicApiMap.ofMetaObject metaObject).sourceSignalIndex s = notifyIndex := by
    rw [DynamicApiMap.sourceSignalIndex, DynamicApiMap.inside, if_pos (Int.natCast_nonneg s), Int.toNat_natCast, signal]
    rfl
  unfold QMetaObject.AlignedAt
  dsimp only
  rw [raw, source, DynamicApiMap.propertyIndexFromSignal, DynamicApiMap.inside, if_pos (Int.natCast_nonneg s),
    Int.toNat_natCast, index, DynamicApiMap.sourcePropertyIndex, DynamicApiMap.inside, if_pos (Int.natCast_nonneg j),
    Int.toNat_natCast, DynamicApiMap.propertyCount, own, List.length_map]
  dsimp only
  rw [List.getElem?_map]
  cases at' : (kept 0 metaObject.ownProperties)[j]? with
  | none =>
    have outside := List.getElem?_eq_none_iff.mp at'
    refine iff_of_false (fun aligned => ?_) (fun ⟨_, _, absent, _⟩ => nomatch absent)
    have inside := (aligned (Int.natCast_nonneg j)).1
    omega
  | some found =>
    obtain ⟨inside, _⟩ := List.getElem?_eq_some_iff.mp at'
    have property := kept_property at'
    constructor
    · intro aligned
      obtain ⟨_, _, i, other, _, same, here, notifies, signal⟩ := aligned (Int.natCast_nonneg j)
      obtain rfl := Int.ofNat.inj signal
      obtain rfl : metaObject.propertyOffset + found.1 = i := Int.ofNat.inj same
      exact ⟨found.1, found.2, rfl, (Option.some.inj (here.symm.trans property)) ▸ notifies⟩
    · rintro ⟨k, other, same, notifies⟩ _
      cases same
      exact ⟨Int.ofNat_lt.mpr inside, rfl, _, other, notifyIndex, rfl, property, notifies, rfl⟩

/-- An index that is no position of a signal in front has no internal property index. -/
theorem alignedAt_other {s : Int}
    (other : ∀ n : Nat, s = n → ((kept 0 metaObject.ownProperties).filterMap notifying)[n]? = none) : metaObject.AlignedAt s := by
  intro some'
  obtain ⟨_, _, associated⟩ := ofMetaObject_lists metaObject
  have none : (DynamicApiMap.ofMetaObject metaObject).propertyRawIndexFromSignal s = -1 := by
    rw [DynamicApiMap.propertyRawIndexFromSignal, DynamicApiMap.inside]
    split
    · rename_i positive
      rw [associated, List.getElem?_map, other _ (Int.toNat_of_nonneg positive).symm]
      rfl
    · rfl
  omega

theorem mem_notifying {s notifyIndex : Nat}
    (entry : ((kept 0 metaObject.ownProperties).filterMap notifying)[s]? = some (notifyIndex, j)) :
    ∃ property, metaObject.ownProperties[j]? = some property ∧ property.skipped = false ∧
      property.notifySignalIndex = some notifyIndex := by
  obtain ⟨⟨number, property⟩, member, same⟩ := List.mem_filterMap.mp (List.mem_of_getElem? entry)
  obtain ⟨_, notifies, rfl, rfl⟩ : ∃ n, property.notifySignalIndex = some n ∧ n = notifyIndex ∧ number = j := by
    simpa [notifying] using same
  obtain ⟨m, at'⟩ := List.mem_iff_getElem?.mp member
  obtain ⟨_, here, unskipped, _⟩ := kept_getElem?.mp at'
  exact ⟨property, here, unskipped, notifies⟩

theorem notifying_mem {notifyIndex : Nat} (here : metaObject.ownProperties[j]? = some property)
    (unskipped : property.skipped = false) (notifies : property.notifySignalIndex = some notifyIndex) :
    ∃ s : Nat, ((kept 0 metaObject.ownProperties).filterMap notifying)[s]? = some (notifyIndex, j) := by
  have member : (j, property) ∈ kept 0 metaObject.ownProperties :=
    List.mem_of_getElem? (kept_getElem?.mpr ⟨Nat.zero_le j, here, unskipped, rfl⟩)
  exact List.mem_iff_getElem?.mp (List.mem_filterMap.mpr ⟨_, member, by rw [notifying, notifies]; rfl⟩)

/-- Each signal belongs to its property exactly if nothing is skipped before a property that has a notify signal. The
property in whose place a wrong one is found stands behind it and would be wrong, too, and so on to the last. -/
theorem aligned_iff_skipsLast (metaObject : QMetaObject) : (∀ s, metaObject.AlignedAt s) ↔ metaObject.SkipsLast := by
  constructor
  · intro aligned
    have upwards : ∀ rest j property, metaObject.ownProperties.length - j = rest → metaObject.ownProperties[j]? = some property →
        property.skipped = false → property.notifySignalIndex.isSome →
        ¬ ∃ earlier ∈ metaObject.ownProperties.take j, earlier.skipped = true := by
      intro rest
      induction rest using Nat.strongRecOn with
      | ind rest ih =>
        intro j property length here unskipped notified skips
        obtain ⟨notifyIndex, notifies⟩ := Option.isSome_iff_exists.mp notified
        obtain ⟨s, entry⟩ := notifying_mem here unskipped notifies
        obtain ⟨k, other, at', same⟩ := (alignedAt_iff entry).mp (aligned s)
        have behind := number_lt at' skips
        obtain ⟨_, there, kept', _⟩ := kept_getElem?.mp at'
        obtain ⟨inside, _⟩ := List.getElem?_eq_some_iff.mp here
        obtain ⟨earlier, member, skipped⟩ := skips
        have later := (List.take_subset_take_left metaObject.ownProperties (Nat.le_of_lt behind)) member
        exact ih _ (by omega) k other rfl there kept' (by rw [same]; rfl) ⟨earlier, later, skipped⟩
    intro j property here unskipped notified earlier member
    exact Bool.eq_false_iff.mpr fun skipped => upwards _ j property rfl here unskipped notified ⟨earlier, member, skipped⟩
  · intro last s
    by_cases front : ∃ n : Nat, s = n ∧ ((kept 0 metaObject.ownProperties).filterMap notifying)[n]?.isSome
    · obtain ⟨n, rfl, found⟩ := front
      obtain ⟨⟨notifyIndex, j⟩, entry⟩ := Option.isSome_iff_exists.mp found
      obtain ⟨property, here, unskipped, notifies⟩ := mem_notifying entry
      have all := last j property here unskipped (by rw [notifies]; rfl)
      exact (alignedAt_iff entry).mpr
        ⟨j, property, kept_getElem?.mpr ⟨Nat.zero_le j, here, unskipped, take_all all here⟩, notifies⟩
    · refine alignedAt_other fun n same => Option.not_isSome_iff_eq_none.mp fun found => front ⟨n, same, found⟩

end Main

section Example

/-- `Q_PROPERTY(Child *child)` without a value, of a pointer type without a meta object, and
`Q_PROPERTY(int count NOTIFY countChanged)`. -/
def unknownChild : QMetaObject where
  properties :=
    [⟨"objectName".toList, .value, some 2⟩, ⟨"child".toList, .pointer none none, none⟩, ⟨"count".toList, .value, some 5⟩]
  propertyOffset := 1
  methods := [.signal, .signal, .signal, .slot, .slot, .signal]
  methodOffset := 5

/-- The internal index of `count` is 1 in a list with one property. -/
theorem unknownChild_not_aligned : ¬ ∀ s, unknownChild.AlignedAt s := by
  intro aligned
  have inside := (aligned 0 (by decide)).1
  contradiction

end Example
end RemoteObjects.Host
