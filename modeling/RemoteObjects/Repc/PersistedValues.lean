import Mathlib.Logic.Equiv.List
import RemoteObjects.Repc.Signature

/-! The values of a replica's persisted properties: the list that its destructor saves, and what another version of the class makes of
the list that it finds under its name and signature. -/
namespace RemoteObjects.Repc

section Model
variable {sha : Sha1} {V : Type}

/-- A class among the declarations of a file. -/
structure Version (sha : Sha1) where
  types : List SignedType
  c : ASTClass
  declared : .cls c ∈ types

/-- The values in each group of the settings; there are none in a group that was never written. -/
abbrev Settings (sha : Sha1) (V : Type) := QString × Option sha.Digest → List V

def Version.classSignature (v : Version sha) : Option sha.Digest := (signatures sha v.types).find? v.c.name

/-- `repName + '/' + repSig`. -/
def Version.group (v : Version sha) : QString × Option sha.Digest := (v.c.name, v.classSignature)

/-- The assignments in `initialize`: an index of a property and a position in the stored list. -/
def restoreFrom : Nat → Nat → List ASTProperty → List (Nat × Nat)
  | _, _, [] => []
  | i, nPersisted, property :: properties =>
    if property.persisted then (i, nPersisted) :: restoreFrom (i + 1) (nPersisted + 1) properties
    else restoreFrom (i + 1) nPersisted properties

/-- The indices in `persisted << propAsVariant(i)`. -/
def persistFrom : Nat → List ASTProperty → List Nat
  | _, [] => []
  | i, property :: properties =>
    if property.persisted then i :: persistFrom (i + 1) properties else persistFrom (i + 1) properties

/-- The destructor: a class without persisted properties has none of its own. -/
def Version.persist (v : Version sha) [DecidableEq sha.Digest] (propAsVariant : Nat → V) (settings : Settings sha V) : Settings sha V :=
  if v.c.hasPersisted then Function.update settings v.group ((persistFrom 0 v.c.properties).map propAsVariant) else settings

/-- `properties[i] = stored.at(n)`, where nothing is defined behind the end. -/
def assign (stored properties : List V) (assignment : Nat × Nat) : Option (List V) :=
  (stored[assignment.2]?).map (properties.set assignment.1)

def Version.initialize (v : Version sha) (properties : List V) (settings : Settings sha V) : Option (List V) :=
  let stored := settings v.group
  if v.c.hasPersisted ∧ ¬ stored.isEmpty then (restoreFrom 0 0 v.c.properties).foldlM (assign stored) properties
  else some properties

end Model

section Statement
variable {sha : Sha1} [DecidableEq sha.Digest]

/-- Whatever was stored before, and whatever values one version saves, the other one comes to its end and has each of them in the
property of the same name. -/
def Restores (saving restoring : Version sha) : Prop :=
  ∀ (V : Type) (propAsVariant : Nat → V) (properties : List V) (settings : Settings sha V),
    properties.length = restoring.c.properties.length → saving.c.hasPersisted = true →
    ∃ restored, restoring.initialize properties (saving.persist propAsVariant settings) = some restored ∧
      ∀ (i : Nat) (p : ASTProperty), saving.c.properties[i]? = some p → p.persisted = true →
        ∃ (j : Nat) (q : ASTProperty), restoring.c.properties[j]? = some q ∧ q.name = p.name ∧ restored[j]? = some (propAsVariant i)

/-- The names of the values that are saved or restored. -/
def Version.persistedNames (v : Version sha) : List QString :=
  if v.c.hasPersisted then (v.c.properties.filter (·.persisted)).map (·.name) else []

end Statement

section Positions
variable {V : Type} {stored properties restored : List V} {indices : List Nat} {n : Nat}

/-- The persisted properties with their indices. -/
def persistedEntries (properties : List ASTProperty) : List (ASTProperty × Nat) := properties.zipIdx.filter (·.1.persisted)

theorem persistFrom_eq (i : Nat) (properties : List ASTProperty) :
    persistFrom i properties = ((properties.zipIdx i).filter (·.1.persisted)).map Prod.snd := by
  induction properties generalizing i with
  | nil => rfl
  | cons property properties ih => cases persisted : property.persisted <;> simp [persistFrom, persisted, ih]

theorem restoreFrom_eq (i n : Nat) (properties : List ASTProperty) :
    restoreFrom i n properties = (persistFrom i properties).zipIdx n := by
  induction properties generalizing i n with
  | nil => rfl
  | cons property properties ih => cases persisted : property.persisted <;> simp [restoreFrom, persistFrom, persisted, ih]

theorem mem_persistedEntries {properties : List ASTProperty} {p : ASTProperty} {i : Nat} :
    (p, i) ∈ persistedEntries properties ↔ properties[i]? = some p ∧ p.persisted = true := by
  simp [persistedEntries, List.mem_zipIdx_iff_getElem?]

theorem nodup_persistedEntries (properties : List ASTProperty) : ((persistedEntries properties).map Prod.snd).Nodup := by
  have all : (properties.zipIdx.map Prod.snd).Nodup := by simp [List.nodup_range']
  exact all.sublist (List.filter_sublist.map _)

theorem persistedEntries_names (properties : List ASTProperty) :
    (properties.filter (·.persisted)).map (·.name) = (persistedEntries properties).map fun entry => entry.1.name := by
  suffices names : ∀ n, properties.filter (·.persisted) = ((properties.zipIdx n).filter (·.1.persisted)).map Prod.fst by
    rw [persistedEntries, names 0, List.map_map]
    rfl
  induction properties with
  | nil => simp
  | cons property properties ih => intro n; cases persisted : property.persisted <;> simp [persisted, ← ih]

variable (properties) in
/-- Each assignment comes to the property of its index, and leaves the others. -/
theorem foldlM_assign (nodup : indices.Nodup) (enough : n + indices.length ≤ stored.length) :
    ∃ restored, (indices.zipIdx n).foldlM (assign stored) properties = some restored ∧ restored.length = properties.length ∧
      (∀ (k j : Nat), indices[k]? = some j → j < properties.length → restored[j]? = stored[n + k]?) ∧
      ∀ j, j ∉ indices → restored[j]? = properties[j]? := by
  induction indices generalizing n properties with
  | nil => exact ⟨properties, rfl, rfl, nofun, fun _ _ => rfl⟩
  | cons index indices ih =>
    obtain ⟨apart, nodup⟩ := List.nodup_cons.mp nodup
    rw [List.length_cons] at enough
    have inside : n < stored.length := by omega
    have first : assign stored properties (index, n) = some (properties.set index stored[n]) := by simp [assign, inside]
    obtain ⟨restored, done, length, placed, others⟩ :=
      ih (properties.set index stored[n]) nodup (show n + 1 + _ ≤ _ by omega)
    refine ⟨restored, by simpa [first] using done, by simpa using length, fun k j here below => ?_, fun j absent => ?_⟩
    · cases k with
      | zero =>
        obtain rfl : index = j := by simpa using here
        rw [others index apart]
        simp [below, inside]
      | succ k =>
        have later := placed k j (by simpa using here) (by simpa using below)
        rwa [Nat.add_right_comm, Nat.add_assoc] at later
    · obtain ⟨different, absent⟩ : j ≠ index ∧ j ∉ indices := by simpa using absent
      rw [others j absent, List.getElem?_set_ne (Ne.symm different)]

theorem assign_enough (assigned : (indices.zipIdx n).foldlM (assign stored) properties = some restored) (some : indices ≠ []) :
    n + indices.length ≤ stored.length := by
  induction indices generalizing n properties with
  | nil => exact absurd rfl some
  | cons index indices ih =>
    simp only [List.zipIdx_cons, List.foldlM_cons, assign, Option.bind_eq_bind, Option.bind_eq_some_iff, Option.map_eq_some_iff] at assigned
    obtain ⟨next, ⟨value, there, rfl⟩, rest⟩ := assigned
    have bound := (List.getElem?_eq_some_iff.mp there).1
    cases indices with
    | nil => exact bound
    | cons other indices =>
      have later := ih rest (by simp)
      simp only [List.length_cons] at later ⊢
      omega

end Positions

section Main
variable {sha : Sha1} [DecidableEq sha.Digest] {saving restoring : Version sha} {V : Type} {properties restored : List V}

/-- What the destructor leaves in the group that the other version reads. -/
theorem persist_group (propAsVariant : Nat → V) (settings : Settings sha V) (sameName : saving.c.name = restoring.c.name)
    (sameSignature : saving.classSignature = restoring.classSignature) (saves : saving.c.hasPersisted = true) :
    saving.persist propAsVariant settings restoring.group =
      ((persistedEntries saving.c.properties).map Prod.snd).map propAsVariant := by
  have same : saving.group = restoring.group := Prod.ext sameName sameSignature
  simp [Version.persist, saves, same, persistFrom_eq, persistedEntries]

omit [DecidableEq sha.Digest] in
theorem persistedNames_of_saves (saves : saving.c.hasPersisted = true) :
    saving.persistedNames = (persistedEntries saving.c.properties).map fun entry => entry.1.name := by
  rw [Version.persistedNames, if_pos saves, persistedEntries_names]

omit [DecidableEq sha.Digest] in
theorem initialize_of_stored {settings : Settings sha V} {stored : List V} (same : settings restoring.group = stored) (some : stored ≠ []) :
    restoring.initialize properties settings = if restoring.c.hasPersisted then
      (((persistedEntries restoring.c.properties).map Prod.snd).zipIdx).foldlM (assign stored) properties
    else .some properties := by
  simp [ Version.initialize, same, some, restoreFrom_eq, persistFrom_eq, persistedEntries]

theorem restores_of_names (sameName : saving.c.name = restoring.c.name)
    (sameSignature : saving.classSignature = restoring.classSignature)
    (names : saving.persistedNames = [] ∨ saving.persistedNames = restoring.persistedNames) : Restores saving restoring := by
  intro V propAsVariant properties settings length saves
  have stored := persist_group propAsVariant settings sameName sameSignature saves
  rw [persistedNames_of_saves saves] at names
  by_cases none : persistedEntries saving.c.properties = []
  · refine ⟨properties, by simp [ Version.initialize, stored, none], fun i p here persisted => ?_⟩
    have member := mem_persistedEntries.mpr ⟨here, persisted⟩
    simp [none] at member
  · have same := names.resolve_left (by simpa using none)
    have restores : restoring.c.hasPersisted = true := by
      by_contra no
      rw [Version.persistedNames, if_neg no] at same
      exact none (by simpa using same)
    rw [persistedNames_of_saves restores] at same
    have count : (persistedEntries saving.c.properties).length = (persistedEntries restoring.c.properties).length := by
      simpa using congrArg List.length same
    obtain ⟨restored, done, -, placed, -⟩ := foldlM_assign properties
      (nodup_persistedEntries restoring.c.properties)
      (show 0 + _ ≤ (((persistedEntries saving.c.properties).map Prod.snd).map propAsVariant).length by simp [count])
    refine ⟨restored, by rw [initialize_of_stored stored (by simp [none]), if_pos restores]; exact done, fun i p here persisted => ?_⟩
    obtain ⟨k, entry⟩ := List.mem_iff_getElem?.mp (mem_persistedEntries.mpr ⟨here, persisted⟩)
    have named : (persistedEntries restoring.c.properties)[k]?.map (fun entry => entry.1.name) = some p.name := by
      rw [← List.getElem?_map, ← same, List.getElem?_map, entry]
      rfl
    obtain ⟨⟨q, j⟩, entry', name⟩ := Option.map_eq_some_iff.mp named
    have there := (mem_persistedEntries.mp (List.mem_iff_getElem?.mpr ⟨k, entry'⟩)).1
    have below := (List.getElem?_eq_some_iff.mp there).1
    refine ⟨j, q, there, name, ?_⟩
    rw [placed k j (by simp [entry']) (by omega)]
    simp [entry]

/-- The values that are saved are told apart by the indices of their properties, and from what was there. -/
theorem names_of_restores (sameName : saving.c.name = restoring.c.name)
    (sameSignature : saving.classSignature = restoring.classSignature) (saves : saving.c.hasPersisted = true)
    (restores : Restores saving restoring) : saving.persistedNames = [] ∨ saving.persistedNames = restoring.persistedNames := by
  obtain ⟨restored, done, back⟩ := restores (Option Nat) some (List.replicate restoring.c.properties.length none) (fun _ => [])
    List.length_replicate saves
  have stored := persist_group some (fun _ => []) sameName sameSignature saves
  rw [persistedNames_of_saves saves]
  by_cases none : persistedEntries saving.c.properties = []
  · simp [none]
  · right
    have unset (j i : Nat) : (List.replicate restoring.c.properties.length (Option.none : Option Nat))[j]? ≠ some (some i) := by
      simp [List.getElem?_replicate]
    -- One of the values at least is not what was there before.
    obtain ⟨first, entries, begins⟩ := List.exists_cons_of_ne_nil none
    obtain ⟨here, persisted⟩ := mem_persistedEntries.mp (begins ▸ List.mem_cons_self : first ∈ persistedEntries saving.c.properties)
    obtain ⟨j, _, -, -, value⟩ := back _ _ here persisted
    rw [initialize_of_stored stored (by simp [none])] at done
    split at done
    · rename_i restores
      rw [persistedNames_of_saves restores]
      have some' : (persistedEntries restoring.c.properties).map Prod.snd ≠ [] := by
        intro empty
        rw [empty] at done
        exact unset j _ (Option.some.inj done ▸ value)
      have enough := assign_enough done some'
      obtain ⟨restored', done', -, placed, others⟩ := foldlM_assign (List.replicate _ _)
        (nodup_persistedEntries restoring.c.properties) enough
      obtain rfl : restored' = restored := Option.some.inj (done'.symm.trans done)
      have each (k : Nat) (bound : k < (persistedEntries saving.c.properties).length) :
          ((persistedEntries restoring.c.properties).map fun entry => entry.1.name)[k]? =
            ((persistedEntries saving.c.properties).map fun entry => entry.1.name)[k]? := by
        obtain ⟨⟨p, i⟩, entry⟩ : ∃ e, (persistedEntries saving.c.properties)[k]? = some e := ⟨_, List.getElem?_eq_getElem bound⟩
        obtain ⟨here, persisted⟩ := mem_persistedEntries.mp (List.mem_iff_getElem?.mpr ⟨k, entry⟩)
        obtain ⟨j, q, there, name, value⟩ := back i p here persisted
        have inside : j ∈ (persistedEntries restoring.c.properties).map Prod.snd :=
          by_contra fun absent => unset j i (others j absent ▸ value)
        obtain ⟨position, at'⟩ := List.mem_iff_getElem?.mp inside
        have below := (List.getElem?_eq_some_iff.mp there).1
        rw [placed position j at' (by simpa using below)] at value
        have found : ((persistedEntries saving.c.properties).map Prod.snd)[position]? = some i := by simpa using value
        have same : k = position := by
          refine (List.getElem?_inj (by simpa using bound) (nodup_persistedEntries saving.c.properties)).mp ?_
          rw [found]
          simp [entry]
        obtain ⟨⟨q', _⟩, entry', rfl⟩ : ∃ e, (persistedEntries restoring.c.properties)[k]? = some e ∧ e.2 = j := by
          simpa [same] using at'
        have there' := (mem_persistedEntries.mp (List.mem_iff_getElem?.mpr ⟨k, entry'⟩)).1
        obtain rfl := Option.some.inj (there.symm.trans there')
        simp [entry, entry', name]
      refine List.ext_getElem? fun k => ?_
      obtain below | above := Nat.lt_or_ge k (persistedEntries saving.c.properties).length
      · exact (each k below).symm
      · simp only [List.length_map] at enough
        rw [List.getElem?_eq_none (by simpa using above), List.getElem?_eq_none (by simp; omega)]
    · exact absurd (Option.some.inj done ▸ value) (unset j _)

/-- Two versions share a group of the settings. Values come back to the properties they were saved from exactly if there are none, or
both versions persist properties of the same names. -/
theorem restores_iff (sameName : saving.c.name = restoring.c.name) (sameSignature : saving.classSignature = restoring.classSignature) :
    Restores saving restoring ↔ saving.persistedNames = [] ∨ saving.persistedNames = restoring.persistedNames := by
  refine ⟨fun restores => ?_, restores_of_names sameName sameSignature⟩
  by_cases saves : saving.c.hasPersisted = true
  · exact names_of_restores sameName sameSignature saves restores
  · exact .inl (if_neg saves)

end Main

section Example

/-- Digests that are numbers. -/
def numberSha : Sha1 where
  Digest := Nat
  digest input := Encodable.encode (input.map (Sum.map UInt8.toNat id))
  injective := Encodable.encode_injective.comp
    (List.map_injective_iff.mpr (Sum.map_injective.mpr ⟨fun _ _ => UInt8.toNat_inj.mp, Function.injective_id⟩))

instance : DecidableEq numberSha.Digest := inferInstanceAs (DecidableEq Nat)

/-- `class Engine { PROP(int rpm PERSISTED) PROP(int gear) }`, where the second property is persisted or not. -/
def engine (persisted : Bool) : Version numberSha where
  types := [.cls { name := "Engine".toList, hasPersisted := true, properties := [
    { type := "int".toList, name := "rpm".toList, persisted := true }, { type := "int".toList, name := "gear".toList, persisted }] }]
  c := { name := "Engine".toList, hasPersisted := true, properties := [
    { type := "int".toList, name := "rpm".toList, persisted := true }, { type := "int".toList, name := "gear".toList, persisted }] }
  declared := List.mem_singleton_self _

theorem engine_signature : (engine false).classSignature = (engine true).classSignature := by
  have same : (SignedType.cls (engine false).c).signature_impl = (SignedType.cls (engine true).c).signature_impl := by decide
  change some (numberSha.digest (SignedType.fed [] (.cls (engine false).c))) =
    some (numberSha.digest (SignedType.fed [] (.cls (engine true).c)))
  rw [SignedType.fed, SignedType.fed, same]

/-- A version with one persisted property more reads behind the end of the list that the other has saved. -/
theorem engine_not_restored : (engine false).group = (engine true).group ∧ ¬ Restores (engine false) (engine true) := by
  refine ⟨Prod.ext rfl engine_signature, fun restores => ?_⟩
  obtain ⟨restored, done, -⟩ := restores Nat id [0, 0] (fun _ => []) rfl rfl
  have stored : (engine false).persist id (fun _ => []) (engine true).group = [0] := persist_group id _ rfl engine_signature rfl
  rw [initialize_of_stored stored (by decide)] at done
  exact nomatch done

/-- A version restores what it has saved itself. -/
theorem engine_restored : Restores (engine true) (engine true) := (restores_iff rfl rfl).mpr (.inr rfl)

end Example
end RemoteObjects.Repc
