import RemoteObjects.Host.Lookup

/-! What holds of the sources and tables of every host: nested sources are named after
their parents, and the roots that are left are listed. -/
namespace RemoteObjects.Host
open RemoteObjects

variable {Obj : Type}

namespace SourceIo

structure Consistent (s : SourceIo Obj) : Prop where
  numbered : ∀ number path source, s.sources.get (number :: path) = some source → number < s.serial
  nested : ∀ path i source, path ≠ [] → s.sources.get (path ++ [i]) = some source →
    ∃ parent, s.sources.get path = some parent ∧
      source.name = childName source.kind parent.apiName source.apiName ∧ ':' ∉ source.apiName
  listed : ∀ number root, s.source [number] = some root → s.m_sourceRoots root.name = some number
  mapped : ∀ object number, s.m_objectToSourceMap object = some number →
    ∃ root, s.source [number] = some root ∧ root.object = some object

variable {s t : SourceIo Obj}

theorem Consistent.initial (values : Obj → Nat → Option Obj) : (initial values).Consistent where
  numbered _ _ _ found := by simp [SourceIo.initial] at found
  nested _ _ _ _ found := by simp [SourceIo.initial] at found
  listed _ _ found := by simp [SourceIo.initial, source] at found
  mapped _ _ found := by simp [SourceIo.initial] at found

theorem Consistent.old_of_source (consistent : s.Consistent) {id : Id} {source : Source Obj}
    (found : s.source id = some source) : ¬ [s.serial] <+: id := by
  rintro ⟨path, rfl⟩
  exact Nat.lt_irrefl _ (consistent.numbered s.serial path source (source_eq_some.mp found).1)

/-- Sources that keep their names are named after their parents as before. -/
theorem Consistent.aged (consistent : s.Consistent) (serial : t.serial = s.serial)
    (idents : ∀ id, (t.sources.get id).map Source.ident = (s.sources.get id).map Source.ident)
    (listed : ∀ number root, t.source [number] = some root → t.m_sourceRoots root.name = some number)
    (mapped : ∀ object number, t.m_objectToSourceMap object = some number →
      ∃ root, t.source [number] = some root ∧ root.object = some object) : t.Consistent := by
  have before {id source} (found : t.sources.get id = some source) :
      ∃ old, s.sources.get id = some old ∧ old.ident = source.ident := by
    have same := idents id
    rw [found, Option.map_some] at same
    exact Option.map_eq_some_iff.mp same.symm
  have after {id source} (found : s.sources.get id = some source) :
      ∃ new, t.sources.get id = some new ∧ new.ident = source.ident := by
    have same := idents id
    rw [found, Option.map_some] at same
    exact Option.map_eq_some_iff.mp same
  refine ⟨?_, ?_, listed, mapped⟩
  · intro number path source found
    obtain ⟨old, present, _⟩ := before found
    exact serial ▸ consistent.numbered number path old present
  · intro path i source nonempty found
    obtain ⟨old, present, same⟩ := before found
    obtain ⟨parent, above, named, identifier⟩ := consistent.nested path i old nonempty present
    obtain ⟨new, still, sameParent⟩ := after above
    simp only [Source.ident, Prod.mk.injEq] at same sameParent
    obtain ⟨sameName, sameApi, sameKind⟩ := same
    refine ⟨new, still, ?_, ?_⟩
    · rw [← sameName, ← sameApi, ← sameKind, sameParent.2.1]
      exact named
    · exact sameApi ▸ identifier

variable [DecidableEq Obj]

/-- Deleted roots are taken from the tables, and no others. -/
theorem Consistent.withoutRoots (consistent : s.Consistent) (roots : List Nat)
    (live : ∀ number ∈ roots, ∃ root, s.source [number] = some root)
    (sourceRoots : t.m_sourceRoots = (roots.foldl (fun s number => s.deleteRoot number) s).m_sourceRoots)
    (objects : t.m_objectToSourceMap = (roots.foldl (fun s number => s.deleteRoot number) s).m_objectToSourceMap)
    (left : ∀ number, t.source [number] = (s.source [number]).filter fun _ => number ∉ roots) :
    (∀ number root, t.source [number] = some root → t.m_sourceRoots root.name = some number) ∧
      ∀ object number, t.m_objectToSourceMap object = some number →
        ∃ root, t.source [number] = some root ∧ root.object = some object := by
  constructor
  · intro number root found
    rw [left, Option.filter_eq_some_iff, decide_eq_true_eq] at found
    obtain ⟨present, kept⟩ := found
    rw [sourceRoots, deleteRoots_m_sourceRoots]
    refine ⟨consistent.listed number root present, ?_⟩
    intro other member gone there same
    obtain ⟨found, alive⟩ := live other member
    obtain rfl := Option.some.inj ((source_eq_some.mp alive).1.symm.trans there)
    have here := consistent.listed other found alive
    rw [same, consistent.listed number root present] at here
    exact kept (Option.some.inj here ▸ member)
  · intro object number found
    rw [objects, deleteRoots_m_objectToSourceMap] at found
    obtain ⟨found, others⟩ := found
    obtain ⟨root, present, held⟩ := consistent.mapped object number found
    refine ⟨root, ?_, held⟩
    rw [left, present]
    have kept : number ∉ roots := fun member => others number member root (source_eq_some.mp present).1 held
    simp [kept]

theorem Consistent.deleteRoot (consistent : s.Consistent) {object : Obj} {number : Nat}
    (enabled : s.m_objectToSourceMap object = some number) : (s.deleteRoot number).Consistent := by
  obtain ⟨root, present, _⟩ := consistent.mapped object number enabled
  have tables := consistent.withoutRoots (t := s.deleteRoot number) [number] (by simp [present]) rfl rfl (root_deleteRoot number)
  refine consistent.aged ?_ ?_ tables.1 tables.2
  · rw [SourceIo.deleteRoot]
    split <;> rfl
  · intro id
    rw [get_deleteRoot, Option.map_map]
    rfl

theorem Consistent.destroy (consistent : s.Consistent) (object : Obj) : (s.destroy object).Consistent := by
  have tables := consistent.withoutRoots (t := s.destroy object) _ (roots_live object) rfl rfl (root_destroy object)
  refine consistent.aged ?_ ?_ tables.1 tables.2
  · exact deleteRoots_serial _
  · intro id
    rw [get_destroy, Option.map_map]
    rfl

omit [DecidableEq Obj] in
theorem Consistent.resetObject (consistent : s.Consistent) (classes : Classes Obj) {id : Id} (nonempty : id ≠ [])
    (i : Nat) (newObject : Option Obj) : (s.resetObject classes (id ++ [i]) newObject).Consistent := by
  have apart (number : Nat) : ¬ id ++ [i] <+: [number] := by
    intro below
    have short := below.length_le
    have := List.length_pos_of_ne_nil nonempty
    simp only [List.length_append, List.length_singleton] at short
    omega
  refine consistent.aged rfl ?_ ?_ ?_
  · intro other
    by_cases below : id ++ [i] <+: other
    · obtain ⟨path, rfl⟩ := below
      rw [get_resetObject classes (List.concat_ne_nil i id) newObject, Option.map_map]
      exact Option.map_congr fun source _ => source.ident_resetObject classes _
    · rw [get_resetObject_other classes newObject below]
  · intro number root found
    rw [source_resetObject_other classes newObject (apart number)] at found
    exact consistent.listed number root found
  · intro object number found
    obtain ⟨root, present, held⟩ := consistent.mapped object number found
    refine ⟨root, ?_, held⟩
    rw [source_resetObject_other classes newObject (apart number)]
    exact present

/-- The source above a nested source of a new root. -/
theorem above_enableRemoting {object : Obj} {name : Name} {api : Api} {path : Id} {i : Nat}
    {source : Source Obj} (found : (construct s.values name object api).get (path ++ [i]) = some source) :
    ∃ parent, (s.enableRemoting object name api).sources.get (s.serial :: path) = some parent ∧
      parent.apiName = api.parentName name (path ++ [i]) := by
  rw [SourceIo.enableRemoting, Forest.get_cons, if_pos rfl]
  by_cases root : path = []
  · subst root
    exact ⟨_, rfl, by simp [Api.parentName]⟩
  · obtain ⟨parent, above⟩ := Forest.get_of_prefix i [] found root
    obtain ⟨property, below, there, _, rfl⟩ := (construct_eq_some s.values).mp above
    have last : api.parentName name (path ++ [i]) = property.name := by
      rw [Api.parentName, List.dropLast_concat, Forest.get, there]
      rfl
    exact ⟨_, (if_neg root).trans above, last.symm⟩

theorem Consistent.enableRemoting (consistent : s.Consistent) (object : Obj) {name : Name} (api : Api)
    (unlisted : s.m_sourceRoots name = none) : (s.enableRemoting object name api).Consistent where
  numbered number path source found := by
    rw [SourceIo.enableRemoting, Forest.get_cons] at found
    split at found
    · rename_i new
      exact new ▸ Nat.lt_succ_self _
    · exact (consistent.numbered number path source found).trans (Nat.lt_succ_self _)
  nested path i source nonempty found := by
    cases path with
    | nil => contradiction
    | cons number path =>
      rw [SourceIo.enableRemoting, List.cons_append, Forest.get_cons] at found
      simp only [SourceIo.enableRemoting, Forest.get_cons]
      split at found
      · rename_i new
        subst new
        simp only [List.append_eq_nil_iff, List.cons_ne_self, and_false, ↓reduceIte] at found
        obtain ⟨parent, here, same⟩ := above_enableRemoting found
        rw [SourceIo.enableRemoting, Forest.get_cons, if_pos rfl] at here
        obtain ⟨property, below, _, _, rfl⟩ := (construct_eq_some s.values).mp found
        exact ⟨parent, by rw [if_pos rfl, here], by rw [same], property.identifier⟩
      · rename_i old
        rw [if_neg old]
        exact consistent.nested (number :: path) i source nonempty found
  listed number root found := by
    by_cases new : number = s.serial
    · subst new
      rw [source_enableRemoting_root] at found
      obtain rfl := Option.some.inj found
      exact Function.update_self _ _ _
    · rw [source_enableRemoting_other object name api (by simpa [eq_comm] using new)] at found
      have listed := consistent.listed number root found
      have other : root.name ≠ name := by
        rintro rfl
        rw [unlisted] at listed
        contradiction
      exact (Function.update_of_ne other _ _).trans listed
  mapped other number found := by
    simp only [SourceIo.enableRemoting] at found
    by_cases same : other = object
    · subst same
      rw [Function.update_self] at found
      obtain rfl := Option.some.inj found
      exact ⟨_, source_enableRemoting_root other name api, rfl⟩
    · rw [Function.update_of_ne same] at found
      obtain ⟨root, present, held⟩ := consistent.mapped other number found
      have old := consistent.numbered number [] root (source_eq_some.mp present).1
      refine ⟨root, ?_, held⟩
      rw [source_enableRemoting_other object name api (by simpa [eq_comm] using Nat.ne_of_lt old)]
      exact present

theorem consistent_step {classes : Classes Obj} {e : Event Obj} (consistent : s.Consistent)
    (stepped : step classes s e = some t) : t.Consistent := by
  cases e with
  | enableRemoting object name api =>
    obtain ⟨unlisted, rfl⟩ := step_enableRemoting.mp stepped
    exact consistent.enableRemoting object api unlisted
  | disableRemoting object =>
    obtain ⟨number, enabled, rfl⟩ := step_disableRemoting.mp stepped
    exact consistent.deleteRoot enabled
  | destroy object =>
    obtain rfl := Option.some.inj stepped
    exact consistent.destroy object
  | setPointer object i value =>
    obtain rfl := Option.some.inj stepped
    exact consistent.aged rfl (fun _ => rfl) consistent.listed consistent.mapped
  | serializeProperty id i =>
    obtain ⟨newObject, resets, _, rfl⟩ | ⟨_, rfl⟩ := step_serializeProperty stepped
    · refine consistent.resetObject classes ?_ i newObject
      obtain ⟨source, _, _, present, _⟩ := resets_some resets
      rintro rfl
      simp [SourceIo.source] at present
    · exact consistent

end SourceIo
end RemoteObjects.Host
