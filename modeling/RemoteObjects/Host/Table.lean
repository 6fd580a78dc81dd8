import RemoteObjects.Host.Consistent

/-! Whether the names a host knows refer to sources that are still there and have an
object. Only roots are ever unregistered. -/
namespace RemoteObjects.Host
open RemoteObjects Transition

variable {Obj : Type}

namespace SourceIo

def TableSound (s : SourceIo Obj) : Prop :=
  ∀ name id, s.m_sourceObjects name = some id → ∃ source, s.source id = some source ∧ source.object ≠ none

variable [DecidableEq Obj] {s t : SourceIo Obj}

/-- Where sources go, their entries have to go with a root of that name. -/
theorem TableSound.gone_iff (sound : s.TableSound) (gone : Id → Prop) [∀ id, Decidable (gone id)] (roots : List Nat)
    (live : ∀ number ∈ roots, ∃ root, s.source [number] = some root)
    (table : t.m_sourceObjects = (roots.foldl (fun s number => s.deleteRoot number) s).m_sourceObjects)
    (left : ∀ id, t.source id = (s.source id).filter fun _ => ¬ gone id) :
    t.TableSound ↔ ∀ name id, s.m_sourceObjects name = some id → gone id →
      ∃ number ∈ roots, ∃ root, s.source [number] = some root ∧ root.name = name := by
  constructor
  · intro soundAfter name id entry dead
    by_contra spared
    have kept : t.m_sourceObjects name = some id := by
      rw [table, deleteRoots_m_sourceObjects]
      refine ⟨entry, fun number member root present named => spared ?_⟩
      obtain ⟨found, alive⟩ := live number member
      obtain rfl := Option.some.inj ((source_eq_some.mp alive).1.symm.trans present)
      exact ⟨number, member, found, alive, named⟩
    obtain ⟨source, found, _⟩ := soundAfter name id kept
    rw [left, Option.filter_eq_some_iff] at found
    simp [dead] at found
  · intro taken name id entry
    rw [table, deleteRoots_m_sourceObjects] at entry
    obtain ⟨entry, spared⟩ := entry
    obtain ⟨source, found, held⟩ := sound name id entry
    refine ⟨source, ?_, held⟩
    have alive : ¬ gone id := by
      intro dead
      obtain ⟨number, member, root, present, named⟩ := taken name id entry dead
      exact spared number member root (source_eq_some.mp present).1 named
    rw [left, found]
    simp [alive]

theorem TableSound.enableRemoting (sound : s.TableSound) (consistent : s.Consistent) (object : Obj) (name : Name)
    (api : Api) : (s.enableRemoting object name api).TableSound := by
  intro known id entry
  obtain ⟨source, member, _⟩ | ⟨_, before⟩ := registered_some entry
  · exact ⟨source, (mem_enabled.mp member).2⟩
  · obtain ⟨source, found, held⟩ := sound known id before
    refine ⟨source, ?_, held⟩
    rw [source_enableRemoting_other object name api (consistent.old_of_source found)]
    exact found

omit [DecidableEq Obj] in
/-- An entry that is not made again must not read as null. -/
theorem TableSound.resetObject_iff (sound : s.TableSound) (classes : Classes Obj) {target : Id} (nonempty : target ≠ [])
    (whole : s.Whole target) (newObject : Option Obj) : (s.resetObject classes target newObject).TableSound ↔
      ∀ name path, s.m_sourceObjects name = some (target ++ path) → readPath s.values newObject path = none →
        ∃ path' source model, s.source (target ++ path') = some source ∧ source.name = name ∧
          readPath s.values newObject path' = some model ∧ classes.isModel model := by
  constructor
  · intro soundAfter name path entry read
    by_contra lost
    obtain ⟨source, found, held⟩ := soundAfter name _ ((resetObject_kept nonempty whole lost).trans entry)
    rw [source_resetObject classes nonempty] at found
    obtain ⟨old, _, rfl⟩ := Option.map_eq_some_iff.mp found
    rw [Source.object_resetObject] at held
    exact held read
  · intro again name id entry
    by_cases renews : s.Renews classes target newObject name
    · obtain ⟨path, old, model, present, _, read, _, last⟩ := resetObject_renewed nonempty whole renews
      obtain rfl := Option.some.inj (last.symm.trans entry)
      refine ⟨_, (source_resetObject classes nonempty newObject path).trans (by rw [present, Option.map_some]), ?_⟩
      rw [Source.object_resetObject, read]
      exact Option.some_ne_none model
    · rw [resetObject_kept nonempty whole renews] at entry
      obtain ⟨source, found, held⟩ := sound name id entry
      by_cases below : target <+: id
      · obtain ⟨path, rfl⟩ := below
        refine ⟨_, (source_resetObject classes nonempty newObject path).trans (by rw [found, Option.map_some]), ?_⟩
        rw [Source.object_resetObject]
        exact fun read => renews (again name path entry read)
      · exact ⟨source, (source_resetObject_other classes newObject below).trans found, held⟩

end SourceIo

variable [DecidableEq Obj] {classes : Classes Obj} {s : SourceIo Obj} {e : Event Obj}

/-- Only names of deleted roots refer to what is deleted, and no name to a source that gets
a null object, unless a model of that name is registered in the same reset. -/
def entriesKept (classes : Classes Obj) (s : SourceIo Obj) : Event Obj → Prop
  | .disableRemoting object =>
    ∀ number, s.m_objectToSourceMap object = some number →
      ∀ name id, s.m_sourceObjects name = some id → [number] <+: id →
        ∃ root, s.source [number] = some root ∧ root.name = name
  | .destroy object =>
    ∀ name id, s.m_sourceObjects name = some id → Hit s.sources object id →
      ∃ number root, s.source [number] = some root ∧ root.object = some object ∧ root.name = name
  | .serializeProperty id i =>
    ∀ newObject, s.resets id i = some newObject → s.Whole (id ++ [i]) →
      ∀ name path, s.m_sourceObjects name = some (id ++ [i] ++ path) → readPath s.values newObject path = none →
        ∃ path' source model, s.source (id ++ [i] ++ path') = some source ∧ source.name = name ∧
          readPath s.values newObject path' = some model ∧ classes.isModel model
  | _ => True

theorem tableSound_step (consistent : s.Consistent) (sound : s.TableSound) :
    (∀ t, step classes s e = some t → t.TableSound) ↔ entriesKept classes s e := by
  cases e with
  | enableRemoting object name api =>
    refine iff_of_true (fun t stepped => ?_) trivial
    obtain ⟨_, rfl⟩ := step_enableRemoting.mp stepped
    exact sound.enableRemoting consistent object name api
  | disableRemoting object =>
    simp only [step_disableRemoting, entriesKept, forall_exists_index, and_imp]
    have kept (number : Nat) (enabled : s.m_objectToSourceMap object = some number) : (s.deleteRoot number).TableSound ↔
        ∀ name id, s.m_sourceObjects name = some id → [number] <+: id →
          ∃ root, s.source [number] = some root ∧ root.name = name := by
      obtain ⟨root, present, _⟩ := consistent.mapped object number enabled
      rw [sound.gone_iff (t := s.deleteRoot number) (fun id => [number] <+: id) [number] (by simp [present]) rfl
        fun _ => SourceIo.source_deleteRoot number]
      simp
    constructor
    · intro claimed number enabled
      exact (kept number enabled).mp (claimed _ number enabled rfl)
    · rintro taken t number enabled rfl
      exact (kept number enabled).mpr (taken number enabled)
  | destroy object =>
    have kept := sound.gone_iff (t := s.destroy object) (Hit s.sources object) _ (SourceIo.roots_live object) rfl
      (fun _ => SourceIo.source_destroy object)
    simp only [step, Option.some.injEq, forall_eq', kept, entriesKept]
    refine forall_congr' fun name => forall_congr' fun id => imp_congr_right fun _ => imp_congr_right fun _ => ?_
    constructor
    · rintro ⟨number, member, root, present, named⟩
      obtain ⟨found, alive, held⟩ := (Option.any_eq_true _ _).mp (List.mem_filter.mp member).2
      obtain rfl := Option.some.inj (alive.symm.trans present)
      exact ⟨number, found, present, of_decide_eq_true held, named⟩
    · rintro ⟨number, root, present, held, named⟩
      refine ⟨number, List.mem_filter.mpr ⟨?_, ?_⟩, root, present, named⟩
      · exact Forest.mem_keys.mpr ⟨root, (SourceIo.source_eq_some.mp present).1⟩
      · exact (Option.any_eq_true _ _).mpr ⟨root, present, decide_eq_true held⟩
  | setPointer object i value =>
    refine iff_of_true (fun t stepped => ?_) trivial
    obtain rfl := Option.some.inj stepped
    exact sound
  | serializeProperty id i =>
    have kept (newObject : Option Obj) (whole : s.Whole (id ++ [i])) :=
      sound.resetObject_iff classes (List.concat_ne_nil i id) whole newObject
    constructor
    · intro claimed newObject resets whole
      exact (kept newObject whole).mp (claimed _ (step_of_resets resets whole))
    · intro again t stepped
      obtain ⟨newObject, resets, whole, rfl⟩ | ⟨_, rfl⟩ := step_serializeProperty stepped
      · exact (kept newObject whole).mpr (again newObject resets whole)
      · exact sound

/-- Every name refers to a living source with an object in every state of a run exactly if
the entries are kept right by each step. -/
theorem tableSound_iff (values : Obj → Nat → Option Obj) (es : List (Event Obj)) :
    Admitted (step classes) (fun s e => ∀ t, step classes s e = some t → t.TableSound) (.initial values) es ↔
      Admitted (step classes) (entriesKept classes) (.initial values) es := by
  refine admitted_iff_of_kept (P := fun s => s.Consistent ∧ s.TableSound) ?_ ?_ ⟨.initial values, ?_⟩
  · intro s e t good claimed stepped
    exact ⟨SourceIo.consistent_step good.1 stepped, claimed t stepped⟩
  · intro s e good
    exact tableSound_step good.1 good.2
  · intro name id entry
    contradiction

/-- A root is disabled that has a nested object. -/
theorem disabled_root_leaves_child :
    let api : Api := .cons 0 ⟨"x".toList, .CLASS, false, by decide⟩ .nil .nil
    let values (object i : Nat) := if object = 0 ∧ i = 0 then some 1 else none
    ∃ t, exec (step ⟨fun _ => false, fun _ => none⟩) (.initial values)
      [.enableRemoting 0 "A".toList api, .disableRemoting 0] = some t ∧ ¬ t.TableSound := by
  intro api values
  refine ⟨_, rfl, fun sound => ?_⟩
  obtain ⟨source, found, _⟩ := sound "Class::A::x".toList [0, 0] rfl
  contradiction

end RemoteObjects.Host
