import RemoteObjects.Host.Consistent

/-! Whether every source with an object has a child source for each pointer property.
Children are made in the constructor only, and only for an object. -/
namespace RemoteObjects.Host
open RemoteObjects Transition

variable {Obj : Type}

namespace SourceIo

def ChildrenComplete (s : SourceIo Obj) : Prop :=
  ∀ id source, s.source id = some source → source.object ≠ none →
    ∀ key ∈ source.api.keys, ∃ child, s.source (id ++ [key]) = some child

variable {s : SourceIo Obj}

theorem source_resetObject_isSome (classes : Classes Obj) {target : Id} (nonempty : target ≠ []) (newObject : Option Obj)
    (id : Id) : (∃ source, (s.resetObject classes target newObject).source id = some source) ↔
      ∃ source, s.source id = some source := by
  by_cases below : target <+: id
  · obtain ⟨path, rfl⟩ := below
    rw [source_resetObject classes nonempty]
    cases s.source (target ++ path) <;> simp
  · rw [source_resetObject_other classes newObject below]

/-- Only a source that had no object, or gets another api, can miss children after a reset. -/
theorem ChildrenComplete.resetObject_iff (complete : s.ChildrenComplete) (classes : Classes Obj) {target : Id}
    (nonempty : target ≠ []) (newObject : Option Obj) :
    (s.resetObject classes target newObject).ChildrenComplete ↔
      ∀ path source object, s.source (target ++ path) = some source → readPath s.values newObject path = some object →
        source.object = none ∨ source.bare = true ∧ classes.replicaApi object ≠ none →
        ∀ key ∈ (source.resetObject classes (some object)).api.keys,
          ∃ child, s.source (target ++ path ++ [key]) = some child := by
  have some_iff := source_resetObject_isSome (s := s) classes nonempty newObject
  constructor
  · intro completeAfter path source object present read _ key member
    refine (some_iff _).mp (completeAfter (target ++ path) _ ?_ ?_ key member)
    · rw [source_resetObject classes nonempty, present, Option.map_some, read]
    · rw [Source.object_resetObject]
      exact Option.some_ne_none object
  · intro gets id source found held key member
    refine (some_iff _).mpr ?_
    by_cases below : target <+: id
    · obtain ⟨path, rfl⟩ := below
      rw [source_resetObject classes nonempty] at found
      obtain ⟨old, present, rfl⟩ := Option.map_eq_some_iff.mp found
      rw [Source.object_resetObject] at held
      obtain ⟨object, read⟩ := Option.ne_none_iff_exists'.mp held
      rw [read] at member
      by_cases changed : old.object = none ∨ old.bare = true ∧ classes.replicaApi object ≠ none
      · exact gets path old object present read changed key member
      · obtain ⟨had, same⟩ := not_or.mp changed
        rw [Source.api_resetObject classes same] at member
        exact complete (target ++ path) old present had key member
    · rw [source_resetObject_other classes newObject below] at found
      exact complete id source found held key member

variable [DecidableEq Obj]

/-- The constructors make all children of a source with an object. -/
theorem ChildrenComplete.enableRemoting (complete : s.ChildrenComplete) (consistent : s.Consistent) (object : Obj)
    (name : Name) (api : Api) : (s.enableRemoting object name api).ChildrenComplete := by
  have made (path : Id) {key node} (known : api.find (path ++ [key]) = some node)
      (reached : (readPath s.values (some object) path).isSome) :
      ∃ child, (s.enableRemoting object name api).source (s.serial :: (path ++ [key])) = some child := by
    rw [source_enableRemoting_new object name api (List.concat_ne_nil key path)]
    exact ⟨_, (construct_eq_some s.values).mpr ⟨node.1, node.2, known, by rwa [List.dropLast_concat], rfl⟩⟩
  intro id source found held key member
  by_cases new : [s.serial] <+: id
  · obtain ⟨path, rfl⟩ := new
    by_cases root : path = []
    · subst root
      obtain rfl := Option.some.inj ((source_enableRemoting_root object name api).symm.trans found)
      obtain ⟨property, known⟩ := Forest.mem_keys.mp member
      obtain ⟨node, known, _⟩ := Option.map_eq_some_iff.mp known
      exact made [] known rfl
    · rw [List.singleton_append, source_enableRemoting_new object name api root] at found
      obtain ⟨property, below, here, _, rfl⟩ := (construct_eq_some s.values).mp found
      obtain ⟨property, known⟩ := Forest.mem_keys.mp member
      obtain ⟨node, known, _⟩ := Option.map_eq_some_iff.mp known
      have inside : api.find (path ++ [key]) = some node := by
        rw [Forest.find_append, if_neg root, here, Option.bind_some, known]
      exact made path inside (Option.isSome_iff_ne_none.mpr held)
  · rw [source_enableRemoting_other object name api new] at found
    obtain ⟨child, present⟩ := complete id source found held key member
    exact ⟨child, (source_enableRemoting_other object name api (consistent.old_of_source present)).trans present⟩

theorem ChildrenComplete.deleteRoot (complete : s.ChildrenComplete) (number : Nat) :
    (s.deleteRoot number).ChildrenComplete := by
  intro id source found held key member
  rw [source_deleteRoot, Option.filter_eq_some_iff, decide_eq_true_eq] at found
  obtain ⟨present, apart⟩ := found
  obtain ⟨child, here⟩ := complete id source present held key member
  refine ⟨child, ?_⟩
  rw [source_deleteRoot, here, Option.filter_eq_some_iff, decide_eq_true_eq]
  refine ⟨rfl, fun below => apart ?_⟩
  cases id with
  | nil =>
    rw [SourceIo.source, Forest.get_empty] at present
    contradiction
  | cons first rest => simpa using below

/-- A source that stays must not lose a child. -/
theorem ChildrenComplete.destroy_iff (complete : s.ChildrenComplete) (object : Obj) :
    (s.destroy object).ChildrenComplete ↔
      ∀ id source, s.source id = some source → source.object ≠ none → ¬ Hit s.sources object id →
        ∀ key ∈ source.api.keys, ∀ child, s.source (id ++ [key]) = some child → child.object ≠ some object := by
  constructor
  · intro completeAfter id source found held spared key member child present gone
    have stays : (s.destroy object).source id = some source := by
      rw [source_destroy, found]
      simp [spared]
    obtain ⟨child, here⟩ := completeAfter id source stays held key member
    rw [source_destroy, present, Option.filter_eq_some_iff, decide_eq_true_eq] at here
    exact here.2 ((hit_concat (source_eq_some.mp present).1).mpr (.inr gone))
  · intro keeps id source found held key member
    rw [source_destroy, Option.filter_eq_some_iff, decide_eq_true_eq] at found
    obtain ⟨present, spared⟩ := found
    obtain ⟨child, here⟩ := complete id source present held key member
    refine ⟨child, ?_⟩
    rw [source_destroy, here, Option.filter_eq_some_iff, decide_eq_true_eq]
    refine ⟨rfl, fun hit => ?_⟩
    obtain above | own := (hit_concat (source_eq_some.mp here).1).mp hit
    · exact spared above
    · exact keeps id source present held spared key member child here own

end SourceIo

variable [DecidableEq Obj] {classes : Classes Obj} {s : SourceIo Obj} {e : Event Obj}

/-- No source that stays loses a child, and a source that gets its first object, or another
api, has all children. -/
def childrenKept (classes : Classes Obj) (s : SourceIo Obj) : Event Obj → Prop
  | .destroy object =>
    ∀ id source, s.source id = some source → source.object ≠ none → ¬ Hit s.sources object id →
      ∀ key ∈ source.api.keys, ∀ child, s.source (id ++ [key]) = some child → child.object ≠ some object
  | .serializeProperty id i =>
    ∀ newObject, s.resets id i = some newObject → s.Whole (id ++ [i]) →
      ∀ path source object, s.source (id ++ [i] ++ path) = some source →
        readPath s.values newObject path = some object →
        source.object = none ∨ source.bare = true ∧ classes.replicaApi object ≠ none →
        ∀ key ∈ (source.resetObject classes (some object)).api.keys,
          ∃ child, s.source (id ++ [i] ++ path ++ [key]) = some child
  | _ => True

theorem childrenComplete_step (consistent : s.Consistent) (complete : s.ChildrenComplete) :
    (∀ t, step classes s e = some t → t.ChildrenComplete) ↔ childrenKept classes s e := by
  cases e with
  | enableRemoting object name api =>
    refine iff_of_true (fun t stepped => ?_) trivial
    obtain ⟨_, rfl⟩ := step_enableRemoting.mp stepped
    exact complete.enableRemoting consistent object name api
  | disableRemoting object =>
    refine iff_of_true (fun t stepped => ?_) trivial
    obtain ⟨number, _, rfl⟩ := step_disableRemoting.mp stepped
    exact complete.deleteRoot number
  | destroy object =>
    simp only [step, Option.some.injEq, forall_eq']
    exact complete.destroy_iff object
  | setPointer object i value =>
    refine iff_of_true (fun t stepped => ?_) trivial
    obtain rfl := Option.some.inj stepped
    exact complete
  | serializeProperty id i =>
    have gets (newObject : Option Obj) := complete.resetObject_iff classes (List.concat_ne_nil i id) newObject
    constructor
    · intro claimed newObject resets whole
      exact (gets newObject).mp (claimed _ (step_of_resets resets whole))
    · intro kept t stepped
      obtain ⟨newObject, resets, whole, rfl⟩ | ⟨_, rfl⟩ := step_serializeProperty stepped
      · exact (gets newObject).mpr (kept newObject resets whole)
      · exact complete

/-- No child is missing in any state of a run exactly if the steps keep the children. -/
theorem childrenComplete_iff (values : Obj → Nat → Option Obj) (es : List (Event Obj)) :
    Admitted (step classes) (fun s e => ∀ t, step classes s e = some t → t.ChildrenComplete) (.initial values) es ↔
      Admitted (step classes) (childrenKept classes) (.initial values) es := by
  refine admitted_iff_of_kept (P := fun s => s.Consistent ∧ s.ChildrenComplete) ?_ ?_ ⟨.initial values, ?_⟩
  · intro s e t good claimed stepped
    exact ⟨SourceIo.consistent_step good.1 stepped, claimed t stepped⟩
  · intro s e good
    exact childrenComplete_step good.1 good.2
  · intro id source found
    simp [SourceIo.initial, SourceIo.source] at found

/-- A property that was null is set to an object whose type has a pointer property. -/
theorem first_object_misses_child :
    let api : Api := .cons 0 ⟨"x".toList, .CLASS, false, by decide⟩
      (.cons 0 ⟨"p".toList, .CLASS, false, by decide⟩ .nil .nil) .nil
    ∃ t, exec (step ⟨fun _ => false, fun _ => none⟩) (.initial fun (_ : Nat) _ => none)
      [.enableRemoting 0 "A".toList api, .setPointer 0 0 (some 1), .serializeProperty [0] 0] = some t ∧
        ¬ t.ChildrenComplete := by
  intro api
  refine ⟨_, rfl, fun complete => ?_⟩
  obtain ⟨child, found⟩ := complete [0, 0] _ rfl (by decide) 0 (by decide)
  contradiction

end RemoteObjects.Host
