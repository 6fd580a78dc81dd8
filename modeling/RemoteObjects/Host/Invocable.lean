import RemoteObjects.Host.Consistent

/-! Whether every source with an object is found by its name. Sources are registered when
they are made for an object, and again when they are reset to an item model. -/
namespace RemoteObjects.Host
open RemoteObjects Transition

variable {Obj : Type}

/-- The name of the source that a new root has for a property with an object, or of the
root itself. -/
def Api.activeName (values : Obj → Nat → Option Obj) (object : Obj) (name : Name) (api : Api) (path : List Nat) :
    Option Name :=
  if path = [] then some name
  else if (readPath values (some object) path).isSome then
    (api.get path).map fun property => childName property.kind (api.parentName name path) property.name
  else none

namespace SourceIo
variable (s : SourceIo Obj)

def LiveInvocable : Prop :=
  ∀ id source, s.source id = some source → source.object ≠ none → s.m_sourceObjects source.name = some id

/-- The object of a source when the one at the target has been reset. -/
def heldAfter (target : Id) (newObject : Option Obj) (id : Id) (source : Source Obj) : Option Obj :=
  if target <+: id then readPath s.values newObject (id.drop target.length) else source.object

/-- Sources of a new root with an object are named unlike each other and all others. -/
structure RootFits (object : Obj) (name : Name) (api : Api) : Prop where
  own : ∀ path path' known, api.activeName s.values object name path = some known →
    api.activeName s.values object name path' = some known → path = path'
  others : ∀ path known id source, api.activeName s.values object name path = some known →
    s.source id = some source → source.object ≠ none → source.name ≠ known

/-- A reset registers no name twice, and sets no source to its first object that is not
registered yet, unless the object is an item model. -/
structure ResetFits (classes : Classes Obj) (target : Id) (newObject : Option Obj) : Prop where
  models : ∀ path source model, s.source (target ++ path) = some source → readPath s.values newObject path = some model →
    classes.isModel model → ∀ id other, s.source id = some other → s.heldAfter target newObject id other ≠ none →
      other.name = source.name → id = target ++ path
  first : ∀ path source object, s.source (target ++ path) = some source → source.object = none →
    readPath s.values newObject path = some object → classes.isModel object = false →
      s.m_sourceObjects source.name = some (target ++ path)

variable {s} {t : SourceIo Obj}

theorem heldAfter_below (target : Id) (newObject : Option Obj) (path : Id) (source : Source Obj) :
    s.heldAfter target newObject (target ++ path) source = readPath s.values newObject path := by
  rw [heldAfter, if_pos (List.prefix_append target path), List.drop_left]

/-- The sources with an object after a reset. -/
theorem active_resetObject (classes : Classes Obj) {target : Id} (nonempty : target ≠ []) (newObject : Option Obj)
    {id : Id} {name : Name} :
    (∃ source, (s.resetObject classes target newObject).source id = some source ∧ source.object ≠ none ∧
        source.name = name) ↔
      ∃ source, s.source id = some source ∧ s.heldAfter target newObject id source ≠ none ∧ source.name = name := by
  by_cases below : target <+: id
  · obtain ⟨path, rfl⟩ := below
    simp only [source_resetObject classes nonempty, heldAfter_below, Option.map_eq_some_iff]
    constructor
    · rintro ⟨_, ⟨source, present, rfl⟩, held, named⟩
      rw [Source.object_resetObject] at held
      rw [Source.name_resetObject] at named
      exact ⟨source, present, held, named⟩
    · rintro ⟨source, present, held, named⟩
      refine ⟨_, ⟨source, present, rfl⟩, ?_, ?_⟩
      · rwa [Source.object_resetObject]
      · rwa [Source.name_resetObject]
  · simp only [source_resetObject_other classes newObject below, heldAfter, if_neg below]

/-- A source that is found after the reset is the only one of its name that is registered. -/
theorem LiveInvocable.resetFits {classes : Classes Obj} {target : Id} {newObject : Option Obj} (nonempty : target ≠ [])
    (whole : s.Whole target) (after : (s.resetObject classes target newObject).LiveInvocable) :
    s.ResetFits classes target newObject := by
  have entry {id source} (present : s.source id = some source)
      (held : s.heldAfter target newObject id source ≠ none) :
      (s.resetObject classes target newObject).m_sourceObjects source.name = some id := by
    obtain ⟨new, found, object, named⟩ :=
      (active_resetObject classes nonempty newObject).mpr ⟨source, present, held, rfl⟩
    rw [← named]
    exact after id new found object
  constructor
  · intro path source model present read _ id other found held same
    have own := entry present (by rw [heldAfter_below, read]; exact Option.some_ne_none model)
    rw [← same, entry found held] at own
    exact Option.some.inj own
  · intro path source object present _ read plain
    have own := entry present (by rw [heldAfter_below, read]; exact Option.some_ne_none object)
    by_cases renews : s.Renews classes target newObject source.name
    · obtain ⟨path', _, model, _, _, read', isModel, last⟩ := resetObject_renewed nonempty whole renews
      rw [own, Option.some.injEq] at last
      rw [← List.append_cancel_left last, read, Option.some.injEq] at read'
      rw [← read', plain] at isModel
      contradiction
    · rwa [resetObject_kept nonempty whole renews] at own

theorem ResetFits.liveInvocable {classes : Classes Obj} {target : Id} {newObject : Option Obj}
    (fit : s.ResetFits classes target newObject) (invocable : s.LiveInvocable) (nonempty : target ≠ [])
    (whole : s.Whole target) : (s.resetObject classes target newObject).LiveInvocable := by
  intro id source found held
  obtain ⟨old, present, reads, named⟩ :=
    (active_resetObject classes nonempty newObject).mp ⟨source, found, held, rfl⟩
  rw [← named]
  by_cases renews : s.Renews classes target newObject old.name
  · obtain ⟨path, other, model, there, same, read, isModel, entry⟩ := resetObject_renewed nonempty whole renews
    rw [fit.models path other model there read isModel id old present reads same.symm]
    exact entry
  · rw [resetObject_kept nonempty whole renews]
    by_cases had : old.object = none
    · by_cases below : target <+: id
      · obtain ⟨path, rfl⟩ := below
        rw [heldAfter_below] at reads
        obtain ⟨object, read⟩ := Option.ne_none_iff_exists'.mp reads
        refine fit.first path old object present had read (eq_false_of_ne_true fun model => renews ?_)
        exact ⟨path, old, object, present, rfl, read, model⟩
      · rw [heldAfter, if_neg below] at reads
        exact absurd had reads
    · exact invocable id old present had

theorem LiveInvocable.resetObject_iff (invocable : s.LiveInvocable) (classes : Classes Obj) {target : Id}
    (nonempty : target ≠ []) (whole : s.Whole target) (newObject : Option Obj) :
    (s.resetObject classes target newObject).LiveInvocable ↔ s.ResetFits classes target newObject :=
  ⟨LiveInvocable.resetFits nonempty whole, fun fit => fit.liveInvocable invocable nonempty whole⟩

variable [DecidableEq Obj]

/-- The name of a deleted root is not the name of another source with an object. -/
theorem LiveInvocable.withoutRoots (invocable : s.LiveInvocable) (gone : Id → Prop) [∀ id, Decidable (gone id)]
    (roots : List Nat) (live : ∀ number ∈ roots, ∃ root, s.source [number] = some root ∧ root.object ≠ none)
    (members : ∀ number ∈ roots, gone [number])
    (table : t.m_sourceObjects = (roots.foldl (fun s number => s.deleteRoot number) s).m_sourceObjects)
    (left : ∀ id, t.source id = (s.source id).filter fun _ => ¬ gone id) : t.LiveInvocable := by
  intro id source found held
  rw [left, Option.filter_eq_some_iff, decide_eq_true_eq] at found
  obtain ⟨present, spared⟩ := found
  have entry := invocable id source present held
  rw [table, deleteRoots_m_sourceObjects]
  refine ⟨entry, fun number member root there named => ?_⟩
  obtain ⟨found, alive, active⟩ := live number member
  obtain rfl := Option.some.inj ((source_eq_some.mp alive).1.symm.trans there)
  have same := invocable [number] found alive active
  rw [named, entry] at same
  exact spared (Option.some.inj same ▸ members number member)

theorem active_enableRemoting {object : Obj} {name known : Name} {api : Api} {path : Id} :
    api.activeName s.values object name path = some known ↔
      ∃ source, (s.enableRemoting object name api).source (s.serial :: path) = some source ∧
        source.object ≠ none ∧ source.name = known := by
  rw [Api.activeName]
  by_cases root : path = []
  · subst root
    simp [source_enableRemoting_root]
  · rw [if_neg root, source_enableRemoting_new object name api root]
    obtain ⟨front, i, rfl⟩ : ∃ front i, path = front ++ [i] :=
      ⟨path.dropLast, path.getLast root, (List.dropLast_append_getLast root).symm⟩
    constructor
    · intro active
      split at active
      · rename_i read
        obtain ⟨property, here, named⟩ := Option.map_eq_some_iff.mp active
        obtain ⟨node, there, rfl⟩ := Option.map_eq_some_iff.mp here
        obtain ⟨object', last⟩ := Option.isSome_iff_exists.mp read
        rw [readPath_concat] at last
        obtain ⟨above, reached, _⟩ := Option.bind_eq_some_iff.mp last
        refine ⟨_, (construct_eq_some s.values).mpr ⟨node.1, node.2, there, ?_, rfl⟩, ?_, named⟩
        · rw [List.dropLast_concat, reached]
          rfl
        · exact Option.isSome_iff_ne_none.mp read
      · contradiction
    · rintro ⟨source, found, held, named⟩
      obtain ⟨property, below, here, _, rfl⟩ := (construct_eq_some s.values).mp found
      have known : api.get (front ++ [i]) = some property := by rw [Forest.get, here, Option.map_some]
      rw [if_pos (Option.isSome_iff_ne_none.mpr held), known, Option.map_some, ← named]

theorem LiveInvocable.enableRemoting_iff (invocable : s.LiveInvocable) (consistent : s.Consistent) (object : Obj)
    (name : Name) (api : Api) :
    (s.enableRemoting object name api).LiveInvocable ↔ s.RootFits object name api := by
  have old {id source} (found : s.source id = some source) :
      (s.enableRemoting object name api).source id = some source :=
    (source_enableRemoting_other object name api (consistent.old_of_source found)).trans found
  constructor
  · intro after
    constructor
    · intro path path' known active active'
      obtain ⟨source, found, held, rfl⟩ := active_enableRemoting.mp active
      obtain ⟨source', found', held', named⟩ := active_enableRemoting.mp active'
      have entry := after _ source' found' held'
      rw [named, after _ source found held] at entry
      exact (List.cons.inj (Option.some.inj entry)).2
    · intro path known id source active found held named
      obtain ⟨source', found', held', rfl⟩ := active_enableRemoting.mp active
      have entry := after id source (old found) held
      rw [named, after _ source' found' held'] at entry
      exact consistent.old_of_source found ⟨path, Option.some.inj entry⟩
  · intro fit id source found held
    by_cases new : [s.serial] <+: id
    · refine registered_self (mem_enabled.mpr ⟨new, found, held⟩) fun node member same => ?_
      obtain ⟨below, found', held'⟩ := mem_enabled.mp member
      obtain ⟨path, rfl⟩ := new
      obtain ⟨path', same'⟩ := below
      have active := active_enableRemoting.mpr ⟨source, found, held, rfl⟩
      have active' : api.activeName s.values object name path' = some source.name :=
        active_enableRemoting.mpr ⟨node.2, by rw [← found', ← same']; rfl, held', same⟩
      rw [← same', fit.own path path' source.name active active']
    · rw [source_enableRemoting_other object name api new] at found
      refine (registered_other fun node member same => ?_).trans (invocable id source found held)
      obtain ⟨⟨path, below⟩, found', held'⟩ := mem_enabled.mp member
      have active : api.activeName s.values object name path = some node.2.name :=
        active_enableRemoting.mpr ⟨node.2, by rw [← found', ← below]; rfl, held', rfl⟩
      exact fit.others path node.2.name id source active found held same.symm

end SourceIo

variable [DecidableEq Obj] {classes : Classes Obj} {s : SourceIo Obj} {e : Event Obj}

/-- Sources with an object are named unlike each other, and a source that gets its first
object is registered. -/
def registersAll (classes : Classes Obj) (s : SourceIo Obj) : Event Obj → Prop
  | .enableRemoting object name api => s.m_sourceRoots name = none → s.RootFits object name api
  | .serializeProperty id i =>
    ∀ newObject, s.resets id i = some newObject → s.Whole (id ++ [i]) → s.ResetFits classes (id ++ [i]) newObject
  | _ => True

theorem liveInvocable_step (consistent : s.Consistent) (invocable : s.LiveInvocable) :
    (∀ t, step classes s e = some t → t.LiveInvocable) ↔ registersAll classes s e := by
  cases e with
  | enableRemoting object name api =>
    have fits := invocable.enableRemoting_iff consistent object name api
    constructor
    · intro claimed unlisted
      exact fits.mp (claimed _ (step_enableRemoting.mpr ⟨unlisted, rfl⟩))
    · intro fit t stepped
      obtain ⟨unlisted, rfl⟩ := step_enableRemoting.mp stepped
      exact fits.mpr (fit unlisted)
  | disableRemoting object =>
    refine iff_of_true (fun t stepped => ?_) trivial
    obtain ⟨number, enabled, rfl⟩ := step_disableRemoting.mp stepped
    obtain ⟨root, present, held⟩ := consistent.mapped object number enabled
    refine invocable.withoutRoots (fun id => [number] <+: id) [number] ?_ ?_ rfl fun _ =>
      SourceIo.source_deleteRoot number
    · simp [present, held]
    · simp
  | destroy object =>
    refine iff_of_true (fun t stepped => ?_) trivial
    obtain rfl := Option.some.inj stepped
    refine invocable.withoutRoots (Hit s.sources object) _ ?_ ?_ rfl fun _ => SourceIo.source_destroy object
    all_goals
      intro number member
      obtain ⟨root, present, held⟩ := (Option.any_eq_true _ _).mp (List.mem_filter.mp member).2
      have held := of_decide_eq_true held
    · exact ⟨root, present, held ▸ Option.some_ne_none object⟩
    · exact (hit_root (SourceIo.source_eq_some.mp present).1).mpr held
  | setPointer object i value =>
    refine iff_of_true (fun t stepped => ?_) trivial
    obtain rfl := Option.some.inj stepped
    exact invocable
  | serializeProperty id i =>
    have fits (newObject : Option Obj) (whole : s.Whole (id ++ [i])) :=
      invocable.resetObject_iff classes (List.concat_ne_nil i id) whole newObject
    constructor
    · intro claimed newObject resets whole
      exact (fits newObject whole).mp (claimed _ (step_of_resets resets whole))
    · intro fit t stepped
      obtain ⟨newObject, resets, whole, rfl⟩ | ⟨_, rfl⟩ := step_serializeProperty stepped
      · exact (fits newObject whole).mpr (fit newObject resets whole)
      · exact invocable

/-- Every source with an object is found by its name in every state of a run exactly if
each step registers what it has to. -/
theorem liveInvocable_iff (values : Obj → Nat → Option Obj) (es : List (Event Obj)) :
    Admitted (step classes) (fun s e => ∀ t, step classes s e = some t → t.LiveInvocable) (.initial values) es ↔
      Admitted (step classes) (registersAll classes) (.initial values) es := by
  refine admitted_iff_of_kept (P := fun s => s.Consistent ∧ s.LiveInvocable) ?_ ?_ ⟨.initial values, ?_⟩
  · intro s e t good claimed stepped
    exact ⟨SourceIo.consistent_step good.1 stepped, claimed t stepped⟩
  · intro s e good
    exact liveInvocable_step good.1 good.2
  · intro id source found
    simp [SourceIo.initial, SourceIo.source] at found

/-- A property that was null when remoting was enabled is set to an object. -/
theorem first_object_unregistered :
    let api : Api := .cons 0 ⟨"x".toList, .CLASS, false, by decide⟩ .nil .nil
    ∃ t, exec (step ⟨fun _ => false, fun _ => none⟩) (.initial fun (_ : Nat) _ => none)
      [.enableRemoting 0 "A".toList api, .setPointer 0 0 (some 1), .serializeProperty [0] 0] = some t ∧
        ¬ t.LiveInvocable := by
  intro api
  refine ⟨_, rfl, fun invocable => ?_⟩
  have entry := invocable [0, 0] _ rfl (by decide)
  contradiction

end RemoteObjects.Host
