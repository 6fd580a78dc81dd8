import RemoteObjects.Host.Consistent

/-! Whether the names of sources tell them apart. A nested source is named after its kind,
its property and the api of its parent only, whatever is above that. -/
namespace RemoteObjects.Host
open RemoteObjects Transition

/-- What the name of a nested source is made of: its kind, the name of the api above and
its own. -/
abbrev Label := Kind × Name × Name

def Label.wireName (label : Label) : Name := childName label.1 label.2.1 label.2.2

/-- The part behind the last colon of a list. -/
theorem lastPart_injective {first first' name name' : Name} (identifier : ':' ∉ name) (identifier' : ':' ∉ name')
    (same : first ++ ':' :: name = first' ++ ':' :: name') : first = first' ∧ name = name' := by
  obtain ⟨more, front, behind⟩ | ⟨more, front, behind⟩ := List.append_eq_append_iff.mp same
  all_goals
    subst front
    cases more with
    | nil => simpa [eq_comm] using behind
    | cons colon more =>
      rw [List.cons_append, List.cons.injEq] at behind
      simp_all

theorem childName_injective {kind kind' : Kind} {parent parent' name name' : Name} (identifier : ':' ∉ name)
    (identifier' : ':' ∉ name') (same : childName kind parent name = childName kind' parent' name') :
    kind = kind' ∧ parent = parent' ∧ name = name' := by
  have length (kind : Kind) : kind.literal.length = 7 := by
    cases kind <;> rfl
  obtain ⟨literal, rest⟩ := List.append_inj same ((length kind).trans (length kind').symm)
  have split (parent name : Name) : parent ++ "::".toList ++ name = (parent ++ [':']) ++ ':' :: name := by simp
  rw [split, split] at rest
  obtain ⟨front, last⟩ := lastPart_injective identifier identifier' rest
  refine ⟨?_, List.append_cancel_right front, last⟩
  cases kind <;> cases kind' <;> first | rfl | contradiction

/-- A label whose property is an identifier is told by its name. -/
theorem Label.wireName_injective {label label' : Label} (identifier : ':' ∉ label.2.2) (identifier' : ':' ∉ label'.2.2)
    (same : label.wireName = label'.wireName) : label = label' := by
  obtain ⟨kind, parent, name⟩ := childName_injective identifier identifier' same
  exact Prod.ext kind (Prod.ext parent name)

section Labels
variable {Obj : Type}

/-- The label of the nested source that is made for a property, if one is. -/
def Api.label (values : Obj → Nat → Option Obj) (object : Obj) (name : Name) (api : Api) (path : List Nat) :
    Option Label :=
  if (readPath values (some object) path.dropLast).isSome then
    (api.get path).map fun property => (property.kind, api.parentName name path, property.name)
  else none

namespace SourceIo
variable (s : SourceIo Obj)

def label (id : Id) : Option Label :=
  (s.source id).bind fun source =>
    (s.sources.get id.dropLast).map fun parent => (source.kind, parent.apiName, source.apiName)

def DistinctNames : Prop :=
  ∀ id id' source source', s.source id = some source → s.source id' = some source' →
    source.name = source'.name → id = id'

/-- No two nested sources have a label in common, and no root is named like one of them. -/
structure DistinctLabels : Prop where
  labels : ∀ id id' label, s.label id = some label → s.label id' = some label → id = id'
  roots : ∀ id label number root, s.label id = some label → s.source [number] = some root →
    root.name ≠ label.wireName

variable {s}

theorem label_root (number : Nat) : s.label [number] = none := by
  rw [label]
  cases s.source [number] with
  | none => rfl
  | some source => simp

/-- A nested source has a label, and the name that goes with it. -/
theorem Consistent.label_of_source (consistent : s.Consistent) {id : Id} {source : Source Obj}
    (found : s.source id = some source) : (∃ number, id = [number]) ∨
      ∃ label, s.label id = some label ∧ source.name = label.wireName ∧ ':' ∉ label.2.2 := by
  have nonempty : id ≠ [] := by
    rintro rfl
    simp [SourceIo.source] at found
  obtain ⟨path, i, rfl⟩ : ∃ path i, id = path ++ [i] :=
    ⟨id.dropLast, id.getLast nonempty, (List.dropLast_append_getLast nonempty).symm⟩
  by_cases root : path = []
  · exact .inl ⟨i, by rw [root, List.nil_append]⟩
  · obtain ⟨parent, above, named, identifier⟩ := consistent.nested path i source root (source_eq_some.mp found).1
    refine .inr ⟨(source.kind, parent.apiName, source.apiName), ?_, named, identifier⟩
    rw [label, found, List.dropLast_concat, Option.bind_some, above, Option.map_some]

theorem Consistent.source_of_label (consistent : s.Consistent) {id : Id} {label : Label}
    (found : s.label id = some label) :
    ∃ source, s.source id = some source ∧ source.name = label.wireName ∧ ':' ∉ label.2.2 := by
  obtain ⟨source, present, _⟩ := Option.bind_eq_some_iff.mp found
  obtain ⟨number, rfl⟩ | ⟨_, same, named, identifier⟩ := consistent.label_of_source present
  · rw [label_root] at found
    contradiction
  · obtain rfl := Option.some.inj (found.symm.trans same)
    exact ⟨source, present, named, identifier⟩

theorem Consistent.distinct_iff (consistent : s.Consistent) : s.DistinctNames ↔ s.DistinctLabels := by
  constructor
  · intro distinct
    constructor
    · intro id id' label found found'
      obtain ⟨source, present, named, _⟩ := consistent.source_of_label found
      obtain ⟨source', present', named', _⟩ := consistent.source_of_label found'
      exact distinct id id' source source' present present' (named.trans named'.symm)
    · intro id label number root found isRoot same
      obtain ⟨source, present, named, _⟩ := consistent.source_of_label found
      obtain rfl := distinct id [number] source root present isRoot (named.trans same.symm)
      rw [label_root] at found
      contradiction
  · intro distinct id id' source source' found found' same
    obtain ⟨number, rfl⟩ | ⟨label, nested, named, identifier⟩ := consistent.label_of_source found
    · obtain ⟨number', rfl⟩ | ⟨label', nested', named', _⟩ := consistent.label_of_source found'
      · have listed := consistent.listed number source found
        rw [same, consistent.listed number' source' found'] at listed
        rw [Option.some.inj listed]
      · exact absurd (same.trans named') (distinct.roots id' label' number source nested' found)
    · obtain ⟨number', rfl⟩ | ⟨label', nested', named', identifier'⟩ := consistent.label_of_source found'
      · exact absurd (same.symm.trans named) (distinct.roots id label number' source' nested found')
      · obtain rfl := Label.wireName_injective identifier identifier' (named.symm.trans (same.trans named'))
        exact distinct.labels id id' label nested nested'

/-- The names of a new root and of the sources below it are new. -/
structure NamesFit (s : SourceIo Obj) (object : Obj) (name : Name) (api : Api) : Prop where
  own : ∀ path path' label, api.label s.values object name path = some label →
    api.label s.values object name path' = some label → path = path'
  others : ∀ path id label, api.label s.values object name path = some label → s.label id ≠ some label
  roots : ∀ path label, api.label s.values object name path = some label →
    name ≠ label.wireName ∧ ∀ number root, s.source [number] = some root → root.name ≠ label.wireName
  nested : ∀ id label, s.label id = some label → name ≠ label.wireName

variable [DecidableEq Obj] {object : Obj} {name : Name} {api : Api}

theorem label_enableRemoting_other {id : Id} (other : ¬ [s.serial] <+: id) :
    (s.enableRemoting object name api).label id = s.label id := by
  have above : ¬ [s.serial] <+: id.dropLast := fun below => other (below.trans (List.dropLast_prefix id))
  rw [label, label, source_enableRemoting_other object name api other,
    get_enableRemoting_other object name api above]

theorem label_enableRemoting_new (path : List Nat) :
    (s.enableRemoting object name api).label (s.serial :: path) = api.label s.values object name path := by
  by_cases root : path = []
  · subst root
    rw [label_root]
    simp [Api.label]
  · obtain ⟨front, i, rfl⟩ : ∃ front i, path = front ++ [i] :=
      ⟨path.dropLast, path.getLast root, (List.dropLast_append_getLast root).symm⟩
    rw [label, source_enableRemoting_new object name api root, Api.label, ← List.cons_append, List.dropLast_concat,
      List.dropLast_concat]
    cases made : (construct s.values name object api).get (front ++ [i]) with
    | none =>
      rw [get_construct, List.dropLast_concat] at made
      split
      · rename_i reached
        cases here : api.find (front ++ [i]) with
        | none =>
          have missing : api.get (front ++ [i]) = none := by rw [Forest.get, here, Option.map_none]
          rw [missing]
          rfl
        | some node => simp [here, reached] at made
      · rfl
    | some source =>
      obtain ⟨parent, above, named⟩ := above_enableRemoting made
      obtain ⟨property, below, here, reached, rfl⟩ := (construct_eq_some s.values).mp made
      rw [List.dropLast_concat] at reached
      have known : api.get (front ++ [i]) = some property := by rw [Forest.get, here, Option.map_some]
      rw [if_pos reached, Option.bind_some, above, known, Option.map_some, Option.map_some, named]

omit [DecidableEq Obj] in
theorem Consistent.old_of_label (consistent : s.Consistent) {id : Id} {label : Label}
    (found : s.label id = some label) : ¬ [s.serial] <+: id := by
  obtain ⟨source, present, _⟩ := consistent.source_of_label found
  exact consistent.old_of_source present

/-- A new root keeps the labels apart exactly if its names fit. -/
theorem Consistent.labels_enableRemoting (consistent : s.Consistent) :
    (s.enableRemoting object name api).DistinctLabels ↔ s.DistinctLabels ∧ s.NamesFit object name api := by
  have new (path : List Nat) : (s.enableRemoting object name api).label (s.serial :: path) =
      api.label s.values object name path := label_enableRemoting_new path
  have root := source_enableRemoting_root (s := s) object name api
  have label {id label} (found : s.label id = some label) :
      (s.enableRemoting object name api).label id = some label := by
    rw [label_enableRemoting_other (consistent.old_of_label found), found]
  have source {id source} (found : s.source id = some source) :
      (s.enableRemoting object name api).source id = some source := by
    rw [source_enableRemoting_other object name api (consistent.old_of_source found), found]
  constructor
  · intro distinct
    refine ⟨⟨?_, ?_⟩, ?_, ?_, ?_, ?_⟩
    · intro id id' shared found found'
      exact distinct.labels id id' shared (label found) (label found')
    · intro id shared number old found isRoot
      exact distinct.roots id shared number old (label found) (source isRoot)
    · intro path path' shared found found'
      exact (List.cons.inj (distinct.labels _ _ shared ((new path).trans found) ((new path').trans found'))).2
    · intro path id shared found found'
      have same := distinct.labels _ id shared ((new path).trans found) (label found')
      exact consistent.old_of_label found' ⟨path, same⟩
    · intro path shared found
      refine ⟨distinct.roots _ shared _ _ ((new path).trans found) root, ?_⟩
      intro number old isRoot
      exact distinct.roots _ shared number old ((new path).trans found) (source isRoot)
    · intro id shared found
      exact distinct.roots id shared _ _ (label found) root
  · rintro ⟨distinct, fit⟩
    have cases (id : Id) : (∃ path, id = s.serial :: path) ∨
        (s.enableRemoting object name api).label id = s.label id ∧
          (s.enableRemoting object name api).source id = s.source id := by
      by_cases below : [s.serial] <+: id
      · obtain ⟨path, rfl⟩ := below
        exact .inl ⟨path, rfl⟩
      · exact .inr ⟨label_enableRemoting_other below, source_enableRemoting_other object name api below⟩
    constructor
    · intro id id' shared found found'
      obtain ⟨path, rfl⟩ | ⟨same, _⟩ := cases id
      · rw [new] at found
        obtain ⟨path', rfl⟩ | ⟨same', _⟩ := cases id'
        · rw [new] at found'
          rw [fit.own path path' shared found found']
        · exact absurd (same' ▸ found') (fit.others path id' shared found)
      · obtain ⟨path', rfl⟩ | ⟨same', _⟩ := cases id'
        · rw [new] at found'
          exact absurd (same ▸ found) (fit.others path' id shared found')
        · exact distinct.labels id id' shared (same ▸ found) (same' ▸ found')
    · intro id shared number old found isRoot
      obtain ⟨path, same⟩ | ⟨_, same⟩ := cases [number]
      · obtain ⟨rfl, rfl⟩ := List.cons.inj same
        obtain rfl := Option.some.inj (root.symm.trans isRoot)
        obtain ⟨path, rfl⟩ | ⟨same, _⟩ := cases id
        · exact (fit.roots path shared ((new path).symm.trans found)).1
        · exact fit.nested id shared (same ▸ found)
      · rw [same] at isRoot
        obtain ⟨path, rfl⟩ | ⟨same, _⟩ := cases id
        · exact (fit.roots path shared ((new path).symm.trans found)).2 number old isRoot
        · exact distinct.roots id shared number old (same ▸ found) isRoot

end SourceIo

section Runs
variable [DecidableEq Obj] {classes : Classes Obj} {s t : SourceIo Obj} {e : Event Obj}

/-- Whenever a root is remoted, no two nested sources have the kind, the property and the
name of the parent's api in common, and no root is named like a nested source. -/
def namesFit (s : SourceIo Obj) : Event Obj → Prop
  | .enableRemoting object name api => s.m_sourceRoots name = none → s.NamesFit object name api
  | _ => True

/-- A source that was there before the step kept its name. -/
theorem source_before {id : Id} {source : Source Obj} (stepped : step classes s e = some t)
    (old : ∀ object name api, e ≠ .enableRemoting object name api) (found : t.source id = some source) :
    ∃ before, s.source id = some before ∧ before.ident = source.ident := by
  have kept {gone : Prop} [Decidable gone] (found : (s.source id).filter (fun _ => gone) = some source) :
      ∃ before, s.source id = some before ∧ before.ident = source.ident :=
    ⟨source, (Option.filter_eq_some_iff.mp found).1, rfl⟩
  cases e with
  | enableRemoting object name api => exact absurd rfl (old object name api)
  | disableRemoting object =>
    obtain ⟨number, _, rfl⟩ := step_disableRemoting.mp stepped
    rw [SourceIo.source_deleteRoot] at found
    exact kept found
  | destroy object =>
    obtain rfl := Option.some.inj stepped
    rw [SourceIo.source_destroy] at found
    exact kept found
  | setPointer object i value =>
    obtain rfl := Option.some.inj stepped
    exact ⟨source, found, rfl⟩
  | serializeProperty target i =>
    obtain ⟨newObject, _, _, rfl⟩ | ⟨_, rfl⟩ := step_serializeProperty stepped
    · by_cases below : target ++ [i] <+: id
      · obtain ⟨path, rfl⟩ := below
        rw [SourceIo.source_resetObject classes (List.concat_ne_nil i target)] at found
        obtain ⟨before, present, rfl⟩ := Option.map_eq_some_iff.mp found
        exact ⟨before, present, (before.ident_resetObject classes _).symm⟩
      · rw [SourceIo.source_resetObject_other classes newObject below] at found
        exact ⟨source, found, rfl⟩
    · exact ⟨source, found, rfl⟩

theorem distinctNames_step (consistent : s.Consistent) (distinct : s.DistinctNames) :
    (∀ t, step classes s e = some t → t.DistinctNames) ↔ namesFit s e := by
  cases e with
  | enableRemoting object name api =>
    simp only [step_enableRemoting, namesFit]
    have fits (unlisted : s.m_sourceRoots name = none) :
        (s.enableRemoting object name api).DistinctNames ↔ s.NamesFit object name api := by
      rw [(consistent.enableRemoting object api unlisted).distinct_iff, consistent.labels_enableRemoting,
        and_iff_right (consistent.distinct_iff.mp distinct)]
    constructor
    · intro distinct unlisted
      exact (fits unlisted).mp (distinct _ ⟨unlisted, rfl⟩)
    · rintro fit t ⟨unlisted, rfl⟩
      exact (fits unlisted).mpr (fit unlisted)
  | _ =>
    refine iff_of_true (fun t stepped => ?_) trivial
    intro id id' source source' found found' same
    obtain ⟨before, present, ident⟩ := source_before stepped (by simp) found
    obtain ⟨before', present', ident'⟩ := source_before stepped (by simp) found'
    refine distinct id id' before before' present present' ?_
    exact (congrArg Prod.fst ident).trans (same.trans (congrArg Prod.fst ident').symm)

/-- Names tell the sources of a host apart in every state of a run exactly if the names of
the roots fit when they are remoted. -/
theorem distinctNames_iff (values : Obj → Nat → Option Obj) (es : List (Event Obj)) :
    Admitted (step classes) (fun s e => ∀ t, step classes s e = some t → t.DistinctNames) (.initial values) es ↔
      Admitted (step classes) namesFit (.initial values) es := by
  refine admitted_iff_of_kept (P := fun s => s.Consistent ∧ s.DistinctNames) ?_ ?_ ⟨.initial values, ?_⟩
  · intro s e t good claimed stepped
    exact ⟨SourceIo.consistent_step good.1 stepped, claimed t stepped⟩
  · intro s e good
    exact distinctNames_step good.1 good.2
  · intro id id' source source' found
    simp [SourceIo.initial, SourceIo.source] at found

end Runs

/-- Two roots with a nested object each, in a property of the same name, which has another
one. -/
theorem innerNames_collide :
    let nested : Api := .cons 0 ⟨"x".toList, .CLASS, false, by decide⟩
      (.cons 0 ⟨"p".toList, .CLASS, false, by decide⟩ .nil .nil) .nil
    let values (object i : Nat) := if object < 4 ∧ i = 0 then some (object + 2) else none
    ∃ t, exec (step ⟨fun _ => false, fun _ => none⟩) (.initial values)
      [.enableRemoting 0 "A".toList nested, .enableRemoting 1 "B".toList nested] = some t ∧ ¬ t.DistinctNames := by
  intro nested values
  refine ⟨_, rfl, fun distinct => ?_⟩
  have same := distinct [0, 0, 0] [1, 0, 0]
    ⟨"Class::x::p".toList, "p".toList, .CLASS, false, .nil, some 4, false⟩
    ⟨"Class::x::p".toList, "p".toList, .CLASS, false, .nil, some 5, false⟩ (by rfl) (by rfl) (by rfl)
  contradiction

end Labels
end RemoteObjects.Host
