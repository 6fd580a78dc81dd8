import RemoteObjects.Host.Sources

/-! What each operation of the host does to the source at a path. -/
namespace RemoteObjects.Host
open RemoteObjects

section Forests
variable {Obj : Type} (values : Obj → Nat → Option Obj) {object : Option Obj} {path : List Nat}
  {f : Forest (Source Obj)}

@[simp] theorem readPath_nil : readPath values object [] = object := rfl

@[simp] theorem readPath_cons (i : Nat) : readPath values object (i :: path) =
    readPath values (object.bind (values · i)) path := rfl

@[simp] theorem readPath_none : readPath values none path = none := by
  induction path with
  | nil => rfl
  | cons i path ih => rw [readPath_cons, Option.bind_none, ih]

theorem readPath_concat (i : Nat) : readPath values object (path ++ [i]) =
    (readPath values object path).bind (values · i) := by
  rw [readPath, readPath, List.foldl_concat]

theorem get_resetChildren (classes : Classes Obj) : (resetChildren classes values object f).get path =
    (f.get path).map fun source => source.resetObject classes (readPath values object path) := by
  induction f generalizing object path with
  | nil => simp only [resetChildren, Forest.get_nil, Option.map_none]
  | cons key root below rest belowIh restIh =>
    cases path with
    | nil => simp only [Forest.get_empty, Option.map_none]
    | cons i path =>
      rw [resetChildren, Forest.get_cons, Forest.get_cons]
      split
      · rename_i here
        subst here
        split
        · rename_i last
          rw [last, readPath_cons, readPath_nil, Option.map_some]
        · rw [belowIh, readPath_cons]
      · exact restIh

theorem get_deleted : (deleted f).get path = (f.get path).map ({ · with destroyed := true }) := by
  induction f generalizing path with
  | nil => simp only [deleted, Forest.get_nil, Option.map_none]
  | cons key root below rest belowIh restIh =>
    cases path with
    | nil => simp only [Forest.get_empty, Option.map_none]
    | cons i path =>
      rw [deleted, Forest.get_cons, Forest.get_cons]
      split
      · split
        · rfl
        · exact belowIh
      · exact restIh

/-- The name of the api that a property belongs to. -/
def Api.parentName (api : Api) (name : Name) (path : List Nat) : Name :=
  ((api.get path.dropLast).map PointerProperty.name).getD name

theorem Api.parentName_below {i k : Nat} {property : PointerProperty} {below rest : Api} {name : Name}
    {found : PointerProperty} (present : below.get (k :: path) = some found) :
    Api.parentName (.cons i property below rest) name (i :: k :: path) =
      Api.parentName below property.name (k :: path) := by
  rw [parentName, parentName, List.dropLast_cons_cons, Forest.get_cons, if_pos rfl]
  by_cases first : path = []
  · subst first
    simp
  · obtain ⟨front, last, rfl⟩ : ∃ front last, path = front ++ [last] :=
      ⟨path.dropLast, path.getLast first, (List.dropLast_append_getLast first).symm⟩
    have parent : ∃ parent, below.get (k :: front) = some parent :=
      Forest.get_of_prefix last [] present (List.cons_ne_nil k front)
    obtain ⟨parent, here⟩ := parent
    have drop : (k :: (front ++ [last])).dropLast = k :: front := by
      rw [← List.cons_append, List.dropLast_concat]
    simp [drop, here]

theorem Api.parentName_other {i j : Nat} (other : j ≠ i) (property : PointerProperty) (below rest : Api)
    (name : Name) : Api.parentName (.cons i property below rest) name (j :: path) =
      Api.parentName rest name (j :: path) := by
  cases path with
  | nil => simp [parentName]
  | cons k path => rw [parentName, parentName, List.dropLast_cons_cons, Forest.get_cons, if_neg other]

/-- The constructors follow the properties as far as there are objects. -/
theorem get_construct {object : Obj} {api : Api} {name : Name} :
    (construct values name object api).get path = (api.find path).bind fun node =>
      if (readPath values (some object) path.dropLast).isSome then
        some ⟨childName node.1.kind (api.parentName name path) node.1.name, node.1.name, node.1.kind,
          node.1.bare, node.2, readPath values (some object) path, false⟩
      else none := by
  induction api generalizing object path name with
  | nil => simp only [construct, Forest.get_nil, Forest.find_nil, Option.bind_none]
  | cons i property below rest belowIh restIh =>
    cases path with
    | nil => simp only [Forest.get_empty, Forest.find_empty, Option.bind_none]
    | cons j path =>
      rw [construct, Forest.get_cons]
      by_cases here : j = i
      · subst here
        cases path with
        | nil => simp [Api.parentName]
        | cons k path =>
          rw [if_pos rfl, if_neg (List.cons_ne_nil k path), Forest.find_cons_below, List.dropLast_cons_cons,
            readPath_cons, Option.bind_some]
          cases read : values object j with
          | none => simp
          | some child =>
            simp only [belowIh]
            cases found : below.find (k :: path) with
            | none => rfl
            | some node =>
              have present : below.get (k :: path) = some node.1 := by rw [Forest.get, found, Option.map_some]
              simp only [Option.bind_some, readPath_cons, read, Api.parentName_below present]
      · rw [if_neg here, restIh, Forest.find_cons_other here, Api.parentName_other here]

theorem construct_eq_some {object : Obj} {api : Api} {name : Name} {source : Source Obj} :
    (construct values name object api).get path = some source ↔ ∃ property below,
      api.find path = some (property, below) ∧ (readPath values (some object) path.dropLast).isSome ∧
        ⟨childName property.kind (api.parentName name path) property.name, property.name, property.kind,
          property.bare, below, readPath values (some object) path, false⟩ = source := by
  rw [get_construct]
  constructor
  · intro found
    obtain ⟨node, here, made⟩ := Option.bind_eq_some_iff.mp found
    split at made
    · rename_i reached
      exact ⟨node.1, node.2, here, reached, Option.some.inj made⟩
    · contradiction
  · rintro ⟨property, below, here, reached, rfl⟩
    rw [here, Option.bind_some, if_pos reached]

/-- Some source on the way to the path is a child of the object. -/
def Hit [DecidableEq Obj] (f : Forest (Source Obj)) (object : Obj) (path : List Nat) : Prop :=
  ∃ front ∈ path.inits, (f.get front).any fun source => source.object = some object

instance [DecidableEq Obj] (f : Forest (Source Obj)) (object : Obj) (path : List Nat) :
    Decidable (Hit f object path) := by
  unfold Hit
  infer_instance

theorem hit_cons [DecidableEq Obj] {object : Obj} (key : Nat) (root : Source Obj)
    (below rest : Forest (Source Obj)) (i : Nat) : Hit (.cons key root below rest) object (i :: path) ↔
      if i = key then root.object = some object ∨ Hit below object path else Hit rest object (i :: path) := by
  unfold Hit
  simp only [List.inits_cons, List.mem_cons, exists_eq_or_imp, Forest.get_empty, Option.any_none,
    Bool.false_eq_true, false_or, List.mem_map, exists_exists_and_eq_and, Forest.get_cons]
  split
  · constructor
    · rintro ⟨front, member, hit⟩
      by_cases first : front = []
      · exact .inl (by simpa [first] using hit)
      · exact .inr ⟨front, member, by simpa [first] using hit⟩
    · rintro (root | ⟨front, member, hit⟩)
      · exact ⟨[], (List.mem_inits _ _).mpr List.nil_prefix, by simpa using root⟩
      · have first : front ≠ [] := by
          rintro rfl
          rw [Forest.get_empty] at hit
          contradiction
        exact ⟨front, member, by simpa [first] using hit⟩
  · rfl

theorem hit_congr [DecidableEq Obj] {g : Forest (Source Obj)} {object : Obj}
    (same : ∀ path, (g.get path).map Source.object = (f.get path).map Source.object) :
    Hit g object path ↔ Hit f object path := by
  have same : ∀ path, ((g.get path).any fun source => source.object = some object) =
      (f.get path).any fun source => source.object = some object := by
    intro path
    have here := congrArg (Option.any fun found => decide (found = some object)) (same path)
    simpa only [Option.any_map] using here
  simp only [Hit, same]

theorem not_hit_nil [DecidableEq Obj] {object : Obj} : ¬ Hit f object [] := by
  simp [Hit]

theorem hit_root [DecidableEq Obj] {object : Obj} {number : Nat} {root : Source Obj}
    (present : f.get [number] = some root) : Hit f object [number] ↔ root.object = some object := by
  simp [Hit, present]

/-- A source goes with its parent or with its own object. -/
theorem hit_concat [DecidableEq Obj] {object : Obj} {k : Nat} {source : Source Obj}
    (present : f.get (path ++ [k]) = some source) :
    Hit f object (path ++ [k]) ↔ Hit f object path ∨ source.object = some object := by
  simp only [Hit, List.mem_inits, List.prefix_concat_iff, or_and_right, exists_or, exists_eq_left, present,
    Option.any_some, decide_eq_true_eq]
  exact or_comm

theorem get_destroyed [DecidableEq Obj] {object : Obj} {gone : Bool} :
    (destroyed object gone f).get path = (f.get path).map fun source =>
      { source with destroyed := source.destroyed || gone || decide (Hit f object path) } := by
  induction f generalizing gone path with
  | nil => simp only [destroyed, Forest.get_nil, Option.map_none]
  | cons key root below rest belowIh restIh =>
    cases path with
    | nil => simp only [Forest.get_empty, Option.map_none]
    | cons i path =>
      rw [destroyed, Forest.get_cons, Forest.get_cons]
      simp only [hit_cons]
      split
      · split
        · rename_i last
          subst last
          simp [not_hit_nil, Bool.or_assoc]
        · simp [belowIh, Bool.decide_or, Bool.or_assoc]
      · exact restIh

end Forests

section Sources
variable {Obj : Type}

/-- What a source keeps for life. -/
def Source.ident (source : Source Obj) : Name × Name × Kind := (source.name, source.apiName, source.kind)

theorem Source.ident_resetObject (classes : Classes Obj) (source : Source Obj) (newObject : Option Obj) :
    (source.resetObject classes newObject).ident = source.ident := by
  rw [Source.resetObject]
  split <;> rfl

@[simp] theorem Source.object_resetObject (classes : Classes Obj) (source : Source Obj) (newObject : Option Obj) :
    (source.resetObject classes newObject).object = newObject := by
  rw [Source.resetObject]
  split <;> rfl

@[simp] theorem Source.name_resetObject (classes : Classes Obj) (source : Source Obj) (newObject : Option Obj) :
    (source.resetObject classes newObject).name = source.name :=
  congrArg Prod.fst (source.ident_resetObject classes newObject)

theorem Source.api_resetObject (classes : Classes Obj) {source : Source Obj} {object : Obj}
    (same : ¬ (source.bare = true ∧ classes.replicaApi object ≠ none)) :
    (source.resetObject classes (some object)).api = source.api := by
  rw [Source.resetObject]
  split
  · rename_i api bare replica
    exact absurd ⟨bare, by rw [Option.bind_some] at replica; rw [replica]; exact Option.some_ne_none api⟩ same
  · rfl

end Sources

namespace SourceIo
variable {Obj : Type} {s : SourceIo Obj} {id : Id} {source : Source Obj}

theorem source_eq_some : s.source id = some source ↔ s.sources.get id = some source ∧ source.destroyed = false := by
  simp [SourceIo.source, Option.filter_eq_some_iff]

theorem get_resetObject (classes : Classes Obj) {target : Id} (nonempty : target ≠ []) (newObject : Option Obj)
    (path : List Nat) : (s.resetObject classes target newObject).sources.get (target ++ path) =
      (s.sources.get (target ++ path)).map fun source =>
        source.resetObject classes (readPath s.values newObject path) := by
  refine Forest.get_modify_map _ (fun path (source : Source Obj) =>
    source.resetObject classes (readPath s.values newObject path)) nonempty (fun _ _ => rfl) ?_ path
  intro _ below path
  exact get_resetChildren s.values classes

theorem get_resetObject_other (classes : Classes Obj) {target : Id} (newObject : Option Obj)
    (apart : ¬ target <+: id) : (s.resetObject classes target newObject).sources.get id = s.sources.get id :=
  Forest.get_modify_other _ apart

variable [DecidableEq Obj]

theorem get_deleteRoot (number : Nat) : (s.deleteRoot number).sources.get id =
    (s.sources.get id).map fun source =>
      { source with destroyed := source.destroyed || decide ([number] <+: id) } := by
  rw [deleteRoot]
  by_cases below : [number] <+: id
  · obtain ⟨path, rfl⟩ := below
    simp only [List.prefix_append, decide_true, Bool.or_true]
    cases present : s.sources.get [number] with
    | none =>
      have missing : s.sources.get ([number] ++ path) = none := by
        cases path with
        | nil => exact present
        | cons k path =>
          refine Option.eq_none_iff_forall_ne_some.mpr fun source found => ?_
          obtain ⟨root, here⟩ := Forest.get_of_prefix k path found (List.cons_ne_nil number [])
          rw [present] at here
          contradiction
      rw [missing, Option.map_none]
    | some root =>
      refine Forest.get_modify_map _ (fun _ (source : Source Obj) => { source with destroyed := true })
        (List.cons_ne_nil number []) (fun _ _ => rfl) ?_ path
      intro _ below path
      exact get_deleted
  · simp only [below, decide_false, Bool.or_false, Option.map_id']
    cases s.sources.get [number] with
    | none => rfl
    | some root => exact Forest.get_modify_other _ below

theorem get_deleteRoots (roots : List Nat) : (roots.foldl (fun s number => s.deleteRoot number) s).sources.get id =
    (s.sources.get id).map fun source =>
      { source with destroyed := source.destroyed || decide (∃ number ∈ roots, [number] <+: id) } := by
  induction roots generalizing s with
  | nil => simp
  | cons number roots ih =>
    rw [List.foldl_cons, ih, get_deleteRoot, Option.map_map]
    refine Option.map_congr fun source _ => ?_
    simp [Function.comp, Bool.or_assoc]

theorem deleteRoots_serial (roots : List Nat) :
    (roots.foldl (fun s number => s.deleteRoot number) s).serial = s.serial := by
  induction roots generalizing s with
  | nil => rfl
  | cons number roots ih =>
    rw [List.foldl_cons, ih, deleteRoot]
    split <;> rfl

/-- A table from which each deleted root takes its own entries. -/
theorem deleteRoots_table {Key Value : Type} (table : SourceIo Obj → Key → Option Value) (held : Source Obj → Key → Prop)
    [∀ root key, Decidable (held root key)] (kept : ∀ root destroyed key, held { root with destroyed } key ↔ held root key)
    (removes : ∀ s number key, table (s.deleteRoot number) key =
      if (s.sources.get [number]).any (fun root => held root key) then none else table s key)
    (roots : List Nat) (key : Key) (value : Value) :
    table (roots.foldl (fun s number => s.deleteRoot number) s) key = some value ↔ table s key = some value ∧
      ∀ number ∈ roots, ∀ root, s.sources.get [number] = some root → ¬ held root key := by
  induction roots generalizing s with
  | nil => simp
  | cons number roots ih =>
    have same : ∀ number', (∀ root, (s.deleteRoot number).sources.get [number'] = some root → ¬ held root key) ↔
        ∀ root, s.sources.get [number'] = some root → ¬ held root key := by
      intro number'
      rw [get_deleteRoot]
      cases s.sources.get [number'] <;> simp [kept]
    rw [List.foldl_cons, ih, removes]
    simp only [same, List.forall_mem_cons]
    cases present : s.sources.get [number] with
    | none => simp
    | some root => by_cases here : held root key <;> simp [here]

theorem deleteRoots_m_sourceObjects (roots : List Nat) (name : Name) :
    (roots.foldl (fun s number => s.deleteRoot number) s).m_sourceObjects name = some id ↔
      s.m_sourceObjects name = some id ∧
        ∀ number ∈ roots, ∀ root, s.sources.get [number] = some root → root.name ≠ name := by
  refine deleteRoots_table m_sourceObjects (fun root name => root.name = name) (fun _ _ _ => Iff.rfl) ?_ roots name id
  intro s number name
  rw [deleteRoot]
  cases s.sources.get [number] with
  | none => simp
  | some root => simp [unregisterSource, Function.update_apply, eq_comm]

theorem deleteRoots_m_sourceRoots (roots : List Nat) (name : Name) (number : Nat) :
    (roots.foldl (fun s number => s.deleteRoot number) s).m_sourceRoots name = some number ↔
      s.m_sourceRoots name = some number ∧
        ∀ number ∈ roots, ∀ root, s.sources.get [number] = some root → root.name ≠ name := by
  refine deleteRoots_table m_sourceRoots (fun root name => root.name = name) (fun _ _ _ => Iff.rfl) ?_ roots name number
  intro s number name
  rw [deleteRoot]
  cases s.sources.get [number] with
  | none => simp
  | some root => simp [unregisterSource, Function.update_apply, eq_comm]

theorem deleteRoots_m_objectToSourceMap (roots : List Nat) (object : Obj) (number : Nat) :
    (roots.foldl (fun s number => s.deleteRoot number) s).m_objectToSourceMap object = some number ↔
      s.m_objectToSourceMap object = some number ∧
        ∀ number ∈ roots, ∀ root, s.sources.get [number] = some root → root.object ≠ some object := by
  refine deleteRoots_table m_objectToSourceMap (fun root object => root.object = some object) (fun _ _ _ => Iff.rfl)
    ?_ roots object number
  intro s number object
  rw [deleteRoot]
  cases s.sources.get [number] with
  | none => simp
  | some root => simp [unregisterSource, eq_comm]

theorem get_destroy (object : Obj) : (s.destroy object).sources.get id = (s.sources.get id).map fun source =>
    { source with destroyed := source.destroyed || decide (Hit s.sources object id) } := by
  have hit : ∀ number ∈ s.sources.keys.filter (fun number => (s.source [number]).any fun root =>
      decide (root.object = some object)), [number] <+: id → Hit s.sources object id := by
    intro number member below
    obtain ⟨root, found, held⟩ := (Option.any_eq_true _ _).mp (List.mem_filter.mp member).2
    refine ⟨[number], (List.mem_inits _ _).mpr below, ?_⟩
    rw [(source_eq_some.mp found).1]
    exact held
  rw [destroy, get_destroyed, get_deleteRoots, Option.map_map]
  refine Option.map_congr fun source _ => ?_
  have same (roots : List Nat) : Hit (roots.foldl (fun s number => s.deleteRoot number) s).sources object id ↔
      Hit s.sources object id := hit_congr fun path => by
    rw [get_deleteRoots, Option.map_map]
    rfl
  by_cases dead : Hit s.sources object id
  · simp [Function.comp, same, dead]
  · have spared := mt (fun (found : ∃ number ∈ _, [number] <+: id) =>
      hit found.choose found.choose_spec.1 found.choose_spec.2) dead
    simp only [Function.comp, same, dead, decide_false, Bool.or_false, spared]

omit [DecidableEq Obj] in
/-- What is destroyed is not found any more. -/
theorem filter_destroyed (found : Option (Source Obj)) (gone : Prop) [Decidable gone] :
    ((found.map fun source => { source with destroyed := source.destroyed || decide gone }).filter (!·.destroyed)) =
      (found.filter (!·.destroyed)).filter fun _ => ¬ gone := by
  cases found with
  | none => rfl
  | some source =>
    obtain ⟨name, apiName, kind, bare, api, object, destroyed⟩ := source
    by_cases here : gone <;> cases destroyed <;> simp [here, Option.filter]

/-- An object takes the sources with it that are its children, and all below them. -/
theorem source_destroy (object : Obj) :
    (s.destroy object).source id = (s.source id).filter fun _ => ¬ Hit s.sources object id := by
  rw [source, source, get_destroy, filter_destroyed]

theorem source_deleteRoot (number : Nat) :
    (s.deleteRoot number).source id = (s.source id).filter fun _ => ¬ [number] <+: id := by
  rw [source, source, get_deleteRoot, filter_destroyed]

theorem root_deleteRoot (number other : Nat) :
    (s.deleteRoot number).source [other] = (s.source [other]).filter fun _ => other ∉ [number] := by
  rw [source_deleteRoot]
  simp [eq_comm]

theorem roots_live (object : Obj) : ∀ number ∈ s.sources.keys.filter fun number =>
    (s.source [number]).any fun root => decide (root.object = some object), ∃ root, s.source [number] = some root := by
  intro number member
  obtain ⟨root, found, _⟩ := (Option.any_eq_true _ _).mp (List.mem_filter.mp member).2
  exact ⟨root, found⟩

/-- An object takes the roots with it that are its children. -/
theorem root_destroy (object : Obj) (number : Nat) :
    (s.destroy object).source [number] = (s.source [number]).filter fun _ => number ∉ s.sources.keys.filter fun number =>
      (s.source [number]).any fun root => decide (root.object = some object) := by
  rw [source_destroy]
  cases present : s.source [number] with
  | none => rfl
  | some root =>
    have found := (source_eq_some.mp present).1
    have known : number ∈ s.sources.keys := Forest.mem_keys.mpr ⟨root, found⟩
    simp [hit_root found, known, present]

omit [DecidableEq Obj] in
theorem source_resetObject (classes : Classes Obj) {target : Id} (nonempty : target ≠ []) (newObject : Option Obj)
    (path : List Nat) : (s.resetObject classes target newObject).source (target ++ path) =
      (s.source (target ++ path)).map fun source =>
        source.resetObject classes (readPath s.values newObject path) := by
  have kept (source : Source Obj) : (source.resetObject classes (readPath s.values newObject path)).destroyed =
      source.destroyed := by
    rw [Source.resetObject]
    split <;> rfl
  rw [source, source, get_resetObject classes nonempty]
  cases s.sources.get (target ++ path) with
  | none => rfl
  | some source => cases gone : source.destroyed <;> simp [kept, gone, Option.filter]

omit [DecidableEq Obj] in
theorem source_resetObject_other (classes : Classes Obj) {target : Id} (newObject : Option Obj)
    (apart : ¬ target <+: id) : (s.resetObject classes target newObject).source id = s.source id := by
  rw [source, source, get_resetObject_other classes newObject apart]

theorem source_enableRemoting_root (object : Obj) (name : Name) (api : Api) :
    (s.enableRemoting object name api).source [s.serial] =
      some ⟨name, name, .CLASS, false, api, some object, false⟩ := by
  simp [source, enableRemoting, Forest.get_cons, Option.filter]

/-- The nested sources of a new root. -/
theorem source_enableRemoting_new (object : Obj) (name : Name) (api : Api) {path : List Nat} (nested : path ≠ []) :
    (s.enableRemoting object name api).source (s.serial :: path) =
      (construct s.values name object api).get path := by
  rw [source, enableRemoting, Forest.get_cons, if_pos rfl, if_neg nested, get_construct]
  cases api.find path with
  | none => rfl
  | some node =>
    rw [Option.bind_some]
    split
    · rfl
    · rfl

/-- The sources that are registered with a new root. -/
theorem mem_enabled {object : Obj} {name : Name} {api : Api} :
    (id, source) ∈ (Forest.cons s.serial ⟨name, name, .CLASS, false, api, some object, false⟩
        (construct s.values name object api) .nil).postorder.filter (fun node => node.2.object.isSome) ↔
      [s.serial] <+: id ∧ (s.enableRemoting object name api).source id = some source ∧ source.object ≠ none := by
  rw [List.mem_filter, Forest.mem_postorder, Forest.mem_nodes, Option.isSome_iff_ne_none, ← and_assoc]
  refine and_congr_left fun _ => ?_
  cases id with
  | nil =>
    rw [SourceIo.source, Forest.get_empty, Forest.get_empty]
    simp
  | cons number path =>
    rw [Forest.get_cons, Forest.get_nil]
    by_cases new : number = s.serial
    · subst new
      rw [if_pos rfl, and_iff_right (List.cons_prefix_cons.mpr ⟨rfl, List.nil_prefix⟩)]
      by_cases last : path = []
      · rw [if_pos last, last, source_enableRemoting_root]
      · rw [if_neg last, source_enableRemoting_new object name api last]
    · simp [new, eq_comm]

theorem get_enableRemoting_other (object : Obj) (name : Name) (api : Api) (other : ¬ [s.serial] <+: id) :
    (s.enableRemoting object name api).sources.get id = s.sources.get id := by
  cases id with
  | nil => rw [Forest.get_empty, Forest.get_empty]
  | cons number path =>
    have other : number ≠ s.serial := by
      rintro rfl
      exact other (List.cons_prefix_cons.mpr ⟨rfl, List.nil_prefix⟩)
    rw [enableRemoting, Forest.get_cons, if_neg other]

theorem source_enableRemoting_other (object : Obj) (name : Name) (api : Api) (other : ¬ [s.serial] <+: id) :
    (s.enableRemoting object name api).source id = s.source id := by
  rw [source, source, get_enableRemoting_other object name api other]

omit [DecidableEq Obj] in
/-- Item models are registered again in a reset. -/
theorem mem_registered (classes : Classes Obj) {target : Id} (nonempty : target ≠ []) (whole : s.Whole target)
    (newObject : Option Obj) {id : Id} {source : Source Obj} :
    (id, source) ∈ ((s.resetObject classes target newObject).sources.nodes.filter fun node =>
        decide (target <+: node.1) && node.2.object.any classes.isModel) ↔
      ∃ path old model, id = target ++ path ∧ s.source id = some old ∧
        old.resetObject classes (some model) = source ∧ readPath s.values newObject path = some model ∧
        classes.isModel model := by
  rw [List.mem_filter, Forest.mem_nodes, Bool.and_eq_true, decide_eq_true_eq, Option.any_eq_true]
  constructor
  · rintro ⟨found, ⟨path, rfl⟩, model, held, isModel⟩
    rw [get_resetObject classes nonempty] at found
    obtain ⟨old, present, rfl⟩ := Option.map_eq_some_iff.mp found
    rw [Source.object_resetObject] at held
    refine ⟨path, old, model, rfl, ?_, by rw [held], held, isModel⟩
    exact source_eq_some.mpr ⟨present, whole _ old present (List.prefix_append target path)⟩
  · rintro ⟨path, old, model, rfl, present, rfl, read, isModel⟩
    refine ⟨?_, List.prefix_append target path, model, Source.object_resetObject classes old _, isModel⟩
    rw [get_resetObject classes nonempty, (source_eq_some.mp present).1, Option.map_some, read]

end SourceIo

section Registered
variable {Obj : Type} {table : Name → Option Id} {sources : List (Id × Source Obj)} {name : Name} {id : Id}

theorem registered_other (other : ∀ node ∈ sources, node.2.name ≠ name) :
    SourceIo.registered table sources name = table name := by
  induction sources generalizing table with
  | nil => rfl
  | cons node sources ih =>
    obtain ⟨first, others⟩ := List.forall_mem_cons.mp other
    exact (ih others).trans (Function.update_of_ne (Ne.symm first) _ table)

theorem registered_named (table : Name → Option Id) (named : ∃ node ∈ sources, node.2.name = name) :
    ∃ node ∈ sources, node.2.name = name ∧ SourceIo.registered table sources name = some node.1 := by
  induction sources generalizing table with
  | nil => simp at named
  | cons node sources ih =>
    by_cases again : ∃ later ∈ sources, later.2.name = name
    · obtain ⟨last, member, same, found⟩ := ih _ again
      exact ⟨last, List.mem_cons_of_mem node member, same, found⟩
    · have first : node.2.name = name := by
        obtain ⟨found, member, same⟩ := named
        obtain rfl | member := List.mem_cons.mp member
        · exact same
        · exact absurd ⟨found, member, same⟩ again
      refine ⟨node, List.mem_cons_self, first, ?_⟩
      refine (registered_other fun later within same => again ⟨later, within, same⟩).trans ?_
      rw [← first]
      exact Function.update_self _ _ table

/-- A name that is looked up was registered now, or before and not again. -/
theorem registered_some (found : SourceIo.registered table sources name = some id) :
    (∃ source, (id, source) ∈ sources ∧ source.name = name) ∨
      (∀ node ∈ sources, node.2.name ≠ name) ∧ table name = some id := by
  by_cases named : ∃ node ∈ sources, node.2.name = name
  · obtain ⟨node, member, same, last⟩ := registered_named table named
    rw [found] at last
    obtain rfl := Option.some.inj last
    exact .inl ⟨node.2, member, same⟩
  · have other : ∀ node ∈ sources, node.2.name ≠ name := fun node member same => named ⟨node, member, same⟩
    rw [registered_other other] at found
    exact .inr ⟨other, found⟩

theorem registered_self {source : Source Obj} (member : (id, source) ∈ sources)
    (sole : ∀ node ∈ sources, node.2.name = source.name → node.1 = id) :
    SourceIo.registered table sources source.name = some id := by
  obtain ⟨node, within, same, last⟩ := registered_named table ⟨(id, source), member, rfl⟩
  rw [last, sole node within same]

end Registered

namespace SourceIo
variable {Obj : Type} {s : SourceIo Obj} {classes : Classes Obj} {target : Id} {newObject : Option Obj} {name : Name}

/-- A reset sets a source of that name to an item model. -/
def Renews (s : SourceIo Obj) (classes : Classes Obj) (target : Id) (newObject : Option Obj) (name : Name) : Prop :=
  ∃ path source model, s.source (target ++ path) = some source ∧ source.name = name ∧
    readPath s.values newObject path = some model ∧ classes.isModel model

theorem resetObject_kept (nonempty : target ≠ []) (whole : s.Whole target)
    (kept : ¬ s.Renews classes target newObject name) :
    (s.resetObject classes target newObject).m_sourceObjects name = s.m_sourceObjects name := by
  refine registered_other fun node member named => kept ?_
  obtain ⟨path, old, model, below, present, made, read, isModel⟩ :=
    (mem_registered classes nonempty whole newObject).mp member
  refine ⟨path, old, model, below ▸ present, ?_, read, isModel⟩
  rw [← named, ← made, Source.name_resetObject]

theorem resetObject_renewed (nonempty : target ≠ []) (whole : s.Whole target)
    (renews : s.Renews classes target newObject name) :
    ∃ path source model, s.source (target ++ path) = some source ∧ source.name = name ∧
      readPath s.values newObject path = some model ∧ classes.isModel model ∧
      (s.resetObject classes target newObject).m_sourceObjects name = some (target ++ path) := by
  obtain ⟨path, source, model, present, named, read, isModel⟩ := renews
  have member := (mem_registered classes nonempty whole newObject).mpr
    ⟨path, source, model, rfl, present, rfl, read, isModel⟩
  obtain ⟨last, member, same, entry⟩ := registered_named s.m_sourceObjects
    ⟨_, member, (Source.name_resetObject classes source (some model)).trans named⟩
  obtain ⟨path, source, model, below, present, made, read, isModel⟩ :=
    (mem_registered classes nonempty whole newObject).mp member
  refine ⟨path, source, model, below ▸ present, ?_, read, isModel, below ▸ entry⟩
  rw [← same, ← made, Source.name_resetObject]

end SourceIo

section Step
variable {Obj : Type} [DecidableEq Obj] {classes : Classes Obj} {s t : SourceIo Obj} {object : Obj}

theorem step_enableRemoting {name : Name} {api : Api} :
    step classes s (.enableRemoting object name api) = some t ↔
      s.m_sourceRoots name = none ∧ s.enableRemoting object name api = t := by
  simp [step]

theorem step_disableRemoting : step classes s (.disableRemoting object) = some t ↔
    ∃ number, s.m_objectToSourceMap object = some number ∧ s.deleteRoot number = t := by
  simp [step]

theorem SourceIo.resets_some {id : Id} {i : Nat} {newObject : Option Obj} (resets : s.resets id i = some newObject) :
    ∃ source object child, s.source id = some source ∧ source.object = some object ∧
      s.source (id ++ [i]) = some child ∧ child.object ≠ newObject ∧ s.values object i = newObject := by
  unfold SourceIo.resets at resets
  split at resets
  · rename_i object child held present
    obtain ⟨source, found, held⟩ := Option.bind_eq_some_iff.mp held
    split at resets
    · contradiction
    · rename_i different
      obtain rfl := Option.some.inj resets
      exact ⟨source, object, child, found, held, present, different, rfl⟩
  · contradiction

/-- Serializing a property changes the host by a reset only. -/
theorem step_serializeProperty {id : Id} {i : Nat} (stepped : step classes s (.serializeProperty id i) = some t) :
    (∃ newObject, s.resets id i = some newObject ∧ s.Whole (id ++ [i]) ∧
      s.resetObject classes (id ++ [i]) newObject = t) ∨ s.resets id i = none ∧ s = t := by
  rw [step] at stepped
  split at stepped
  · split at stepped
    · rename_i newObject resets
      split at stepped
      · rename_i whole
        exact .inl ⟨newObject, resets, whole, Option.some.inj stepped⟩
      · contradiction
    · rename_i resets
      exact .inr ⟨resets, Option.some.inj stepped⟩
  · contradiction

theorem step_of_resets {id : Id} {i : Nat} {newObject : Option Obj} (resets : s.resets id i = some newObject)
    (whole : s.Whole (id ++ [i])) :
    step classes s (.serializeProperty id i) = some (s.resetObject classes (id ++ [i]) newObject) := by
  obtain ⟨source, object, child, found, held, present, _⟩ := SourceIo.resets_some resets
  simp only [step, found, held, present, Option.bind_some, resets, if_pos whole]

end Step
end RemoteObjects.Host
