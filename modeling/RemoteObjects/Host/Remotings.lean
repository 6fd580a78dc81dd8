import RemoteObjects.Host.Names

/-! The calls that make and remove the root sources of a host, with their results. Three maps
list the roots, by name, by object and among the names of all sources. -/
namespace RemoteObjects.Host
open RemoteObjects Transition

section Model

inductive ErrorCode
  | OperationNotValidOnClientNode | MissingObjectName | SourceNotRegistered
deriving DecidableEq

/-- What `enableRemoting` reads of a `SourceApiMap`. -/
structure SourceApiMap where
  name : Name
  isDynamic : Bool
  properties : Api

/-- The overloads of `enableRemoting`: for an object with its own API, for one with an API that is
given, and for an item model, whose adapter has no pointer properties. -/
inductive Overload
  | object (name objectName typeName : Name) (properties : Api)
  | given (api : SourceApiMap)
  | model (name : Name)

variable (Obj : Type)

structure HostBase where
  remoteObjectIo : Option (SourceIo Obj)
  lastError : Option ErrorCode

/-- Between the calls properties get other values, and objects are destroyed. -/
inductive Call
  | enableRemoting (object : Obj) (overload : Overload)
  | disableRemoting (object : Obj)
  | destroy (object : Obj)
  | setPointer (object : Obj) (property : Nat) (value : Option Obj)

end Model

variable {Obj : Type} [DecidableEq Obj]

/-- The name of an object with its own API: the one that is given, or that of its class info, or
the name of the object. -/
def remotedName (name objectName typeName : Name) : Option Name :=
  let name := if name = [] then if typeName = [] then objectName else typeName else name
  if name = [] then none else some name

namespace SourceIo
variable (s : SourceIo Obj)

/-- `enableRemoting(QObject *, const SourceApiMap *, QObject *)`. -/
def enableApi (object : Obj) (api : SourceApiMap) : SourceIo Obj × Bool :=
  if !api.isDynamic && (s.m_sourceRoots api.name).isSome then (s, false)
  else (s.enableRemoting object api.name api.properties, true)

/-- `enableRemoting(QObject *, const QMetaObject *, const QString &, const QString &)`. -/
def enableMeta (object : Obj) (name : Name) (properties : Api) : SourceIo Obj × Bool :=
  if (s.m_sourceRoots name).isSome then (s, false) else s.enableApi object ⟨name, true, properties⟩

def disableRemoting (object : Obj) : SourceIo Obj × Bool :=
  match s.m_objectToSourceMap object with
  | some source => (s.deleteRoot source, true)
  | none => (s, false)

end SourceIo

namespace HostBase
variable (s : HostBase Obj)

/-- A host with or without a `QRemoteObjectSourceIo`. -/
def initial (values : Option (Obj → Nat → Option Obj)) : HostBase Obj where
  remoteObjectIo := values.map SourceIo.initial
  lastError := none

def withIo (result : SourceIo Obj × Bool) : HostBase Obj × Bool := ({ s with remoteObjectIo := some result.1 }, result.2)

def failed (error : ErrorCode) : HostBase Obj × Bool := ({ s with lastError := some error }, false)

/-- The overloads that take an API follow `remoteObjectIo` without asking for it. -/
def enableRemoting (object : Obj) : Overload → Option (HostBase Obj × Bool)
  | .object name objectName typeName properties =>
    match s.remoteObjectIo with
    | none => some (s.failed .OperationNotValidOnClientNode)
    | some io =>
      match remotedName name objectName typeName with
      | none => some (s.failed .MissingObjectName)
      | some name => some (s.withIo (io.enableMeta object name properties))
  | .given api => s.remoteObjectIo.map fun io => s.withIo (io.enableApi object api)
  | .model name => s.remoteObjectIo.map fun io => s.withIo (io.enableApi object ⟨name, false, .nil⟩)

def disableRemoting (object : Obj) : HostBase Obj × Bool :=
  match s.remoteObjectIo with
  | none => s.failed .OperationNotValidOnClientNode
  | some io =>
    let (io, disabled) := io.disableRemoting object
    if disabled then s.withIo (io, true) else s.failed .SourceNotRegistered

end HostBase

/-- One call with its result. -/
def call (s : HostBase Obj) : Call Obj → Option (HostBase Obj × Bool)
  | .enableRemoting object overload => s.enableRemoting object overload
  | .disableRemoting object => some (s.disableRemoting object)
  | .destroy object => some ({ s with remoteObjectIo := s.remoteObjectIo.map (·.destroy object) }, true)
  | .setPointer object i value => some ({ s with remoteObjectIo := s.remoteObjectIo.map fun io =>
      { io with values := fun other j => if other = object ∧ j = i then value else io.values other j } }, true)

def callStep (s : HostBase Obj) (c : Call Obj) : Option (HostBase Obj) := (call s c).map Prod.fst

section Statement
variable (io : SourceIo Obj) (s : HostBase Obj)

/-- The API with which an overload makes a root, with the name that it gets. -/
def Overload.source : Overload → Option SourceApiMap
  | .object name objectName typeName properties =>
    (remotedName name objectName typeName).map fun name => ⟨name, false, properties⟩
  | .given api => some api
  | .model name => some ⟨name, false, .nil⟩

def SourceIo.Remoted (object : Obj) : Prop := ∃ number root, io.source [number] = some root ∧ root.object = some object

def SourceIo.InUse (name : Name) : Prop := ∃ number root, io.source [number] = some root ∧ root.name = name

/-- A table has just the root sources that are there, by what they hold. -/
def SourceIo.Describes {Key : Type} (entry : Key → Nat → Prop) (held : Source Obj → Key → Prop) : Prop :=
  ∀ key number, entry key number ↔ ∃ root, io.source [number] = some root ∧ held root key

structure SourceIo.RootsAgree : Prop where
  roots : io.Describes (fun name number => io.m_sourceRoots name = some number) fun root name => root.name = name
  objects : io.Describes (fun object number => io.m_objectToSourceMap object = some number)
    fun root object => root.object = some object
  sources : io.Describes (fun name number => io.m_sourceObjects name = some [number]) fun root name => root.name = name

/-- What is claimed of a call: that a second remoting is refused, that no root of the object is left
after `disableRemoting`, and that the maps have the same roots. -/
structure CallKeeps (c : Call Obj) (t : HostBase Obj) (result : Bool) : Prop where
  refused : ∀ object overload source, c = .enableRemoting object overload → overload.source = some source →
    ∀ io ∈ s.remoteObjectIo, io.Remoted object ∨ io.InUse source.name → result = false
  removed : ∀ object, c = .disableRemoting object → result = true → ∀ io ∈ t.remoteObjectIo, ¬ io.Remoted object
  agree : ∀ io ∈ t.remoteObjectIo, io.RootsAgree

def OneRemoting (s : HostBase Obj) (c : Call Obj) : Prop := ∀ t result, call s c = some (t, result) → CallKeeps s c t result

/-- An API that calls itself dynamic comes with a free name. Where the name is free, the object is not
remoted yet, and no nested source gets the name of a root. -/
structure SourceIo.Fits (object : Obj) (source : SourceApiMap) : Prop where
  named : source.isDynamic → ¬ io.InUse source.name
  once : ¬ io.InUse source.name → ¬ io.Remoted object
  nested : ¬ io.InUse source.name → ∀ path label, source.properties.label io.values object source.name path = some label →
    (readPath io.values (some object) path).isSome → ¬ io.InUse label.wireName

def remotesFresh : Call Obj → Prop
  | .enableRemoting object overload => ∀ io ∈ s.remoteObjectIo, ∀ source ∈ overload.source, io.Fits object source
  | _ => True

end Statement

namespace SourceIo
variable {s t : SourceIo Obj} {object : Obj} {name : Name} {api : Api}

omit [DecidableEq Obj] in
theorem RootsAgree.initial (values : Obj → Nat → Option Obj) : (initial values).RootsAgree := by
  constructor <;> intro key number <;> simp [SourceIo.initial, source]

omit [DecidableEq Obj] in
theorem RootsAgree.inUse_iff (agree : s.RootsAgree) : s.InUse name ↔ (s.m_sourceRoots name).isSome := by
  rw [Option.isSome_iff_exists]
  exact exists_congr fun number => (agree.roots name number).symm

omit [DecidableEq Obj] in
/-- A table from which the entries of the deleted roots are taken. -/
theorem Describes.withoutRoots {Key : Type} {entry entry' : Key → Nat → Prop} {held : Source Obj → Key → Prop}
    (describes : s.Describes entry held) (roots : List Nat) (live : ∀ number ∈ roots, ∃ root, s.source [number] = some root)
    (taken : ∀ key number, entry' key number ↔
      entry key number ∧ ∀ gone ∈ roots, ∀ root, s.sources.get [gone] = some root → ¬ held root key)
    (unique : ∀ key number number', entry key number → entry key number' → number = number')
    (left : ∀ number, t.source [number] = (s.source [number]).filter fun _ => number ∉ roots) :
    t.Describes entry' held := by
  intro key number
  simp only [taken, describes key number, left, Option.filter_eq_some_iff, decide_eq_true_eq]
  constructor
  · rintro ⟨⟨root, present, holds⟩, others⟩
    refine ⟨root, ⟨present, fun member => ?_⟩, holds⟩
    exact others number member root (source_eq_some.mp present).1 holds
  · rintro ⟨root, ⟨present, kept⟩, holds⟩
    refine ⟨⟨root, present, holds⟩, fun gone member other found holds' => kept ?_⟩
    obtain ⟨found', alive⟩ := live gone member
    obtain rfl := Option.some.inj ((source_eq_some.mp alive).1.symm.trans found)
    obtain rfl := unique key gone number ((describes key gone).mpr ⟨found', alive, holds'⟩)
      ((describes key number).mpr ⟨root, present, holds⟩)
    exact member

omit [DecidableEq Obj] in
/-- A table that gets the entry of a new root. -/
theorem Describes.withRoot {Key : Type} [DecidableEq Key] {entry entry' : Key → Nat → Prop} {held : Source Obj → Key → Prop}
    (describes : s.Describes entry held) {serial : Nat} {root : Source Obj} (here : t.source [serial] = some root)
    (others : ∀ number, number ≠ serial → t.source [number] = s.source [number]) (absent : s.source [serial] = none)
    {key : Key} (holds : ∀ other, held root other ↔ other = key) (fresh : ∀ number, ¬ entry key number)
    (added : ∀ other number, entry' other number ↔ if other = key then number = serial else entry other number) :
    t.Describes entry' held := by
  intro other number
  rw [added]
  by_cases isNew : number = serial
  · subst isNew
    have missing : ¬ entry other number := fun listed => by
      obtain ⟨root, present, _⟩ := (describes other number).mp listed
      rw [absent] at present
      contradiction
    simp [here, holds, missing]
  · rw [others number isNew, ← describes other number]
    by_cases same : other = key
    · subst same
      simp [isNew, fresh]
    · simp [same]

theorem RootsAgree.withoutRoots (agree : s.RootsAgree) (roots : List Nat)
    (live : ∀ number ∈ roots, ∃ root, s.source [number] = some root)
    (tables : t.m_sourceRoots = (roots.foldl (fun s number => s.deleteRoot number) s).m_sourceRoots ∧
      t.m_objectToSourceMap = (roots.foldl (fun s number => s.deleteRoot number) s).m_objectToSourceMap ∧
      t.m_sourceObjects = (roots.foldl (fun s number => s.deleteRoot number) s).m_sourceObjects)
    (left : ∀ number, t.source [number] = (s.source [number]).filter fun _ => number ∉ roots) : t.RootsAgree := by
  obtain ⟨byName, byObject, among⟩ := tables
  constructor
  · refine agree.roots.withoutRoots roots live (fun key number => ?_) ?_ left
    · rw [byName, deleteRoots_m_sourceRoots]
    · exact fun key number number' first second => Option.some.inj (first.symm.trans second)
  · refine agree.objects.withoutRoots roots live (fun key number => ?_) ?_ left
    · rw [byObject, deleteRoots_m_objectToSourceMap]
    · exact fun key number number' first second => Option.some.inj (first.symm.trans second)
  · refine agree.sources.withoutRoots roots live (fun key number => ?_) ?_ left
    · rw [among, deleteRoots_m_sourceObjects]
    · exact fun key number number' first second => List.head_eq_of_cons_eq (Option.some.inj (first.symm.trans second))

theorem RootsAgree.deleteRoot (agree : s.RootsAgree) {number : Nat} (mapped : s.m_objectToSourceMap object = some number) :
    (s.deleteRoot number).RootsAgree ∧ ¬ (s.deleteRoot number).Remoted object := by
  obtain ⟨root, present, held⟩ := (agree.objects object number).mp mapped
  refine ⟨agree.withoutRoots [number] (by simp [present]) ⟨rfl, rfl, rfl⟩ (root_deleteRoot number), ?_⟩
  rintro ⟨other, root', found, held'⟩
  rw [root_deleteRoot, Option.filter_eq_some_iff, decide_eq_true_eq, List.mem_singleton] at found
  have mapped' := (agree.objects object other).mpr ⟨root', found.1, held'⟩
  exact found.2 (Option.some.inj (mapped'.symm.trans mapped))

theorem RootsAgree.destroy (agree : s.RootsAgree) (object : Obj) : (s.destroy object).RootsAgree :=
  agree.withoutRoots _ (roots_live object) ⟨rfl, rfl, rfl⟩ (root_destroy object)

/-- The new root is the last that is registered. -/
theorem m_sourceObjects_self (object : Obj) (name : Name) (api : Api) :
    (s.enableRemoting object name api).m_sourceObjects name = some [s.serial] := by
  simp [SourceIo.enableRemoting, Forest.postorder, registered, List.foldl_append]

omit [DecidableEq Obj] in
/-- The source that is made for a property, by its label. -/
theorem label_eq_some {values : Obj → Nat → Option Obj} {path : List Nat} {label : Label} :
    api.label values object name path = some label ↔ ∃ source, (construct values name object api).get path = some source ∧
      (source.kind, api.parentName name path, source.apiName) = label := by
  unfold Api.label
  constructor
  · intro found
    split at found
    · rename_i reached
      obtain ⟨property, known, rfl⟩ := Option.map_eq_some_iff.mp found
      obtain ⟨⟨_, below⟩, here, rfl⟩ := Option.map_eq_some_iff.mp known
      exact ⟨_, (construct_eq_some values).mpr ⟨_, below, here, reached, rfl⟩, rfl⟩
    · contradiction
  · rintro ⟨source, made, rfl⟩
    obtain ⟨property, below, here, reached, rfl⟩ := (construct_eq_some values).mp made
    rw [if_pos reached, Forest.get, here]
    rfl

omit [DecidableEq Obj] in
theorem construct_named {values : Obj → Nat → Option Obj} {path : List Nat} {source : Source Obj}
    (made : (construct values name object api).get path = some source) :
    source.name = Label.wireName (source.kind, api.parentName name path, source.apiName) ∧
      source.object = readPath values (some object) path := by
  obtain ⟨property, below, here, reached, rfl⟩ := (construct_eq_some values).mp made
  exact ⟨rfl, rfl⟩

/-- Entries of other names stay, when no nested source of a new root has the name of a root. -/
theorem RootsAgree.entry_enableRemoting (agree : s.RootsAgree) {key : Name}
    (apart : ∀ path label, api.label s.values object name path = some label → (readPath s.values (some object) path).isSome →
      ¬ s.InUse label.wireName) (other : name ≠ key) (number : Nat) :
    (s.enableRemoting object name api).m_sourceObjects key = some [number] ↔ s.m_sourceObjects key = some [number] := by
  have root := source_enableRemoting_root (s := s) object name api
  constructor
  · intro entry
    obtain ⟨source, member, named⟩ | ⟨_, before⟩ := registered_some entry
    · obtain ⟨below, present, _⟩ := mem_enabled.mp member
      obtain rfl := (List.cons_prefix_cons.mp below).1
      obtain rfl := Option.some.inj (root.symm.trans present)
      exact absurd named other
    · exact before
  · intro before
    refine (registered_other fun node member named => ?_).trans before
    obtain ⟨⟨path, below⟩, present, held⟩ := mem_enabled.mp member
    rw [← below, List.singleton_append] at present
    by_cases last : path = []
    · rw [last] at present
      have isRoot := Option.some.inj (root.symm.trans present)
      rw [← named, ← isRoot] at other
      exact other rfl
    · rw [source_enableRemoting_new object name api last] at present
      obtain ⟨same, read⟩ := construct_named present
      rw [← named, same] at before
      refine apart path _ (label_eq_some.mpr ⟨node.2, present, rfl⟩) ?_ ⟨number, (agree.sources _ number).mp before⟩
      rw [← read]
      exact Option.isSome_iff_ne_none.mpr held

/-- A new root of a new object leaves the tables right exactly if none of its nested sources has the name
of a root. -/
theorem RootsAgree.enableRemoting_iff (agree : s.RootsAgree) (consistent : s.Consistent) (free : ¬ s.InUse name)
    (fresh : ¬ s.Remoted object) : (s.enableRemoting object name api).RootsAgree ↔
      ∀ path label, api.label s.values object name path = some label → (readPath s.values (some object) path).isSome →
        ¬ s.InUse label.wireName := by
  have root := source_enableRemoting_root (s := s) object name api
  have old {number : Nat} {root : Source Obj} (found : s.source [number] = some root) :
      number ≠ s.serial ∧ (s.enableRemoting object name api).source [number] = some root := by
    have apart := consistent.old_of_source found
    refine ⟨fun same => apart (same ▸ List.prefix_rfl), ?_⟩
    rw [source_enableRemoting_other object name api apart, found]
  have new {number : Nat} (other : number ≠ s.serial) :
      (s.enableRemoting object name api).source [number] = s.source [number] :=
    source_enableRemoting_other object name api (by simpa [eq_comm] using other)
  constructor
  · rintro after path label labelled there ⟨number, root, present, named⟩
    obtain ⟨source, made, rfl⟩ := label_eq_some.mp labelled
    obtain ⟨same, held⟩ := construct_named made
    have nested : path ≠ [] := by
      rintro rfl
      rw [Forest.get_empty] at made
      contradiction
    have member := mem_enabled.mpr ⟨⟨path, rfl⟩, (source_enableRemoting_new object name api nested).trans made,
      held ▸ Option.isSome_iff_ne_none.mp there⟩
    -- the root's entry is that of a source below the new root
    obtain ⟨node, within, _, entry⟩ := registered_named s.m_sourceObjects ⟨_, member, same.trans named.symm⟩
    have kept := (after.sources root.name number).mpr ⟨root, (old present).2, rfl⟩
    have moved : node.1 = [number] := Option.some.inj (entry.symm.trans kept)
    have below := (mem_enabled.mp within).1
    rw [moved, List.cons_prefix_cons] at below
    exact (old present).1 below.1.symm
  · intro apart
    have absent : s.source [s.serial] = none :=
      Option.eq_none_iff_forall_ne_some.mpr fun root present => (old present).1 rfl
    constructor
    · refine agree.roots.withRoot root (fun _ => new) absent (fun _ => eq_comm) (fun number listed => ?_) fun key number => ?_
      · exact free ⟨number, (agree.roots name number).mp listed⟩
      · by_cases same : key = name <;> simp [SourceIo.enableRemoting, same, eq_comm]
    · have holds : ∀ other, some object = some other ↔ other = object := fun other => by simp [eq_comm]
      refine agree.objects.withRoot root (fun _ => new) absent holds (fun number listed => ?_) fun key number => ?_
      · exact fresh ⟨number, (agree.objects object number).mp listed⟩
      · by_cases same : key = object <;> simp [SourceIo.enableRemoting, same, eq_comm]
    · refine agree.sources.withRoot root (fun _ => new) absent (fun _ => eq_comm) (fun number listed => ?_) fun key number => ?_
      · exact free ⟨number, (agree.sources name number).mp listed⟩
      · split
        · rename_i same
          subst same
          rw [m_sourceObjects_self]
          simp [eq_comm]
        · rename_i other
          exact agree.entry_enableRemoting apart (Ne.symm other) number

theorem enableMeta_eq (object : Obj) (name : Name) (api : Api) :
    s.enableMeta object name api = s.enableApi object ⟨name, false, api⟩ := by
  unfold enableMeta enableApi
  split
  · rename_i used
    rw [if_pos (by simpa using used)]
  · rename_i free
    rw [if_neg (by simp), if_neg (by simpa using free)]

/-- What `enableRemoting` does with an API, by the guard on its name. -/
theorem enableApi_spec (agree : s.RootsAgree) (object : Obj) (source : SourceApiMap) :
    s.enableApi object source = (s, false) ∧ s.InUse source.name ∧ source.isDynamic = false ∨
      s.enableApi object source = (s.enableRemoting object source.name source.properties, true) ∧
        (s.InUse source.name → source.isDynamic) := by
  rw [agree.inUse_iff]
  unfold enableApi
  split
  · rename_i used
    rw [Bool.and_eq_true, Bool.not_eq_true'] at used
    exact .inl ⟨rfl, used.2, used.1⟩
  · rename_i open'
    rw [Bool.and_eq_true, Bool.not_eq_true', not_and] at open'
    refine .inr ⟨rfl, fun used => ?_⟩
    by_contra plain
    exact open' (by simpa using plain) used

theorem enableApi_fits (consistent : s.Consistent) (agree : s.RootsAgree) (source : SourceApiMap) :
    ((s.Remoted object ∨ s.InUse source.name → (s.enableApi object source).2 = false) ∧
      (s.enableApi object source).1.RootsAgree) ↔ s.Fits object source := by
  obtain ⟨same, used, plain⟩ | ⟨same, dynamic⟩ := enableApi_spec agree object source
  · rw [same]
    refine iff_of_true ⟨fun _ => rfl, agree⟩ ⟨fun isDynamic => ?_, fun free => absurd used free, fun free => absurd used free⟩
    rw [plain] at isDynamic
    contradiction
  · rw [same]
    constructor
    · rintro ⟨refused, after⟩
      have new : ¬ (s.Remoted object ∨ s.InUse source.name) := fun either => by
        have := refused either
        contradiction
      rw [not_or] at new
      exact ⟨fun _ => new.2, fun _ => new.1, fun _ => (agree.enableRemoting_iff consistent new.2 new.1).mp after⟩
    · intro fits
      have free : ¬ s.InUse source.name := fun used => fits.named (dynamic used) used
      have once := fits.once free
      refine ⟨fun either => absurd either (not_or.mpr ⟨once, free⟩), ?_⟩
      exact (agree.enableRemoting_iff consistent free once).mpr (fits.nested free)

theorem enableApi_consistent (consistent : s.Consistent) (agree : s.RootsAgree) {source : SourceApiMap}
    (refused : s.Remoted object ∨ s.InUse source.name → (s.enableApi object source).2 = false) :
    (s.enableApi object source).1.Consistent := by
  obtain ⟨same, _⟩ | ⟨same, _⟩ := enableApi_spec agree object source
  · rw [same]
    exact consistent
  · rw [same] at refused ⊢
    refine consistent.enableRemoting object source.properties (Option.not_isSome_iff_eq_none.mp fun used => ?_)
    have := refused (.inr (agree.inUse_iff.mpr used))
    contradiction

end SourceIo

section Main
variable {s t : HostBase Obj} {object : Obj} {overload : Overload} {source : SourceApiMap} {io : SourceIo Obj}

theorem enableRemoting_source (here : s.remoteObjectIo = some io) (object : Obj) (made : overload.source = some source) :
    s.enableRemoting object overload = some (s.withIo (io.enableApi object source)) := by
  cases overload with
  | object name objectName typeName properties =>
    obtain ⟨name, named, rfl⟩ := Option.map_eq_some_iff.mp made
    simp only [HostBase.enableRemoting, here, named, SourceIo.enableMeta_eq]
  | given api =>
    obtain rfl := Option.some.inj made
    simp only [HostBase.enableRemoting, here, Option.map_some]
  | model name =>
    obtain rfl := Option.some.inj made
    simp only [HostBase.enableRemoting, here, Option.map_some]

/-- Without a source nothing is changed but the last error. -/
theorem enableRemoting_failed {result : Bool} (failed : ∀ io ∈ s.remoteObjectIo, overload.source = none)
    (stepped : s.enableRemoting object overload = some (t, result)) : t.remoteObjectIo = s.remoteObjectIo ∧ result = false := by
  cases here : s.remoteObjectIo with
  | none =>
    cases overload <;> simp only [HostBase.enableRemoting, here, Option.map_none, reduceCtorEq] at stepped
    obtain ⟨rfl, rfl⟩ := Prod.mk.inj (Option.some.inj stepped)
    exact ⟨here, rfl⟩
  | some io =>
    have unnamed := failed io here
    cases overload with
    | object name objectName typeName properties =>
      rw [Overload.source, Option.map_eq_none_iff] at unnamed
      simp only [HostBase.enableRemoting, here, unnamed] at stepped
      obtain ⟨rfl, rfl⟩ := Prod.mk.inj (Option.some.inj stepped)
      exact ⟨here, rfl⟩
    | given api => contradiction
    | model name => contradiction

/-- What holds between the calls. -/
def HostBase.Good (s : HostBase Obj) : Prop := ∀ io ∈ s.remoteObjectIo, io.Consistent ∧ io.RootsAgree

omit [DecidableEq Obj] in
theorem HostBase.Good.withIo (s : HostBase Obj) {io : SourceIo Obj} {result : Bool} (consistent : io.Consistent) (agree : io.RootsAgree) :
    (s.withIo (io, result)).1.Good := by
  intro other here
  obtain rfl := Option.some.inj here
  exact ⟨consistent, agree⟩

theorem disableRemoting_spec (good : s.Good) (object : Obj) : (s.disableRemoting object).1.Good ∧
    ((s.disableRemoting object).2 = true → ∀ io ∈ (s.disableRemoting object).1.remoteObjectIo, ¬ io.Remoted object) := by
  have refused (error : ErrorCode) : (s.failed error).1.Good ∧
      ((s.failed error).2 = true → ∀ io ∈ (s.failed error).1.remoteObjectIo, ¬ io.Remoted object) :=
    ⟨good, fun failed => (nomatch failed)⟩
  cases here : s.remoteObjectIo with
  | none =>
    have same : s.disableRemoting object = s.failed .OperationNotValidOnClientNode := by
      simp only [HostBase.disableRemoting, here]
    rw [same]
    exact refused _
  | some io =>
    obtain ⟨consistent, agree⟩ := good io here
    cases mapped : io.m_objectToSourceMap object with
    | none =>
      have same : s.disableRemoting object = s.failed .SourceNotRegistered := by
        simp [HostBase.disableRemoting, here, SourceIo.disableRemoting, mapped]
      rw [same]
      exact refused _
    | some number =>
      have same : s.disableRemoting object = s.withIo (io.deleteRoot number, true) := by
        simp [HostBase.disableRemoting, here, SourceIo.disableRemoting, mapped]
      obtain ⟨after, gone⟩ := agree.deleteRoot mapped
      rw [same]
      refine ⟨.withIo s (consistent.deleteRoot mapped) after, fun _ other there => ?_⟩
      obtain rfl := Option.some.inj there
      exact gone

theorem good_destroy (good : s.Good) (object : Obj) :
    HostBase.Good { s with remoteObjectIo := s.remoteObjectIo.map (·.destroy object) } := by
  intro io here
  obtain ⟨before, there, rfl⟩ := Option.map_eq_some_iff.mp here
  exact ⟨(good before there).1.destroy object, (good before there).2.destroy object⟩

omit [DecidableEq Obj] in
theorem good_setPointer (good : s.Good) (values : SourceIo Obj → Obj → Nat → Option Obj) :
    HostBase.Good { s with remoteObjectIo := s.remoteObjectIo.map fun io => { io with values := values io } } := by
  intro io here
  obtain ⟨before, there, rfl⟩ := Option.map_eq_some_iff.mp here
  obtain ⟨consistent, agree⟩ := good before there
  exact ⟨consistent.aged rfl (fun _ => rfl) consistent.listed consistent.mapped, ⟨agree.roots, agree.objects, agree.sources⟩⟩

/-- A call keeps the claim exactly if what it remotes is new. -/
theorem oneRemoting_iff (good : s.Good) (c : Call Obj) : OneRemoting s c ↔ remotesFresh s c := by
  cases c with
  | enableRemoting object overload =>
    by_cases there : ∃ io source, s.remoteObjectIo = some io ∧ overload.source = some source
    · obtain ⟨io, source, here, made⟩ := there
      obtain ⟨consistent, agree⟩ := good io here
      have reduced : remotesFresh s (.enableRemoting object overload) ↔ io.Fits object source := by
        simp only [remotesFresh, here, made, Option.mem_def, Option.some.injEq, forall_eq']
      rw [reduced, ← SourceIo.enableApi_fits consistent agree source]
      have stepped := enableRemoting_source here object made
      constructor
      · intro kept
        have after := kept _ _ stepped
        exact ⟨after.refused object overload source rfl made io here, after.agree _ rfl⟩
      · rintro ⟨refused, after⟩ t result head
        obtain ⟨rfl, rfl⟩ := Prod.mk.inj (Option.some.inj (stepped.symm.trans head))
        refine ⟨?_, fun _ other => (by cases other), ?_⟩
        · rintro _ _ source' ⟨⟩ made' io' here'
          obtain rfl := Option.some.inj (made.symm.trans made')
          obtain rfl := Option.some.inj (here.symm.trans here')
          exact refused
        · intro io' there
          obtain rfl := Option.some.inj there
          exact after
    · have failed : ∀ io ∈ s.remoteObjectIo, overload.source = none := fun io here =>
        Option.eq_none_iff_forall_ne_some.mpr fun source made => there ⟨io, source, here, made⟩
      refine iff_of_true (fun t result head => ?_) fun io here source made => absurd ⟨io, source, here, made⟩ there
      obtain ⟨same, refused⟩ := enableRemoting_failed failed head
      exact ⟨fun _ _ _ _ _ _ _ _ => refused, fun _ other => (by cases other), fun io there => (good io (same ▸ there)).2⟩
  | disableRemoting object =>
    refine iff_of_true (fun t result head => ?_) trivial
    obtain ⟨rfl, rfl⟩ := Prod.mk.inj (Option.some.inj head)
    obtain ⟨after, removed⟩ := disableRemoting_spec good object
    refine ⟨fun _ _ _ other => (by cases other), ?_, fun io there => (after io there).2⟩
    rintro _ ⟨⟩
    exact removed
  | destroy object =>
    refine iff_of_true (fun t result head => ?_) trivial
    obtain ⟨rfl, rfl⟩ := Prod.mk.inj (Option.some.inj head)
    exact ⟨fun _ _ _ other => (by cases other), fun _ other => (by cases other), fun io there => (good_destroy good object io there).2⟩
  | setPointer object i value =>
    refine iff_of_true (fun t result head => ?_) trivial
    obtain ⟨rfl, rfl⟩ := Prod.mk.inj (Option.some.inj head)
    exact ⟨fun _ _ _ other => (by cases other), fun _ other => (by cases other), fun io there => (good_setPointer good _ io there).2⟩

theorem good_step {c : Call Obj} (good : s.Good) (kept : OneRemoting s c) (head : callStep s c = some t) : t.Good := by
  obtain ⟨⟨_, result⟩, stepped, rfl⟩ := Option.map_eq_some_iff.mp head
  cases c with
  | enableRemoting object overload =>
    by_cases there : ∃ io source, s.remoteObjectIo = some io ∧ overload.source = some source
    · obtain ⟨io, source, here, made⟩ := there
      obtain ⟨consistent, agree⟩ := good io here
      have after := kept _ _ stepped
      obtain ⟨rfl, rfl⟩ := Prod.mk.inj (Option.some.inj ((enableRemoting_source here object made).symm.trans stepped))
      refine .withIo s (SourceIo.enableApi_consistent consistent agree ?_) (after.agree _ rfl)
      exact after.refused object overload source rfl made io here
    · have failed : ∀ io ∈ s.remoteObjectIo, overload.source = none := fun io here =>
        Option.eq_none_iff_forall_ne_some.mpr fun source made => there ⟨io, source, here, made⟩
      exact fun io here => good io ((enableRemoting_failed failed stepped).1 ▸ here)
  | disableRemoting object =>
    obtain ⟨rfl, rfl⟩ := Prod.mk.inj (Option.some.inj stepped)
    exact (disableRemoting_spec good object).1
  | destroy object =>
    obtain ⟨rfl, rfl⟩ := Prod.mk.inj (Option.some.inj stepped)
    exact good_destroy good object
  | setPointer object i value =>
    obtain ⟨rfl, rfl⟩ := Prod.mk.inj (Option.some.inj stepped)
    exact good_setPointer good _

/-- In a run of calls, each object is remoted once under each name, and the maps of the roots agree, exactly if every
remoting is one of a new object and takes no root's name for a nested source. -/
theorem oneRemoting_run_iff (values : Option (Obj → Nat → Option Obj)) (calls : List (Call Obj)) :
    Admitted callStep OneRemoting (HostBase.initial values) calls ↔ Admitted callStep remotesFresh (HostBase.initial values) calls := by
  refine admitted_iff_of_kept (fun good kept head => good_step good kept head) (fun good => oneRemoting_iff good _) ?_
  intro io here
  obtain ⟨values, _, rfl⟩ := Option.map_eq_some_iff.mp here
  exact ⟨.initial values, .initial values⟩

end Main

/-- An object is remoted under two names, and then disabled. -/
def twice : List (Call Nat) :=
  [.enableRemoting 0 (.object "A".toList [] [] .nil), .enableRemoting 0 (.object "B".toList [] [] .nil), .disableRemoting 0]

/-- The second name is accepted. After `disableRemoting` the first root is still listed by its name. -/
theorem twice_accepted : ¬ Admitted callStep OneRemoting (.initial (some fun _ _ => none)) twice ∧
    ∃ s, exec callStep (.initial (some fun _ _ => none)) twice = some s ∧
      s.remoteObjectIo.any fun io => io.m_sourceRoots "A".toList = some 0 ∧ io.m_objectToSourceMap 0 = none := by
  constructor
  · intro admitted
    have second := (admitted.2 _ rfl).1 _ true rfl
    have refused := second.refused 0 _ _ rfl rfl _ rfl (.inl ⟨0, _, rfl, rfl⟩)
    contradiction
  · exact ⟨_, rfl, by decide⟩

end RemoteObjects.Host
