import Mathlib.Data.List.Forall2
import RemoteObjects.Packet.Codec
import RemoteObjects.Packet.QtStream
import RemoteObjects.Source.Signatures
import RemoteObjects.Source.TypeNames

/-! The definition of a source API as `serializeDefinition` writes it, and the meta object that
`addDynamicType` makes of it. Signatures and notify signatures are rewritten as texts, each by
its own replacements, and matched again as texts. -/
namespace RemoteObjects.Source.DynamicTypes
open RemoteObjects Text Packet Wire Signatures
open TypeNames (ObjectType)

section Model

inductive ContainerKind
  | sequential | associative
deriving DecidableEq

def ContainerKind.text : ContainerKind → Name
  | .sequential => "QtROSequentialContainer".toList
  | .associative => "QtROAssociativeContainer".toList

theorem ContainerKind.isName (kind : ContainerKind) : IsName kind.text := by
  cases kind <;> decide

theorem ContainerKind.text_ne (kind : ContainerKind) : kind.text ≠ [] := by
  cases kind <;> decide

/-- A meta type with `isSequentialGadgetType` or `isAssociativeGadgetType`. -/
structure Container where
  kind : ContainerKind
  typeName : Name
  isType : IsType typeName
  generic : '<' ∈ typeName

def Container.renaming (c : Container) : Renaming where
  type := c.typeName
  by' := c.kind.text
  type_ne := List.ne_nil_of_mem c.generic
  isType := c.isType
  isName := c.kind.isName

structure Parameter where
  type : Name
  name : Name
  container : Option Container
  isType : IsType type
  type_ne : type ≠ []

/-- A signal or a slot. Its signature is in the normal form of moc, which `QMetaObjectBuilder`
does not change. -/
structure Method where
  name : Name
  parameters : List Parameter
  isName : IsName name

def Method.types (m : Method) : List Name := m.parameters.map (·.type)

def Method.signature (m : Method) : Name := Signatures.signature m.name m.types

def Method.containers (m : Method) : List Container := m.parameters.filterMap (·.container)

structure Slot where
  method : Method
  typeName : Name

inductive PropertyType
  | object (type : ObjectType)
  | container (kind : ContainerKind)
  | value (typeName : Name)

def PropertyType.text : PropertyType → Name
  | .object .CLASS => "QObject*".toList
  | .object .MODEL => "QAbstractItemModel*".toList
  | .container kind => kind.text
  | .value typeName => typeName

/-- A property names its notify signal by the API index. -/
structure Property where
  name : Name
  type : PropertyType
  notify : Option Nat
  terminated : '\x00' ∉ name

/-- What `serializeDefinition` reads of a source, with the enums and gadgets that
`recurseForGadgets` collects. -/
structure SourceApi (B : Type) where
  className : Name
  typeName : Name
  enums : List (EnumData B)
  qtEnums : List B
  gadgets : List (GadgetData B)
  signals : List Method
  methods : List Slot
  properties : List Property
  className_ne : className ≠ []
  className_isName : IsName className
  typeName_isName : IsName typeName
  notify_lt : ∀ p ∈ properties, ∀ index ∈ p.notify, index < signals.length

namespace SourceApi
variable {B : Type} (api : SourceApi B)

def scope : Renaming where
  type := api.className
  by' := api.typeName
  type_ne := api.className_ne
  isType := api.className_isName.isType
  isName := api.typeName_isName

/-- The replacements in a signature: first the class name, then the type of each parameter that is
a container of gadgets. -/
def renamings (m : Method) : List Renaming := api.scope :: m.containers.map (·.renaming)

def written (m : Method) : Name := renamed (api.renamings m) m.signature

/-- In a notify signature only the class name is replaced. -/
def notifySignature (p : Property) : Name :=
  match p.notify.bind fun index => api.signals[index]? with
  | none => []
  | some m => renamed [api.scope] m.signature

end SourceApi

/-- A C string is streamed with its terminating zero. -/
def cString (t : Name) : Name := t ++ ['\x00']

def ofCString (t : Name) : Name := t.takeWhile (· ≠ '\x00')

/-- Byte arrays and strings of the stream, and the texts that they hold. -/
structure Encoding (S B : Type) where
  byteArray : Name → B
  text : B → Name
  string : Name → S
  toLatin1 : S → B

variable {S B V : Type} [Inhabited B] (d : DataStream S B V) (e : Encoding S B)

def serializeDefinition (api : SourceApi B) : Definition S B where
  typeName := e.string api.typeName
  enums := api.enums
  qtEnums := api.qtEnums
  gadgets := api.gadgets
  signals := api.signals.map fun m => ⟨e.byteArray (api.written m), m.parameters.map fun p => e.byteArray p.name⟩
  methods := api.methods.map fun m => ⟨e.byteArray (api.written m.method),
    e.byteArray (replace api.className api.typeName m.typeName), m.method.parameters.map fun p => e.byteArray p.name⟩
  properties := api.properties.map fun p =>
    ⟨e.byteArray (cString p.name), e.byteArray (cString p.type.text), e.byteArray (api.notifySignature p)⟩

structure MetaMethod where
  signature : Name
  returnType : Name
  parameterNames : List Name

def MetaMethod.name (m : MetaMethod) : Name := methodName m.signature

def MetaMethod.parameterCount (m : MetaMethod) : Nat := Signatures.parameterCount m.signature

structure MetaProperty where
  name : Name
  typeName : Name
  notify : Option Nat

structure MetaObject (B : Type) where
  className : Name
  enums : List (EnumData B)
  signals : List MetaMethod
  methods : List MetaMethod
  properties : List MetaProperty

/-- `addSignal` or `addMethod`, and `setParameterNames`: a parameter without a name has an empty one. -/
def addMethod (signature returnType : Name) (parameterNames : List Name) : MetaMethod where
  signature := signature
  returnType := returnType
  parameterNames := (parameterNames ++ List.replicate (parameterCount signature) []).take (parameterCount signature)

/-- The first signal with a signature. -/
def indexOfSignal (signals : List MetaMethod) (signature : Name) : Option Nat :=
  signals.findIdx? fun m => m.signature = signature

/-- An enum of the class gets the name that it is registered by. -/
def enumType (type : Name) (classEnums : List Name) (typeName : Name) : Name :=
  let choppedName := typeName.dropLast
  match find "::".toList choppedName with
  | none => typeName
  | some index =>
    let name := choppedName.drop (index + 2)
    if name ∈ classEnums then cString (type ++ "::".toList ++ name) else typeName

/-- The meta object behind a definition. -/
def build (t : Definition S B) : MetaObject B :=
  let type := e.text (e.toLatin1 t.typeName)
  let classEnums := t.enums.map fun enum => e.text enum.name
  let signals := t.signals.map fun s =>
    addMethod (e.text s.signature) "void".toList (s.parameterNames.map e.text)
  { className := type
    enums := t.enums
    signals := signals
    methods := t.methods.map fun m =>
      let returnType := e.text m.typeName
      let isVoid := returnType = [] ∨ returnType = "void".toList
      addMethod (e.text m.signature) (if isVoid then "void".toList else "QRemoteObjectPendingCall".toList)
        (m.parameterNames.map e.text)
    properties := t.properties.map fun p =>
      let typeName := enumType type classEnums (e.text p.typeName)
      let signalName := e.text p.signalName
      ⟨ofCString (e.text p.name), ofCString typeName,
        if signalName = [] then none else indexOfSignal signals signalName⟩ }

def addDynamicType : Reader UInt8 (MetaObject B) := build e <$> (definition d).get

end Model

section Spec
variable {B : Type}

/-- Name, parameter count and parameter names are those of the API. -/
structure MetaMethod.Is (built : MetaMethod) (m : Method) : Prop where
  name : built.name = m.name
  parameterCount : built.parameterCount = m.parameters.length
  parameterNames : built.parameterNames = m.parameters.map (·.name)

structure MetaProperty.Is (built : MetaProperty) (p : Property) : Prop where
  name : built.name = p.name
  notify : built.notify = p.notify

/-- A meta object has the members of the API, in the same order. -/
structure Faithful (api : SourceApi B) (m : MetaObject B) : Prop where
  signals : List.Forall₂ MetaMethod.Is m.signals api.signals
  methods : List.Forall₂ MetaMethod.Is m.methods (api.methods.map (·.method))
  properties : List.Forall₂ MetaProperty.Is m.properties api.properties

/-- The class name is not in the name of a method, and does not make up its last parameter's type
where the type name is empty. -/
structure Kept (api : SourceApi B) (m : Method) : Prop where
  name : api.className = api.typeName ∨ ¬ api.className <:+: m.name
  last : ∀ p, m.parameters.getLast? = some p →
    api.typeName ≠ [] ∨ ∀ n, p.type ≠ (List.replicate n api.className).flatten

/-- No container of gadgets is in a notify signature, and no signal in front has the same one. -/
structure Notified (api : SourceApi B) (index : Nat) (m : Method) : Prop where
  plain : ∀ c ∈ m.containers, ¬ c.typeName <:+: renamed [api.scope] m.signature
  first : ∀ j < index, ∀ other, api.signals[j]? = some other → api.written other ≠ api.written m

structure Rebuilt (api : SourceApi B) : Prop where
  signals : ∀ m ∈ api.signals, Kept api m
  methods : ∀ m ∈ api.methods, Kept api m.method
  notify : ∀ p ∈ api.properties, ∀ index ∈ p.notify, ∀ m, api.signals[index]? = some m → Notified api index m

end Spec

section Written
variable {B : Type} {api : SourceApi B} {m : Method}

theorem Method.isType (m : Method) : ∀ t ∈ m.types, IsType t :=
  List.forall_mem_map.mpr fun p _ => p.isType

theorem generic (m : Method) : ∀ r ∈ m.containers.map (·.renaming), '<' ∈ r.type :=
  List.forall_mem_map.mpr fun c _ => c.generic

theorem IsName.not_mem {t : Name} (name : IsName t) : '(' ∉ t ∧ '<' ∉ t :=
  ⟨fun left => absurd (name _ left) (by decide), fun left => absurd (name _ left) (by decide)⟩

/-- Only the class name can be in the name of a method. -/
theorem renamed_name (api : SourceApi B) (m : Method) :
    renamed (api.renamings m) m.name = replace api.className api.typeName m.name := by
  apply (renamed_eq_self (generic m)).mpr
  intro r member occurs
  have bracket := occurs.subset (generic m r member)
  rcases mem_replace api.className_ne bracket with new | old
  · exact (IsName.not_mem api.typeName_isName).2 new
  · exact (IsName.not_mem m.isName).2 old

theorem written_eq (api : SourceApi B) (m : Method) :
    api.written m = signature (replace api.className api.typeName m.name) (m.types.map (renamed (api.renamings m))) := by
  rw [SourceApi.written, Method.signature, renamed_signature m.isType, renamed_name]

theorem not_mem_renamed_name (api : SourceApi B) (m : Method) : '(' ∉ replace api.className api.typeName m.name := by
  intro left
  rcases mem_replace api.className_ne left with new | old
  · exact (IsName.not_mem api.typeName_isName).1 new
  · exact (IsName.not_mem m.isName).1 old

theorem renamed_eq_nil (containers : List Container) (t : Name) :
    renamed (containers.map (·.renaming)) t = [] ↔ t = [] := by
  induction containers generalizing t with
  | nil => exact Iff.rfl
  | cons c containers ih => exact (ih _).trans (replace_eq_nil c.renaming.type_ne c.kind.text_ne)

/-- A type keeps some text, unless it is made up of the class name and the type name is empty. -/
theorem renamed_type_ne_nil (m : Method) (p : Parameter) :
    renamed (api.renamings m) p.type ≠ [] ↔
      api.typeName ≠ [] ∨ ∀ n, p.type ≠ (List.replicate n api.className).flatten := by
  have first : renamed (api.renamings m) p.type = [] ↔ replace api.className api.typeName p.type = [] :=
    renamed_eq_nil m.containers _
  rw [Ne, first]
  by_cases empty : api.typeName = []
  · rw [empty, replace_nil_eq_nil api.className_ne, not_exists]
    exact ⟨.inr, fun either => either.resolve_left (fun some' => some' rfl)⟩
  · rw [replace_eq_nil api.className_ne empty]
    exact ⟨fun _ => .inl empty, fun _ => p.type_ne⟩

theorem parameterCount_written (api : SourceApi B) (m : Method) :
    parameterCount (api.written m) = m.parameters.length ↔
      ∀ p, m.parameters.getLast? = some p → renamed (api.renamings m) p.type ≠ [] := by
  have isTypes : ∀ t ∈ m.types.map (renamed (api.renamings m)), IsType t :=
    List.forall_mem_map.mpr fun t member => isType_renamed (m.isType t member)
  rw [written_eq, parameterCount_signature (not_mem_renamed_name api m) isTypes]
  simp only [Method.types, List.map_map, List.length_map, List.getLast?_map]
  cases last : m.parameters.getLast? with
  | none => simp
  | some p =>
    have positive : 0 < m.parameters.length := List.length_pos_of_mem (List.mem_of_getLast? last)
    simp only [Option.map_some, Option.some.injEq, Function.comp_apply, forall_eq']
    by_cases empty : renamed (api.renamings m) p.type = []
    · rw [if_pos empty]
      exact ⟨fun same => by omega, fun some' => absurd empty some'⟩
    · rw [if_neg empty]
      exact ⟨fun _ => empty, fun _ => rfl⟩

/-- A method comes out as it is in the API when the renaming keeps its name and its last type. -/
theorem addMethod_is (api : SourceApi B) (m : Method) (returnType : Name) :
    (addMethod (api.written m) returnType (m.parameters.map (·.name))).Is m ↔ Kept api m := by
  have name : methodName (api.written m) = m.name ↔ (api.className = api.typeName ∨ ¬ api.className <:+: m.name) := by
    rw [written_eq, methodName_signature (not_mem_renamed_name api m), replace_eq_self api.className_ne]
  have count := parameterCount_written api m
  constructor
  · intro built
    refine ⟨name.mp built.name, ?_⟩
    intro p last
    exact (renamed_type_ne_nil m p).mp (count.mp built.parameterCount p last)
  · intro kept
    have same : parameterCount (api.written m) = m.parameters.length :=
      count.mpr fun p last => (renamed_type_ne_nil m p).mpr (kept.last p last)
    refine ⟨name.mpr kept.name, same, ?_⟩
    simp only [addMethod, same]
    exact List.take_left' (List.length_map _)

end Written

section Notify
variable {B : Type} {api : SourceApi B} {m : Method} {index : Nat}

/-- The signals as the receiver adds them. -/
def addedSignals (api : SourceApi B) : List MetaMethod :=
  api.signals.map fun m => addMethod (api.written m) "void".toList (m.parameters.map (·.name))

theorem written_eq_notify (api : SourceApi B) (m : Method) :
    api.written m = renamed [api.scope] m.signature ↔ ∀ c ∈ m.containers, ¬ c.typeName <:+: renamed [api.scope] m.signature := by
  have stays := renamed_eq_self (t := renamed [api.scope] m.signature) (generic m)
  rw [List.forall_mem_map] at stays
  exact stays

theorem notifySignature_ne (api : SourceApi B) (m : Method) : renamed [api.scope] m.signature ≠ [] := by
  rw [Method.signature, renamed_signature m.isType, signature]
  exact List.append_ne_nil_of_right_ne_nil _ (List.cons_ne_nil _ _)

theorem indexOfSignal_iff (found : api.signals[index]? = some m) :
    indexOfSignal (addedSignals api) (renamed [api.scope] m.signature) = some index ↔ Notified api index m := by
  obtain ⟨inside, rfl⟩ := List.getElem?_eq_some_iff.mp found
  rw [indexOfSignal, List.findIdx?_eq_some_iff_getElem]
  simp only [addedSignals, List.length_map, List.getElem_map, addMethod, decide_eq_true_eq]
  constructor
  · rintro ⟨_, same, first⟩
    refine ⟨(written_eq_notify api _).mp same, ?_⟩
    intro j before other at'
    obtain ⟨_, rfl⟩ := List.getElem?_eq_some_iff.mp at'
    rw [same]
    exact first j before
  · intro notified
    have same := (written_eq_notify api _).mpr notified.plain
    refine ⟨inside, same, ?_⟩
    intro j before
    rw [← same]
    exact notified.first j before _ (List.getElem?_eq_getElem (by omega))

theorem ofCString_cString {t : Name} (terminated : '\x00' ∉ t) : ofCString (cString t) = t := by
  rw [ofCString, cString, List.takeWhile_append_of_pos]
  · exact List.append_nil t
  · intro c member
    exact decide_eq_true fun zero => terminated (zero ▸ member)

end Notify

section RoundTrip
variable {S B : Type} (e : Encoding S B) (api : SourceApi B)

/-- The names and signatures in a definition. -/
def SourceApi.texts : List Name :=
  (api.signals ++ api.methods.map (·.method)).flatMap (fun m => api.written m :: m.parameters.map (·.name)) ++
    api.properties.flatMap fun p => [cString p.name, api.notifySignature p]

variable {e api}

theorem text_method (carried : ∀ t ∈ api.texts, e.text (e.byteArray t) = t) {m : Method}
    (member : m ∈ api.signals ++ api.methods.map (·.method)) :
    e.text (e.byteArray (api.written m)) = api.written m ∧
      (m.parameters.map fun p => e.byteArray p.name).map e.text = m.parameters.map (·.name) := by
  have texts : ∀ t ∈ api.written m :: m.parameters.map (·.name), e.text (e.byteArray t) = t := fun t inside =>
    carried t (List.mem_append_left _ (List.mem_flatMap.mpr ⟨m, member, inside⟩))
  obtain ⟨signature, names⟩ := List.forall_mem_cons.mp texts
  refine ⟨signature, ?_⟩
  rw [List.map_map]
  exact List.map_congr_left fun p member => names p.name (List.mem_map_of_mem member)

theorem text_property (carried : ∀ t ∈ api.texts, e.text (e.byteArray t) = t) {p : Property} (member : p ∈ api.properties) :
    e.text (e.byteArray (cString p.name)) = cString p.name ∧
      e.text (e.byteArray (api.notifySignature p)) = api.notifySignature p := by
  have texts : ∀ t ∈ [cString p.name, api.notifySignature p], e.text (e.byteArray t) = t := fun t inside =>
    carried t (List.mem_append_right _ (List.mem_flatMap.mpr ⟨p, member, inside⟩))
  obtain ⟨name, notify⟩ := List.forall_mem_cons.mp texts
  exact ⟨name, notify _ List.mem_cons_self⟩

theorem build_signals (carried : ∀ t ∈ api.texts, e.text (e.byteArray t) = t) :
    (build e (serializeDefinition e api)).signals = addedSignals api := by
  simp only [build, serializeDefinition, addedSignals, List.map_map]
  refine List.map_congr_left fun m member => ?_
  obtain ⟨signature, names⟩ := text_method carried (List.mem_append_left _ member)
  simp only [Function.comp_apply, signature, names]

theorem signals_iff (carried : ∀ t ∈ api.texts, e.text (e.byteArray t) = t) :
    List.Forall₂ MetaMethod.Is (build e (serializeDefinition e api)).signals api.signals ↔ ∀ m ∈ api.signals, Kept api m := by
  rw [build_signals carried, addedSignals, List.forall₂_map_left_iff, List.forall₂_same]
  exact forall₂_congr fun m _ => addMethod_is api m _

theorem methods_iff (carried : ∀ t ∈ api.texts, e.text (e.byteArray t) = t) :
    List.Forall₂ MetaMethod.Is (build e (serializeDefinition e api)).methods (api.methods.map (·.method)) ↔
      ∀ m ∈ api.methods, Kept api m.method := by
  simp only [build, serializeDefinition, List.map_map]
  rw [List.forall₂_map_left_iff, List.forall₂_map_right_iff, List.forall₂_same]
  refine forall₂_congr fun m member => ?_
  obtain ⟨signature, names⟩ := text_method carried (List.mem_append_right _ (List.mem_map_of_mem member))
  simp only [Function.comp_apply, signature, names]
  exact addMethod_is api m.method _

theorem properties_iff (carried : ∀ t ∈ api.texts, e.text (e.byteArray t) = t) :
    List.Forall₂ MetaProperty.Is (build e (serializeDefinition e api)).properties api.properties ↔
      ∀ p ∈ api.properties, ∀ index ∈ p.notify, ∀ m, api.signals[index]? = some m → Notified api index m := by
  have signals := build_signals carried
  simp only [build] at signals
  simp only [build, signals]
  simp only [serializeDefinition, List.map_map]
  rw [List.forall₂_map_left_iff, List.forall₂_same]
  refine forall₂_congr fun p member => ?_
  obtain ⟨name, notify⟩ := text_property carried member
  simp only [Function.comp_apply, name, notify]
  cases index : p.notify with
  | none =>
    have empty : api.notifySignature p = [] := by
      unfold SourceApi.notifySignature
      rw [index]
      rfl
    refine ⟨fun _ _ none => (nomatch none), fun _ => ⟨ofCString_cString p.terminated, ?_⟩⟩
    rw [empty, if_pos rfl]
    exact index.symm
  | some index' =>
    have inside := api.notify_lt p member index' index
    have found := List.getElem?_eq_getElem inside
    have signature : api.notifySignature p = renamed [api.scope] api.signals[index'].signature := by
      unfold SourceApi.notifySignature
      rw [index, Option.bind_some, found]
    rw [signature, if_neg (notifySignature_ne api _)]
    have lookup := indexOfSignal_iff found
    constructor
    · rintro built _ ⟨⟩ m at'
      obtain rfl := Option.some.inj (found.symm.trans at')
      exact lookup.mp (built.notify.trans index)
    · intro notified
      exact ⟨ofCString_cString p.terminated, (lookup.mpr (notified index' rfl _ found)).trans index.symm⟩

theorem faithful_build (carried : ∀ t ∈ api.texts, e.text (e.byteArray t) = t) :
    Faithful api (build e (serializeDefinition e api)) ↔ Rebuilt api := by
  constructor
  · rintro ⟨signals, methods, properties⟩
    exact ⟨(signals_iff carried).mp signals, (methods_iff carried).mp methods, (properties_iff carried).mp properties⟩
  · rintro ⟨signals, methods, notify⟩
    exact ⟨(signals_iff carried).mpr signals, (methods_iff carried).mpr methods, (properties_iff carried).mpr notify⟩

variable {V : Type} [Inhabited B] {d : DataStream S B V}

theorem addDynamicType_put (bound : ((definition d).put (serializeDefinition e api)).length < 2 ^ 32) :
    addDynamicType d e ((definition d).put (serializeDefinition e api)) =
      some ⟨build e (serializeDefinition e api), true, []⟩ := by
  have read := ((definition d).reads _ bound).map (g := build e)
  have whole := read []
  rw [List.append_nil] at whole
  exact whole

/-- The bytes of a definition give a meta object with the members of the API exactly when the
renamings keep every name, every last parameter, and every notify signature apart. -/
theorem faithful_iff_rebuilt (carried : ∀ t ∈ api.texts, e.text (e.byteArray t) = t)
    (bound : ((definition d).put (serializeDefinition e api)).length < 2 ^ 32) :
    (∃ m, addDynamicType d e ((definition d).put (serializeDefinition e api)) = some ⟨m, true, []⟩ ∧ Faithful api m) ↔
      Rebuilt api := by
  rw [← faithful_build carried, addDynamicType_put bound]
  constructor
  · rintro ⟨m, same, faithful⟩
    cases same
    exact faithful
  · exact fun faithful => ⟨_, rfl, faithful⟩

end RoundTrip

section Examples
open QtStream

def latin1 : Encoding QString QByteArray where
  byteArray t := toQByteArray (t.map fun c => UInt8.ofNat c.toNat)
  text b := b.1.map fun u => Char.ofNat u.toNat
  string t := toQString (t.map fun c => UInt16.ofNat c.toNat)
  toLatin1 s := toQByteArray (s.1.map fun u => UInt8.ofNat u.toNat)

def pods : Container where
  kind := .sequential
  typeName := "QList<Pod>".toList
  isType := by decide
  generic := by decide

def speedChanged : Method where
  name := "speedChanged".toList
  parameters := [⟨"int".toList, "speed".toList, none, by decide, by decide⟩]
  isName := by decide

def podsChanged : Method where
  name := "podsChanged".toList
  parameters := [⟨"QList<Pod>".toList, "pods".toList, some pods, by decide, by decide⟩]
  isName := by decide

def run : Method where
  name := "run".toList
  parameters := [⟨"EngineSource::Mode".toList, "mode".toList, none, by decide, by decide⟩,
    ⟨"QList<Pod>".toList, "pods".toList, some pods, by decide, by decide⟩]
  isName := by decide

/-- The property of the pods has a notify signal or none. -/
def engine (notify : Option Nat) (inside : ∀ index ∈ notify, index < 2) : SourceApi QByteArray where
  className := "EngineSource".toList
  typeName := "Engine".toList
  enums := []
  qtEnums := []
  gadgets := []
  signals := [speedChanged, podsChanged]
  methods := [⟨run, "void".toList⟩]
  properties := [⟨"speed".toList, .value "int".toList, some 0, by decide⟩,
    ⟨"pods".toList, .container .sequential, notify, by decide⟩]
  className_ne := by decide
  className_isName := by decide
  typeName_isName := by decide
  notify_lt := by
    simp only [List.forall_mem_cons]
    exact ⟨by decide, inside, List.forall_mem_nil _⟩

theorem engine_ne : "Engine".toList ≠ [] := by decide

theorem kept_engine (notify : Option Nat) (inside : ∀ index ∈ notify, index < 2) (m : Method)
    (absent : ¬ "EngineSource".toList <:+: m.name) : Kept (engine notify inside) m where
  name := .inr absent
  last _ _ := .inl engine_ne

theorem notified_engine (inside : ∀ index ∈ none, index < 2) : Notified (engine none inside) 0 speedChanged where
  plain := List.forall_mem_nil _
  first j before := absurd before (Nat.not_lt_zero j)

theorem rebuilt_engine (inside : ∀ index ∈ none, index < 2) : Rebuilt (engine none inside) where
  signals := by
    refine List.forall_mem_cons.mpr ⟨?_, List.forall_mem_cons.mpr ⟨?_, List.forall_mem_nil _⟩⟩
    · exact kept_engine none inside speedChanged (by decide +kernel)
    · exact kept_engine none inside podsChanged (by decide +kernel)
  methods := by
    refine List.forall_mem_cons.mpr ⟨?_, List.forall_mem_nil _⟩
    exact kept_engine none inside run (by decide +kernel)
  notify := by
    refine List.forall_mem_cons.mpr ⟨?_, List.forall_mem_cons.mpr ⟨?_, List.forall_mem_nil _⟩⟩
    · intro index notify m found
      obtain rfl := Option.some.inj notify
      obtain rfl := Option.some.inj found
      exact notified_engine inside
    · intro index notify
      exact absurd notify (Option.not_mem_none index)

theorem faithful_engine :
    ∃ m, addDynamicType QtStream.stream latin1
        ((definition QtStream.stream).put (serializeDefinition latin1 (engine none (by decide)))) = some ⟨m, true, []⟩ ∧
      Faithful (engine none (by decide)) m :=
  (faithful_iff_rebuilt (by decide +kernel) (by decide +kernel)).mpr (rebuilt_engine (by decide))

/-- The receiver does not find the notify signal of a property that is a container of gadgets. -/
theorem pods_without_notify :
    ¬ ∃ m, addDynamicType QtStream.stream latin1
        ((definition QtStream.stream).put (serializeDefinition latin1 (engine (some 1) (by decide)))) = some ⟨m, true, []⟩ ∧
      Faithful (engine (some 1) (by decide)) m := by
  rintro ⟨m, received, faithful⟩
  rw [addDynamicType_put (by decide +kernel)] at received
  cases received
  have notify := ((faithful_build (by decide +kernel)).mp faithful).notify _ (List.mem_cons_of_mem _ List.mem_cons_self) 1 rfl
    podsChanged rfl
  exact notify.plain pods List.mem_cons_self (by decide +kernel)

end Examples
end RemoteObjects.Source.DynamicTypes
