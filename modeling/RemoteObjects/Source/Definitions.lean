import Mathlib.Logic.Function.Basic
import RemoteObjects.Announcement
import RemoteObjects.Forest
import RemoteObjects.Transition

/-! Which type definitions a root source sends to its listeners, and which it leaves out
because their names are in `sentTypes`. The set is one for all listeners. -/
namespace RemoteObjects.Source.Definitions
open RemoteObjects Transition Announcement

section Model
variable {T N : Type*}

/-- A property of a source: of a type that needs no definition or of a gadget type, a
`QVariant` that may hold a gadget, or a pointer to a child object. A child source keeps the
object that it was last reset to; `signature` are the gadget types among the parameters of
its signals and methods. -/
inductive Cell (T : Type*)
  | plain (gadget : Option T)
  | variant (held : Option T)
  | CLASS (type : T) (signature : List T) (m_object value : Option Nat)
  | MODEL (value : Option Nat)
deriving DecidableEq

namespace Cell

/-- There is an object, whose properties follow. -/
def hasParameters : Cell T → Bool
  | .plain _ | .variant _ => false
  | .CLASS _ _ _ value | .MODEL value => value.isSome

/-- `serializeProperty` calls `resetObject`, which does so with all objects below. -/
def resets : Cell T → Bool
  | .CLASS _ _ m_object value => m_object ≠ value
  | _ => false

end Cell

/-- A value in a packet: a gadget in a `QVariant` by itself or in a `QRO_` with its definition,
or a `QRO_` of a child, whose class definition has those of the gadgets that come with it. -/
inductive Content (T : Type*)
  | plain
  | gadget (type : T)
  | wrapped (type : T)
  | null
  | CLASS (type : T) (classDefinition : Option (List T))
  | MODEL

inductive Packet (T : Type*)
  | initDynamic (gadgets : List T) (values : Forest (Content T))
  | init (values : Forest (Content T))
  | propertyChange (value : Forest (Content T))
  | invoke (arguments : List T)
  | invokeReply (value : Option T)

/-- An entry of `m_listeners`, with what was sent to its connection since it attached. -/
structure Listener (T : Type*) where
  connection : Nat
  dynamic : Bool
  received : List (Packet T)

structure RootSource (T N : Type*) where
  signature : List T
  properties : Forest (Cell T)
  m_listeners : List (Listener T)
  sentTypes : List N
  isDynamic : Bool

/-- `change` is anything that the user does to the objects. A signal may be the notify signal
of a property, of the root or of an object below. -/
inductive Event (T : Type*)
  | addListener (connection : Nat) (dynamic : Bool)
  | removeListener (connection : Nat)
  | change (properties : Forest (Cell T))
  | handleMetaCall (property : Option (List Nat)) (arguments : List T)
  | reply (connection : Nat) (value : Option T)

/-- The gadget types that `recurseForGadgets` finds in the properties. If an object was just
`reset`, the child sources below have their present objects. -/
def gadgetTypes (reset : Bool) : Forest (Cell T) → List T
  | .nil => []
  | .cons _ cell below rest =>
    (match cell with
      | .plain gadget => gadget.toList
      | .CLASS _ signature m_object value =>
        if (if reset then value else m_object).isSome then signature ++ gadgetTypes reset below else []
      | .variant _ | .MODEL _ => []) ++ gadgetTypes reset rest

/-- The child sources below a null pointer have no object either. -/
def resetNull : Forest (Cell T) → Forest (Cell T)
  | .nil => .nil
  | .cons key cell below rest =>
    .cons key (match cell with
      | .CLASS type signature _ value => .CLASS type signature none value
      | cell => cell) (resetNull below) (resetNull rest)

/-- What `serializeProperty` makes of the child sources. -/
def resetObjects (reset : Bool) : Forest (Cell T) → Forest (Cell T)
  | .nil => .nil
  | .cons key cell below rest =>
    let below := if cell.hasParameters then resetObjects (reset || cell.resets) below
      else if cell.resets then resetNull below else below
    .cons key (match cell with
      | .CLASS type signature _ value => .CLASS type signature value value
      | cell => cell) below (resetObjects reset rest)

section Codec
variable [DecidableEq N] (name : T → N)

/-- The definitions that `recurseForGadgets` adds for the types it finds. -/
def recurseForGadgets : List T → List N → List T × List N
  | [], sentTypes => ([], sentTypes)
  | type :: types, sentTypes =>
    if name type ∈ sentTypes then recurseForGadgets types sentTypes
    else
      let (gadgets, sentTypes) := recurseForGadgets types (name type :: sentTypes)
      (type :: gadgets, sentTypes)

/-- The value itself, before the parameters of its object. -/
def serializeValue (isDynamic reset : Bool) (below : Forest (Cell T)) (cell : Cell T) (sentTypes : List N) :
    Content T × List N :=
  match cell with
  | .plain _ | .variant none => (.plain, sentTypes)
  | .variant (some held) =>
    if isDynamic ∧ name held ∉ sentTypes then (.wrapped held, name held :: sentTypes)
    else (.gadget held, sentTypes)
  | .MODEL none | .CLASS _ _ _ none => (.null, sentTypes)
  | .MODEL (some _) => (.MODEL, sentTypes)
  | .CLASS type signature _ (some _) =>
    if isDynamic ∧ name type ∉ sentTypes then
      let (gadgets, sentTypes) :=
        recurseForGadgets name (signature ++ gadgetTypes (reset || cell.resets) below) sentTypes
      (.CLASS type (some gadgets), name type :: sentTypes)
    else (.CLASS type none, sentTypes)

def serializeProperties (isDynamic : Bool) : Bool → Forest (Cell T) → List N → Forest (Content T) × List N
  | _, .nil, sentTypes => (.nil, sentTypes)
  | reset, .cons key cell below rest, sentTypes =>
    let (value, sentTypes) := serializeValue name isDynamic reset below cell sentTypes
    let (parameters, sentTypes) :=
      if cell.hasParameters then serializeProperties isDynamic (reset || cell.resets) below sentTypes
      else (.nil, sentTypes)
    let (values, sentTypes) := serializeProperties isDynamic reset rest sentTypes
    (.cons key value parameters values, sentTypes)

end Codec

namespace RootSource

section Send
variable (s : RootSource T N)

/-- The packets, to a connection. -/
def sendTo (connection : Nat) (packets : List (Packet T)) : RootSource T N :=
  { s with m_listeners := s.m_listeners.map fun l =>
      if l.connection = connection then { l with received := l.received ++ packets } else l }

/-- The packets to all listeners, as often to a connection as it is listed. -/
def send (packets : List (Packet T)) : RootSource T N :=
  { s with m_listeners := s.m_listeners.map fun l =>
      { l with received := l.received ++
          (List.replicate (s.m_listeners.countP (·.connection = l.connection)) packets).flatten } }

/-- The property at a path, with its objects, as a forest. -/
def property (path : List Nat) : Forest (Cell T) :=
  match s.properties.find path with
  | none => .nil
  | some (cell, below) => .cons 0 cell below .nil

end Send

section Step
variable [DecidableEq N] (name : T → N) (s : RootSource T N)

def addListener (connection : Nat) (dynamic : Bool) : RootSource T N :=
  let isDynamic := s.isDynamic || dynamic
  let m_listeners := s.m_listeners ++ [⟨connection, dynamic, []⟩]
  if dynamic then
    let (gadgets, sentTypes) := recurseForGadgets name (s.signature ++ gadgetTypes false s.properties) []
    let (values, sentTypes) := serializeProperties name isDynamic false s.properties sentTypes
    { s with m_listeners, isDynamic, sentTypes, properties := resetObjects false s.properties }.sendTo connection
      [.initDynamic gadgets values]
  else
    let (values, sentTypes) := serializeProperties name isDynamic false s.properties s.sentTypes
    { s with m_listeners, isDynamic, sentTypes, properties := resetObjects false s.properties }.sendTo connection
      [.init values]

def handleMetaCall (property : Option (List Nat)) (arguments : List T) : RootSource T N :=
  if s.m_listeners.isEmpty then s
  else
    match property with
    | none => s.send [.invoke arguments]
    | some path =>
      let (value, sentTypes) := serializeProperties name s.isDynamic false (s.property path) s.sentTypes
      let properties := s.properties.modify (fun cell below =>
        match resetObjects false (.cons 0 cell below .nil) with
        | .nil => (cell, below)
        | .cons _ cell below _ => (cell, below)) path
      { s with sentTypes, properties }.send [.propertyChange value, .invoke arguments]

def step : Event T → Option (RootSource T N)
  | .addListener connection dynamic => some (s.addListener name connection dynamic)
  | .removeListener connection =>
    some { s with m_listeners := s.m_listeners.filter fun l => l.connection ≠ connection }
  | .change properties => some { s with properties }
  | .handleMetaCall property arguments => some (s.handleMetaCall name property arguments)
  | .reply connection value => some (s.sendTo connection [.invokeReply value])

end Step

/-- Before the first listener. -/
def initial (N : Type*) (signature : List T) (properties : Forest (Cell T)) : RootSource T N :=
  ⟨signature, properties, [], [], false⟩

end RootSource
end Model

section Statement
variable {T N : Type*}

/-- What a value needs to be known, and what it makes known. -/
def Content.entries : Content T → List (Announcement T)
  | .plain | .null | .MODEL => []
  | .gadget type | .CLASS type none => [.use type]
  | .wrapped type => [.definition type]
  | .CLASS type (some gadgets) => gadgets.map .definition ++ [.definition type]

/-- The same for values and their parameters, in the order of the stream. -/
def entries : Forest (Content T) → List (Announcement T)
  | .nil => []
  | .cons _ value parameters rest => value.entries ++ entries parameters ++ entries rest

def Packet.entries : Packet T → List (Announcement T)
  | .initDynamic gadgets values => gadgets.map .definition ++ Definitions.entries values
  | .init values | .propertyChange values => Definitions.entries values
  | .invoke arguments => arguments.map .use
  | .invokeReply value => value.toList.map .use

/-- What a listener received, as packets are `read`. -/
def Listener.log (read : Packet T → List (Announcement T)) (l : Listener T) : List (Announcement T) :=
  l.received.flatMap read

def Listener.defined (read : Packet T → List (Announcement T)) (l : Listener T) : List T := known [] (l.log read)

/-- Dynamic listeners got every definition before its first use. -/
def DefinedFirst (s : RootSource T N) : Prop :=
  ∀ l ∈ s.m_listeners, l.dynamic → Defined [] (l.log Packet.entries)

/-- All dynamic listeners, on connections of a kind, have the definition. -/
def RootSource.HasDefinition (s : RootSource T N) (kind : Nat → Prop) (type : T) : Prop :=
  ∀ l ∈ s.m_listeners, l.dynamic → kind l.connection → type ∈ l.defined Packet.entries

/-- The types that `serializeValue` may send definitions of. -/
def valueTypes (reset : Bool) (below : Forest (Cell T)) (cell : Cell T) : List T :=
  match cell with
  | .variant held => held.toList
  | .CLASS type signature _ (some _) => signature ++ gadgetTypes (reset || cell.resets) below ++ [type]
  | .plain _ | .CLASS _ _ _ none | .MODEL _ => []

def serializedTypes (reset : Bool) : Forest (Cell T) → List T
  | .nil => []
  | .cons _ cell below rest =>
    valueTypes reset below cell ++ (if cell.hasParameters then serializedTypes (reset || cell.resets) below else []) ++
      serializedTypes reset rest

/-- A listener attaches only while all dynamic listeners of other connections have the
definitions that go to it, and gadgets without definition, in arguments and return values,
go only to listeners that have it. -/
def AttachesLevel (name : T → N) (s : RootSource T N) : Event T → Prop
  | .addListener connection true =>
    ∀ type ∈ s.signature ++ gadgetTypes false s.properties ++ serializedTypes false s.properties,
      s.HasDefinition (· ≠ connection) type
  | .addListener connection false =>
    ∀ type ∈ serializedTypes false s.properties, name type ∉ s.sentTypes →
      s.HasDefinition (· ≠ connection) type
  | .handleMetaCall property arguments =>
    ∀ type ∈ arguments,
      property.bind s.properties.get = some (.variant (some type)) ∨ s.HasDefinition (fun _ => True) type
  | .reply connection value => ∀ type ∈ value, s.HasDefinition (· = connection) type
  | .removeListener _ | .change _ => True

instance [DecidableEq T] (s : RootSource T N) (kind : Nat → Prop) [DecidablePred kind] (type : T) :
    Decidable (s.HasDefinition kind type) := by
  unfold RootSource.HasDefinition
  infer_instance

instance [DecidableEq T] [DecidableEq N] (name : T → N) (s : RootSource T N) (e : Event T) :
    Decidable (AttachesLevel name s e) := by
  unfold AttachesLevel
  split <;> infer_instance

instance [DecidableEq T] (s : RootSource T N) : Decidable (DefinedFirst s) := by
  unfold DefinedFirst
  infer_instance

end Statement

section Serialize
variable {T N : Type*} [DecidableEq N] {name : T → N}

theorem recurseForGadgets_sends (name : T → N) (types : List T) (sentTypes : List N) :
    Sends name types ((recurseForGadgets name types sentTypes).1.map .definition) sentTypes
      (recurseForGadgets name types sentTypes).2 := by
  induction types generalizing sentTypes with
  | nil => exact .nil name sentTypes
  | cons type types ih =>
    rw [recurseForGadgets]
    split
    · exact (ih sentTypes).mono (List.subset_cons_self _ _)
    · exact (Sends.definition name type sentTypes).append (ih (name type :: sentTypes))

theorem serializeValue_sends (unique : Function.Injective name) (reset : Bool) (below : Forest (Cell T))
    (cell : Cell T) (sentTypes : List N) :
    Sends name (valueTypes reset below cell) (serializeValue name true reset below cell sentTypes).1.entries sentTypes
      (serializeValue name true reset below cell sentTypes).2 := by
  cases cell with
  | plain gadget => exact .nil name sentTypes
  | MODEL value => cases value <;> exact .nil name sentTypes
  | variant held =>
    cases held with
    | none => exact .nil name sentTypes
    | some type =>
      rw [serializeValue]
      split
      · exact .definition name type sentTypes
      · rename_i sent
        refine Sends.mono (.use unique ?_) (List.nil_subset _)
        exact of_not_not fun unsent => sent ⟨rfl, unsent⟩
  | CLASS type signature m_object value =>
    cases value with
    | none => exact .nil name sentTypes
    | some value =>
      rw [serializeValue]
      split
      · exact (recurseForGadgets_sends name _ sentTypes).append (.definition name type _)
      · rename_i sent
        refine Sends.mono (.use unique ?_) (List.nil_subset _)
        exact of_not_not fun unsent => sent ⟨rfl, unsent⟩

theorem serializeProperties_sends (unique : Function.Injective name) (reset : Bool) (f : Forest (Cell T))
    (sentTypes : List N) :
    Sends name (serializedTypes reset f) (entries (serializeProperties name true reset f sentTypes).1) sentTypes
      (serializeProperties name true reset f sentTypes).2 := by
  induction f generalizing reset sentTypes with
  | nil => exact .nil name sentTypes
  | cons key cell below rest belowIh restIh =>
    have value := serializeValue_sends unique reset below cell sentTypes
    rw [serializeProperties, serializedTypes]
    split
    · exact (value.append (belowIh _ _)).append (restIh reset _)
    · exact (value.append (.nil name _)).append (restIh reset _)

end Serialize

section Sound
variable {T N : Type*} {name : T → N} {read : Packet T → List (Announcement T)} {good : Packet T → Prop}
  {s t : RootSource T N}

/-- A listener got good packets, every definition before its first use, and those of the set. -/
structure Listener.Informed (read : Packet T → List (Announcement T)) (good : Packet T → Prop) (name : T → N)
    (sentTypes : List N) (l : Listener T) : Prop where
  good : ∀ packet ∈ l.received, good packet
  defined : Defined [] (l.log read)
  covers : Covers name (l.defined read) sentTypes

/-- All dynamic listeners are informed, as packets are read. -/
structure Sound (read : Packet T → List (Announcement T)) (good : Packet T → Prop) (name : T → N)
    (s : RootSource T N) : Prop where
  isDynamic : ∀ l ∈ s.m_listeners, l.dynamic → s.isDynamic
  informed : ∀ l ∈ s.m_listeners, l.dynamic → l.Informed read good name s.sentTypes

theorem Sound.initial (signature : List T) (properties : Forest (Cell T)) :
    Sound read good name (.initial N signature properties) :=
  ⟨fun _ member => (nomatch member), fun _ member => (nomatch member)⟩

def Listener.receive (l : Listener T) (packets : List (Packet T)) : Listener T :=
  { l with received := l.received ++ packets }

theorem Listener.receive_append (l : Listener T) (packets others : List (Packet T)) :
    l.receive (packets ++ others) = (l.receive packets).receive others := by
  rw [Listener.receive, Listener.receive, Listener.receive, List.append_assoc]

theorem Listener.log_receive (l : Listener T) (packets : List (Packet T)) :
    (l.receive packets).log read = l.log read ++ packets.flatMap read := by
  rw [Listener.log, Listener.receive, List.flatMap_append, Listener.log]

theorem Listener.defined_receive (l : Listener T) (packets : List (Packet T)) :
    (l.receive packets).defined read = known (l.defined read) (packets.flatMap read) := by
  rw [Listener.defined, Listener.log_receive, known_append, Listener.defined]

theorem Listener.Informed.receive {l : Listener T} {types : List T} {packet : Packet T} {sent next : List N}
    (informed : l.Informed read good name sent) (fit : good packet) (sends : Sends name types (read packet) sent next) :
    (l.receive [packet]).Informed read good name next := by
  have single : [packet].flatMap read = read packet := List.flatMap_singleton ..
  refine ⟨?_, ?_, ?_⟩
  · exact List.forall_mem_append.mpr ⟨informed.good, List.forall_mem_singleton.mpr fit⟩
  · rw [Listener.log_receive, single]
    exact defined_append.mpr ⟨informed.defined, sends.defined _ informed.covers⟩
  · rw [Listener.defined_receive, single]
    exact sends.covers _ informed.covers

/-- What is sent again tells nothing new. -/
theorem Listener.Informed.again {l : Listener T} {packets : List (Packet T)} {next : List N}
    (informed : (l.receive packets).Informed read good name next) (n : Nat) :
    (l.receive (List.replicate (n + 1) packets).flatten).Informed read good name next := by
  have entries : ((List.replicate (n + 1) packets).flatten).flatMap read =
      packets.flatMap read ++ (List.replicate n (packets.flatMap read)).flatten := by
    rw [List.replicate_succ, List.flatten_cons, List.flatMap_append, List.flatMap_def, List.flatMap_def,
      List.map_flatten, List.map_replicate, List.flatten_flatten, List.map_replicate]
  obtain ⟨fit, first, covers⟩ := informed
  rw [Listener.log_receive] at first
  rw [Listener.defined_receive] at covers
  have defined : Defined (l.defined read) (packets.flatMap read) := (defined_append.mp first).2
  refine ⟨fun packet member => fit packet ?_, ?_, ?_⟩
  · rcases List.mem_append.mp member with before | again
    · exact List.mem_append_left _ before
    · obtain ⟨copy, same, member⟩ := List.mem_flatten.mp again
      rw [(List.mem_replicate.mp same).2] at member
      exact List.mem_append_right _ member
  · rw [Listener.log_receive, entries, ← List.append_assoc]
    refine defined_append.mpr ⟨first, ?_⟩
    rw [known_append]
    exact (defined.mono (subset_known _ _)).replicate n
  · rw [Listener.defined_receive, entries, known_append]
    exact covers.mono (subset_known _ _)

/-- Gadgets whose definitions the listener has may come without. -/
theorem Listener.Informed.uses {l : Listener T} {packet : Packet T} {sent : List N} {types : List T}
    (informed : l.Informed read good name sent) (fit : good packet) (entries : read packet = types.map .use)
    (has : types ⊆ l.defined read) : (l.receive [packet]).Informed read good name sent := by
  have log : [packet].flatMap read = types.map .use := by rw [List.flatMap_singleton, entries]
  refine ⟨?_, ?_, ?_⟩
  · exact List.forall_mem_append.mpr ⟨informed.good, List.forall_mem_singleton.mpr fit⟩
  · rw [Listener.log_receive, log]
    exact defined_append.mpr ⟨informed.defined, defined_uses has⟩
  · rw [Listener.defined_receive, log]
    exact informed.covers.mono (subset_known _ _)

/-- A dynamic listener is on the connection, or is about to be. -/
def RootSource.Hears (s : RootSource T N) (connection : Nat) (dynamic : Bool) : Prop :=
  dynamic ∨ ∃ l ∈ s.m_listeners, l.dynamic ∧ l.connection = connection

/-- A listener attaches: for dynamic listeners of its connection the packet is fit if they know
what is in the set at its start, and the others know what comes into it. -/
theorem Sound.attach {types : List T} {start next : List N} (sound : Sound read good name s) (connection : Nat)
    (dynamic : Bool) (properties : Forest (Cell T)) (packet : Packet T)
    (fit : s.Hears connection dynamic → good packet ∧ Sends name types (read packet) start next)
    (added : ∀ n ∈ next, n ∈ start ∨ ∃ type ∈ types, name type = n) (within : start ⊆ s.sentTypes)
    (fresh : dynamic → start = [])
    (level : ∀ type ∈ types, name type ∉ start → ∀ l ∈ s.m_listeners, l.dynamic → l.connection ≠ connection →
      type ∈ l.defined read) :
    Sound read good name ({ s with
      m_listeners := s.m_listeners ++ [(⟨connection, dynamic, []⟩ : Listener T)], isDynamic := true,
      sentTypes := next, properties }.sendTo connection [packet]) := by
  have old : ∀ l ∈ s.m_listeners, l.dynamic → l.Informed read good name start := fun l member heard =>
    { sound.informed l member heard with
      covers := fun n listed => (sound.informed l member heard).covers n (within listed) }
  refine ⟨fun _ _ _ => rfl, fun l member heard => ?_⟩
  obtain ⟨before, listed, rfl⟩ := List.mem_map.mp member
  by_cases here : before.connection = connection
  · simp only [if_pos here] at heard ⊢
    rcases List.mem_append.mp listed with listed | new
    · obtain ⟨good, sends⟩ := fit (.inr ⟨before, listed, heard, here⟩)
      exact (old before listed heard).receive good sends
    · obtain rfl := List.mem_singleton.mp new
      obtain ⟨good, sends⟩ := fit (.inl heard)
      refine Listener.Informed.receive ⟨fun _ member => (nomatch member), trivial, ?_⟩ good sends
      rw [fresh heard]
      exact fun _ listed => (nomatch listed)
  · simp only [if_neg here] at heard ⊢
    rcases List.mem_append.mp listed with listed | new
    · exact { old before listed heard with
        covers := (old before listed heard).covers.grow added fun type needed unsent =>
          level type needed unsent before listed heard here }
    · obtain rfl := List.mem_singleton.mp new
      exact absurd rfl here

/-- While no listener is dynamic, a static one may attach. -/
theorem Sound.attach_static (sound : Sound read good name s) (isDynamic : s.isDynamic = false) (connection : Nat)
    (next : List N) (properties : Forest (Cell T)) (packets : List (Packet T)) :
    Sound read good name ({ s with
      m_listeners := s.m_listeners ++ [(⟨connection, false, []⟩ : Listener T)], isDynamic := false,
      sentTypes := next, properties }.sendTo connection packets) := by
  have none : ∀ l ∈ s.m_listeners ++ [(⟨connection, false, []⟩ : Listener T)], ¬ l.dynamic := by
    intro l member heard
    rcases List.mem_append.mp member with listed | new
    · exact absurd (sound.isDynamic l listed heard) (isDynamic ▸ Bool.false_ne_true)
    · obtain rfl := List.mem_singleton.mp new
      contradiction
  refine ⟨fun l member heard => ?_, fun l member heard => ?_⟩
  all_goals
    obtain ⟨before, listed, rfl⟩ := List.mem_map.mp member
    refine absurd ?_ (none before listed)
    split at heard <;> exact heard

/-- Packets that inform each dynamic listener of what comes into the set are sent to all. -/
theorem Sound.send {packets : List (Packet T)} {next : List N} (sound : Sound read good name s)
    (properties : Forest (Cell T))
    (told : ∀ l ∈ s.m_listeners, l.dynamic → (l.receive packets).Informed read good name next) :
    Sound read good name ({ s with sentTypes := next, properties }.send packets) := by
  refine ⟨fun l member heard => ?_, fun l member heard => ?_⟩
  all_goals obtain ⟨before, listed, rfl⟩ := List.mem_map.mp member
  · exact sound.isDynamic before listed heard
  · have counted : 0 < s.m_listeners.countP (·.connection = before.connection) :=
      List.countP_pos_iff.mpr ⟨before, listed, decide_eq_true rfl⟩
    obtain ⟨n, counted⟩ := Nat.exists_eq_add_one.mpr counted
    simp only [counted]
    exact (told before listed heard).again n

/-- A return value goes to a connection. -/
theorem Sound.reply {connection : Nat} {value : Option T} (sound : Sound read good name s)
    (fit : good (.invokeReply value)) (entries : read (.invokeReply value) = value.toList.map .use)
    (level : ∀ type ∈ value, ∀ l ∈ s.m_listeners, l.dynamic → l.connection = connection → type ∈ l.defined read) :
    Sound read good name (s.sendTo connection [.invokeReply value]) := by
  refine ⟨fun l member heard => ?_, fun l member heard => ?_⟩
  all_goals
    obtain ⟨before, listed, rfl⟩ := List.mem_map.mp member
    by_cases here : before.connection = connection
  · simp only [if_pos here] at heard
    exact sound.isDynamic before listed heard
  · simp only [if_neg here] at heard
    exact sound.isDynamic before listed heard
  · simp only [if_pos here] at heard ⊢
    refine (sound.informed before listed heard).uses fit entries fun type held => ?_
    exact level type (Option.mem_toList.mp held) before listed heard here
  · simp only [if_neg here] at heard ⊢
    exact sound.informed before listed heard

/-- Steps that send nothing. -/
theorem Sound.removeListener (sound : Sound read good name s) (kept : Listener T → Bool) :
    Sound read good name { s with m_listeners := s.m_listeners.filter kept } :=
  ⟨fun l member => sound.isDynamic l (List.mem_of_mem_filter member),
    fun l member => sound.informed l (List.mem_of_mem_filter member)⟩

end Sound

section Steps
variable {T N : Type*} [DecidableEq N] {name : T → N} {s t : RootSource T N}

/-- Packets as they stand in the stream. -/
abbrev Streamed (name : T → N) (s : RootSource T N) : Prop := Sound Packet.entries (fun _ => True) name s

theorem Streamed.addListener (sound : Streamed name s) (unique : Function.Injective name) {connection : Nat}
    {dynamic : Bool} (level : AttachesLevel name s (.addListener connection dynamic)) :
    Streamed name (s.addListener name connection dynamic) := by
  cases dynamic with
  | true =>
    rw [RootSource.addListener, if_pos rfl, Bool.or_true]
    have gadgets := recurseForGadgets_sends name (s.signature ++ gadgetTypes false s.properties) []
    have sends := gadgets.append (serializeProperties_sends unique false s.properties _)
    exact sound.attach connection true _ (.initDynamic _ _) (fun _ => ⟨trivial, sends⟩) sends.added (List.nil_subset _)
      (fun _ => rfl) fun type needed _ => level type needed
  | false =>
    rw [RootSource.addListener, if_neg Bool.false_ne_true, Bool.or_false]
    cases isDynamic : s.isDynamic with
    | true =>
      have sends := serializeProperties_sends unique false s.properties s.sentTypes
      exact sound.attach connection false _ (.init _) (fun _ => ⟨trivial, sends⟩) sends.added (List.Subset.refl _)
        (fun heard => absurd heard Bool.false_ne_true) level
    | false => exact sound.attach_static isDynamic connection _ _ _

/-- Behind the announcement of a gadget in a `QVariant` its type is in the set. -/
theorem held_sent {path : List Nat} {type : T} (found : s.properties.get path = some (.variant (some type))) :
    name type ∈ (serializeProperties name true false (s.property path) s.sentTypes).2 := by
  obtain ⟨⟨cell, below⟩, found, rfl⟩ := Option.map_eq_some_iff.mp found
  rw [RootSource.property, found]
  by_cases sent : name type ∈ s.sentTypes <;> simp [serializeProperties, serializeValue, Cell.hasParameters, sent]

/-- Arguments of a call are gadgets that the change in front of it announces, or known ones. -/
theorem Sound.handleMetaCall {read : Packet T → List (Announcement T)} {good : Packet T → Prop}
    (sound : Sound read good name s) (unique : Function.Injective name) {property : Option (List Nat)}
    {arguments : List T} (fit : good (.invoke arguments)) (uses : read (.invoke arguments) = arguments.map .use)
    (has : ∀ type ∈ arguments, property.bind s.properties.get = some (.variant (some type)) ∨
      ∀ l ∈ s.m_listeners, l.dynamic → type ∈ l.defined read)
    (announce : ∀ path ∈ property, ∀ l : Listener T, l.Informed read good name s.sentTypes →
      (l.receive [.propertyChange (serializeProperties name true false (s.property path) s.sentTypes).1]).Informed read
        good name (serializeProperties name true false (s.property path) s.sentTypes).2) :
    Sound read good name (s.handleMetaCall name property arguments) := by
  unfold RootSource.handleMetaCall
  split
  · exact sound
  · cases property with
    | none =>
      refine sound.send s.properties fun l member heard => ?_
      refine (sound.informed l member heard).uses fit uses fun type argument => ?_
      rcases has type argument with announced | known
      · contradiction
      · exact known l member heard
    | some path =>
      refine sound.send _ fun l member heard => ?_
      have isDynamic : s.isDynamic = true := sound.isDynamic l member heard
      rw [isDynamic, ← List.singleton_append, Listener.receive_append]
      have announced := announce path rfl l (sound.informed l member heard)
      refine announced.uses fit uses fun type argument => ?_
      rcases has type argument with found | known
      · exact announced.covers.mem unique (held_sent found)
      · rw [Listener.defined_receive]
        exact subset_known _ _ (known l member heard)

theorem Streamed.handleMetaCall (sound : Streamed name s) (unique : Function.Injective name)
    {property : Option (List Nat)} {arguments : List T}
    (level : AttachesLevel name s (.handleMetaCall property arguments)) :
    Streamed name (s.handleMetaCall name property arguments) := by
  refine Sound.handleMetaCall sound unique trivial rfl (fun type argument => ?_) fun path _ l informed => ?_
  · exact (level type argument).imp_right fun has l member heard => has l member heard trivial
  · exact informed.receive trivial (serializeProperties_sends unique false (s.property path) s.sentTypes)

theorem Streamed.step (sound : Streamed name s) (unique : Function.Injective name) {e : Event T}
    (level : AttachesLevel name s e) (stepped : s.step name e = some t) : Streamed name t := by
  cases e with
  | addListener connection dynamic =>
    obtain rfl := Option.some.inj stepped
    exact sound.addListener unique level
  | removeListener connection =>
    obtain rfl := Option.some.inj stepped
    exact sound.removeListener _
  | change properties =>
    obtain rfl := Option.some.inj stepped
    exact ⟨sound.isDynamic, sound.informed⟩
  | handleMetaCall property arguments =>
    obtain rfl := Option.some.inj stepped
    exact sound.handleMetaCall unique level
  | reply connection value =>
    obtain rfl := Option.some.inj stepped
    exact sound.reply trivial rfl level

end Steps

section Main
variable {T N : Type*} [DecidableEq N]

/-- Types have names of their own, and in a run in which listeners attach as `AttachesLevel`
has it, definitions come first. -/
theorem definedFirst_of_attachesLevel (name : T → N) (unique : Function.Injective name) (signature : List T)
    (properties : Forest (Cell T)) (es : List (Event T)) {s : RootSource T N}
    (level : Admitted (RootSource.step name) (AttachesLevel name) (.initial N signature properties) es)
    (run : exec (RootSource.step name) (.initial N signature properties) es = some s) : DefinedFirst s := by
  have sound : Streamed name s :=
    exec_invariant (P := Streamed name) (fun sound level stepped => sound.step unique level stepped) run level
      (.initial signature properties)
  exact fun l member heard => (sound.informed l member heard).defined

/-- A pointer to a child, of a class with a gadget, and a `QVariant`. -/
def empty : Forest (Cell Nat) :=
  .cons 0 (.CLASS 0 [1] none none) .nil (.cons 1 (.variant none) .nil .nil)

/-- The child gets an object and the `QVariant` a gadget. -/
def filled : Forest (Cell Nat) :=
  .cons 0 (.CLASS 0 [1] none (some 0)) .nil (.cons 1 (.variant (some 2)) .nil .nil)

/-- Both are announced before another listener attaches. -/
def announced : List (Event Nat) :=
  [.addListener 0 true, .change filled, .handleMetaCall (some [0]) [], .handleMetaCall (some [1]) [2],
    .addListener 1 false, .addListener 2 true, .handleMetaCall (some [0]) [], .reply 0 (some 2)]

theorem announced_definedFirst :
    ∃ s, exec (RootSource.step id) (.initial Nat [] empty) announced = some s ∧ DefinedFirst s :=
  have level : Admitted (RootSource.step id) (AttachesLevel id) (.initial Nat [] empty) announced := by decide
  ⟨_, rfl, definedFirst_of_attachesLevel id Function.injective_id [] empty announced level rfl⟩

/-- A static listener attaches after a silent change: the definition of the child goes to it
alone, and when the child is announced, the dynamic one gets it without. -/
theorem silent_undefined :
    ∃ s, exec (RootSource.step id) (.initial Nat [] empty)
      [.addListener 0 true, .change filled, .addListener 1 false, .handleMetaCall (some [0]) []] = some s ∧
    ¬ DefinedFirst s :=
  ⟨_, rfl, by decide⟩

end Main

end RemoteObjects.Source.Definitions
