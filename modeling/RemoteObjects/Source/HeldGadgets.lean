import RemoteObjects.Source.Definitions

/-! What a replica stores for gadgets that `QVariant` properties hold. Only the handler of
property changes unpacks a gadget that came with its definition, and it does so only for the
property itself. -/
namespace RemoteObjects.Source.Definitions
open RemoteObjects Transition Announcement

section Model
variable {T N : Type*}

/-- To read a value, the receiver needs the type of a gadget in it. -/
def Content.load : Content T → List (Announcement T)
  | .gadget type => [.use type]
  | _ => []

/-- `handlePointerToQObjectProperty`: the class of a child is defined or looked up. -/
def Content.handle : Content T → List (Announcement T)
  | .CLASS type none => [.use type]
  | .CLASS type (some gadgets) => gadgets.map .definition ++ [.definition type]
  | _ => []

/-- Lists of values are read before one of their children is handled. -/
def loads : Forest (Content T) → List (Announcement T)
  | .nil => []
  | .cons _ value _ rest => value.load ++ loads rest

def handlePointerToQObjectProperties : Forest (Content T) → List (Announcement T)
  | .nil => []
  | .cons _ value parameters rest =>
    value.handle ++ (loads parameters ++ handlePointerToQObjectProperties parameters) ++
      handlePointerToQObjectProperties rest

namespace Packet

/-- What `onClientRead` looks up and registers for a packet, in its order. -/
def onClientRead : Packet T → List (Announcement T)
  | .initDynamic gadgets values =>
    gadgets.map .definition ++ (loads values ++ handlePointerToQObjectProperties values)
  | .init values => loads values ++ handlePointerToQObjectProperties values
  | .propertyChange (.cons _ (.wrapped type) .nil .nil) => [.definition type]
  | .propertyChange value => loads value ++ handlePointerToQObjectProperties value
  | .invoke arguments => arguments.map .use
  | .invokeReply value => value.toList.map .use

/-- The values that the replica, and those below it, store. -/
def stored : Packet T → Forest (Content T)
  | .initDynamic _ values | .init values => values
  | .propertyChange (.cons key (.wrapped type) .nil .nil) => .cons key (.gadget type) .nil .nil
  | .propertyChange value => value
  | .invoke _ | .invokeReply _ => .nil

end Packet

def Cell.held : Cell T → List T
  | .variant held => held.toList
  | .plain _ | .CLASS .. | .MODEL _ => []

/-- The gadgets in `QVariant` properties, with those of the objects below. -/
def heldTypes : Forest (Cell T) → List T
  | .nil => []
  | .cons _ cell below rest =>
    cell.held ++ (if cell.hasParameters then heldTypes below else []) ++ heldTypes rest

end Model

section Statement
variable {T N : Type*}

def Content.IsValue : Content T → Prop
  | .wrapped _ => False
  | _ => True

/-- Replicas store gadgets and no wrappers. -/
def Packet.Stores (packet : Packet T) : Prop := packet.stored.Forall Content.IsValue

/-- What dynamic listeners store are values, and types are registered before their first use. -/
def GadgetsArrive (s : RootSource T N) : Prop :=
  ∀ l ∈ s.m_listeners, l.dynamic → (∀ packet ∈ l.received, packet.Stores) ∧ Defined [] (l.log Packet.onClientRead)

/-- The gadget types that the class definition of a child brings along. -/
def definedTypes [DecidableEq N] (name : T → N) (sentTypes : List N) (cell : Cell T) (below : Forest (Cell T)) : List T :=
  match cell with
  | .CLASS type signature _ (some _) =>
    if name type ∈ sentTypes then [] else signature ++ gadgetTypes cell.resets below
  | _ => []

/-- Besides `AttachesLevel`, gadgets in initial values, and those in values of the objects below
an announced one, are of types that were sent before or are defined in front of all values. -/
def HoldsDefined [DecidableEq N] (name : T → N) (s : RootSource T N) : Event T → Prop
  | .addListener _ true => ∀ type ∈ heldTypes s.properties, type ∈ s.signature ++ gadgetTypes false s.properties
  | .addListener connection false =>
    s.Hears connection false → ∀ type ∈ heldTypes s.properties, name type ∈ s.sentTypes
  | .handleMetaCall (some path) _ =>
    ∀ tree, s.properties.find path = some tree → tree.1.hasParameters → ∀ type ∈ heldTypes tree.2,
      name type ∈ s.sentTypes ∨ type ∈ definedTypes name s.sentTypes tree.1 tree.2
  | .handleMetaCall none _ | .removeListener _ | .change _ | .reply _ _ => True

instance : DecidablePred (Content.IsValue (T := T)) := fun value => by
  unfold Content.IsValue
  split <;> infer_instance

instance (packet : Packet T) : Decidable packet.Stores := by
  unfold Packet.Stores
  infer_instance

instance [DecidableEq T] (s : RootSource T N) : Decidable (GadgetsArrive s) := by
  unfold GadgetsArrive
  infer_instance

instance (s : RootSource T N) (connection : Nat) (dynamic : Bool) : Decidable (s.Hears connection dynamic) := by
  unfold RootSource.Hears
  infer_instance

instance [DecidableEq T] [DecidableEq N] (name : T → N) (s : RootSource T N) (e : Event T) :
    Decidable (HoldsDefined name s e) := by
  rcases e with ⟨_, _ | _⟩ | _ | _ | ⟨_ | _, _⟩ | _ <;> delta HoldsDefined <;> infer_instance

end Statement

section Values
variable {T N : Type*} [DecidableEq N] {name : T → N}

theorem subset_recurseForGadgets (name : T → N) (types : List T) (sentTypes : List N) :
    sentTypes ⊆ (recurseForGadgets name types sentTypes).2 ∧
      ∀ type ∈ types, name type ∈ (recurseForGadgets name types sentTypes).2 := by
  induction types generalizing sentTypes with
  | nil => exact ⟨List.Subset.refl _, fun _ member => (nomatch member)⟩
  | cons type types ih =>
    rw [recurseForGadgets]
    split
    · rename_i sent
      obtain ⟨kept, added⟩ := ih sentTypes
      exact ⟨kept, List.forall_mem_cons.mpr ⟨kept sent, added⟩⟩
    · obtain ⟨kept, added⟩ := ih (name type :: sentTypes)
      obtain ⟨here, before⟩ := List.cons_subset.mp kept
      exact ⟨before, List.forall_mem_cons.mpr ⟨here, added⟩⟩

theorem subset_serializeValue (name : T → N) (isDynamic reset : Bool) (below : Forest (Cell T)) (cell : Cell T) (sentTypes : List N) :
    sentTypes ⊆ (serializeValue name isDynamic reset below cell sentTypes).2 := by
  cases cell with
  | plain gadget => exact List.Subset.refl _
  | MODEL value => cases value <;> exact List.Subset.refl _
  | variant held =>
    cases held with
    | none => exact List.Subset.refl _
    | some type =>
      rw [serializeValue]
      split
      · exact List.subset_cons_self _ _
      · exact List.Subset.refl _
  | CLASS type signature m_object value =>
    cases value with
    | none => exact List.Subset.refl _
    | some value =>
      rw [serializeValue]
      split
      · exact List.Subset.trans (subset_recurseForGadgets name _ sentTypes).1 (List.subset_cons_self _ _)
      · exact List.Subset.refl _

/-- What must be known to read a value is the type of the gadget held in it. -/
theorem load_serializeValue (name : T → N) (isDynamic reset : Bool) (below : Forest (Cell T)) (cell : Cell T)
    (sentTypes : List N) : ∀ entry ∈ (serializeValue name isDynamic reset below cell sentTypes).1.load,
      ∃ type ∈ cell.held, entry = .use type := by
  intro entry member
  cases cell with
  | plain gadget => cases member
  | MODEL value => cases value <;> cases member
  | variant held =>
    cases held with
    | none => cases member
    | some type =>
      rw [serializeValue] at member
      split at member
      · cases member
      · exact ⟨type, List.mem_singleton_self type, List.mem_singleton.mp member⟩
  | CLASS type signature m_object value =>
    cases value with
    | none => cases member
    | some value =>
      rw [serializeValue] at member
      split at member <;> cases member

theorem loads_serializeProperties (name : T → N) (isDynamic reset : Bool) (f : Forest (Cell T)) (sentTypes : List N) :
    ∀ entry ∈ loads (serializeProperties name isDynamic reset f sentTypes).1, ∃ type ∈ heldTypes f, entry = .use type := by
  induction f generalizing sentTypes with
  | nil => exact fun _ member => (nomatch member)
  | cons key cell below rest _ restIh =>
    intro entry member
    rw [serializeProperties, loads] at member
    rw [heldTypes]
    rcases List.mem_append.mp member with here | behind
    · obtain ⟨type, held, same⟩ := load_serializeValue name isDynamic reset below cell sentTypes entry here
      exact ⟨type, List.mem_append_left _ (List.mem_append_left _ held), same⟩
    · obtain ⟨type, held, same⟩ := restIh _ entry behind
      exact ⟨type, List.mem_append_right _ held, same⟩

theorem loads_sends (unique : Function.Injective name) (reset : Bool) {f : Forest (Cell T)} {sentTypes : List N}
    (ready : ∀ type ∈ heldTypes f, name type ∈ sentTypes) :
    Sends name [] (loads (serializeProperties name true reset f sentTypes).1) sentTypes sentTypes := by
  refine .uses unique fun entry member => ?_
  obtain ⟨type, held, same⟩ := loads_serializeProperties name true reset f sentTypes entry member
  exact ⟨type, same, ready type held⟩

/-- A gadget whose name is in the set stands by itself. -/
theorem serializeValue_arrives (unique : Function.Injective name) (reset : Bool) (below : Forest (Cell T))
    (cell : Cell T) (sentTypes : List N) (ready : ∀ type, cell = .variant (some type) → name type ∈ sentTypes) :
    (serializeValue name true reset below cell sentTypes).1.IsValue ∧
      Sends name (valueTypes reset below cell) (serializeValue name true reset below cell sentTypes).1.handle sentTypes
        (serializeValue name true reset below cell sentTypes).2 := by
  have sends := serializeValue_sends unique reset below cell sentTypes
  cases cell with
  | plain gadget => exact ⟨trivial, sends⟩
  | MODEL value => cases value <;> exact ⟨trivial, sends⟩
  | variant held =>
    cases held with
    | none => exact ⟨trivial, sends⟩
    | some type =>
      rw [serializeValue, if_neg fun unsent => unsent.2 (ready type rfl)]
      exact ⟨trivial, Sends.mono (.nil name sentTypes) (List.nil_subset _)⟩
  | CLASS type signature m_object value =>
    cases value with
    | none => exact ⟨trivial, sends⟩
    | some value =>
      rw [serializeValue] at sends ⊢
      split at sends
      · rename_i unsent
        rw [if_pos unsent]
        exact ⟨trivial, sends⟩
      · rename_i sent
        rw [if_neg sent]
        exact ⟨trivial, sends⟩

/-- The same for values whose gadgets all have their names in the set. -/
theorem serializeProperties_arrive (unique : Function.Injective name) (reset : Bool) (f : Forest (Cell T))
    (sentTypes : List N) (ready : ∀ type ∈ heldTypes f, name type ∈ sentTypes) :
    (serializeProperties name true reset f sentTypes).1.Forall Content.IsValue ∧
      Sends name (serializedTypes reset f)
        (handlePointerToQObjectProperties (serializeProperties name true reset f sentTypes).1) sentTypes
        (serializeProperties name true reset f sentTypes).2 ∧
      sentTypes ⊆ (serializeProperties name true reset f sentTypes).2 := by
  induction f generalizing reset sentTypes with
  | nil => exact ⟨trivial, .nil name sentTypes, List.Subset.refl _⟩
  | cons key cell below rest belowIh restIh =>
    rw [heldTypes] at ready
    obtain ⟨front, behind⟩ := List.forall_mem_append.mp ready
    obtain ⟨here, inside⟩ := List.forall_mem_append.mp front
    obtain ⟨isValue, handle⟩ := serializeValue_arrives unique reset below cell sentTypes
      (by rintro type rfl; exact here type List.mem_cons_self)
    have kept := subset_serializeValue name true reset below cell sentTypes
    rw [serializeProperties, serializedTypes]
    by_cases has : cell.hasParameters
    · rw [if_pos has] at inside
      simp only [if_pos has]
      have known := fun type held => kept (inside type held)
      obtain ⟨values, handled, grown⟩ := belowIh (reset || cell.resets) _ known
      obtain ⟨others, handledRest, grownRest⟩ := restIh reset _ fun type held => grown (kept (behind type held))
      have loaded := loads_sends unique (reset || cell.resets) known
      exact ⟨⟨isValue, values, others⟩, (handle.append (loaded.append handled)).append handledRest,
        List.Subset.trans kept (List.Subset.trans grown grownRest)⟩
    · simp only [if_neg has]
      obtain ⟨others, handledRest, grownRest⟩ := restIh reset _ fun type held => kept (behind type held)
      exact ⟨⟨isValue, trivial, others⟩, (handle.append (.nil name _)).append handledRest, List.Subset.trans kept grownRest⟩

/-- A packet with values in its list whose gadgets have their names in the set. -/
theorem values_sends (unique : Function.Injective name) (reset : Bool) {f : Forest (Cell T)} {sentTypes : List N}
    (ready : ∀ type ∈ heldTypes f, name type ∈ sentTypes) :
    Sends name (serializedTypes reset f) (loads (serializeProperties name true reset f sentTypes).1 ++
        handlePointerToQObjectProperties (serializeProperties name true reset f sentTypes).1) sentTypes
      (serializeProperties name true reset f sentTypes).2 :=
  (loads_sends unique reset ready).append (serializeProperties_arrive unique reset f sentTypes ready).2.1

theorem definedTypes_sent {cell : Cell T} {below : Forest (Cell T)} {sentTypes : List N} {type : T}
    (defined : type ∈ definedTypes name sentTypes cell below) :
    name type ∈ (serializeValue name true false below cell sentTypes).2 := by
  cases cell with
  | plain _ | variant _ | MODEL _ => exact (nomatch defined)
  | CLASS child signature m_object value =>
    cases value with
    | none => exact (nomatch defined)
    | some value =>
      rw [definedTypes] at defined
      split at defined
      · exact (nomatch defined)
      · rename_i unsent
        rw [serializeValue, if_pos ⟨rfl, unsent⟩]
        exact List.mem_cons_of_mem _ ((subset_recurseForGadgets name _ sentTypes).2 type defined)

omit [DecidableEq N] in
/-- A change whose value is no wrapper is read as a list of one value. -/
theorem change_arrives {types others : List T} {sent next last : List N} {key : Nat} {value : Content T}
    {parameters : Forest (Content T)} (isValue : value.IsValue) (values : parameters.Forall Content.IsValue)
    (load : Sends name [] value.load sent sent) (handle : Sends name types value.handle sent next)
    (below : Sends name others (loads parameters ++ handlePointerToQObjectProperties parameters) next last) :
    Packet.Stores (.propertyChange (.cons key value parameters .nil)) ∧
      Sends name (types ++ others) (Packet.onClientRead (.propertyChange (.cons key value parameters .nil))) sent last := by
  have read : Packet.onClientRead (.propertyChange (.cons key value parameters .nil)) =
        value.load ++ [] ++ (value.handle ++ (loads parameters ++ handlePointerToQObjectProperties parameters) ++ []) ∧
      Packet.stored (.propertyChange (.cons key value parameters .nil)) = .cons key value parameters .nil := by
    cases value with
    | wrapped type => exact isValue.elim
    | _ => exact ⟨rfl, rfl⟩
  rw [Packet.Stores, read.1, read.2, List.append_nil, List.append_nil]
  exact ⟨⟨isValue, values, trivial⟩, load.append (handle.append below)⟩

/-- A property change: the gadget of the property itself may come with its definition. -/
theorem propertyChange_arrives (unique : Function.Injective name) (cell : Cell T) (below : Forest (Cell T))
    (sentTypes : List N) (ready : cell.hasParameters → ∀ type ∈ heldTypes below,
      name type ∈ sentTypes ∨ type ∈ definedTypes name sentTypes cell below) :
    Packet.Stores (.propertyChange (serializeProperties name true false (.cons 0 cell below .nil) sentTypes).1) ∧
      Sends name (serializedTypes false (.cons 0 cell below .nil))
        (Packet.onClientRead (.propertyChange (serializeProperties name true false (.cons 0 cell below .nil) sentTypes).1))
        sentTypes (serializeProperties name true false (.cons 0 cell below .nil) sentTypes).2 := by
  by_cases fresh : ∃ type, cell = .variant (some type) ∧ name type ∉ sentTypes
  · obtain ⟨type, rfl, unsent⟩ := fresh
    have value : serializeValue name true false below (.variant (some type)) sentTypes =
        (.wrapped type, name type :: sentTypes) := by rw [serializeValue, if_pos ⟨rfl, unsent⟩]
    rw [serializeProperties, value]
    exact ⟨⟨trivial, trivial, trivial⟩, .definition name type sentTypes⟩
  · have sent : ∀ type, cell = .variant (some type) → name type ∈ sentTypes := fun type same =>
      of_not_not fun unsent => fresh ⟨type, same, unsent⟩
    obtain ⟨isValue, handle⟩ := serializeValue_arrives unique false below cell sentTypes sent
    have load : Sends name [] (serializeValue name true false below cell sentTypes).1.load sentTypes sentTypes := by
      refine .uses unique fun entry member => ?_
      obtain ⟨type, held, same⟩ := load_serializeValue name true false below cell sentTypes entry member
      refine ⟨type, same, sent type ?_⟩
      cases cell with
      | variant held' => rw [Option.mem_toList.mp held]
      | _ => cases held
    rw [serializeProperties, serializedTypes, serializedTypes, List.append_nil]
    by_cases has : cell.hasParameters
    · have known : ∀ type ∈ heldTypes below, name type ∈ (serializeValue name true false below cell sentTypes).2 := by
        intro type held
        rcases ready has type held with before | defined
        · exact subset_serializeValue name true false below cell sentTypes before
        · exact definedTypes_sent defined
      simp only [if_pos has]
      obtain ⟨values, _⟩ := serializeProperties_arrive unique (false || cell.resets) below _ known
      exact change_arrives isValue values load handle (values_sends unique (false || cell.resets) known)
    · simp only [if_neg has]
      exact change_arrives isValue trivial load handle (.nil name _)

end Values

section Registered
variable {T : Type*}

/-- Without wrappers, what a list of values defines is registered. -/
theorem definition_handled {values : Forest (Content T)} {type : T} (isValues : values.Forall Content.IsValue)
    (defined : .definition type ∈ entries values) : .definition type ∈ handlePointerToQObjectProperties values := by
  induction values with
  | nil => exact (nomatch defined)
  | cons key value parameters rest parametersIh restIh =>
    obtain ⟨isValue, below, behind⟩ := isValues
    rw [entries] at defined
    rw [handlePointerToQObjectProperties]
    rcases List.mem_append.mp defined with front | later
    · refine List.mem_append_left _ ?_
      rcases List.mem_append.mp front with here | inside
      · refine List.mem_append_left _ ?_
        match value, isValue, here with
        | .gadget other, _, here => exact absurd (List.mem_singleton.mp here) (by simp)
        | .CLASS other none, _, here => exact here
        | .CLASS other (some gadgets), _, here => exact here
      · exact List.mem_append_right _ (List.mem_append_right _ (parametersIh below inside))
    · exact List.mem_append_right _ (restIh behind later)

theorem definition_read {packet : Packet T} {type : T} (stores : packet.Stores)
    (defined : .definition type ∈ packet.entries) : .definition type ∈ packet.onClientRead := by
  cases packet with
  | initDynamic gadgets values =>
    rcases List.mem_append.mp defined with front | behind
    · exact List.mem_append_left _ front
    · exact List.mem_append_right _ (List.mem_append_right _ (definition_handled stores behind))
  | init values => exact List.mem_append_right _ (definition_handled stores defined)
  | propertyChange value =>
    unfold Packet.Stores Packet.stored at stores
    unfold Packet.onClientRead
    split at stores
    · contradiction
    · contradiction
    · rename_i same
      cases same
      exact defined
    · rename_i other same
      cases same
      exact List.mem_append_right _ (definition_handled stores defined)
    · contradiction
    · contradiction
  | invoke arguments =>
    obtain ⟨_, _, same⟩ := List.mem_map.mp defined
    contradiction
  | invokeReply value =>
    obtain ⟨_, _, same⟩ := List.mem_map.mp defined
    contradiction

theorem defined_registered {l : Listener T} (stores : ∀ packet ∈ l.received, packet.Stores) :
    l.defined Packet.entries ⊆ l.defined Packet.onClientRead := by
  intro type defined
  refine mem_known.mpr (.inr ?_)
  rcases mem_known.mp defined with known | logged
  · contradiction
  · obtain ⟨packet, member, within⟩ := List.mem_flatMap.mp logged
    exact List.mem_flatMap.mpr ⟨packet, member, definition_read (stores packet member) within⟩

end Registered

section Steps
variable {T N : Type*} [DecidableEq N] {name : T → N} {s t : RootSource T N}

/-- Packets as the receiver reads them. -/
abbrev Read (name : T → N) (s : RootSource T N) : Prop := Sound Packet.onClientRead Packet.Stores name s

omit [DecidableEq N] in
/-- What was sent to a listener is registered. -/
theorem Read.has (sound : Read name s) {kind : Nat → Prop} {type : T} (level : s.HasDefinition kind type)
    {l : Listener T} (member : l ∈ s.m_listeners) (heard : l.dynamic) (within : kind l.connection) :
    type ∈ l.defined Packet.onClientRead :=
  defined_registered (sound.informed l member heard).good (level l member heard within)

theorem Read.addListener (sound : Read name s) (unique : Function.Injective name) {connection : Nat} {dynamic : Bool}
    (level : AttachesLevel name s (.addListener connection dynamic))
    (holds : HoldsDefined name s (.addListener connection dynamic)) :
    Read name (s.addListener name connection dynamic) := by
  cases dynamic with
  | true =>
    rw [RootSource.addListener, if_pos rfl, Bool.or_true]
    have gadgets := recurseForGadgets_sends name (s.signature ++ gadgetTypes false s.properties) []
    have ready : ∀ type ∈ heldTypes s.properties, name type ∈ (recurseForGadgets name _ []).2 := fun type held =>
      (subset_recurseForGadgets name (s.signature ++ gadgetTypes false s.properties) []).2 type (holds type held)
    obtain ⟨stores, _⟩ := serializeProperties_arrive unique false s.properties _ ready
    have sends := gadgets.append (values_sends unique false ready)
    exact sound.attach connection true _ (.initDynamic _ _) (fun _ => ⟨stores, sends⟩) sends.added (List.nil_subset _)
      (fun _ => rfl) fun type needed _ _ member heard other => sound.has (level type needed) member heard other
  | false =>
    rw [RootSource.addListener, if_neg Bool.false_ne_true, Bool.or_false]
    cases isDynamic : s.isDynamic with
    | true =>
      have added := (serializeProperties_sends unique false s.properties s.sentTypes).added
      refine sound.attach connection false _ (.init _) (fun hears => ?_) added (List.Subset.refl _)
        (fun heard => absurd heard Bool.false_ne_true)
        fun type needed unsent _ member heard other => sound.has (level type needed unsent) member heard other
      exact ⟨(serializeProperties_arrive unique false s.properties _ (holds hears)).1,
        values_sends unique false (holds hears)⟩
    | false => exact sound.attach_static isDynamic connection _ _ _

theorem Read.handleMetaCall (sound : Read name s) (unique : Function.Injective name)
    {property : Option (List Nat)} {arguments : List T}
    (level : AttachesLevel name s (.handleMetaCall property arguments))
    (holds : HoldsDefined name s (.handleMetaCall property arguments)) :
    Read name (s.handleMetaCall name property arguments) := by
  refine Sound.handleMetaCall sound unique trivial rfl (fun type argument => ?_) fun path asked l informed => ?_
  · exact (level type argument).imp_right fun has l member heard => sound.has has member heard trivial
  · obtain rfl := Option.mem_def.mp asked
    cases found : s.properties.find path with
    | none =>
      rw [RootSource.property, found]
      exact informed.receive trivial (.nil name _)
    | some tree =>
      rw [RootSource.property, found]
      obtain ⟨stores, sends⟩ := propertyChange_arrives unique tree.1 tree.2 s.sentTypes (holds tree found)
      exact informed.receive stores sends

theorem Read.step (sound : Read name s) (unique : Function.Injective name) {e : Event T}
    (level : AttachesLevel name s e ∧ HoldsDefined name s e) (stepped : s.step name e = some t) : Read name t := by
  cases e with
  | addListener connection dynamic =>
    obtain rfl := Option.some.inj stepped
    exact sound.addListener unique level.1 level.2
  | removeListener connection =>
    obtain rfl := Option.some.inj stepped
    exact sound.removeListener _
  | change properties =>
    obtain rfl := Option.some.inj stepped
    exact ⟨sound.isDynamic, sound.informed⟩
  | handleMetaCall property arguments =>
    obtain rfl := Option.some.inj stepped
    exact sound.handleMetaCall unique level.1 level.2
  | reply connection value =>
    obtain rfl := Option.some.inj stepped
    exact sound.reply trivial rfl fun type held _ member heard here => sound.has (level.1 type held) member heard here

end Steps

section Main
variable {T N : Type*} [DecidableEq N]

/-- A gadget in the signature, which the `QVariant` holds from the start. -/
def prepared : List (Event Nat) :=
  [.change filled, .addListener 0 true, .handleMetaCall (some [1]) [2], .addListener 1 false]

end Main
end RemoteObjects.Source.Definitions
