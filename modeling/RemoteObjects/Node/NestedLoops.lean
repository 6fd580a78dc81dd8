import RemoteObjects.Source.Replies

/-! Packets that a node reads while a slot of its user runs an event loop. A slot is called
with pointers into the list of arguments that all packets are read to, or into the properties
of a replica, and the reply to a slot is sent under the name that was read last. -/
namespace RemoteObjects.Node.NestedLoops
open Transition

variable {S V Rep : Type}

/-- The packets that `onClientRead` has cases for. The index of the property is negative
where an invoke packet is not about one. -/
inductive Packet (S V : Type)
  | invoke (name : S) (index : Int) (args : List V) (propertyIndex : Int)
  | init (name : S) (values : List V)
  | initDynamic (name : S) (values : List V)
  | propertyChange (name : S) (propertyIndex : Nat) (value : V)
  | other

/-- `decodeVariant` for the parameters of signals and for properties, and which properties
have a notify signal. -/
structure MetaObject (V : Type) where
  decodeParameter : Int → Nat → V → V
  decodeProperty : Nat → V → V
  hasNotifySignal : Nat → Bool

/-- The list of arguments, in its present memory. A variant that was moved out is null. -/
structure VariantList (V : Type) where
  block : Nat
  capacity : Nat
  variants : List (Option V)

/-- What a slot is called with. -/
inductive Param (V Rep : Type)
  | argument (block index : Nat)
  | property (replica : Rep) (index : Nat)
  | copy (value : V)

/-- A signal that is activated for a packet: its arguments with the values that they have in
the packet. `since` is the number of packets read when it was. -/
structure Activation (V Rep : Type) where
  arguments : List (Param V Rep × V)
  since : Nat

/-- `handlers` are the packets whose handling has not ended, the innermost first, with the
signals to be activated for them; the slots of the first signal are being called. -/
structure Client (S V Rep : Type) where
  rxArgs : VariantList V
  blocks : Nat
  replicas : S → Option Rep
  propertyStorage : Rep → List V
  handlers : List (List (Activation V Rep))
  received : List (Option Rep × Packet S V)

/-- The host side of the node reads to members of its own. -/
structure Host (S V Rep : Type) where
  client : Client S V Rep
  sourceIo : Source.SourceIo S V

/-- `deliver` calls the next slot of the signal that is activated, and `activated` ends it. -/
inductive Event (S V Rep : Type)
  | replica (name : S) (replica : Option Rep)
  | read (packet : Packet S V)
  | deliver
  | activated
  | source (event : Source.Event S V)

def Packet.name : Packet S V → Option S
  | .invoke name _ _ _ | .init name _ | .initDynamic name _ | .propertyChange name _ _ => some name
  | .other => none

namespace Client
variable (s : Client S V Rep)

def initial (propertyStorage : Rep → List V) : Client S V Rep where
  rxArgs := ⟨0, 0, []⟩
  blocks := 1
  replicas _ := none
  propertyStorage := propertyStorage
  handlers := []
  received := []

/-- The variants are read in place, and the list gets new memory only when it grows. -/
def deserializeQVariantList (values : List V) : Client S V Rep :=
  if s.rxArgs.capacity < values.length then
    { s with rxArgs := ⟨s.blocks, values.length, values.map some⟩, blocks := s.blocks + 1 }
  else { s with rxArgs := { s.rxArgs with variants := values.map some } }

/-- What a slot sees behind the pointer, or nothing behind one that dangles. -/
def value : Param V Rep → Option V
  | .argument block index => if s.rxArgs.block = block then s.rxArgs.variants[index]?.join else none
  | .property replica index => (s.propertyStorage replica)[index]?
  | .copy value => some value

def handle (activations : List (Activation V Rep)) : Client S V Rep :=
  { s with handlers := activations :: s.handlers }

end Client

section Read
variable [DecidableEq S] [DecidableEq V] [DecidableEq Rep] (metaObject : Rep → MetaObject V)

namespace Client
variable (s : Client S V Rep)

def setStorage (replica : Rep) (values : List V) : Client S V Rep :=
  { s with propertyStorage := Function.update s.propertyStorage replica values }

/-- A signal that comes without arguments may be given a copy of its property. -/
def parameters (replica : Rep) (decoded : List V) (propertyIndex : Int) : List (Param V Rep × V) :=
  if decoded.isEmpty then
    if propertyIndex = -1 then []
    else (s.propertyStorage replica)[propertyIndex.toNat]?.toList.map fun value => (.copy value, value)
  else decoded.zipIdx.map fun (value, i) => (.argument s.rxArgs.block i, value)

def invoke (replica : Rep) (index : Int) (args : List V) (propertyIndex : Int) : Client S V Rep :=
  let decoded := args.mapIdx ((metaObject replica).decodeParameter index)
  let s := { s with rxArgs := { s.rxArgs with variants := decoded.map some } }
  s.handle [⟨s.parameters replica decoded propertyIndex, s.received.length⟩]

/-- The new value of a property that is stored otherwise than in the packet. -/
def changedProperty (replica : Rep) (values : List V) (i : Nat) : Option V :=
  (values[i]?.filter fun value => (s.propertyStorage replica)[i]? ≠ some value).map
    ((metaObject replica).decodeProperty i)

/-- The notify signals of properties. -/
def notify (replica : Rep) (changed : List (Nat × V)) : Client S V Rep :=
  s.handle ((changed.filter fun property => (metaObject replica).hasNotifySignal property.1).map fun property =>
    ⟨[(.property replica property.1, property.2)], s.received.length⟩)

/-- The new values are moved out of the list. -/
def initializeProperties (replica : Rep) (values : List V) : Client S V Rep :=
  let changed := s.changedProperty metaObject replica values
  let stored := (s.propertyStorage replica).mapIdx fun i old => (changed i).getD old
  let variants := s.rxArgs.variants.mapIdx fun i variant => if (changed i).isSome then none else variant
  { s.setStorage replica stored with rxArgs := { s.rxArgs with variants } }.notify metaObject replica
    ((List.range (s.propertyStorage replica).length).filterMap fun i => (changed i).map fun value => (i, value))

/-- The list itself becomes the storage of the properties. -/
def setDynamicProperties (replica : Rep) (values : List V) : Client S V Rep :=
  let decoded := values.mapIdx (metaObject replica).decodeProperty
  { s.setStorage replica decoded with rxArgs := ⟨s.blocks, 0, []⟩, blocks := s.blocks + 1 }.notify metaObject replica
    (decoded.zipIdx.map Prod.swap)

def setProperty (replica : Rep) (index : Nat) (value : V) : Client S V Rep :=
  s.setStorage replica ((s.propertyStorage replica).set index ((metaObject replica).decodeProperty index value))

def onClientRead (packet : Packet S V) : Client S V Rep :=
  let replica := packet.name.bind s.replicas
  let s := { s with received := s.received ++ [(replica, packet)] }
  match packet with
  | .invoke _ index args propertyIndex =>
    let s := s.deserializeQVariantList args
    replica.elim s fun replica => s.invoke metaObject replica index args propertyIndex
  | .init _ values =>
    let s := s.deserializeQVariantList values
    replica.elim s fun replica => s.initializeProperties metaObject replica values
  | .initDynamic _ values =>
    let s := s.deserializeQVariantList values
    replica.elim s fun replica => s.setDynamicProperties metaObject replica values
  | .propertyChange _ index value => replica.elim s fun replica => s.setProperty metaObject replica index value
  | .other => s

/-- The signal whose slots are being called. -/
def activation : Option (Activation V Rep) := s.handlers.head?.bind List.head?

end Client

def step (s : Host S V Rep) : Event S V Rep → Option (Host S V Rep)
  | .replica name replica => some { s with client := { s.client with replicas := Function.update s.client.replicas name replica } }
  | .read packet => some { s with client := s.client.onClientRead metaObject packet }
  | .deliver => if s.client.activation.isSome then some s else none
  | .activated =>
    match s.client.handlers with
    | [] => none
    | activations :: outer =>
      let handlers := if activations.tail = [] then outer else activations.tail :: outer
      some { s with client := { s.client with handlers } }
  | .source event => (Source.step s.sourceIo event).map fun sourceIo => { s with sourceIo }

end Read

/-- The slots get the values from the packet, and a reply has the name and serial id of its
packet and the value that was returned. -/
def Undisturbed (s : Host S V Rep) : Event S V Rep → Prop
  | .deliver => ∀ activation, s.client.activation = some activation →
    ∀ argument ∈ activation.arguments, s.client.value argument.1 = some argument.2
  | .source event => Source.RepliesAddressed s.sourceIo event ∧
    ∀ value reply, event = .returned (.value value) → Source.written s.sourceIo event = some reply → reply.value = value
  | _ => True

/-- The packet changes what the pointer shows. -/
def Packet.Overwrites (replica : Option Rep) (param : Param V Rep) : Packet S V → Prop
  | .invoke .. => ∃ block index, param = .argument block index
  | .init .. | .initDynamic .. =>
    (∃ block index, param = .argument block index) ∨ ∃ r index, param = .property r index ∧ replica = some r
  | .propertyChange _ index _ => ∃ r, param = .property r index ∧ replica = some r
  | .other => False

/-- No packet since the activation overwrites what its slots are called with. -/
def Activation.Kept (received : List (Option Rep × Packet S V)) (activation : Activation V Rep) : Prop :=
  ∀ entry ∈ received.drop activation.since, ∀ argument ∈ activation.arguments, ¬ entry.2.Overwrites entry.1 argument.1

/-- A slot is called when no packet read since the activation overwrites its arguments, and a
call is completed when the host has read no other name behind its packet. -/
def keepsPacket (s : Host S V Rep) : Event S V Rep → Prop
  | .deliver => ∀ activation, s.client.activation = some activation → activation.Kept s.client.received
  | .source event => Source.NoneBetween s.sourceIo event
  | _ => True

section Invariant
variable {s : Client S V Rep} {packet : Packet S V}

/-- An activation made by the last packet, of which nothing is overwritten yet. -/
def Client.Made (s : Client S V Rep) (activation : Activation V Rep) : Prop :=
  activation.since = s.received.length ∧ ∀ argument ∈ activation.arguments, s.value argument.1 = some argument.2

/-- A handler that starts keeps the outer ones, and has the values of its packet. -/
structure Client.Handles (s t : Client S V Rep) : Prop where
  received : t.received = s.received
  handlers : t.handlers = s.handlers ∨ ∃ activations, t.handlers = activations :: s.handlers ∧
    ∀ activation ∈ activations, t.Made activation

theorem Client.Handles.congr {read s t : Client S V Rep} (handles : read.Handles t) (received : read.received = s.received)
    (handlers : read.handlers = s.handlers) : s.Handles t :=
  ⟨handles.received.trans received, handlers ▸ handles.handlers⟩

/-- The invariant: what is not overwritten is what was in the packet. -/
def Client.Kept (s : Client S V Rep) : Prop :=
  ∀ activations ∈ s.handlers, ∀ activation ∈ activations, activation.since ≤ s.received.length ∧
    (activation.Kept s.received → ∀ argument ∈ activation.arguments, s.value argument.1 = some argument.2)

theorem deserialize_eq (s : Client S V Rep) (values : List V) : ∃ rxArgs blocks,
    s.deserializeQVariantList values = { s with rxArgs, blocks } := by
  unfold Client.deserializeQVariantList
  split <;> exact ⟨_, _, rfl⟩

theorem deserialize_propertyStorage (s : Client S V Rep) (values : List V) :
    (s.deserializeQVariantList values).propertyStorage = s.propertyStorage := by
  obtain ⟨rxArgs, blocks, same⟩ := deserialize_eq s values
  rw [same]

variable (metaObject : Rep → MetaObject V)

theorem notify_handles (s : Client S V Rep) (replica : Rep) {changed : List (Nat × V)}
    (stored : ∀ property ∈ changed, (s.propertyStorage replica)[property.1]? = some property.2) :
    s.Handles (s.notify metaObject replica changed) := by
  refine ⟨rfl, .inr ⟨_, rfl, fun activation member => ?_⟩⟩
  obtain ⟨property, notified, rfl⟩ := List.mem_map.mp member
  refine ⟨rfl, fun argument shown => ?_⟩
  obtain rfl := List.mem_singleton.mp shown
  exact stored property (List.mem_filter.mp notified).1

theorem invoke_handles (s : Client S V Rep) (replica : Rep) (index : Int) (args : List V) (propertyIndex : Int) :
    s.Handles (s.invoke metaObject replica index args propertyIndex) := by
  refine ⟨rfl, .inr ⟨_, rfl, fun activation member => ?_⟩⟩
  obtain rfl := List.mem_singleton.mp member
  refine ⟨rfl, fun argument given => ?_⟩
  unfold Client.parameters at given
  dsimp only at given
  split at given
  · split at given
    · contradiction
    · obtain ⟨value, _, rfl⟩ := List.mem_map.mp given
      rfl
  · obtain ⟨⟨value, i⟩, member, rfl⟩ := List.mem_map.mp given
    have here := List.mem_zipIdx_iff_getElem?.mp member
    simp only [Client.value, Client.invoke, Client.handle, ↓reduceIte, List.getElem?_map, here, Option.map_some, Option.join_some]

variable [DecidableEq Rep]

theorem setDynamicProperties_handles (s : Client S V Rep) (replica : Rep) (values : List V) :
    s.Handles (s.setDynamicProperties metaObject replica values) := by
  refine (notify_handles metaObject _ replica fun property member => ?_).congr rfl rfl
  obtain ⟨⟨value, i⟩, inside, rfl⟩ := List.mem_map.mp member
  simp only [Client.setStorage, Function.update_self, Prod.swap_prod_mk]
  exact List.mem_zipIdx_iff_getElem?.mp inside

variable [DecidableEq V]

theorem initializeProperties_handles (s : Client S V Rep) (replica : Rep) (values : List V) :
    s.Handles (s.initializeProperties metaObject replica values) := by
  refine (notify_handles metaObject _ replica fun property member => ?_).congr rfl rfl
  obtain ⟨i, inside, made⟩ := List.mem_filterMap.mp member
  obtain ⟨value, changed, rfl⟩ := Option.map_eq_some_iff.mp made
  have old := List.getElem?_eq_getElem (List.mem_range.mp inside)
  simp only [Client.setStorage, Function.update_self, List.getElem?_mapIdx, old, Option.map_some, changed, Option.getD_some]

theorem onClientRead_handles (s : Client S V Rep) (packet : Packet S V) :
    { s with received := s.received ++ [(packet.name.bind s.replicas, packet)] }.Handles (s.onClientRead metaObject packet) := by
  have started (values : List V) (handler : Client S V Rep → Rep → Client S V Rep)
      (handles : ∀ (before : Client S V Rep) replica, before.Handles (handler before replica)) :
      let read := { s with received := s.received ++ [(packet.name.bind s.replicas, packet)] }
      read.Handles ((packet.name.bind s.replicas).elim (read.deserializeQVariantList values)
        (handler (read.deserializeQVariantList values))) := by
    intro read
    obtain ⟨rxArgs, blocks, same⟩ := deserialize_eq read values
    rw [same]
    cases packet.name.bind s.replicas with
    | none => exact ⟨rfl, .inl rfl⟩
    | some replica => exact (handles _ replica).congr rfl rfl
  cases packet with
  | invoke name index args propertyIndex =>
    exact started args _ fun before replica => invoke_handles metaObject before replica index args propertyIndex
  | init name values => exact started values _ fun before replica => initializeProperties_handles metaObject before replica values
  | initDynamic name values =>
    exact started values _ fun before replica => setDynamicProperties_handles metaObject before replica values
  | propertyChange name index value =>
    unfold Client.onClientRead
    dsimp only
    cases (Packet.propertyChange name index value).name.bind s.replicas <;> exact ⟨rfl, .inl rfl⟩
  | other => exact ⟨rfl, .inl rfl⟩

/-- What a packet does not overwrite is seen as before. -/
theorem value_of_untouched (s : Client S V Rep) {packet : Packet S V} {param : Param V Rep}
    (untouched : ¬ packet.Overwrites (packet.name.bind s.replicas) param) :
    (s.onClientRead metaObject packet).value param = s.value param := by
  unfold Client.onClientRead
  dsimp only
  cases param with
  | copy value => rfl
  | argument block index =>
    cases packet with
    | invoke | init | initDynamic => exact absurd (by simp [Packet.Overwrites]) untouched
    | propertyChange name propertyIndex value =>
      cases (Packet.propertyChange name propertyIndex value).name.bind s.replicas <;> rfl
    | other => rfl
  | property r index =>
    cases packet with
    | invoke name method args propertyIndex =>
      cases (Packet.invoke name method args propertyIndex).name.bind s.replicas
      all_goals exact congrArg (fun storage => (storage r)[index]?) (deserialize_propertyStorage _ args)
    | init name values =>
      cases known : (Packet.init name values).name.bind s.replicas with
      | none => exact congrArg (fun storage => (storage r)[index]?) (deserialize_propertyStorage _ values)
      | some replica =>
        have apart : r ≠ replica := by
          rintro rfl
          exact untouched (.inr ⟨r, index, rfl, known⟩)
        simp only [Option.elim_some, Client.initializeProperties, Client.notify, Client.handle, Client.setStorage, Client.value,
          Function.update_of_ne apart, deserialize_propertyStorage]
    | initDynamic name values =>
      cases known : (Packet.initDynamic name values).name.bind s.replicas with
      | none => exact congrArg (fun storage => (storage r)[index]?) (deserialize_propertyStorage _ values)
      | some replica =>
        have apart : r ≠ replica := by
          rintro rfl
          exact untouched (.inr ⟨r, index, rfl, known⟩)
        simp only [Option.elim_some, Client.setDynamicProperties, Client.notify, Client.handle, Client.setStorage, Client.value,
          Function.update_of_ne apart, deserialize_propertyStorage]
    | propertyChange name propertyIndex value =>
      cases known : (Packet.propertyChange name propertyIndex value).name.bind s.replicas with
      | none => rfl
      | some replica =>
        simp only [Option.elim_some, Client.setProperty, Client.setStorage, Client.value]
        by_cases here : r = replica
        · subst here
          have other : propertyIndex ≠ index := by
            rintro rfl
            exact untouched ⟨r, rfl, known⟩
          rw [Function.update_self, List.getElem?_set_ne other]
        · rw [Function.update_of_ne here]
    | other => rfl

theorem Client.Kept.onClientRead {s : Client S V Rep} (kept : s.Kept) (packet : Packet S V) :
    (s.onClientRead metaObject packet).Kept := by
  obtain ⟨received, handlers⟩ := onClientRead_handles metaObject s packet
  have outer : ∀ activations ∈ s.handlers, ∀ activation ∈ activations,
      activation.since ≤ (s.onClientRead metaObject packet).received.length ∧
        (activation.Kept (s.onClientRead metaObject packet).received →
          ∀ argument ∈ activation.arguments, (s.onClientRead metaObject packet).value argument.1 = some argument.2) := by
    intro activations running activation member
    obtain ⟨since, before⟩ := kept activations running activation member
    rw [received]
    refine ⟨Nat.le_trans since (by simp), fun untouched argument given => ?_⟩
    rw [Activation.Kept, List.drop_append_of_le_length since] at untouched
    rw [value_of_untouched metaObject s (untouched _ (List.mem_append_right _ (List.mem_singleton_self _)) argument given)]
    exact before (fun entry earlier => untouched entry (List.mem_append_left _ earlier)) argument given
  intro activations running
  obtain same | ⟨made, same, fresh⟩ := handlers
  · exact outer activations (same ▸ running)
  · rw [same] at running
    obtain rfl | running := List.mem_cons.mp running
    · intro activation member
      obtain ⟨since, values⟩ := fresh activation member
      exact ⟨Nat.le_of_eq since, fun _ => values⟩
    · exact outer activations running

/-- The members of both sides hold what is expected of them. -/
structure Sound (s : Host S V Rep) : Prop where
  client : s.client.Kept
  sourceIo : Source.Captures s.sourceIo

variable [DecidableEq S] {h u : Host S V Rep} {e : Event S V Rep}

theorem sound_step (sound : Sound h) (stepped : step metaObject h e = some u) : Sound u := by
  obtain ⟨client, sourceIo⟩ := sound
  cases e with
  | replica name replica =>
    obtain rfl := Option.some.inj stepped
    exact ⟨client, sourceIo⟩
  | read packet =>
    obtain rfl := Option.some.inj stepped
    exact ⟨client.onClientRead metaObject packet, sourceIo⟩
  | deliver =>
    simp only [step, Option.ite_none_right_eq_some, Option.some.injEq] at stepped
    obtain ⟨_, rfl⟩ := stepped
    exact ⟨client, sourceIo⟩
  | activated =>
    simp only [step] at stepped
    split at stepped
    · contradiction
    · rename_i activations outer running
      obtain rfl := Option.some.inj stepped
      refine ⟨fun remaining member => ?_, sourceIo⟩
      have innermost := client activations (running ▸ List.mem_cons_self)
      have others (remaining) (member : remaining ∈ outer) := client remaining (running ▸ List.mem_cons_of_mem _ member)
      dsimp only at member
      split at member
      · exact others remaining member
      · obtain rfl | member := List.mem_cons.mp member
        · exact fun activation later => innermost activation (List.mem_of_mem_tail later)
        · exact others remaining member
  | source event =>
    obtain ⟨next, done, rfl⟩ := Option.map_eq_some_iff.mp stepped
    exact ⟨client, Source.captures_step sourceIo done⟩

omit [DecidableEq Rep] [DecidableEq V] [DecidableEq S] in
theorem undisturbed_of_keepsPacket (sound : Sound h) (keeps : keepsPacket h e) : Undisturbed h e := by
  cases e with
  | deliver =>
    intro activation called
    obtain ⟨activations, running, member⟩ := Option.bind_eq_some_iff.mp called
    exact (sound.client activations (List.mem_of_head? running) activation (List.mem_of_head? member)).2
      (keeps activation called)
  | source event =>
    refine ⟨(Source.repliesAddressed_step sound.sourceIo).mpr keeps, ?_⟩
    rintro value reply rfl written
    obtain ⟨call, done, rfl⟩ := Option.map_eq_some_iff.mp written
    obtain ⟨_, _, rfl⟩ := Option.map_eq_some_iff.mp done
    rfl
  | replica | read | activated => trivial

/-- In a run where no packet overwrites the one that is being handled, its slots get its values,
and its reply goes to its object. -/
theorem undisturbed_run (propertyStorage : Rep → List V) (rxName : S) {es : List (Event S V Rep)}
    (keeps : Admitted (step metaObject) keepsPacket ⟨.initial propertyStorage, .new rxName⟩ es) :
    Admitted (step metaObject) Undisturbed ⟨.initial propertyStorage, .new rxName⟩ es := by
  refine admitted_of_invariant (P := Sound) (fun sound _ stepped => sound_step metaObject sound stepped)
    undisturbed_of_keepsPacket keeps ⟨fun _ running => ?_, .initial rxName⟩
  exact absurd running List.not_mem_nil

end Invariant

section Examples

/-- Parameters and properties of types that are sent as they are. -/
def plain (_ : Unit) : MetaObject Nat := ⟨fun _ _ value => value, fun _ value => value, fun _ => true⟩

/-- A property changes while a slot runs, and a packet for the same object is read before a
slot returns. -/
theorem undisturbed_nested :
    Admitted (step plain) Undisturbed ⟨.initial fun _ => [5], .new ""⟩
      [.replica "A" (some ()), .read (.invoke "A" 0 [1] (-1)), .deliver, .read (.propertyChange "A" 0 7), .deliver,
        .source (.connected 1), .source (.enableRemoting "B" ⟨id⟩), .source (.read 1 (.invoke ⟨"B", 0, 0, [], 1⟩)),
        .source (.read 1 (.named "B")), .source (.returned (.value 3))] := by
  refine undisturbed_run plain _ "" (.cons trivial rfl (.cons trivial rfl (.cons ?_ rfl (.cons trivial rfl (.cons ?_ rfl
    (.cons ?_ rfl (.cons ?_ rfl (.cons ?_ rfl (.cons ?_ rfl (.cons ?_ rfl trivial))))))))))
  · intro activation called
    obtain rfl := Option.some.inj called
    exact fun entry later => absurd later List.not_mem_nil
  · intro activation called
    obtain rfl := Option.some.inj called
    intro entry later argument given
    obtain rfl := List.mem_singleton.mp later
    obtain rfl := List.mem_singleton.mp given
    rintro ⟨_, same, _⟩
    contradiction
  · rintro call ⟨⟩
  · rintro call ⟨⟩
  · rintro call ⟨⟩
  · rintro call ⟨⟩
  · rintro call ⟨⟩
    rfl

/-- The first slot of a signal, or the slot of a call, runs an event loop in which another
invoke packet is read. -/
theorem nested_invoke_disturbs :
    (∃ s, exec (step plain) ⟨.initial fun _ => [], .new ""⟩
        [.replica "A" (some ()), .read (.invoke "A" 0 [1] (-1)), .deliver, .read (.invoke "A" 0 [2] (-1)), .deliver,
          .activated] = some s ∧ ¬ Undisturbed s .deliver) ∧
    ∃ s, exec (step plain) ⟨.initial fun _ => [], .new ""⟩
        [.source (.connected 1), .source (.enableRemoting "A" ⟨id⟩), .source (.enableRemoting "B" ⟨id⟩),
          .source (.read 1 (.invoke ⟨"A", 0, 0, [], 1⟩)), .source (.read 1 (.invoke ⟨"B", 0, 0, [], 1⟩)),
          .source (.returned (.value 5))] = some s ∧ ¬ Undisturbed s (.source (.returned (.value 7))) := by
  constructor
  · refine ⟨_, rfl, fun undisturbed => ?_⟩
    have seen := undisturbed _ rfl _ List.mem_cons_self
    revert seen
    decide
  · refine ⟨_, rfl, fun undisturbed => ?_⟩
    obtain ⟨invoked, found, name, _⟩ := undisturbed.1 _ rfl
    cases found
    exact absurd name (by decide)

end Examples
end RemoteObjects.Node.NestedLoops
