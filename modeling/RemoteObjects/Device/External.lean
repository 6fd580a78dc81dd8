import Mathlib.Data.List.Basic
import RemoteObjects.Transition

/-! Connections over devices that the user owns, and may close or destroy at any time: while
the node writes, while it waits for a reply, and while a slot that it calls runs. -/
namespace RemoteObjects.Device.External
open RemoteObjects Transition

abbrev Name := List Char

section Model

inductive Side
  | host | client
deriving DecidableEq

/-- `QtROExternalIoDevice`. Its guarded pointer is null once the device does not exist. The
wrapper itself goes some time after `deleteLater`. -/
structure ExternalIoDevice where
  side : Side
  hasDisconnected : Bool
  m_device : Bool
  isOpen : Bool
  m_isClosing : Bool
  deleteLater : Bool
  deleted : Bool

structure RootSource where
  name : Name
  m_listeners : List Nat

/-- What is left to do for a packet: nothing, a packet to write, or a reply to wait for. -/
inductive Answer
  | none | now | later
deriving DecidableEq

/-- A packet that is being handled in `onServerRead` or `onClientRead`. While code of the
user runs, anything may happen. -/
structure Loop where
  connection : Nat
  answer : Answer
  userCode : Bool

/-- Packets by what the handler does for them. -/
inductive Packet
  | ping
  | addObject (name : Name)
  | removeObject (name : Name)
  | invoke (answer : Answer)

/-- An access is a call of `read`, `write` or `bytesAvailable`, and whether the wrapper and
its device were there. -/
structure Node where
  devices : List ExternalIoDevice
  m_connections : List Nat
  m_sourceRoots : List RootSource
  watchers : List Nat
  loops : List Loop
  accesses : List (Nat × Bool)

inductive Event
  | addHostSideConnection (hasDisconnected : Bool)
  | addClientSideConnection (hasDisconnected : Bool) (arrived : Option (Option Packet))
  | close (connection : Nat)
  | disconnected (connection : Nat)
  | destroy (connection : Nat)
  | deleteWrapper (connection : Nat)
  | enableRemoting (name : Name)
  | disableRemoting (name : Name)
  | emit (name : Name)
  | readyRead (connection : Nat) (packet : Option Packet)
  | resume (arrived : Option (Option Packet))
  | finished (connection : Nat) (noError : Bool)
  | sendCommand (connection : Nat)

namespace Node
variable (s : Node)

def initial : Node := ⟨[], [], [], [], [], []⟩

/-- The wrapper is there and its `connection()` is not null. -/
def alive (connection : Nat) : Bool := (s.devices[connection]?).any fun d => d.m_device && !d.deleted

def access (connection : Nat) : Node := { s with accesses := s.accesses ++ [(connection, s.alive connection)] }

/-- `QtROIoDeviceBase::write` and `bytesAvailable` look at the device in any case. -/
def write (connection : Nat) : Node := s.access connection

def bytesAvailable (connection : Nat) : Node := s.access connection

def send (connections : List Nat) : Node := connections.foldl write s

def setDevice (connection : Nat) (change : ExternalIoDevice → ExternalIoDevice) : Node :=
  { s with devices := s.devices.modify connection change }

/-- What is done for a packet before code of the user runs. -/
def handle (connection : Nat) (side : Side) (packet : Packet) : Node :=
  match side, packet with
  | .client, _ => { s with loops := ⟨connection, .none, true⟩ :: s.loops }
  | .host, .ping => { s with loops := ⟨connection, .now, false⟩ :: s.loops }
  | .host, .addObject name =>
    if ∃ root ∈ s.m_sourceRoots, root.name = name then
      { s with
        m_sourceRoots := s.m_sourceRoots.map fun root =>
          if root.name = name then { root with m_listeners := root.m_listeners ++ [connection] } else root
        loops := ⟨connection, .now, true⟩ :: s.loops }
    else { s with loops := ⟨connection, .none, false⟩ :: s.loops }
  | .host, .removeObject name =>
    { s with
      m_sourceRoots := s.m_sourceRoots.map fun root =>
        if root.name = name then { root with m_listeners := root.m_listeners.filter (· ≠ connection) } else root
      loops := ⟨connection, .none, false⟩ :: s.loops }
  | .host, .invoke answer => { s with loops := ⟨connection, answer, true⟩ :: s.loops }

/-- One round of the read loop, which ends where a packet is not complete. -/
def read (connection : Nat) (side : Side) (packet : Option Packet) : Node :=
  let s := s.bytesAvailable connection
  match packet with
  | some packet => s.handle connection side packet
  | none => s

def onServerDisconnect (connection : Nat) : Node :=
  { s.setDevice connection ({ · with m_isClosing := true, deleteLater := true }) with
    m_connections := s.m_connections.filter (· ≠ connection)
    m_sourceRoots := s.m_sourceRoots.map fun root =>
      { root with m_listeners := root.m_listeners.filter (· ≠ connection) } }

/-- The rest of the handler, and the end of the read loop's round. -/
def finish (loop : Loop) : Node :=
  let s := match loop.answer with
    | .none => s
    | .now => s.write loop.connection
    | .later => { s with watchers := loop.connection :: s.watchers }
  s.bytesAvailable loop.connection

/-- Between two packets no code of the user runs. -/
def interruptible : Bool := s.loops.head?.all (·.userCode)

/-- The wrapper of a new device. -/
def attach (side : Side) (hasDisconnected : Bool) : Node :=
  { s with devices := s.devices ++ [⟨side, hasDisconnected, true, true, false, false, false⟩] }

/-- One event, or nothing where it cannot occur. -/
def step : Event → Option Node
  | .addHostSideConnection hasDisconnected =>
    if s.interruptible then
      let connection := s.devices.length
      let s := { s.attach .host hasDisconnected with m_connections := connection :: s.m_connections }
      some ((s.write connection).write connection)
    else none
  | .addClientSideConnection hasDisconnected arrived =>
    if s.interruptible then
      let connection := s.devices.length
      let s := (s.attach .client hasDisconnected).bytesAvailable connection
      match arrived with
      | some packet => some (s.read connection .client packet)
      | none => some s
    else none
  | .close connection =>
    if s.interruptible ∧ s.alive connection then
      some (s.setDevice connection ({ · with isOpen := false, m_isClosing := true }))
    else none
  | .disconnected connection =>
    match s.devices[connection]? with
    | some device =>
      if s.interruptible ∧ s.alive connection ∧ device.hasDisconnected then
        match device.side with
        | .host => some (s.onServerDisconnect connection)
        | .client => some s
      else none
    | none => none
  | .destroy connection =>
    if s.interruptible then some (s.setDevice connection ({ · with m_device := false })) else none
  | .deleteWrapper connection =>
    match s.devices[connection]? with
    | some device =>
      if s.interruptible ∧ device.deleteLater then
        some { s.setDevice connection ({ · with deleted := true }) with
          watchers := s.watchers.filter (· ≠ connection) }
      else none
    | none => none
  | .enableRemoting name =>
    if s.interruptible ∧ ¬ ∃ root ∈ s.m_sourceRoots, root.name = name then
      some ({ s with m_sourceRoots := ⟨name, []⟩ :: s.m_sourceRoots }.send s.m_connections)
    else none
  | .disableRemoting name =>
    if s.interruptible then
      let (gone, left) := s.m_sourceRoots.partition fun root => decide (root.name = name)
      some ({ s with m_sourceRoots := left }.send (gone.flatMap RootSource.m_listeners))
    else none
  | .emit name =>
    if s.interruptible then
      some (s.send ((s.m_sourceRoots.filter (·.name = name)).flatMap RootSource.m_listeners))
    else none
  | .readyRead connection packet =>
    match s.devices[connection]? with
    | some device =>
      if s.interruptible ∧ s.alive connection then some (s.read connection device.side packet) else none
    | none => none
  | .resume arrived =>
    match s.loops with
    | [] => none
    | loop :: loops =>
      let s := { s with loops }.finish loop
      match arrived, s.devices[loop.connection]? with
      | some packet, some device => some (s.read loop.connection device.side packet)
      | _, _ => some s
  | .finished connection noError =>
    if s.interruptible ∧ connection ∈ s.watchers then
      let s := { s with watchers := s.watchers.erase connection }
      some (if noError then s.write connection else s)
    else none
  | .sendCommand connection =>
    match s.devices[connection]? with
    | some device =>
      if s.interruptible ∧ device.side = .client then
        if s.alive connection ∧ device.isOpen ∧ ¬ device.m_isClosing then some (s.write connection) else some s
      else none
    | none => none

end Node
end Model

section Statement

/-- Every call of `read`, `write` and `bytesAvailable` found its device. -/
def NeverTouched (s : Node) : Prop := ∀ access ∈ s.accesses, access.2 = true

/-- The node has a connection in its list or in that of a root source, is in its read loop,
or waits for a reply to send to it. -/
def Node.Refers (s : Node) (connection : Nat) : Prop :=
  connection ∈ s.m_connections ∨ (∃ root ∈ s.m_sourceRoots, connection ∈ root.m_listeners) ∨
    (∃ loop ∈ s.loops, loop.connection = connection) ∨ connection ∈ s.watchers

/-- A device is destroyed when the node has forgotten it, and its wrapper outlives its read
loops and its entries in the lists of root sources. -/
def OwnerWaits (s : Node) : Event → Prop
  | .destroy connection => ¬ s.Refers connection
  | .deleteWrapper connection =>
    (∀ root ∈ s.m_sourceRoots, connection ∉ root.m_listeners) ∧ ∀ loop ∈ s.loops, loop.connection ≠ connection
  | _ => True

instance (s : Node) (connection : Nat) : Decidable (s.Refers connection) := by
  unfold Node.Refers
  infer_instance

instance (s : Node) (e : Event) : Decidable (OwnerWaits s e) := by
  unfold OwnerWaits
  split <;> infer_instance

end Statement

section Sound
variable {s t : Node} {connection : Nat}

/-- Whatever the node refers to is there, and what it lists is not about to be deleted. -/
structure Sound (s : Node) : Prop where
  untouched : NeverTouched s
  held : ∀ connection, s.Refers connection → s.alive connection
  kept : ∀ connection ∈ s.m_connections, ∀ device, s.devices[connection]? = some device → device.deleteLater = false

theorem Sound.initial : Sound .initial where
  untouched _ member := nomatch member
  held _ refers := by
    rcases refers with listed | ⟨_, listed, _⟩ | ⟨_, active, _⟩ | waiting <;> contradiction
  kept _ listed := nomatch listed

theorem alive_lt (alive : s.alive connection) : connection < s.devices.length := by
  obtain ⟨device, found, _⟩ := (Option.any_eq_true _ _).mp alive
  exact (List.getElem?_eq_some_iff.mp found).1

theorem Sound.access (sound : Sound s) (alive : s.alive connection) : Sound (s.access connection) where
  untouched access member := by
    rcases List.mem_append.mp member with before | new
    · exact sound.untouched access before
    · obtain rfl := List.mem_singleton.mp new
      exact alive
  held := sound.held
  kept := sound.kept

theorem Sound.send (sound : Sound s) {connections : List Nat} (alive : ∀ connection ∈ connections, s.alive connection) :
    Sound (s.send connections) := by
  induction connections generalizing s with
  | nil => exact sound
  | cons connection connections ih =>
    obtain ⟨first, others⟩ := List.forall_mem_cons.mp alive
    exact ih (sound.access first) others

/-- Fewer references, and new ones to what is there. -/
theorem Sound.refer (sound : Sound s) (devices : t.devices = s.devices) (accesses : t.accesses = s.accesses)
    (connections : ∀ connection ∈ t.m_connections, connection ∈ s.m_connections)
    (refers : ∀ connection, t.Refers connection → s.Refers connection ∨ s.alive connection) : Sound t where
  untouched := by
    rw [NeverTouched, accesses]
    exact sound.untouched
  held connection refers' := by
    rw [Node.alive, devices]
    exact (refers connection refers').elim (sound.held connection) id
  kept connection listed := by
    rw [devices]
    exact sound.kept connection (connections connection listed)

/-- References are compared part by part. -/
theorem Node.Refers.compare {P : Prop} (refers : t.Refers connection)
    (connections : connection ∈ t.m_connections → connection ∈ s.m_connections ∨ P)
    (roots : (∃ root ∈ t.m_sourceRoots, connection ∈ root.m_listeners) →
      (∃ root ∈ s.m_sourceRoots, connection ∈ root.m_listeners) ∨ P)
    (loops : (∃ loop ∈ t.loops, loop.connection = connection) → (∃ loop ∈ s.loops, loop.connection = connection) ∨ P)
    (watchers : connection ∈ t.watchers → connection ∈ s.watchers ∨ P) : s.Refers connection ∨ P := by
  rcases refers with listed | listens | active | waits
  · exact (connections listed).imp_left .inl
  · exact (roots listens).imp_left fun listens => .inr (.inl listens)
  · exact (loops active).imp_left fun active => .inr (.inr (.inl active))
  · exact (watchers waits).imp_left fun waits => .inr (.inr (.inr waits))

/-- Replies that nobody waits for any more. -/
theorem Sound.unwatch (sound : Sound s) {watchers : List Nat} (fewer : watchers ⊆ s.watchers) : Sound { s with watchers } := by
  refine sound.refer rfl rfl (fun _ => id) fun connection refers => ?_
  exact refers.compare .inl .inl .inl fun waits => .inl (fewer waits)

/-- The listeners of root sources are connected. -/
theorem Sound.listeners (sound : Sound s) {roots : List RootSource} (within : roots ⊆ s.m_sourceRoots) :
    ∀ connection ∈ roots.flatMap RootSource.m_listeners, s.alive connection := by
  intro connection member
  obtain ⟨root, inside, listens⟩ := List.mem_flatMap.mp member
  exact sound.held connection (.inr (.inl ⟨root, within inside, listens⟩))

theorem Sound.enter (sound : Sound s) (loop : Loop) (alive : s.alive loop.connection) :
    Sound { s with loops := loop :: s.loops } := by
  refine sound.refer rfl rfl (fun _ => id) fun connection refers => ?_
  refine refers.compare .inl .inl ?_ .inl
  rintro ⟨other, active, rfl⟩
  rcases List.mem_cons.mp active with rfl | active
  · exact .inr alive
  · exact .inl ⟨other, active, rfl⟩

theorem Sound.relist (sound : Sound s) {roots : List RootSource}
    (listed : ∀ root ∈ roots, ∀ connection ∈ root.m_listeners,
      s.alive connection ∨ ∃ old ∈ s.m_sourceRoots, connection ∈ old.m_listeners) :
    Sound { s with m_sourceRoots := roots } := by
  refine sound.refer rfl rfl (fun _ => id) fun connection refers => ?_
  refine refers.compare .inl ?_ .inl .inl
  rintro ⟨root, member, listens⟩
  exact (listed root member connection listens).symm

theorem Sound.handle (sound : Sound s) (alive : s.alive connection) (side : Side) (packet : Packet) :
    Sound (s.handle connection side packet) := by
  cases side with
  | client => exact sound.enter _ alive
  | host =>
    cases packet with
    | ping | invoke => exact sound.enter _ alive
    | addObject name =>
      rw [Node.handle]
      split
      · refine (sound.enter ⟨connection, .now, true⟩ alive).relist ?_
        intro root member other listens
        obtain ⟨old, before, rfl⟩ := List.mem_map.mp member
        split at listens
        · rcases List.mem_append.mp listens with earlier | new
          · exact .inr ⟨old, before, earlier⟩
          · obtain rfl := List.mem_singleton.mp new
            exact .inl alive
        · exact .inr ⟨old, before, listens⟩
      · exact sound.enter _ alive
    | removeObject name =>
      rw [Node.handle]
      refine (sound.enter ⟨connection, .none, false⟩ alive).relist ?_
      intro root member other listens
      obtain ⟨old, before, rfl⟩ := List.mem_map.mp member
      split at listens
      · exact .inr ⟨old, before, (List.mem_filter.mp listens).1⟩
      · exact .inr ⟨old, before, listens⟩

theorem Sound.read (sound : Sound s) (alive : s.alive connection) (side : Side) (packet : Option Packet) :
    Sound (s.read connection side packet) := by
  cases packet with
  | none => exact sound.access alive
  | some packet => exact (sound.access alive).handle alive side packet

/-- A loop goes on with a connection that is there. -/
theorem Sound.finish (sound : Sound s) {loop : Loop} {loops : List Loop} (active : s.loops = loop :: loops) :
    Sound ({ s with loops }.finish loop) ∧ (Node.finish { s with loops } loop).alive loop.connection := by
  have alive : s.alive loop.connection := by
    refine sound.held _ (.inr (.inr (.inl ⟨loop, ?_, rfl⟩)))
    rw [active]
    exact List.mem_cons_self
  have left : Sound { s with loops } := by
    refine sound.refer rfl rfl (fun _ => id) fun connection refers => ?_
    refine refers.compare .inl .inl ?_ .inl
    rintro ⟨other, later, rfl⟩
    refine .inl ⟨other, ?_, rfl⟩
    rw [active]
    exact List.mem_cons_of_mem _ later
  rw [Node.finish]
  split
  · exact ⟨left.access alive, alive⟩
  · exact ⟨(left.access alive).access alive, alive⟩
  · refine ⟨Sound.access (s := { s with loops, watchers := _ }) ?_ alive, alive⟩
    refine left.refer rfl rfl (fun _ => id) fun connection refers => ?_
    refine refers.compare .inl .inl .inl fun waits => ?_
    rcases List.mem_cons.mp waits with rfl | waits
    · exact .inr alive
    · exact .inl waits

theorem getElem?_setDevice (change : ExternalIoDevice → ExternalIoDevice) (other : Nat) :
    (s.setDevice connection change).devices[other]? =
      if connection = other then (s.devices[other]?).map change else s.devices[other]? := by
  rw [Node.setDevice, List.getElem?_modify]
  split <;> simp

/-- A device changes, and what it was is still there for all that the node refers to. -/
theorem Sound.setDevice (sound : Sound s) {change : ExternalIoDevice → ExternalIoDevice}
    (same : ∀ device, (change device).m_device = device.m_device ∧ (change device).deleted = device.deleted ∨
      ¬ s.Refers connection)
    (kept : ∀ device, (change device).deleteLater = device.deleteLater ∨ connection ∉ s.m_connections) :
    Sound (s.setDevice connection change) where
  untouched := sound.untouched
  held other refers := by
    have before := sound.held other refers
    rw [Node.alive, getElem?_setDevice]
    split
    · rename_i here
      obtain ⟨device, found, alive⟩ := (Option.any_eq_true _ _).mp before
      obtain ⟨m_device, deleted⟩ := (same device).resolve_right (not_not_intro (here ▸ refers))
      rw [found, Option.map_some, Option.any_some, m_device, deleted]
      exact alive
    · exact before
  kept other listed device found := by
    rw [getElem?_setDevice] at found
    split at found
    · rename_i here
      obtain ⟨old, before, rfl⟩ := Option.map_eq_some_iff.mp found
      rw [(kept old).resolve_right (not_not_intro (here ▸ listed))]
      exact sound.kept other listed old before
    · exact sound.kept other listed device found

theorem Sound.attach (sound : Sound s) (side : Side) (hasDisconnected : Bool) :
    Sound (s.attach side hasDisconnected) ∧ (s.attach side hasDisconnected).alive s.devices.length := by
  have old : ∀ other, s.alive other → (s.attach side hasDisconnected).devices[other]? = s.devices[other]? := by
    intro other alive
    exact List.getElem?_append_left (alive_lt alive)
  refine ⟨⟨sound.untouched, ?_, ?_⟩, ?_⟩
  · intro other refers
    have alive := sound.held other refers
    rw [Node.alive, old other alive]
    exact alive
  · intro other listed device found
    rw [old other (sound.held other (.inl listed))] at found
    exact sound.kept other listed device found
  · rw [Node.alive, Node.attach, List.getElem?_concat_length]
    rfl

/-- A new connection of the host. -/
theorem Sound.connect (sound : Sound s) (hasDisconnected : Bool) :
    Sound { s.attach .host hasDisconnected with m_connections := s.devices.length :: s.m_connections } ∧
      (s.attach .host hasDisconnected).alive s.devices.length := by
  obtain ⟨attached, alive⟩ := sound.attach .host hasDisconnected
  refine ⟨⟨attached.untouched, ?_, ?_⟩, alive⟩
  · intro other refers
    rcases refers with listed | others
    · rcases List.mem_cons.mp listed with rfl | before
      · exact alive
      · exact attached.held other (.inl before)
    · exact attached.held other (.inr others)
  · intro other listed device found
    rcases List.mem_cons.mp listed with rfl | before
    · rw [Node.attach, List.getElem?_concat_length] at found
      obtain rfl := Option.some.inj found
      rfl
    · exact attached.kept other before device found

theorem Sound.deleteWrapper (sound : Sound s) {device : ExternalIoDevice}
    (found : s.devices[connection]? = some device) (deleteLater : device.deleteLater)
    (waits : OwnerWaits s (.deleteWrapper connection)) :
    Sound { s.setDevice connection ({ · with deleted := true }) with
      watchers := s.watchers.filter (· ≠ connection) } := by
  refine (sound.unwatch fun _ member => (List.mem_filter.mp member).1).setDevice (fun _ => .inr ?_) fun _ => .inl rfl
  rintro (listed | ⟨root, member, listens⟩ | ⟨loop, active, same⟩ | waiting)
  · have kept := sound.kept connection listed device found
    rw [deleteLater] at kept
    contradiction
  · exact waits.1 root member listens
  · exact waits.2 loop active same
  · exact of_decide_eq_true (List.mem_filter.mp waiting).2 rfl

theorem Sound.onServerDisconnect (sound : Sound s) (connection : Nat) : Sound (s.onServerDisconnect connection) := by
  have forgotten : Sound { s with
      m_connections := s.m_connections.filter (· ≠ connection)
      m_sourceRoots := s.m_sourceRoots.map fun root =>
        { root with m_listeners := root.m_listeners.filter (· ≠ connection) } } := by
    refine sound.refer rfl rfl (fun other member => (List.mem_filter.mp member).1) fun other refers => ?_
    refine refers.compare (fun listed => .inl (List.mem_filter.mp listed).1) ?_ .inl .inl
    rintro ⟨root, member, listens⟩
    obtain ⟨old, before, rfl⟩ := List.mem_map.mp member
    exact .inl ⟨old, before, (List.mem_filter.mp listens).1⟩
  refine forgotten.setDevice (fun _ => .inl ⟨rfl, rfl⟩) fun _ => .inr fun listed => ?_
  exact of_decide_eq_true (List.mem_filter.mp listed).2 rfl

theorem Sound.step (sound : Sound s) {e : Event} (waits : OwnerWaits s e) (stepped : s.step e = some t) : Sound t := by
  cases e with
  | addHostSideConnection hasDisconnected =>
    simp only [Node.step] at stepped
    split at stepped <;> cases stepped
    obtain ⟨listed, alive⟩ := sound.connect hasDisconnected
    exact (listed.access alive).access alive
  | addClientSideConnection hasDisconnected arrived =>
    simp only [Node.step] at stepped
    split at stepped
    · obtain ⟨attached, alive⟩ := sound.attach .client hasDisconnected
      split at stepped <;> cases stepped
      · exact (attached.access alive).read alive _ _
      · exact attached.access alive
    · contradiction
  | close connection =>
    simp only [Node.step] at stepped
    split at stepped <;> cases stepped
    exact sound.setDevice (fun _ => .inl ⟨rfl, rfl⟩) fun _ => .inl rfl
  | disconnected connection =>
    simp only [Node.step] at stepped
    split at stepped
    · split at stepped
      · split at stepped <;> cases stepped
        · exact sound.onServerDisconnect connection
        · exact sound
      · contradiction
    · contradiction
  | destroy connection =>
    simp only [Node.step] at stepped
    split at stepped <;> cases stepped
    exact sound.setDevice (fun _ => .inr waits) fun _ => .inl rfl
  | deleteWrapper connection =>
    simp only [Node.step] at stepped
    split at stepped
    · rename_i device found
      split at stepped <;> cases stepped
      rename_i ready
      exact sound.deleteWrapper found ready.2 waits
    · contradiction
  | enableRemoting name =>
    simp only [Node.step] at stepped
    split at stepped <;> cases stepped
    refine Sound.send (sound.relist ?_) fun connection listed => sound.held connection (.inl listed)
    intro root member connection listens
    rcases List.mem_cons.mp member with rfl | before
    · contradiction
    · exact .inr ⟨root, before, listens⟩
  | disableRemoting name =>
    simp only [Node.step] at stepped
    split at stepped <;> cases stepped
    rw [List.partition_eq_filter_filter]
    refine Sound.send (sound.relist ?_) (sound.listeners fun _ member => (List.mem_filter.mp member).1)
    intro root member connection listens
    exact .inr ⟨root, (List.mem_filter.mp member).1, listens⟩
  | emit name =>
    simp only [Node.step] at stepped
    split at stepped <;> cases stepped
    exact sound.send (sound.listeners fun _ member => (List.mem_filter.mp member).1)
  | readyRead connection packet =>
    simp only [Node.step] at stepped
    split at stepped
    · split at stepped <;> cases stepped
      rename_i ready
      exact sound.read ready.2 _ _
    · contradiction
  | resume arrived =>
    simp only [Node.step] at stepped
    split at stepped
    · contradiction
    · rename_i loop loops active
      obtain ⟨finished, alive⟩ := sound.finish active
      split at stepped <;> cases stepped
      · exact finished.read alive _ _
      · exact finished
  | finished connection noError =>
    simp only [Node.step] at stepped
    split at stepped <;> cases stepped
    rename_i ready
    have left : Sound { s with watchers := s.watchers.erase connection } := sound.unwatch List.erase_subset
    split
    · exact left.access (sound.held connection (.inr (.inr (.inr ready.2))))
    · exact left
  | sendCommand connection =>
    simp only [Node.step] at stepped
    split at stepped
    · split at stepped
      · split at stepped <;> cases stepped
        · rename_i ready
          exact sound.access ready.1
        · exact sound
      · contradiction
    · contradiction

end Sound

section Main

/-- In every run in which owners wait, no vanished device is touched. -/
theorem neverTouched_of_ownerWaits (es : List Event) {s : Node} (waits : Admitted Node.step OwnerWaits .initial es)
    (run : exec Node.step .initial es = some s) : NeverTouched s :=
  (exec_invariant (P := Sound) (fun sound waits stepped => sound.step waits stepped) run waits .initial).untouched

/-- A device reports its end before it is destroyed, and the source emits once more. -/
def reported : List Event :=
  [.enableRemoting "A".toList, .addHostSideConnection true, .readyRead 0 (some (.addObject "A".toList)),
    .resume none, .emit "A".toList, .close 0, .disconnected 0, .destroy 0, .deleteWrapper 0, .emit "A".toList]

theorem reported_untouched : ∃ s, exec Node.step .initial reported = some s ∧ NeverTouched s :=
  have waits : Admitted Node.step OwnerWaits .initial reported := by decide
  ⟨_, rfl, neverTouched_of_ownerWaits reported waits rfl⟩

/-- A device without a `disconnected()` signal is closed and destroyed, and stays listed. -/
theorem unreported_touched : ∃ s, exec Node.step .initial [.enableRemoting "A".toList, .addHostSideConnection false,
      .readyRead 0 (some (.addObject "A".toList)), .resume none, .close 0, .destroy 0, .emit "A".toList] = some s ∧
    ¬ NeverTouched s :=
  ⟨_, rfl, fun untouched => absurd (untouched (0, false) (by decide)) Bool.false_ne_true⟩

end Main
end RemoteObjects.Device.External
