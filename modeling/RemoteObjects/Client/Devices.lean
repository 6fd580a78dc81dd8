import RemoteObjects.Host.Sources
import RemoteObjects.Transition

/-! The devices of a client node, from their creation to their destruction, and the two
tables of the node that point to them. -/
namespace RemoteObjects.Client.Devices
open Host (Name)
open Transition

def protocolVersion : Name := "QtRO 2.0".toList

inductive Socket
  | unconnected | connecting | connected | closing
deriving DecidableEq

/-- The packets that matter here, as they are read from one device. -/
inductive Packet
  | handshake (version : Name)
  | objectList (names : List Name)
  | removeObject (name : Name)
  | other
deriving DecidableEq

section Model
variable (Conn Url : Type)

/-- A `QtROClientIoDevice` for its URL, or a `QtROExternalIoDevice`. `deletesLater` and
`disconnectDeletes` tell whether `deleteLater` was called, or is connected to the end of the
socket. -/
structure Device where
  url : Option Url
  socket : Socket
  m_isClosing : Bool
  hasCodec : Bool
  m_remoteObjects : List Name
  disconnectDeletes : Bool
  deletesLater : Bool
  destroyed : Bool

structure NodePrivate where
  devices : Conn → Option (Device Url)
  requestedUrls : List Url
  pendingReconnect : List Conn
  reconnectTimer : Bool
  connectedSources : Name → Option Conn

/-- `failed` is the end of a socket, `reported` where it is one that emits `shouldReconnect`;
`heartbeat` is a heartbeat that was not answered; `destroyed` carries out a `deleteLater`. -/
inductive Event
  | initConnection (address : Url) (created : Option Conn)
  | addClientSideConnection (connection : Conn)
  | connected (connection : Conn)
  | failed (connection : Conn) (reported : Bool)
  | heartbeat (connection : Conn)
  | aboutToClose (connection : Conn)
  | readyRead (connection : Conn) (packets : List Packet)
  | timerEvent
  | destroyed (connection : Conn)

end Model

variable {Conn Url : Type}

namespace Device
variable (device : Device Url)

def new (url : Option Url) (socket : Socket) : Device Url where
  url := url
  socket := socket
  m_isClosing := false
  hasCodec := false
  m_remoteObjects := []
  disconnectDeletes := false
  deletesLater := false
  destroyed := false

def isOpen : Bool := !device.m_isClosing && decide (device.socket = .connected ∨ device.socket = .connecting)

/-- For an external device `doClose` does nothing: it is not open any more. -/
def close : Device Url :=
  let device := { device with m_isClosing := true }
  if device.url.isNone then device
  else if device.socket = .unconnected then { device with deletesLater := true }
  else { device with socket := .closing, disconnectDeletes := true }

/-- The socket does not ask whether the device is closing. -/
def connectToServer : Device Url :=
  if device.isOpen ∨ device.socket = .connected ∨ device.socket = .connecting then device
  else { device with socket := .connecting }

/-- The socket ends. The signal `disconnected` is not one of connection attempts. -/
def disconnected : Device Url :=
  let ended := decide (device.socket = .connected ∨ device.socket = .closing)
  { device with socket := .unconnected, deletesLater := device.deletesLater || (ended && device.disconnectDeletes) }

end Device

/-- New names become sources of the connection. -/
def objectList (connection : Conn) : List Name → (Name → Option Conn) → Device Url → (Name → Option Conn) × Device Url
  | [], sources, device => (sources, device)
  | name :: names, sources, device =>
    if (sources name).isSome then objectList connection names sources device
    else objectList connection names (Function.update sources name (some connection))
      { device with m_remoteObjects := name :: device.m_remoteObjects }

/-- The loop over the packets that have arrived. A protocol mismatch closes the device, and
the loop goes on; the codec is kept from the sessions before. -/
def onClientRead (connection : Conn) :
    List Packet → (Name → Option Conn) → Device Url → (Name → Option Conn) × Device Url
  | [], sources, device => (sources, device)
  | .handshake version :: packets, sources, device =>
    if version ≠ protocolVersion then onClientRead connection packets sources device.close
    else onClientRead connection packets sources { device with hasCodec := true }
  | packet :: packets, sources, device =>
    if device.hasCodec then
      match packet with
      | .objectList names =>
        let (sources, device) := objectList connection names sources device
        onClientRead connection packets sources device
      | .removeObject name =>
        onClientRead connection packets (Function.update sources name none)
          { device with m_remoteObjects := device.m_remoteObjects.filter fun other => other ≠ name }
      | _ => onClientRead connection packets sources device
    else (sources, device.close)

section Node
variable [DecidableEq Conn] [DecidableEq Url]

namespace NodePrivate
variable (s : NodePrivate Conn Url)

def initial : NodePrivate Conn Url where
  devices _ := none
  requestedUrls := []
  pendingReconnect := []
  reconnectTimer := false
  connectedSources _ := none

def setDevice (connection : Conn) (device : Device Url) : NodePrivate Conn Url :=
  { s with devices := Function.update s.devices connection (some device) }

def onShouldReconnect (connection : Conn) (device : Device Url) : NodePrivate Conn Url :=
  let s := { s.setDevice connection { device with m_remoteObjects := [] } with
    connectedSources := fun name => if name ∈ device.m_remoteObjects then none else s.connectedSources name }
  if ∃ url ∈ device.url, url ∈ s.requestedUrls then
    { s with pendingReconnect := s.pendingReconnect.insert connection, reconnectTimer := true }
  else s

def timerEvent : NodePrivate Conn Url :=
  let pendingReconnect := s.pendingReconnect.filter fun connection =>
    !(s.devices connection).any Device.isOpen
  { s with
    devices := fun connection =>
      if connection ∈ s.pendingReconnect then (s.devices connection).map Device.connectToServer else s.devices connection
    pendingReconnect
    reconnectTimer := !pendingReconnect.isEmpty }

end NodePrivate

/-- The device of a pointer that may be used. -/
def NodePrivate.alive (s : NodePrivate Conn Url) (connection : Conn) : Option (Device Url) :=
  (s.devices connection).filter fun device => !device.destroyed

/-- One step of the client node, or nothing where it cannot happen or would crash. -/
def step (s : NodePrivate Conn Url) : Event Conn Url → Option (NodePrivate Conn Url)
  | .initConnection address created =>
    if address ∈ s.requestedUrls then some s
    else
      let s := { s with requestedUrls := address :: s.requestedUrls }
      match created with
      | some connection =>
        if (s.devices connection).isSome then none else some (s.setDevice connection (.new (some address) .connecting))
      | none => some s
  | .addClientSideConnection connection =>
    if (s.devices connection).isSome then none else some (s.setDevice connection (.new none .connected))
  | .connected connection => do
    let device ← s.alive connection
    if device.socket = .connecting then some (s.setDevice connection { device with socket := .connected }) else none
  | .failed connection reported => do
    let device ← s.alive connection
    let ended := device.disconnected
    if device.socket = .unconnected then none
    else some (if reported && device.url.isSome then s.onShouldReconnect connection ended else s.setDevice connection ended)
  | .heartbeat connection => do
    let device ← s.alive connection
    some (if device.url.isSome then s.onShouldReconnect connection device.disconnected
      else s.setDevice connection device.close)
  | .aboutToClose connection => do
    let device ← s.alive connection
    if device.url.isNone then some (s.setDevice connection { device with m_isClosing := true, socket := .unconnected }) else none
  | .readyRead connection packets => do
    let device ← s.alive connection
    if device.socket = .connected ∨ device.socket = .closing then
      let (connectedSources, device) := onClientRead connection packets s.connectedSources device
      some { s.setDevice connection device with connectedSources }
    else none
  | .timerEvent =>
    if s.reconnectTimer ∧ ∀ connection ∈ s.pendingReconnect, (s.alive connection).isSome then some s.timerEvent else none
  | .destroyed connection => do
    let device ← s.alive connection
    if device.deletesLater then some (s.setDevice connection { device with destroyed := true }) else none

end Node

/-- All devices that the tables point to exist. -/
def NodePrivate.Live (s : NodePrivate Conn Url) : Prop :=
  ∀ connection, connection ∈ s.pendingReconnect ∨ (∃ name, s.connectedSources name = some connection) →
    (s.alive connection).isSome = true

section Conditions
variable (pending : List Conn) (connection : Conn)

/-- The tables do not point to the device, unless it is an external one. -/
def Untied (sources : Name → Option Conn) (device : Device Url) : Prop :=
  device.url = none ∨ connection ∉ pending ∧ ∀ name, sources name ≠ some connection

/-- The packets close the device only while no table points to it, and a closed one brings no
new sources. -/
def readsFit : List Packet → (Name → Option Conn) → Device Url → Prop
  | [], _, _ => True
  | .handshake version :: packets, sources, device =>
    if version ≠ protocolVersion then Untied pending connection sources device ∧ readsFit packets sources device.close
    else readsFit packets sources { device with hasCodec := true }
  | packet :: packets, sources, device =>
    if device.hasCodec then
      match packet with
      | .objectList names =>
        (device.m_isClosing = true → device.url ≠ none → ∀ name ∈ names, sources name ≠ none) ∧
          readsFit packets (objectList connection names sources device).1 (objectList connection names sources device).2
      | .removeObject name =>
        readsFit packets (Function.update sources name none)
          { device with m_remoteObjects := device.m_remoteObjects.filter fun other => other ≠ name }
      | _ => readsFit packets sources device
    else Untied pending connection sources device

/-- A device that is closed, or on its way to be deleted, is in no table. -/
structure Fits (sources : Name → Option Conn) (device : Device Url) : Prop where
  closing : device.m_isClosing = true → Untied pending connection sources device
  deleted : device.disconnectDeletes = true ∨ device.deletesLater = true ∨ device.destroyed = true →
    device.m_isClosing = true ∧ device.url ≠ none

end Conditions

/-- A device is closed while the tables do not point to it, and reports nothing from then on. -/
def closesUntied (s : NodePrivate Conn Url) : Event Conn Url → Prop
  | .readyRead connection packets =>
    ∀ device, s.alive connection = some device → readsFit s.pendingReconnect connection packets s.connectedSources device
  | .failed connection reported =>
    reported = true → ∀ device, s.alive connection = some device → device.url ≠ none → device.m_isClosing = false
  | .heartbeat connection =>
    ∀ device, s.alive connection = some device → device.url ≠ none → device.m_isClosing = false
  | _ => True

structure Tied (s : NodePrivate Conn Url) : Prop where
  devices : ∀ connection device, s.devices connection = some device →
    Fits s.pendingReconnect connection s.connectedSources device
  known : ∀ connection, connection ∈ s.pendingReconnect ∨ (∃ name, s.connectedSources name = some connection) →
    s.devices connection ≠ none

variable {s t : NodePrivate Conn Url} {e : Event Conn Url} {connection : Conn} {pending : List Conn}
  {sources : Name → Option Conn} {device : Device Url}

theorem Tied.live (tied : Tied s) : s.Live := by
  intro connection pointed
  obtain ⟨device, present⟩ := Option.ne_none_iff_exists'.mp (tied.known connection pointed)
  have fits := tied.devices connection device present
  rw [NodePrivate.alive, present]
  cases destroyed : device.destroyed with
  | false => simp [Option.filter, destroyed]
  | true =>
    obtain ⟨closing, internal⟩ := fits.deleted (.inr (.inr destroyed))
    obtain external | ⟨notPending, notSource⟩ := fits.closing closing
    · exact absurd external internal
    · obtain pending | ⟨name, source⟩ := pointed
      · exact absurd pending notPending
      · exact absurd source (notSource name)

/-- Only what concerns one device has changed. -/
theorem Tied.change (tied : Tied s) (own : t.devices connection = some device)
    (fits : Fits t.pendingReconnect connection t.connectedSources device)
    (devices : ∀ c, c ≠ connection → t.devices c = s.devices c)
    (pending : ∀ c, c ≠ connection → c ∈ t.pendingReconnect → c ∈ s.pendingReconnect)
    (sources : ∀ name c, c ≠ connection → t.connectedSources name = some c → s.connectedSources name = some c) :
    Tied t := by
  constructor
  · intro c other present
    by_cases here : c = connection
    · subst here
      obtain rfl := Option.some.inj (own.symm.trans present)
      exact fits
    · obtain ⟨closing, deleted⟩ := tied.devices c other ((devices c here).symm.trans present)
      refine ⟨fun closed => ?_, deleted⟩
      obtain external | ⟨notPending, notSource⟩ := closing closed
      · exact .inl external
      · exact .inr ⟨fun member => notPending (pending c here member), fun name source => notSource name (sources name c here source)⟩
  · intro c pointed
    by_cases here : c = connection
    · subst here
      rw [own]
      exact Option.some_ne_none device
    · rw [devices c here]
      refine tied.known c ?_
      obtain member | ⟨name, source⟩ := pointed
      · exact .inl (pending c here member)
      · exact .inr ⟨name, sources name c here source⟩

theorem objectList_spec (names : List Name) :
    (∀ name c, (objectList connection names sources device).1 name = some c → sources name = some c ∨ c = connection) ∧
    (∃ remoteObjects, (objectList connection names sources device).2 = { device with m_remoteObjects := remoteObjects }) ∧
    ((∀ name ∈ names, sources name ≠ none) → (objectList connection names sources device).1 = sources) := by
  induction names generalizing sources device with
  | nil => exact ⟨fun _ _ source => .inl source, ⟨device.m_remoteObjects, rfl⟩, fun _ => rfl⟩
  | cons name names ih =>
    rw [objectList]
    split
    · obtain ⟨kept, same, known⟩ := @ih sources device
      exact ⟨kept, same, fun all => known fun other member => all other (List.mem_cons_of_mem name member)⟩
    · rename_i new
      obtain ⟨kept, ⟨remoteObjects, same⟩, _⟩ := @ih (Function.update sources name (some connection))
        { device with m_remoteObjects := name :: device.m_remoteObjects }
      refine ⟨fun other c source => ?_, ⟨remoteObjects, same⟩, fun all => ?_⟩
      · obtain before | own := kept other c source
        · by_cases here : other = name
          · subst here
            rw [Function.update_self] at before
            exact .inr (Option.some.inj before).symm
          · rw [Function.update_of_ne here] at before
            exact .inl before
        · exact .inr own
      · exact absurd (Option.not_isSome_iff_eq_none.mp new) (all name List.mem_cons_self)

theorem Fits.new (url : Option Url) (socket : Socket) : Fits pending connection sources (.new url socket) :=
  ⟨fun closed => by contradiction, fun deleted => by simp [Device.new] at deleted⟩

theorem Fits.close (fits : Fits pending connection sources device) (untied : Untied pending connection sources device) :
    Fits pending connection sources device.close := by
  simp only [Device.close]
  split
  · exact ⟨fun _ => untied, fun deleted => ⟨rfl, (fits.deleted deleted).2⟩⟩
  · rename_i internal
    have here : device.url ≠ none := fun external => internal (Option.isNone_iff_eq_none.mpr external)
    split
    · exact ⟨fun _ => untied, fun _ => ⟨rfl, here⟩⟩
    · exact ⟨fun _ => untied, fun _ => ⟨rfl, here⟩⟩

/-- Fewer pointers, and another list of sources in the device, change nothing. -/
theorem Fits.fewer (fits : Fits pending connection sources device) {sources' : Name → Option Conn}
    (fewer : ∀ name, sources' name = some connection → sources name = some connection) {device' : Device Url}
    (url : device'.url = device.url) (closing : device'.m_isClosing = device.m_isClosing)
    (flags : device'.disconnectDeletes = true ∨ device'.deletesLater = true ∨ device'.destroyed = true →
      device.disconnectDeletes = true ∨ device.deletesLater = true ∨ device.destroyed = true) :
    Fits pending connection sources' device' := by
  refine ⟨fun closed => ?_, fun deleted => ?_⟩
  · obtain external | ⟨notPending, notSource⟩ := fits.closing (closing ▸ closed)
    · exact .inl (url.trans external)
    · exact .inr ⟨notPending, fun name source => notSource name (fewer name source)⟩
  · rw [url, closing]
    exact fits.deleted (flags deleted)

theorem Fits.objectList (fits : Fits pending connection sources device) {names : List Name}
    (known : device.m_isClosing = true → device.url ≠ none → ∀ name ∈ names, sources name ≠ none) :
    Fits pending connection (objectList connection names sources device).1 (objectList connection names sources device).2 := by
  obtain ⟨_, ⟨remoteObjects, same⟩, unchanged⟩ := @objectList_spec _ _ connection sources device names
  rw [same]
  refine ⟨fun closed => ?_, fits.deleted⟩
  by_cases external : device.url = none
  · exact .inl external
  · rw [unchanged (known closed external)]
    exact fits.closing closed

theorem source_of_removed {name other : Name} (source : Function.update sources name none other = some connection) :
    sources other = some connection := by
  by_cases here : other = name
  · subst here
    rw [Function.update_self] at source
    contradiction
  · rwa [Function.update_of_ne here] at source

/-- The loop over the packets of one device. -/
theorem onClientRead_spec {packets : List Packet} (fits : Fits pending connection sources device)
    (reads : readsFit pending connection packets sources device) :
    Fits pending connection (onClientRead connection packets sources device).1 (onClientRead connection packets sources device).2 ∧
      ∀ name c, c ≠ connection → (onClientRead connection packets sources device).1 name = some c → sources name = some c := by
  induction packets generalizing sources device with
  | nil => exact ⟨fits, fun _ _ _ source => source⟩
  | cons packet packets ih =>
    cases packet with
    | handshake version =>
      rw [readsFit] at reads
      rw [onClientRead]
      split at reads
      · rename_i mismatch
        rw [if_pos mismatch]
        exact ih (fits.close reads.1) reads.2
      · rename_i same
        rw [if_neg same]
        exact ih (fits.fewer (fun _ source => source) rfl rfl id) reads
    | objectList names =>
      rw [readsFit] at reads
      rw [onClientRead]
      split at reads
      · rename_i codec
        rw [if_pos codec]
        have kept := (@objectList_spec _ _ connection sources device names).1
        obtain ⟨behind, others⟩ := ih (fits.objectList reads.1) reads.2
        exact ⟨behind, fun name c apart source => (kept name c (others name c apart source)).resolve_right apart⟩
      · rename_i missing
        rw [if_neg missing]
        exact ⟨fits.close reads, fun _ _ _ source => source⟩
    | removeObject name =>
      rw [readsFit] at reads
      rw [onClientRead]
      split at reads
      · rename_i codec
        rw [if_pos codec]
        have removed : Fits pending connection (Function.update sources name none)
            { device with m_remoteObjects := device.m_remoteObjects.filter fun other => other ≠ name } :=
          fits.fewer (fun _ => source_of_removed) rfl rfl id
        obtain ⟨behind, others⟩ := ih removed reads
        exact ⟨behind, fun other c apart source => source_of_removed (others other c apart source)⟩
      · rename_i missing
        rw [if_neg missing]
        exact ⟨fits.close reads, fun _ _ _ source => source⟩
    | other =>
      simp only [readsFit] at reads
      simp only [onClientRead]
      split at reads
      · rename_i codec
        rw [if_pos codec]
        exact ih fits reads
      · rename_i missing
        rw [if_neg missing]
        exact ⟨fits.close reads, fun _ _ _ source => source⟩

theorem alive_some : s.alive connection = some device ↔ s.devices connection = some device ∧ device.destroyed = false := by
  simp [NodePrivate.alive, Option.filter_eq_some_iff]

theorem Fits.disconnected (fits : Fits pending connection sources device) :
    Fits pending connection sources device.disconnected := by
  refine fits.fewer (fun _ source => source) rfl rfl fun deleted => ?_
  obtain disconnects | later | destroyed := deleted
  · exact .inl disconnects
  · simp only [Device.disconnected, Bool.or_eq_true, Bool.and_eq_true] at later
    obtain later | ⟨_, disconnects⟩ := later
    · exact .inr (.inl later)
    · exact .inl disconnects
  · exact .inr (.inr destroyed)

section Steps
variable [DecidableEq Conn]

/-- Only one device has changed, and the tables have not. -/
theorem Tied.setDevice (tied : Tied s) (fits : Fits s.pendingReconnect connection s.connectedSources device) :
    Tied (s.setDevice connection device) := by
  refine tied.change ?_ fits (fun c apart => ?_) (fun _ _ member => member) fun _ _ _ source => source
  · simp only [NodePrivate.setDevice, Function.update_self]
  · simp only [NodePrivate.setDevice, Function.update_of_ne apart]

theorem Tied.timerEvent (tied : Tied s) : Tied s.timerEvent := by
  constructor
  · intro c device present
    obtain ⟨before, here, url, closing, flags⟩ : ∃ before, s.devices c = some before ∧ device.url = before.url ∧
        device.m_isClosing = before.m_isClosing ∧ (device.disconnectDeletes = before.disconnectDeletes ∧
          device.deletesLater = before.deletesLater ∧ device.destroyed = before.destroyed) := by
      simp only [NodePrivate.timerEvent] at present
      split at present
      · obtain ⟨before, here, rfl⟩ := Option.map_eq_some_iff.mp present
        refine ⟨before, here, ?_⟩
        rw [Device.connectToServer]
        split <;> exact ⟨rfl, rfl, rfl, rfl, rfl⟩
      · exact ⟨device, present, rfl, rfl, rfl, rfl, rfl⟩
    obtain ⟨closed, deleted⟩ := (tied.devices c before here).fewer (fun _ source => source) url closing (by rw [flags.1, flags.2.1, flags.2.2]; exact id)
    refine ⟨fun isClosing => ?_, deleted⟩
    obtain external | ⟨notPending, notSource⟩ := closed isClosing
    · exact .inl external
    · exact .inr ⟨fun member => notPending (List.mem_of_mem_filter member), notSource⟩
  · intro c pointed
    have before : c ∈ s.pendingReconnect ∨ ∃ name, s.connectedSources name = some c :=
      pointed.imp_left fun member => List.mem_of_mem_filter member
    obtain ⟨device, here⟩ := Option.ne_none_iff_exists'.mp (tied.known c before)
    simp only [NodePrivate.timerEvent, here]
    split <;> exact Option.some_ne_none _

variable [DecidableEq Url]

/-- A device that is not closed may ask for a reconnection. -/
theorem Tied.onShouldReconnect (tied : Tied s) (fits : Fits s.pendingReconnect connection s.connectedSources device)
    (opened : device.m_isClosing = false) : Tied (s.onShouldReconnect connection device) := by
  have stays : Fits (s.onShouldReconnect connection device).pendingReconnect connection
      (s.onShouldReconnect connection device).connectedSources { device with m_remoteObjects := [] } := by
    refine ⟨fun closed => ?_, fits.deleted⟩
    rw [opened] at closed
    contradiction
  refine tied.change ?_ stays (fun c apart => ?_) (fun c apart member => ?_) fun name c apart source => ?_
  · simp only [NodePrivate.onShouldReconnect]
    split <;> exact Function.update_self connection _ s.devices
  · simp only [NodePrivate.onShouldReconnect]
    split <;> exact Function.update_of_ne apart _ s.devices
  · unfold NodePrivate.onShouldReconnect at member
    dsimp only at member
    split at member
    · exact (List.mem_insert_iff.mp member).resolve_left apart
    · exact member
  · unfold NodePrivate.onShouldReconnect at source
    dsimp only at source
    split at source
    all_goals
      dsimp only at source
      split at source
      · contradiction
      · exact source

theorem tied_step (tied : Tied s) (untied : closesUntied s e) (stepped : step s e = some t) : Tied t := by
  cases e with
  | initConnection address created =>
    simp only [step] at stepped
    split at stepped
    · obtain rfl := Option.some.inj stepped
      exact tied
    · split at stepped
      · split at stepped
        · contradiction
        · obtain rfl := Option.some.inj stepped
          exact Tied.setDevice ⟨tied.devices, tied.known⟩ (.new _ _)
      · obtain rfl := Option.some.inj stepped
        exact ⟨tied.devices, tied.known⟩
  | addClientSideConnection connection =>
    simp only [step, Option.ite_none_left_eq_some, Option.some.injEq] at stepped
    obtain ⟨_, rfl⟩ := stepped
    exact tied.setDevice (.new _ _)
  | connected connection =>
    simp only [step, Option.bind_eq_bind, Option.bind_eq_some_iff, Option.ite_none_right_eq_some, Option.some.injEq] at stepped
    obtain ⟨device, alive, _, rfl⟩ := stepped
    have fits := tied.devices connection device (alive_some.mp alive).1
    exact tied.setDevice ⟨fits.closing, fits.deleted⟩
  | failed connection reported =>
    simp only [step, Option.bind_eq_bind, Option.bind_eq_some_iff, Option.ite_none_left_eq_some, Option.some.injEq] at stepped
    obtain ⟨device, alive, _, rfl⟩ := stepped
    have fits := tied.devices connection device (alive_some.mp alive).1
    split
    · rename_i reports
      obtain ⟨reported, internal⟩ := (Bool.and_eq_true _ _).mp reports
      exact tied.onShouldReconnect fits.disconnected (untied reported device alive (Option.isSome_iff_ne_none.mp internal))
    · exact tied.setDevice fits.disconnected
  | heartbeat connection =>
    simp only [step, Option.bind_eq_bind, Option.bind_eq_some_iff, Option.some.injEq] at stepped
    obtain ⟨device, alive, rfl⟩ := stepped
    have fits := tied.devices connection device (alive_some.mp alive).1
    split
    · rename_i internal
      exact tied.onShouldReconnect fits.disconnected (untied device alive (Option.isSome_iff_ne_none.mp internal))
    · rename_i external
      exact tied.setDevice (fits.close (.inl (Option.not_isSome_iff_eq_none.mp external)))
  | aboutToClose connection =>
    simp only [step, Option.bind_eq_bind, Option.bind_eq_some_iff, Option.ite_none_right_eq_some, Option.some.injEq] at stepped
    obtain ⟨device, alive, external, rfl⟩ := stepped
    have fits := tied.devices connection device (alive_some.mp alive).1
    have url := Option.isNone_iff_eq_none.mp external
    exact tied.setDevice ⟨fun _ => .inl url, fun deleted => absurd url (fits.deleted deleted).2⟩
  | readyRead connection packets =>
    simp only [step, Option.bind_eq_bind, Option.bind_eq_some_iff, Option.ite_none_right_eq_some, Option.some.injEq] at stepped
    obtain ⟨device, alive, _, rfl⟩ := stepped
    obtain ⟨fits, others⟩ := onClientRead_spec (tied.devices connection device (alive_some.mp alive).1) (untied device alive)
    exact tied.change (Function.update_self connection _ s.devices) fits
      (fun _ apart => Function.update_of_ne apart _ s.devices) (fun _ _ member => member) others
  | timerEvent =>
    simp only [step, Option.ite_none_right_eq_some, Option.some.injEq] at stepped
    obtain ⟨_, rfl⟩ := stepped
    exact tied.timerEvent
  | destroyed connection =>
    simp only [step, Option.bind_eq_bind, Option.bind_eq_some_iff, Option.ite_none_right_eq_some, Option.some.injEq] at stepped
    obtain ⟨device, alive, later, rfl⟩ := stepped
    have fits := tied.devices connection device (alive_some.mp alive).1
    exact tied.setDevice (fits.fewer (fun _ source => source) rfl rfl fun _ => .inr (.inl later))

/-- The tables point to live devices in every state of a run in which devices are closed
while no table points to them. -/
theorem live_of_closesUntied {es : List (Event Conn Url)} (untied : Admitted step closesUntied .initial es) :
    Admitted step (fun s e => ∀ t, step s e = some t → t.Live) .initial es := by
  refine admitted_of_invariant (P := Tied) tied_step ?_ untied ?_
  · intro s e tied untied t stepped
    exact (tied_step tied untied stepped).live
  · refine ⟨fun _ _ present => by contradiction, fun c pointed => ?_⟩
    obtain member | ⟨name, source⟩ := pointed
    · exact absurd member List.not_mem_nil
    · contradiction

end Steps

/-- A loss, a reconnection, a tick of the timer after it, and only then a protocol mismatch. -/
theorem live_mismatch_after_tick :
    Admitted step (fun s e => ∀ t, step s e = some t → t.Live) (.initial : NodePrivate Unit Unit)
      [.initConnection () (some ()), .connected (), .readyRead () [.handshake protocolVersion, .objectList ["A".toList]],
        .failed () true, .timerEvent, .connected (), .timerEvent, .readyRead () [.handshake "QtRO 1.3".toList],
        .failed () false, .destroyed ()] := by
  refine live_of_closesUntied (.cons trivial rfl (.cons trivial rfl (.cons ?_ rfl (.cons ?_ rfl (.cons trivial rfl
    (.cons trivial rfl (.cons trivial rfl (.cons ?_ rfl (.cons ?_ rfl (.cons trivial rfl trivial))))))))))
  · intro device alive
    obtain rfl := Option.some.inj alive
    rw [readsFit, if_neg (not_not.mpr rfl), readsFit, if_pos rfl]
    exact ⟨fun closing => by contradiction, trivial⟩
  · intro _ device alive _
    obtain rfl := Option.some.inj alive
    rfl
  · intro device alive
    obtain rfl := Option.some.inj alive
    rw [readsFit, if_pos (by decide)]
    refine ⟨.inr ⟨by decide, fun name source => ?_⟩, trivial⟩
    change (if name ∈ ["A".toList] then none else Function.update (fun _ => none) "A".toList (some ()) name) = some () at source
    split at source
    · contradiction
    · rename_i other
      rw [Function.update_of_ne fun same => other (List.mem_singleton.mpr same)] at source
      contradiction
  · intro reported
    contradiction

/-- The device is closed while it waits for a reconnection, or brings sources after the
mismatch. -/
theorem device_dangling :
    (∃ t, exec step (.initial : NodePrivate Unit Unit)
        [.initConnection () (some ()), .connected (), .readyRead () [.handshake protocolVersion, .objectList ["A".toList]],
          .failed () true, .timerEvent, .connected (), .readyRead () [.handshake "QtRO 1.3".toList], .failed () false,
          .destroyed ()] = some t ∧ () ∈ t.pendingReconnect ∧ ¬ t.Live) ∧
    ∃ t, exec step (.initial : NodePrivate Unit Unit)
        [.initConnection () (some ()), .connected (), .readyRead () [.handshake protocolVersion, .objectList ["A".toList]],
          .failed () true, .timerEvent, .connected (), .timerEvent,
          .readyRead () [.handshake "QtRO 1.3".toList, .objectList ["A".toList]], .failed () false, .destroyed ()] = some t ∧
      t.connectedSources "A".toList = some () ∧ ¬ t.Live := by
  constructor
  · refine ⟨_, rfl, by decide, fun live => ?_⟩
    have alive := live () (.inl (by decide))
    contradiction
  · refine ⟨_, rfl, rfl, fun live => ?_⟩
    have alive := live () (.inr ⟨"A".toList, rfl⟩)
    contradiction

end RemoteObjects.Client.Devices
