import RemoteObjects.Client.Devices
import RemoteObjects.Packet.CodecProofs
import RemoteObjects.Packet.QtStream
import RemoteObjects.Replica.Implementation

/-! The packets that a replica sends over its connection. A packet is serialized into the codec of the connection before
it is known whether it can be sent. -/
namespace RemoteObjects.Replica.Sending
open Transition Packet Wire
open Client.Devices (Socket)

section Model

/-- The device behind `connectionToSource`. A `QtROExternalIoDevice` has no socket of its own; `opened` is that of
`connection()`, the `QIODevice`. -/
structure Connection where
  m_isClosing : Bool
  socket : Option Socket
  opened : Bool
deriving DecidableEq

namespace Connection
variable (c : Connection)

def isOpen : Bool :=
  !c.m_isClosing && match c.socket with
    | some state => decide (state = .connected ∨ state = .connecting)
    | none => c.opened

def write (data written : List UInt8) : List UInt8 := if c.opened && !c.m_isClosing then written ++ data else written

/-- The heartbeat has disconnected the device of a client, or closed the external one, which does not close its `QIODevice`. -/
def disconnected : Connection :=
  match c.socket with
  | some _ => { c with socket := some .unconnected, opened := false }
  | none => { c with m_isClosing := true }

end Connection

variable (S B V : Type) [Inhabited B]

/-- What the packets of a replica are made of. -/
structure Names where
  m_objectName : S
  m_methodOffset : Int
  m_propertyOffset : Int

/-- A replica with its connection. `written` is what was written to the connection; `commands` are the packets that
were serialized, each with what `sendCommand` returned. -/
structure State where
  impl : Implementation Unit
  connection : Connection
  m_codec : DataStreamPacket
  written : List UInt8
  commands : List (Content S B V × Bool)

inductive Call
  | invokeMetaMethod
  | writeProperty
deriving DecidableEq

/-- The handshake of the other side comes with each session. The connection may change its state between any calls. -/
inductive Event
  | send (call : Call) (index : Int) (args : List V)
  | sendWithReply (index : Int) (args : List V)
  | setConnection (needsDynamicInitialization : Bool)
  | timeout
  | notifyAboutReply (ackedSerialId : Int)
  | handshake
  | connection (changed : Connection)
  | clearConnection

variable {S B V} (d : DataStream S B V) (names : Names S)

def Call.code : Call → Int32
  | invokeMetaMethod => 0
  | writeProperty => 2

/-- The packet of `_q_send`; indices below the offsets are skipped. -/
def sendContent (call : Call) (index : Int) (args : List V) : Option (Content S B V) :=
  let offset := match call with
    | .invokeMetaMethod => names.m_methodOffset
    | .writeProperty => names.m_propertyOffset
  if index < offset then none
  else some (.invoke names.m_objectName call.code (Int32.ofInt (index - offset)) args (-1) (-1))

def replyContent (index : Int) (args : List V) (serialId : Int) : Content S B V :=
  .invoke names.m_objectName Call.invokeMetaMethod.code (Int32.ofInt (index - names.m_methodOffset)) args (Int32.ofInt serialId) (-1)

/-- The packet that an event serializes. -/
def content (impl : Implementation Unit) : Event V → Option (Content S B V)
  | .send call index args => if impl.connected then sendContent names call index args else none
  | .sendWithReply index args => if impl.connected then some (replyContent names index args impl.takeSerialId.1) else none
  | .setConnection needsDynamicInitialization => some (.addObject names.m_objectName needsDynamicInitialization)
  | .timeout =>
    if impl.timerActive && impl.connected && !decide (0 ∈ impl.pendingCalls) then some (.ping names.m_objectName) else none
  | _ => none

namespace State
variable (s : State S B V)

/-- The replica before its first packet, the handshake of the first session being read. -/
def initial (interval : Nat) (connection : Connection) : State S B V where
  impl := { Implementation.new connection.socket.isSome interval with isOpen := connection.isOpen }
  connection := connection
  m_codec := .new PacketType.invokePacket.toId
  written := []
  commands := []

/-- `serialize…Packet` and `sendCommand`, with `CodecBase::send`. -/
def sendCommand (c : Content S B V) : State S B V :=
  let m_codec := serialize d s.m_codec c
  if s.connection.isOpen then
    { s with
      m_codec := m_codec.reset
      written := s.connection.write m_codec.payload s.written
      commands := s.commands ++ [(c, true)] }
  else { s with m_codec, commands := s.commands ++ [(c, false)] }

/-- What the event makes of the calls that wait, and of the connection. -/
def track (e : Event V) : State S B V :=
  match e with
  | .send call index args =>
    if (sendContent names call index args : Option (Content S B V)).isSome then { s with impl := s.impl.send } else s
  | .sendWithReply _ _ => { s with impl := (s.impl.sendWithReply ()).2 }
  | .setConnection _ => { s with impl := s.impl.setConnection }
  | .timeout =>
    if s.impl.timerActive then
      match s.impl.heartbeat () with
      | (.unresponsive, impl) | (.notSent, impl) => { s with impl, connection := s.connection.disconnected }
      | (_, impl) => { s with impl }
    else s
  | .notifyAboutReply ackedSerialId => { s with impl := (s.impl.notifyAboutReply ackedSerialId).2 }
  | .handshake => { s with m_codec := .new PacketType.invokePacket.toId }
  | .connection changed => { s with impl := { s.impl with isOpen := changed.isOpen }, connection := changed }
  | .clearConnection => { s with impl := s.impl.clearConnection }

end State

/-- A connection does not become one of another kind. -/
def allowed (s : State S B V) : Event V → Bool
  | .connection changed => changed.socket.isSome = s.connection.socket.isSome
  | _ => true

def step (s : State S B V) (e : Event V) : Option (State S B V) :=
  if allowed s e then
    match content names s.impl e with
    | some c => some ((s.sendCommand d c).track names e)
    | none => some (s.track names e)
  else none

/-- The frames of the commands that were sent. -/
def sentFrames (commands : List (Content S B V × Bool)) : List UInt8 :=
  (commands.filter Prod.snd).flatMap fun command => frame (bodyBytes d command.1)

/-- What was written is what was sent, each command once and in order. -/
def Faithful (s : State S B V) : Prop := s.written = sentFrames d s.commands

/-- A command that is sent finds nothing of others in the codec and a device that takes it, and is not too long for an `int`. -/
def sendsAlone (s : State S B V) (e : Event V) : Prop :=
  ∀ c, content names s.impl e = some c → s.connection.isOpen → s.m_codec.Holds [] ∧ s.connection.opened ∧
    4 + (bodyBytes d c).length < 2 ^ 31

end Model

section Proofs
variable {S B V : Type} [Inhabited B] {d : DataStream S B V} {names : Names S} {s t : State S B V} {e : Event V} {c : Content S B V}

@[simp] theorem sentFrames_concat (commands : List (Content S B V × Bool)) (c : Content S B V) (sent : Bool) :
    sentFrames d (commands ++ [(c, sent)]) = sentFrames d commands ++ if sent then frame (bodyBytes d c) else [] := by
  cases sent <;> simp [sentFrames]

theorem Connection.not_closing {connection : Connection} (isOpen : connection.isOpen) : connection.m_isClosing = false := by
  simp only [Connection.isOpen, Bool.and_eq_true, Bool.not_eq_true'] at isOpen
  exact isOpen.1

/-- The payload behind a packet, whatever was left of others before it. -/
theorem payload_serialize {left : List UInt8} (holds : s.m_codec.Holds left) (bound : left.length + 4 + (bodyBytes d c).length < 2 ^ 31) :
    (serialize d s.m_codec c).payload = left ++ frame (bodyBytes d c) :=
  (serialize_holds d holds c bound).payload_eq

theorem Faithful.sendCommand (faithful : Faithful d s)
    (alone : s.connection.isOpen → s.m_codec.Holds [] ∧ s.connection.opened ∧ 4 + (bodyBytes d c).length < 2 ^ 31) :
    Faithful d (s.sendCommand d c) := by
  rw [Faithful] at faithful
  rw [Faithful, State.sendCommand]
  by_cases isOpen : s.connection.isOpen
  · obtain ⟨clean, opened, bound⟩ := alone isOpen
    have payload := payload_serialize clean (by simpa using bound)
    rw [if_pos isOpen]
    simp [Connection.write, opened, Connection.not_closing isOpen, payload, faithful]
  · rw [if_neg isOpen]
    simp [faithful]

/-- Nothing is written or serialized besides the packet of an event. -/
theorem track_sent (names : Names S) (s : State S B V) (e : Event V) :
    (s.track names e).written = s.written ∧ (s.track names e).commands = s.commands := by
  cases e with
  | send call index args =>
    simp only [State.track]
    split <;> exact ⟨rfl, rfl⟩
  | timeout =>
    simp only [State.track]
    split
    · split <;> exact ⟨rfl, rfl⟩
    · exact ⟨rfl, rfl⟩
  | _ => exact ⟨rfl, rfl⟩

theorem Faithful.track (faithful : Faithful d s) (names : Names S) (e : Event V) : Faithful d (s.track names e) := by
  obtain ⟨written, commands⟩ := track_sent names s e
  rwa [Faithful, written, commands]

theorem faithful_step (faithful : Faithful d s) (alone : sendsAlone d names s e) (head : step d names s e = some t) :
    Faithful d t := by
  rw [step] at head
  split at head
  · split at head
    · rename_i c sends
      obtain rfl := Option.some.inj head
      exact (faithful.sendCommand (alone c sends)).track names e
    · obtain rfl := Option.some.inj head
      exact faithful.track names e
  · contradiction

/-- What is left of commands that were not sent goes before the next one that is. -/
theorem written_behind_refused {left : List UInt8} (holds : s.m_codec.Holds left) (isOpen : s.connection.isOpen)
    (opened : s.connection.opened) (bound : left.length + 4 + (bodyBytes d c).length < 2 ^ 31) :
    (s.sendCommand d c).written = s.written ++ left ++ frame (bodyBytes d c) := by
  rw [State.sendCommand, if_pos isOpen]
  simp [Connection.write, opened, Connection.not_closing isOpen, payload_serialize holds bound]

end Proofs

section Told
variable {S B V : Type} [Inhabited B] {d : DataStream S B V} {names : Names S} {s t : State S B V} {e : Event V} {c : Content S B V}
variable {impl : Implementation Unit}

/-- What the replica knows of its connection. -/
structure Synced (s : State S B V) : Prop where
  isOpen : s.impl.isOpen = s.connection.isOpen
  isClientIo : s.impl.isClientIo = s.connection.socket.isSome

theorem startTimer_device : impl.startTimer.isOpen = impl.isOpen ∧ impl.startTimer.isClientIo = impl.isClientIo := by
  unfold Implementation.startTimer
  split <;> exact ⟨rfl, rfl⟩

theorem sendCommand_device (impl : Implementation Unit) : impl.sendCommand.2.isOpen = impl.isOpen ∧ impl.sendCommand.2.isClientIo = impl.isClientIo := by
  unfold Implementation.sendCommand
  split
  · exact startTimer_device
  · exact ⟨rfl, rfl⟩

theorem sendCommandWithReply_device (impl : Implementation Unit) (serialId : Int) :
    (impl.sendCommandWithReply () serialId).2.isOpen = impl.isOpen ∧
    (impl.sendCommandWithReply () serialId).2.isClientIo = impl.isClientIo := by
  unfold Implementation.sendCommandWithReply
  dsimp only
  split <;> exact sendCommand_device _

/-- The command has been sent if the call waits for a reply. -/
theorem sendCommandWithReply_told (serialId : Int) : (impl.sendCommandWithReply () serialId).1.isSome = impl.isOpen := by
  unfold Implementation.sendCommandWithReply Implementation.sendCommand
  by_cases isOpen : impl.isOpen <;> simp [isOpen]

theorem Connection.disconnected_isOpen (connection : Connection) : connection.disconnected.isOpen = false := by
  unfold Connection.disconnected Connection.isOpen
  cases connection.socket <;> simp

theorem Connection.disconnected_socket (connection : Connection) : connection.disconnected.socket.isSome = connection.socket.isSome := by
  unfold Connection.disconnected
  cases connection.socket <;> simp

theorem Synced.disconnect (synced : Synced s) (impl : Implementation Unit) (same : impl.isClientIo = s.impl.isClientIo) :
    Synced { s with impl := impl.disconnect, connection := s.connection.disconnected } := by
  constructor
  · rw [Connection.disconnected_isOpen]
    unfold Implementation.disconnect
    split <;> rfl
  · rw [Connection.disconnected_socket, ← synced.isClientIo, ← same]
    unfold Implementation.disconnect
    split <;> rfl

theorem Synced.timeout (synced : Synced s) : Synced (s.track names .timeout) := by
  obtain ⟨isOpen, isClientIo⟩ := id synced
  have pinged := sendCommandWithReply_device { s.impl with timerActive := false } 0
  simp only [State.track]
  split
  · simp only [Implementation.heartbeat]
    by_cases pending : 0 ∈ s.impl.pendingCalls
    · by_cases connected : s.impl.connected
      · simpa [pending, connected] using synced.disconnect { s.impl with timerActive := false, pendingCalls := s.impl.pendingCalls.erase 0 } rfl
      · simpa [pending, connected] using ⟨isOpen, isClientIo⟩
    · by_cases connected : s.impl.connected
      · cases told : Implementation.sendCommandWithReply { s.impl with timerActive := false } () 0 with
        | mk result impl =>
          rw [told] at pinged
          cases result with
          | some id => simpa [pending, connected, told] using ⟨pinged.1.trans isOpen, pinged.2.trans isClientIo⟩
          | none => simpa [pending, connected, told] using synced.disconnect { impl with timerActive := false } pinged.2
      · simpa [pending, connected] using ⟨isOpen, isClientIo⟩
  · exact synced

theorem Synced.device (synced : Synced s) (impl : Implementation Unit)
    (same : impl.isOpen = s.impl.isOpen ∧ impl.isClientIo = s.impl.isClientIo) : Synced { s with impl } :=
  ⟨same.1.trans synced.isOpen, same.2.trans synced.isClientIo⟩

theorem sendWithReply_device : (impl.sendWithReply ()).2.isOpen = impl.isOpen ∧ (impl.sendWithReply ()).2.isClientIo = impl.isClientIo := by
  have taken : impl.takeSerialId.2.isOpen = impl.isOpen ∧ impl.takeSerialId.2.isClientIo = impl.isClientIo := by
    unfold Implementation.takeSerialId
    split <;> exact ⟨rfl, rfl⟩
  unfold Implementation.sendWithReply
  split
  · have sent := sendCommandWithReply_device impl.takeSerialId.2 impl.takeSerialId.1
    exact ⟨sent.1.trans taken.1, sent.2.trans taken.2⟩
  · exact ⟨rfl, rfl⟩

theorem synced_step (synced : Synced s) (head : step d names s e = some t) : Synced t := by
  have sent (c : Content S B V) : Synced (s.sendCommand d c) := by
    unfold State.sendCommand
    dsimp only
    split <;> exact ⟨synced.isOpen, synced.isClientIo⟩
  have tracked : ∀ {s : State S B V}, Synced s → allowed s e → Synced (s.track names e) := by
    intro s synced fits
    cases e with
    | send call index args =>
      simp only [State.track]
      split
      · apply synced.device
        unfold Implementation.send
        split
        · exact sendCommand_device _
        · exact ⟨rfl, rfl⟩
      · exact synced
    | sendWithReply index args => exact synced.device _ sendWithReply_device
    | setConnection needsDynamicInitialization => exact synced.device _ (sendCommand_device { s.impl with connected := true })
    | timeout => exact synced.timeout
    | notifyAboutReply ackedSerialId =>
      apply synced.device
      unfold Implementation.notifyAboutReply
      dsimp only
      split
      · exact startTimer_device
      · exact ⟨rfl, rfl⟩
    | handshake => exact ⟨synced.isOpen, synced.isClientIo⟩
    | connection changed => exact ⟨rfl, synced.isClientIo.trans (of_decide_eq_true fits).symm⟩
    | clearConnection => exact synced.device _ ⟨rfl, rfl⟩
  rw [step] at head
  split at head
  · rename_i fits
    split at head
    · rename_i c sends
      obtain rfl := Option.some.inj head
      refine tracked (sent c) ?_
      revert fits
      unfold State.sendCommand
      dsimp only
      split <;> exact id
    · obtain rfl := Option.some.inj head
      exact tracked synced fits
  · contradiction

/-- The caller of a command is told that it was sent exactly if it is counted among those that were. -/
theorem told_run (interval : Nat) (connection : Connection) {es : List (Event V)}
    (run : exec (step d names) (.initial interval connection) es = some t) (serialId : Int) (c : Content S B V) :
    (t.impl.sendCommandWithReply () serialId).1.isSome ↔ (t.sendCommand d c).commands = t.commands ++ [(c, true)] := by
  have synced : Synced t := exec_always synced_step run ⟨rfl, rfl⟩
  rw [sendCommandWithReply_told, synced.isOpen, State.sendCommand]
  by_cases isOpen : t.connection.isOpen <;> simp [isOpen]

end Told

section Example
open QtStream

/-- A replica without signals or properties of its own, and a local socket. -/
def exampleNames : Names QString := ⟨default, 4, 1⟩

def exampleConnection : Connection := ⟨false, some .connected, true⟩

/-- The connection is lost and comes back; the replica is not told, as those of item models in properties. One call is made while it
is lost, and one behind it. -/
def callsOverLoss : List (Event Int32) :=
  [.setConnection false, .connection ⟨false, some .unconnected, false⟩, .sendWithReply 4 [],
    .connection ⟨false, some .connecting, true⟩, .sendWithReply 4 []]

end Example
end RemoteObjects.Replica.Sending
