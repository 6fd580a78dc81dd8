import Mathlib.Algebra.Group.Int.Defs
import Mathlib.Algebra.Group.Nat.Defs
import Mathlib.Data.List.AList
import RemoteObjects.Transition

/-! `QConnectedReplicaImplementation` as far as it keeps track of its connection,
of the calls that wait for a reply and of the heartbeat. The packets it sends and
its properties are left out. -/
namespace RemoteObjects.Replica
open Transition

/-- `std::numeric_limits<int>::max()`. -/
def intMax : Int := 2 ^ 31 - 1

/-- `pendingCalls` carries a value of `P` for each `QRemoteObjectPendingCall`.
`isOpen` and `isClientIo` are those of the device behind `connectionToSource`. -/
structure Implementation (P : Type) where
  connected : Bool
  isOpen : Bool
  isClientIo : Bool
  curSerialId : Int
  pendingCalls : AList fun _ : Int => P
  interval : Nat
  timerActive : Bool

namespace Implementation
variable {P : Type} (s : Implementation P) (p : P)

/-- The constructor: serial ids start at 1, 0 is reserved for the heartbeat. -/
def new (isClientIo : Bool) (interval : Nat) : Implementation P where
  connected := false
  isOpen := false
  isClientIo := isClientIo
  curSerialId := 1
  pendingCalls := ∅
  interval := interval
  timerActive := false

def startTimer : Implementation P :=
  if s.interval ≠ 0 then { s with timerActive := true } else s

def sendCommand : Bool × Implementation P :=
  if s.isOpen then (true, s.startTimer) else (false, s)

/-- The serial id of the call that waits, or nothing for an invalid call. -/
def sendCommandWithReply (serialId : Int) : Option Int × Implementation P :=
  let sent := s.sendCommand
  if sent.1 then
    (some serialId, { sent.2 with pendingCalls := sent.2.pendingCalls.insert serialId p })
  else (none, sent.2)

/-- `m_curSerialId == max ? 1 : m_curSerialId++`. -/
def takeSerialId : Int × Implementation P :=
  if s.curSerialId = intMax then (1, s)
  else (s.curSerialId, { s with curSerialId := s.curSerialId + 1 })

def sendWithReply : Option Int × Implementation P :=
  if s.connected then s.takeSerialId.2.sendCommandWithReply p s.takeSerialId.1 else (none, s)

/-- `_q_send`. -/
def send : Implementation P := if s.connected then s.sendCommand.2 else s

/-- The call that the reply completes, if there is one. A pong acknowledges id 0
and starts the heartbeat timer anew. -/
def notifyAboutReply (ackedSerialId : Int) : Option P × Implementation P :=
  let taken := { s with pendingCalls := s.pendingCalls.erase ackedSerialId }
  if ackedSerialId = 0 then (none, { taken with timerActive := false }.startTimer)
  else (s.pendingCalls.lookup ackedSerialId, taken)

def setConnection : Implementation P := { s with connected := true }.sendCommand.2

/-- `setDisconnected`, and `connectionToSource.clear()` on a `RemoveObject`. -/
def clearConnection : Implementation P := { s with connected := false }

/-- A client device tells its node at once that the connection is lost, any other
device is only closed. -/
def disconnect : Implementation P :=
  if s.isClientIo then { s.clearConnection with isOpen := false } else { s with isOpen := false }

inductive Heartbeat
  | unresponsive | ignored | pinged | notSent
deriving DecidableEq

/-- The timeout of the single-shot heartbeat timer. -/
def heartbeat : Heartbeat × Implementation P :=
  let s := { s with timerActive := false }
  if 0 ∈ s.pendingCalls then
    let s := { s with pendingCalls := s.pendingCalls.erase 0 }
    if s.connected then (.unresponsive, s.disconnect) else (.ignored, s)
  else if s.connected then
    match s.sendCommandWithReply p 0 with
    | (some _, s) => (.pinged, s)
    | (none, s) => (.notSent, { s with timerActive := false }.disconnect)
  else (.ignored, s)

section Spec
variable {P : Type} (s : Implementation P) (p : P)

@[simp] theorem startTimer_curSerialId : s.startTimer.curSerialId = s.curSerialId := by
  unfold startTimer
  split <;> rfl

@[simp] theorem startTimer_pendingCalls : s.startTimer.pendingCalls = s.pendingCalls := by
  unfold startTimer
  split <;> rfl

@[simp] theorem startTimer_connected : s.startTimer.connected = s.connected := by
  unfold startTimer
  split <;> rfl

@[simp] theorem sendCommand_curSerialId : s.sendCommand.2.curSerialId = s.curSerialId := by
  unfold sendCommand
  split <;> simp only [startTimer_curSerialId]

@[simp] theorem sendCommand_pendingCalls : s.sendCommand.2.pendingCalls = s.pendingCalls := by
  unfold sendCommand
  split <;> simp only [startTimer_pendingCalls]

@[simp] theorem sendCommand_connected : s.sendCommand.2.connected = s.connected := by
  unfold sendCommand
  split <;> simp only [startTimer_connected]

/-- The call is sent and waits, or nothing has happened to the pending calls. -/
theorem sendCommandWithReply_cases (id : Int) :
    (∃ t, s.sendCommandWithReply p id = (some id, t) ∧ t.curSerialId = s.curSerialId ∧
      t.connected = s.connected ∧ t.pendingCalls = s.pendingCalls.insert id p) ∨
    (∃ t, s.sendCommandWithReply p id = (none, t) ∧ t.curSerialId = s.curSerialId ∧
      t.connected = s.connected ∧ t.pendingCalls = s.pendingCalls) := by
  have counter := sendCommand_curSerialId s
  have connected := sendCommand_connected s
  have pending := sendCommand_pendingCalls s
  unfold sendCommandWithReply
  simp only
  split
  · exact .inl ⟨_, rfl, counter, connected, by rw [pending]⟩
  · exact .inr ⟨_, rfl, counter, connected, pending⟩

@[simp] theorem sendCommandWithReply_curSerialId (id : Int) :
    (s.sendCommandWithReply p id).2.curSerialId = s.curSerialId := by
  obtain ⟨t, same, counter, _⟩ | ⟨t, same, counter, _⟩ := sendCommandWithReply_cases s p id <;>
    rw [same, counter]

@[simp] theorem sendCommandWithReply_connected (id : Int) :
    (s.sendCommandWithReply p id).2.connected = s.connected := by
  obtain ⟨t, same, _, connected, _⟩ | ⟨t, same, _, connected, _⟩ :=
    sendCommandWithReply_cases s p id <;> rw [same, connected]

/-- At most the given id becomes pending. -/
theorem sendCommandWithReply_pending (id : Int) :
    ∀ k ∈ (s.sendCommandWithReply p id).2.pendingCalls, k = id ∨ k ∈ s.pendingCalls := by
  intro k member
  obtain ⟨t, same, _, _, pending⟩ | ⟨t, same, _, _, pending⟩ := sendCommandWithReply_cases s p id
  · rw [same, pending, AList.mem_insert] at member
    exact member
  · rw [same, pending] at member
    exact .inr member

theorem sendCommandWithReply_lookup (id : Int) :
    ∀ k ≠ id, (s.sendCommandWithReply p id).2.pendingCalls.lookup k = s.pendingCalls.lookup k := by
  intro k other
  obtain ⟨t, same, _, _, pending⟩ | ⟨t, same, _, _, pending⟩ := sendCommandWithReply_cases s p id
  · rw [same, pending, AList.lookup_insert_ne other]
  · rw [same, pending]

@[simp] theorem takeSerialId_connected : s.takeSerialId.2.connected = s.connected := by
  unfold takeSerialId
  split <;> rfl

@[simp] theorem takeSerialId_pendingCalls : s.takeSerialId.2.pendingCalls = s.pendingCalls := by
  unfold takeSerialId
  split <;> rfl

@[simp] theorem send_connected : s.send.connected = s.connected := by
  unfold send
  split
  · exact sendCommand_connected s
  · rfl

@[simp] theorem send_pendingCalls : s.send.pendingCalls = s.pendingCalls := by
  unfold send
  split
  · exact sendCommand_pendingCalls s
  · rfl

@[simp] theorem notifyAboutReply_connected (id : Int) :
    (s.notifyAboutReply id).2.connected = s.connected := by
  unfold notifyAboutReply
  simp only
  split
  · exact startTimer_connected _
  · rfl

@[simp] theorem notifyAboutReply_pendingCalls (id : Int) :
    (s.notifyAboutReply id).2.pendingCalls = s.pendingCalls.erase id := by
  unfold notifyAboutReply
  simp only
  split
  · exact startTimer_pendingCalls _
  · rfl

@[simp] theorem setConnection_pendingCalls : s.setConnection.pendingCalls = s.pendingCalls :=
  sendCommand_pendingCalls _

@[simp] theorem disconnect_curSerialId : s.disconnect.curSerialId = s.curSerialId := by
  unfold disconnect
  split <;> rfl

@[simp] theorem disconnect_pendingCalls : s.disconnect.pendingCalls = s.pendingCalls := by
  unfold disconnect
  split <;> rfl

/-- A call that was pending before and is not the one that is taken. -/
theorem lookup_of_erase {pending : AList fun _ : Int => P} {id k : Int}
    (found : (pending.erase id).lookup k = some p) : pending.lookup k = some p := by
  by_cases same : k = id
  · rw [same, AList.lookup_erase] at found
    contradiction
  · rwa [AList.lookup_erase_ne same] at found

end Spec

end Implementation

section Runs

/-- The session of a device of the node, and how often the heartbeat timer has
expired. -/
structure Stamp where
  device : Nat
  session : Nat
  expiries : Nat
deriving DecidableEq

/-- A replica over the sessions of the node's devices. `device` is the one behind
`connectionToSource`, or the one to be the next, and `sessions` counts the sessions of
each device that are over. Calls are stamped when they are sent. -/
structure State where
  impl : Implementation Stamp
  device : Nat
  sessions : Nat → Nat
  expiries : Nat

inductive Event
  | callWithReply
  | send
  | reply (ackedSerialId : Int)
  | timeout
  | setInterval (interval : Nat)
  | initialized
  | setConnection
  | removeObject
  | opened
  | switched (device : Nat) (isClientIo isOpen : Bool)
  | lost (device : Nat)
deriving DecidableEq

namespace State
variable (s : State)

def initial (isClientIo : Bool) (interval : Nat) : State := ⟨.new isClientIo interval, 0, fun _ => 0, 0⟩

def now : Stamp := ⟨s.device, s.sessions s.device, s.expiries⟩

/-- The session of the device is over. -/
def ended (device : Nat) : State :=
  { s with sessions := Function.update s.sessions device (s.sessions device + 1) }

def expired : State := { s with expiries := s.expiries + 1 }

end State

/-- A session ends when the device loses its connection, and when the heartbeat
disconnects or closes it. Another device may list the object, or the name be acquired
from it, only while `connectionToSource` is null. -/
def step (s : State) : Event → Option State
  | .callWithReply => some { s with impl := (s.impl.sendWithReply s.now).2 }
  | .send => some { s with impl := s.impl.send }
  | .reply id => some { s with impl := (s.impl.notifyAboutReply id).2 }
  | .timeout =>
    if s.impl.timerActive then
      match s.impl.heartbeat s.expired.now with
      | (.unresponsive, impl) | (.notSent, impl) => some ({ s.expired with impl }.ended s.device)
      | (_, impl) => some { s.expired with impl }
    else none
  | .setInterval interval =>
    some { s with impl := { s.impl with interval := interval, timerActive := false }.startTimer }
  | .initialized => some { s with impl := s.impl.startTimer }
  | .setConnection => some { s with impl := s.impl.setConnection }
  | .removeObject => some { s with impl := s.impl.clearConnection }
  | .opened => some { s with impl := { s.impl with isOpen := true } }
  | .switched device isClientIo isOpen =>
    if s.impl.connected then none
    else some { s with impl := { s.impl with isClientIo, isOpen }, device }
  | .lost device =>
    if device = s.device then
      some ({ s with impl := { s.impl.clearConnection with isOpen := false } }.ended device)
    else some (s.ended device)

end Runs
end RemoteObjects.Replica
