import RemoteObjects.Client.Devices
import RemoteObjects.Packet.Stream

/-! The packets of a client connection over its sessions, and the handshakes before them. A log has
what was read, with the newest entry first. -/
namespace RemoteObjects.Client.Handshake
open Host (Name)
open Packet (PacketType)
open Devices (protocolVersion)

section Model

structure Received where
  type : PacketType
  rxName : Name
deriving DecidableEq

/-- The begin of a session, or a packet and whether the switch was reached with it. -/
inductive Entry
  | connected
  | read (packet : Received) (dispatched : Bool)
deriving DecidableEq

/-- A `QtROIoDeviceBase` with the packets that it has buffered. `m_codec` tells whether there is a
codec, `lastError` whether the node was told of a protocol mismatch. -/
structure Device where
  m_codec : Bool
  m_isClosing : Bool
  lastError : Bool
  buffer : List Received
  log : List Entry

/-- The socket is connected, or connected again, and packets arrive. -/
inductive Event
  | connected
  | readyRead (packets : List Received)

namespace Device
variable (d : Device)

def initial : Device := ⟨false, false, false, [], []⟩

def protocolMismatch : Device := { d with m_isClosing := true, lastError := true }

/-- `initializeDataStream` keeps the codec. -/
def initializeDataStream : Device := { d with buffer := [], log := .connected :: d.log }

/-- The loop over what is buffered. It ends where a packet is not valid and where a handshake is
missing, but not where the version of a handshake does not match. -/
def onClientRead : List Received → Device → Device
  | [], d => { d with buffer := [] }
  | packet :: packets, d =>
    if packet.type = .invalid then { d with buffer := packets }
    else if packet.type ≠ .handshake ∧ !d.m_codec then
      { d.protocolMismatch with buffer := packets, log := .read packet false :: d.log }
    else
      let d := { d with log := .read packet true :: d.log }
      if packet.type = .handshake then
        if packet.rxName ≠ protocolVersion then onClientRead packets d.protocolMismatch
        else onClientRead packets { d with m_codec := true }
      else onClientRead packets d

def step : Event → Device
  | .connected => d.initializeDataStream
  | .readyRead packets => onClientRead (d.buffer ++ packets) d

end Device

/-- The connection after a list of events. -/
def run (events : List Event) : Device := events.foldl Device.step .initial

end Model

section Statement

def Entry.matching : Entry → Bool
  | .connected => false
  | .read packet _ => packet.type = .handshake ∧ packet.rxName = protocolVersion

def Entry.mismatching : Entry → Bool
  | .connected => false
  | .read packet _ => packet.type = .handshake ∧ packet.rxName ≠ protocolVersion

/-- The entries of the last session. -/
def session (log : List Entry) : List Entry := log.takeWhile (· ≠ .connected)

/-- What is dispatched is a handshake, or it comes after a matching one of its session, and nothing is
dispatched after a mismatching one. -/
def HandshakeFirst : List Entry → Prop
  | [] => True
  | .connected :: log => HandshakeFirst log
  | .read packet dispatched :: log =>
    (dispatched → (packet.type = .handshake ∨ (session log).any Entry.matching) ∧ !log.any Entry.mismatching) ∧
      HandshakeFirst log

/-- After a matching handshake of an earlier session, packets come after one of their own. After a
mismatching one neither a handshake comes nor, if there ever was a matching one, another packet. -/
def PeersGreet : List Entry → Prop
  | [] => True
  | .connected :: log => PeersGreet log
  | .read packet _ :: log =>
    (packet.type = .handshake → !log.any Entry.mismatching) ∧
      (packet.type ≠ .handshake → log.any Entry.matching → (session log).any Entry.matching ∧ !log.any Entry.mismatching) ∧
      PeersGreet log

end Statement

section Logs

/-- A packet is dispatched if it is a handshake, or if ever a matching one was read. -/
def Dispatches : List Entry → Prop
  | [] => True
  | .connected :: log => Dispatches log
  | .read packet dispatched :: log =>
    (dispatched ↔ packet.type = .handshake ∨ log.any Entry.matching) ∧ Dispatches log

theorem handshakeFirst_iff {log : List Entry} (dispatches : Dispatches log) : HandshakeFirst log ↔ PeersGreet log := by
  induction log with
  | nil => exact Iff.rfl
  | cons entry log ih =>
    cases entry with
    | connected => exact ih dispatches
    | read packet dispatched =>
      obtain ⟨reaches, rest⟩ := dispatches
      rw [HandshakeFirst, PeersGreet, reaches, ih rest, ← and_assoc]
      refine and_congr_left fun _ => ?_
      by_cases handshake : packet.type = .handshake
      · simp [handshake]
      · simp [handshake]

/-- The codec is there as soon as a matching handshake was read, whatever comes afterwards. -/
structure Recorded (d : Device) : Prop where
  codec : d.m_codec ↔ d.log.any Entry.matching
  dispatches : Dispatches d.log

theorem Recorded.read {d : Device} (recorded : Recorded d) {packet : Received} (matches' : ¬ (packet.type = .handshake ∧ packet.rxName = protocolVersion))
    (reaches : packet.type = .handshake ∨ d.m_codec) : Recorded { d with log := .read packet true :: d.log } where
  codec := by
    rw [List.any_cons, Bool.or_eq_true, ← recorded.codec]
    simp only [Entry.matching, decide_eq_true_eq, matches', false_or]
  dispatches := ⟨iff_of_true rfl (reaches.imp_right recorded.codec.mp), recorded.dispatches⟩

theorem Recorded.onClientRead {d : Device} (recorded : Recorded d) (packets : List Received) :
    Recorded (Device.onClientRead packets d) := by
  induction packets generalizing d with
  | nil => exact ⟨recorded.codec, recorded.dispatches⟩
  | cons packet packets ih =>
    unfold Device.onClientRead
    split
    · exact ⟨recorded.codec, recorded.dispatches⟩
    · split
      · rename_i refused
        obtain ⟨other, uncoded⟩ := refused
        have silent : ¬ d.log.any Entry.matching := by
          rw [← recorded.codec]
          simpa using uncoded
        refine ⟨?_, iff_of_false Bool.false_ne_true (not_or.mpr ⟨other, silent⟩), recorded.dispatches⟩
        change d.m_codec ↔ _
        rw [recorded.codec, List.any_cons, Bool.or_eq_true]
        simp [Entry.matching, other]
      · rename_i accepted
        have reaches : packet.type = .handshake ∨ d.m_codec := by
          by_contra neither
          obtain ⟨other, uncoded⟩ := not_or.mp neither
          exact accepted ⟨other, by simpa using uncoded⟩
        dsimp only
        split
        · rename_i handshake
          split
          · rename_i mismatch
            have read := recorded.read (fun both => mismatch both.2) reaches
            exact ih ⟨read.codec, read.dispatches⟩
          · rename_i version
            refine ih ⟨?_, iff_of_true rfl (.inl handshake), recorded.dispatches⟩
            rw [List.any_cons, Bool.or_eq_true]
            refine iff_of_true rfl (.inl ?_)
            simpa [Entry.matching, handshake] using version
        · rename_i other
          exact ih (recorded.read (fun both => other both.1) reaches)

theorem recorded_run (events : List Event) : Recorded (run events) := by
  have each : ∀ events : List Event, ∀ d : Device, Recorded d → Recorded (events.foldl Device.step d) := by
    intro events
    induction events with
    | nil => exact fun _ recorded => recorded
    | cons event events ih =>
      intro d recorded
      refine ih _ ?_
      cases event with
      | connected => exact ⟨recorded.codec, recorded.dispatches⟩
      | readyRead packets => exact recorded.onClientRead _
  exact each events .initial ⟨Iff.rfl, trivial⟩

/-- In every run of a client connection, handshakes come first exactly if its peers greet in each session and
send nothing behind a greeting that does not match. -/
theorem handshakeFirst_run_iff (events : List Event) : HandshakeFirst (run events).log ↔ PeersGreet (run events).log :=
  handshakeFirst_iff (recorded_run events).dispatches

/-- A peer that is started again with another version sends a list of objects behind its handshake. -/
def restarted : List Event :=
  [.connected, .readyRead [⟨.handshake, protocolVersion⟩, ⟨.objectList, []⟩], .connected,
    .readyRead [⟨.handshake, "QtRO 1.3".toList⟩, ⟨.objectList, []⟩]]

/-- The list is dispatched on the connection that is closing. -/
theorem restarted_dispatched : ¬ HandshakeFirst (run restarted).log ∧ (run restarted).m_isClosing ∧
    (run restarted).log.head? = some (.read ⟨.objectList, []⟩ true) := by
  refine ⟨fun first => ?_, rfl, rfl⟩
  have last := (first.1 rfl).2
  contradiction

end Logs
end RemoteObjects.Client.Handshake
