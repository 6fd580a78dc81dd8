import RemoteObjects.Device.Frames
import RemoteObjects.Packet.QtStream

/-! From the calls of the codec on one side to the packets of the receiving loop
on the other: payloads are filled and handed out in any rhythm, and their bytes
arrive in any chunks. -/
namespace RemoteObjects.Device
open Wire Reader Packet
variable {S B V : Type} [Inhabited B] (d : DataStream S B V)

section Writer

inductive Action (S B V : Type) [Inhabited B]
  | serialize (content : Content S B V)
  | send

/-- The codec with its payload, and the byte arrays that `send` has written to
the connection. -/
structure Writer where
  packet : DataStreamPacket
  handedOut : List (List UInt8)

def Writer.initial : Writer := ⟨.new PacketType.invokePacket.toId, []⟩

def perform (w : Writer) : Action S B V → Writer
  | .serialize content => { w with packet := serialize d w.packet content }
  | .send => ⟨w.packet.reset, w.handedOut ++ [w.packet.payload]⟩

def write (actions : List (Action S B V)) : Writer :=
  actions.foldl (perform d) .initial

/-- The packets of each payload that is handed out; `pending` ones wait for the
next `send`. -/
def payloads : List (Content S B V) → List (Action S B V) → List (List (Content S B V))
  | _, [] => []
  | pending, .serialize content :: actions => payloads (pending ++ [content]) actions
  | pending, .send :: actions => pending :: payloads [] actions

def payloadBytes (contents : List (Content S B V)) : List UInt8 :=
  contents.flatMap fun c => frame (bodyBytes d c)

theorem pending_prefix {actions : List (Action S B V)} {pending : List (Content S B V)}
    (sends : payloads pending actions ≠ []) : ∃ more, pending ++ more ∈ payloads pending actions := by
  induction actions generalizing pending with
  | nil => contradiction
  | cons action actions ih =>
    cases action with
    | send => exact ⟨[], by rw [List.append_nil]; exact List.mem_cons_self⟩
    | serialize content =>
      obtain ⟨more, member⟩ := ih sends
      rw [List.append_assoc] at member
      exact ⟨content :: more, member⟩

/-- Each payload is the frames of its packets, as long as it is small enough for
the codec's `int`s. -/
theorem perform_handedOut {actions : List (Action S B V)} {pending : List (Content S B V)}
    {w : Writer} (small : ∀ p ∈ payloads pending actions, (payloadBytes d p).length < 2 ^ 31)
    (holds : payloads pending actions ≠ [] → w.packet.Holds (payloadBytes d pending)) :
    (actions.foldl (perform d) w).handedOut =
      w.handedOut ++ (payloads pending actions).map (payloadBytes d) := by
  induction actions generalizing pending w with
  | nil => exact (List.append_nil _).symm
  | cons action actions ih =>
    cases action with
    | send =>
      have sent := (holds (List.cons_ne_nil _ _)).payload_eq
      have rest := @ih [] (perform d w .send)
        (fun p member => small p (List.mem_cons_of_mem _ member))
        (fun _ => DataStreamPacket.holds_reset _)
      rw [List.foldl_cons, rest]
      simp only [perform, payloads, List.map_cons, sent, List.append_assoc, List.singleton_append]
    | serialize content =>
      have extended : payloadBytes d (pending ++ [content]) =
          payloadBytes d pending ++ frame (bodyBytes d content) := by
        simp only [payloadBytes, List.flatMap_append, List.flatMap_cons, List.flatMap_nil,
          List.append_nil]
      refine ih (w := perform d w (.serialize content)) small fun sends => ?_
      obtain ⟨more, member⟩ := pending_prefix sends
      have bound := small _ member
      rw [payloadBytes, List.flatMap_append, List.length_append, ← payloadBytes, extended,
        List.length_append, length_frame] at bound
      rw [extended]
      exact serialize_holds d (holds sends) content (by omega)

end Writer

section Receiver

/-- Every packet type is read with its own `deserialize…`. What an earlier packet
left in the shared list makes no difference (`deserialize_stale`). -/
def codecReceiver : Receiver Unit S (Fields S B V) where
  stops _ _ := false
  next _ _ _ := ()
  body := deserialize d []
  delimiting := deserialize_delimiting d

def incoming (c : Content S B V) : Incoming S (Fields S B V) where
  body := bodyBytes d c
  type := c.type
  name := c.name d
  value := c.fields d

theorem reads_named (type : PacketType) (named : ¬ (type = .invalid ∨ type = .objectList))
    (name : S) (bound : (d.string.put name).length < 2 ^ 32) :
    Reads (readHeader d) (quint16.put type.toId ++ d.string.put name) (type, some name) := by
  refine (quint16.reads _ (by rw [length_put_quint16]; decide)).bind ?_
  simp only [PacketType.ofId_toId, if_neg named]
  exact (d.string.reads name bound).last (reads_pure _)

theorem reads_header (c : Content S B V) (bound : (bodyBytes d c).length < 2 ^ 32) :
    Reads (readHeader d) (quint16.put c.type.toId ++ nameBytes d (c.name d))
      (c.type, c.name d) := by
  simp only [bodyBytes, List.length_append] at bound
  cases c with
  | objectList objects =>
    refine (quint16.reads _ (by rw [length_put_quint16]; decide)).bind ?_
    simp only [PacketType.ofId_toId, Content.type, or_true, if_true]
    exact reads_pure _
  | _ => exact reads_named d _ (by simp [Content.type]) _ (by
      simp only [Content.name, nameBytes] at bound; omega)

theorem readable_incoming (c : Content S B V) (bound : (bodyBytes d c).length < 2 ^ 32) :
    Readable d (codecReceiver d) () (bodyBytes d c) c.type (c.name d) (c.fields d) where
  bound := bound
  valid := by cases c <;> simp [Content.type]
  continues := rfl
  reads := by
    have fields : (fieldBytes d c).length < 2 ^ 32 := by
      simp only [bodyBytes, List.length_append] at bound
      omega
    have whole : Reads (readPacket d (codecReceiver d)) (bodyBytes d c)
        (c.type, c.name d, c.fields d) := by
      rw [bodyBytes, ← List.append_assoc]
      exact (reads_header d c bound).bind ((reads_fields d [] c fields).last (reads_pure _))
    exact ⟨true, whole.exact⟩

theorem follows_incoming {contents : List (Content S B V)}
    (bounds : ∀ c ∈ contents, (bodyBytes d c).length < 2 ^ 32) :
    Follows d (codecReceiver d) () (contents.map (incoming d)) () := by
  induction contents with
  | nil => exact .nil
  | cons c cs ih =>
    refine .cons (readable_incoming d c (bounds c List.mem_cons_self)) (ih fun c member => ?_)
    exact bounds c (List.mem_cons_of_mem _ member)

theorem frames_incoming (contents : List (Content S B V)) :
    frames (contents.map (incoming d)) = payloadBytes d contents := by
  rw [frames, List.flatMap_map]
  rfl

theorem length_body_lt (small : (payloadBytes d contents).length < 2 ^ 31) :
    ∀ c ∈ contents, (bodyBytes d c).length < 2 ^ 32 := by
  intro c member
  obtain ⟨front, back, rfl⟩ := List.append_of_mem member
  simp only [payloadBytes, List.flatMap_append, List.flatMap_cons, List.length_append,
    length_frame] at small
  omega

end Receiver

/-- What is handed out in payloads of less than 2^31 bytes is received packet by
packet, each once, in order and not before its last byte has arrived, in whatever
chunks the stream arrives. -/
theorem round_trip [Inhabited S] (actions : List (Action S B V)) (chunks : List (List UInt8))
    (small : ∀ p ∈ payloads [] actions, (payloadBytes d p).length < 2 ^ 31)
    (cut : chunks.flatten = (write d actions).handedOut.flatten) :
    let log := (session d (codecReceiver d) () .initial chunks).2
    log.map Parse.packet =
        (payloads [] actions).flatten.map (fun c => (c.type, c.name d, some (c.fields d))) ∧
      ∀ parse ∈ log, parse.counted ≤ parse.arrived := by
  have handedOut := perform_handedOut d (w := .initial) small
    fun _ => DataStreamPacket.holds_new PacketType.invokePacket.toId
  have bounds : ∀ c ∈ (payloads [] actions).flatten, (bodyBytes d c).length < 2 ^ 32 := by
    intro c member
    obtain ⟨p, payload, member⟩ := List.mem_flatten.mp member
    exact length_body_lt d (small p payload) c member
  have stream : [] ++ chunks.flatten =
      frames ((payloads [] actions).flatten.map (incoming d)) ++ [] := by
    rw [cut, frames_incoming, write, handedOut]
    simp only [payloadBytes, Writer.initial, List.nil_append, List.append_nil,
      List.flatMap_def, List.map_flatten, List.flatten_flatten, List.map_map]
    rfl
  obtain ⟨waiting, log, received, logged, -⟩ := session_frames (follows_incoming d bounds)
    IoDevice.waits_initial incomplete_nil stream
  rw [received]
  refine ⟨?_, logged.arrived⟩
  rw [logged.packets, List.map_map]
  rfl

section Example
open QtStream

/-- The string of an object named by its characters. -/
def named (name : String) : QString :=
  toQString (name.toList.map fun c => UInt16.ofNat c.toNat)

/-- A ping and a call in one payload, a wrapped property in a second one. -/
def exchange : List (Action QString QByteArray Int32) :=
  [.serialize (.ping (named "a")), .serialize (.invoke (named "b") 0 1 [7] 1 (-1)), .send,
    .serialize (.propertyChange (named "a") 0
      (.qro ⟨named "", named "T", 2, default, false, ⟨[1, 2], by decide⟩, nofun⟩)), .send]

/-- The bytes of the exchange, cut after one byte and inside of the second frame. -/
def exchangeChunks : List (List UInt8) :=
  let bytes := (write stream exchange).handedOut.flatten
  [bytes.take 1, (bytes.drop 1).take 20, [], bytes.drop 21]

theorem round_trip_exchange :
    (session stream (codecReceiver stream) () .initial exchangeChunks).2.map Parse.packet =
      [(.ping, some (named "a"), some .empty),
        (.invokePacket, some (named "b"), some (.call 0 1 [.plain 7] 1 (-1))),
        (.propertyChangePacket, some (named "a"), some (.change 0
          (.qro ⟨named "", named "T", 2, default, false, ⟨[1, 2], by decide⟩, nofun⟩)))] :=
  (round_trip stream exchange exchangeChunks (by decide) (by decide +kernel)).1

end Example
end RemoteObjects.Device
