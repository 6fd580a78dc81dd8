import RemoteObjects.Device.RoundTrip

/-! What the receiving loops of the node and of the source host do to frames that
no codec wrote: unknown ids, types the side does not expect, bodies that do not
fit their type. The length prefix is used to wait only. -/
namespace RemoteObjects.Device
open Wire Reader Packet
variable {S B V α σ : Type} [Inhabited B] (d : DataStream S B V)

section Receivers

/-- `QRemoteObjectNodePrivate::onClientRead`. The state tells whether a matching
handshake has set the codec; without it every other packet closes the connection
and leaves the loop. Packets that are not expected are reported only. -/
def clientReceiver [DecidableEq S] : Receiver Bool S (Fields S B V) where
  stops codec type := type != .handshake && !codec
  next codec type name := codec || (type == .handshake && name == some d.protocolVersion)
  body
    | .objectList => deserialize d [] .objectList
    | .initPacket => deserialize d [] .initPacket
    | .initDynamicPacket => deserialize d [] .initDynamicPacket
    | .propertyChangePacket => deserialize d [] .propertyChangePacket
    | .invokePacket => deserialize d [] .invokePacket
    | .invokeReplyPacket => deserialize d [] .invokeReplyPacket
    | .pong | .handshake | .removeObject => pure .empty
    | .addObject | .invalid | .ping => pure .empty
  delimiting type := by cases type <;> first | exact deserialize_delimiting d _ | exact .pure _

/-- `QRemoteObjectSourceIo::onServerRead`. Every type but four goes to `default`. -/
def serverReceiver : Receiver Unit S (Fields S B V) where
  stops _ _ := false
  next _ _ _ := ()
  body
    | .addObject => deserialize d [] .addObject
    | .invokePacket => deserialize d [] .invokePacket
    | .ping | .removeObject => pure .empty
    | _ => pure .empty
  delimiting type := by cases type <;> first | exact deserialize_delimiting d _ | exact .pure _

end Receivers

/-- A length-prefixed frame with any 16-bit type id and any bytes behind it. -/
structure Frame where
  id : UInt16
  content : List UInt8
  bound : content.length + 2 < 2 ^ 32

def Frame.body (f : Frame) : List UInt8 := quint16.put f.id ++ f.content

theorem Frame.length_body (f : Frame) : f.body.length < 2 ^ 32 := by
  have bound := f.bound
  rw [body, List.length_append, length_put_quint16]
  omega

def frameStream (fs : List Frame) : List UInt8 := fs.flatMap fun f => frame f.body

/-- Where the bodies begin in the stream of their frames. -/
def starts : Nat → List (List UInt8) → List Nat
  | _, [] => []
  | start, body :: bodies => (start + 4) :: starts (start + 4 + body.length) bodies

variable [Inhabited S] (r : Receiver σ S α)

/-- The handlers leave the loop on this frame and close the connection. -/
def closes (state : σ) (f : Frame) : Bool :=
  let header := fromDataStream d f.body
  header.type != .invalid && r.stops state header.type

/-- The state behind a frame that is not closed on. -/
def after (state : σ) (f : Frame) : σ :=
  let header := fromDataStream d f.body
  r.next state header.type header.name

/-- The frames in front of the first one that closes the connection. -/
def beforeClose : σ → List Frame → List Frame
  | _, [] => []
  | state, f :: fs =>
    if closes d r state f then [] else f :: beforeClose (after d r state f) fs

/-- The same with the closing frame itself, whose type has to be seen. -/
def untilClose : σ → List Frame → List Frame
  | _, [] => []
  | state, f :: fs =>
    f :: if closes d r state f then [] else untilClose (after d r state f) fs

/-- The type is known, and `fromDataStream` and the handler together read exactly
the counted bytes. -/
def Parsable (f : Frame) : Prop :=
  ∃ x, readPacket d r f.body = some x ∧ x.value.1 ≠ .invalid ∧ x.rest = []

/-- Whatever well-formed frame follows and however the stream arrives, each frame
up to a closing one is parsed from its own boundary. -/
def InSync (state : σ) (fs : List Frame) : Prop :=
  ∀ next, Parsable d r next → ∀ chunks : List (List UInt8),
    chunks.flatten = frameStream (fs ++ [next]) →
      starts 0 ((untilClose d r state (fs ++ [next])).map Frame.body) <+:
        (session d r state .initial chunks).2.map Parse.start

section Prefixes
variable {d r} {state : σ} {f next : Frame} {fs : List Frame}

theorem Parsable.readable (parsable : Parsable d r f) (continues : closes d r state f = false) :
    ∃ e : Incoming S α, e.body = f.body ∧ Readable d r state e.body e.type e.name e.value ∧
      r.next state e.type e.name = after d r state f := by
  obtain ⟨⟨⟨type, name, value⟩, ok, rest⟩, read, valid, rfl⟩ := parsable
  obtain ⟨sameType, sameName⟩ := readPacket_header read
  refine ⟨⟨f.body, type, name, value⟩, rfl, ⟨f.length_body, valid, ?_, ok, read⟩, ?_⟩
  · simpa only [closes, sameType, Bool.and_eq_false_imp, bne_iff_ne, ne_eq, valid,
      not_false_eq_true, forall_const] using continues
  · rw [after, sameType, sameName]

theorem follows_beforeClose (parsable : ∀ f ∈ beforeClose d r state fs, Parsable d r f) :
    ∃ es final, Follows d r state es final ∧
      es.map Incoming.body = (beforeClose d r state fs).map Frame.body := by
  induction fs generalizing state with
  | nil => exact ⟨[], state, .nil, rfl⟩
  | cons f fs ih =>
    rw [beforeClose] at parsable ⊢
    cases continues : closes d r state f with
    | true => exact ⟨[], state, .nil, rfl⟩
    | false =>
      simp only [continues, Bool.false_eq_true, if_false, List.forall_mem_cons] at parsable ⊢
      obtain ⟨e, body, readable, next⟩ := parsable.1.readable continues
      obtain ⟨es, final, follows, bodies⟩ := ih parsable.2
      rw [← next] at follows
      exact ⟨e :: es, final, .cons readable follows, by rw [List.map_cons, List.map_cons, body, bodies]⟩

/-- The closing frame, when there is one, is the first one behind the others. -/
theorem split_close (state : σ) (fs : List Frame) :
    ∃ rest, fs = beforeClose d r state fs ++ rest ∧
      untilClose d r state fs = beforeClose d r state fs ++ rest.take 1 := by
  induction fs generalizing state with
  | nil => exact ⟨[], rfl, rfl⟩
  | cons f fs ih =>
    rw [beforeClose, untilClose]
    cases closes d r state f with
    | true => exact ⟨f :: fs, rfl, rfl⟩
    | false =>
      obtain ⟨rest, split, reached⟩ := ih (after d r state f)
      refine ⟨rest, ?_, ?_⟩
      · simpa only [Bool.false_eq_true, if_false, List.cons_append, List.cons.injEq, true_and]
          using split
      · simpa only [Bool.false_eq_true, if_false, List.cons_append, List.cons.injEq, true_and]
          using reached

theorem mem_beforeClose_append (member : f ∈ beforeClose d r state (fs ++ [next])) :
    f ∈ beforeClose d r state fs ∨ f = next := by
  induction fs generalizing state with
  | nil =>
    rw [List.nil_append, beforeClose] at member
    split at member
    · contradiction
    · exact .inr (List.mem_singleton.mp member)
  | cons g fs ih =>
    rw [List.cons_append, beforeClose] at member
    rw [beforeClose]
    split at member
    · contradiction
    · rename_i continues
      rw [if_neg continues]
      rcases List.mem_cons.mp member with rfl | later
      · exact .inl List.mem_cons_self
      · exact (ih later).imp_left (List.mem_cons_of_mem g)

omit [Inhabited S] in
theorem frameStream_eq {es : List (Incoming S α)}
    (bodies : es.map Incoming.body = fs.map Frame.body) : frames es = frameStream fs := by
  have mapped := congrArg (List.flatMap frame) bodies
  rwa [List.flatMap_map, List.flatMap_map] at mapped

omit [Inhabited S] in
theorem Logged.starts_eq {es : List (Incoming S α)} {log : List (Parse S α)}
    (logged : Logged start es log) : log.map Parse.start = starts start (es.map Incoming.body) := by
  induction logged with
  | nil => rfl
  | cons begins _ _ _ _ _ ih => rw [List.map_cons, List.map_cons, starts, begins, ih]

theorem starts_append (front back : List (List UInt8)) :
    starts start (front ++ back) =
      starts start front ++ starts (start + (front.flatMap frame).length) back := by
  induction front generalizing start with
  | nil => rfl
  | cons body front ih =>
    simp only [List.cons_append, starts, ih, List.flatMap_cons, List.length_append, length_frame,
      Nat.add_assoc]

/-- When every frame in front of a closing one is read exactly, each is parsed
from its boundary. -/
theorem starts_of_parsable (parsable : ∀ f ∈ beforeClose d r state fs, Parsable d r f)
    (cut : chunks.flatten = frameStream fs) :
    starts 0 ((untilClose d r state fs).map Frame.body) <+:
      (session d r state .initial chunks).2.map Parse.start := by
  obtain ⟨es, final, follows, bodies⟩ := follows_beforeClose parsable
  obtain ⟨rest, split, reached⟩ := split_close (d := d) (r := r) state fs
  have same := frameStream_eq bodies
  rw [split, frameStream, List.flatMap_append, ← frameStream, ← same] at cut
  rw [reached, List.map_append, starts_append, ← bodies]
  cases rest with
  | nil =>
    obtain ⟨waiting, log, ran, logged, -⟩ :=
      session_frames follows IoDevice.waits_initial incomplete_nil cut
    refine ⟨[], ?_⟩
    rw [ran, logged.starts_eq, List.take_nil, List.map_nil, starts, List.append_nil, List.append_nil]
  | cons f fs =>
    rw [List.flatMap_cons] at cut
    obtain ⟨log, parse, tail, ran, logged, begins⟩ :=
      session_behind follows IoDevice.waits_initial f.length_body cut
    have length : ((es.map Incoming.body).flatMap frame).length = (frames es).length := by
      rw [List.flatMap_map]
      rfl
    rw [ran, List.map_append, logged.starts_eq, List.map_cons, begins, length, List.take_succ_cons,
      List.take_zero, List.map_cons, List.map_nil, starts, starts]
    exact (List.prefix_append_right_inj _).mpr ⟨tail.map Parse.start, rfl⟩

/-- On an idle device, a parse begins behind four bytes. -/
theorem receive_idle_start (first : (receive d r state ⟨0, bytes, position⟩).2 = parse :: log) :
    parse.start = position + 4 := by
  have taken : (⟨0, bytes, position⟩ : IoDevice).awaitFrame.2 ≠ none →
      (⟨0, bytes, position⟩ : IoDevice).awaitFrame.1.position = position + 4 := by
    rw [IoDevice.awaitFrame, IoDevice.takeSize, if_pos rfl, quint32, word_get]
    by_cases short : bytes.length < 4
    · simp only [if_pos short, Option.map_none]
      exact fun none => absurd rfl none
    · have four : bytes.length - (bytes.length - 4) = 4 := by omega
      simp only [if_neg short, Option.map_some, IoDevice.leave, List.length_drop, four]
      split
      · exact fun none => absurd rfl none
      · exact fun _ => rfl
  rw [receive_eq, iteration] at first
  split at first
  · cases first
  · rename_i dev size awaited
    rw [awaited] at taken
    obtain ⟨found, parsed, begins⟩ := handle_start (d := d) (r := r) state dev size
    simp only [parsed] at first
    have same : found = parse := by
      split at first <;> exact (List.cons.inj first).1
    rw [← same, begins, taken (by simp)]

/-- A frame behind which the next one is parsed from its boundary was read
exactly. -/
theorem parsable_of_next {dev : IoDevice} (located : dev.At start (frame f.body ++ rest))
    (next : (receive d r state dev).2.map Parse.start =
      first :: (start + 4 + f.body.length + 4) :: later) :
    Parsable d r f ∧ (receive d r state dev).2.map Parse.start = first ::
      (receive d r (after d r state f) ⟨0, rest, start + 4 + f.body.length⟩).2.map Parse.start := by
  have turn := located.awaitFrame_complete f.length_body
  obtain ⟨parse, parsed, -⟩ := handle_start (d := d) (r := r) state ⟨0, f.body ++ rest, start + 4⟩
    (UInt32.ofNat f.body.length)
  rw [receive_eq, iteration, turn] at next ⊢
  simp only [parsed, Option.toList_some] at next ⊢
  split at next
  · rename_i again
    rw [if_pos again]
    obtain ⟨x, read, -, valid, dev', state'⟩ := handle_again again
    simp only [List.singleton_append, List.map_cons, List.cons.injEq] at next ⊢
    obtain ⟨same, tail⟩ := next
    rw [dev', state'] at tail ⊢
    obtain ⟨second, log, found, begins, -⟩ := List.map_eq_cons_iff.mp tail
    have boundary := receive_idle_start found
    rw [begins] at boundary
    obtain ⟨consumed, split, repeats⟩ := readPacket_delimiting _ _ read
    have lengths := congrArg List.length split
    simp only [List.length_append] at boundary lengths
    obtain ⟨rfl, same'⟩ := List.append_inj split (by omega)
    have alone := repeats []
    rw [List.append_nil] at alone
    obtain ⟨sameType, sameName⟩ := readPacket_header alone
    have behind : start + 4 + ((f.body ++ rest).length - rest.length) =
        start + 4 + f.body.length := by
      rw [List.length_append]
      omega
    refine ⟨⟨_, alone, valid, rfl⟩, same, ?_⟩
    rw [after, sameType, sameName, IoDevice.leave, ← same']
    simp only [behind]
  · cases next

theorem parsable_of_starts {dev : IoDevice}
    (located : dev.At start (frameStream fs ++ frame next.body))
    (parsed : starts start ((untilClose d r state (fs ++ [next])).map Frame.body) <+:
      (receive d r state dev).2.map Parse.start) :
    ∀ f ∈ beforeClose d r state fs, Parsable d r f := by
  induction fs generalizing state dev start with
  | nil => exact fun f member => absurd member List.not_mem_nil
  | cons f fs ih =>
    rw [beforeClose]
    rw [List.cons_append, untilClose] at parsed
    cases continues : closes d r state f with
    | true => exact fun f member => absurd member List.not_mem_nil
    | false =>
      rw [continues] at parsed
      rw [frameStream, List.flatMap_cons, List.append_assoc, ← frameStream] at located
      -- There is a frame behind `f`, and its parse is in the log too.
      obtain ⟨g, more, reached⟩ : ∃ g more,
          untilClose d r (after d r state f) (fs ++ [next]) = g :: more := by
        cases fs <;> exact ⟨_, _, rfl⟩
      obtain ⟨tail, log⟩ := parsed
      have second := log.symm
      simp only [Bool.false_eq_true, if_false, reached, List.map_cons, starts, List.cons_append]
        at second
      obtain ⟨parsable, behind⟩ := parsable_of_next located second
      rw [behind] at log
      simp only [Bool.false_eq_true, if_false, List.map_cons, starts, List.cons_append,
        List.cons.injEq] at log
      have rest := ih IoDevice.At.idle ⟨tail, log.2⟩
      simpa only [Bool.false_eq_true, if_false, List.forall_mem_cons] using ⟨parsable, rest⟩

/-- The receiver is in sync exactly when it reads each frame in front of a
closing one to its end and not beyond. -/
theorem inSync_iff (parsable : Parsable d r next) (state : σ) (fs : List Frame) :
    InSync d r state fs ↔ ∀ f ∈ beforeClose d r state fs, Parsable d r f := by
  constructor
  · intro inSync
    have whole := inSync next parsable [frameStream (fs ++ [next])] (List.flatten_singleton)
    have stream : frameStream (fs ++ [next]) = frameStream fs ++ frame next.body := by
      simp only [frameStream, List.flatMap_append, List.flatMap_cons, List.flatMap_nil,
        List.append_nil]
    simp only [session, List.append_nil] at whole
    refine parsable_of_starts ?_ whole
    rw [stream]
    exact .idle
  · intro all g wellFormed chunks cut
    refine starts_of_parsable (fun f member => ?_) cut
    rcases mem_beforeClose_append member with before | rfl
    · exact all f before
    · exact wellFormed

end Prefixes

section Sides
variable {d} [DecidableEq S]

/-- The handshake of this protocol version as a frame. -/
def handshakeFrame (d : DataStream S B V) : Frame where
  id := PacketType.handshake.toId
  content := d.string.put d.protocolVersion
  bound := by
    have short := d.protocolVersion_short
    omega

omit [Inhabited S] [DecidableEq S] in
theorem handshakeFrame_parsable {r : Receiver σ S (Fields S B V)}
    (unread : r.body .handshake = pure .empty) : Parsable d r (handshakeFrame d) := by
  have short := d.protocolVersion_short
  have header : Reads (readHeader d) (handshakeFrame d).body (.handshake, some d.protocolVersion) :=
    reads_named d .handshake (by decide) d.protocolVersion (by omega)
  have whole : Reads (readPacket d r) (handshakeFrame d).body
      (.handshake, some d.protocolVersion, .empty) := by
    refine header.last ?_
    rw [unread]
    exact (reads_pure Fields.empty).last (reads_pure _)
  exact ⟨_, whole.exact, by simp only [ne_eq, reduceCtorEq, not_false_eq_true], rfl⟩

/-- Both loops stay in step with the frames exactly as long as every frame has a
known type and the handler of that type reads its body to the end and not beyond;
on the client this is asked of the frames in front of one that closes the
connection for want of a handshake. -/
theorem frames_inSync_iff (codec : Bool) (fs : List Frame) :
    (InSync d (clientReceiver d) codec fs ↔
      ∀ f ∈ beforeClose d (clientReceiver d) codec fs, Parsable d (clientReceiver d) f) ∧
    (InSync d (serverReceiver d) () fs ↔ ∀ f ∈ fs, Parsable d (serverReceiver d) f) := by
  refine ⟨inSync_iff (handshakeFrame_parsable rfl) codec fs, ?_⟩
  have never : beforeClose d (serverReceiver d) () fs = fs := by
    induction fs with
    | nil => rfl
    | cons f fs ih =>
      have continues : closes d (serverReceiver d) () f = false := Bool.and_false _
      rw [beforeClose, continues, if_neg Bool.false_ne_true]
      exact congrArg (f :: ·) ih
  rw [inSync_iff (handshakeFrame_parsable rfl) () fs, never]

end Sides

section Example
open QtStream

/-- A type id that no version defines, with four bytes of content. -/
def unknownFrame : Frame := ⟨12, [1, 2, 3, 4], by decide⟩

/-- The request of a client to attach, which a client does not expect. -/
def addObjectFrame : Frame where
  id := PacketType.addObject.toId
  content := stream.string.put (named "a") ++ bool.put true
  bound := by decide

/-- The source host takes the content of a frame with an unknown id, and the node
the flag of an unexpected `AddObject`, for the length of the next frame. -/
theorem rejected_frame_desyncs :
    ¬ InSync stream (serverReceiver stream) () [unknownFrame] ∧
      ¬ InSync stream (clientReceiver stream) true [addObjectFrame] := by
  refine ⟨fun inSync => ?_, fun inSync => ?_⟩
  · have log := inSync (handshakeFrame stream) (handshakeFrame_parsable rfl)
      [frameStream [unknownFrame, handshakeFrame stream]] List.flatten_singleton
    exact absurd log (by decide +kernel)
  · have log := inSync (handshakeFrame stream) (handshakeFrame_parsable rfl)
      [frameStream [addObjectFrame, handshakeFrame stream]] List.flatten_singleton
    exact absurd log (by decide +kernel)

end Example
end RemoteObjects.Device
