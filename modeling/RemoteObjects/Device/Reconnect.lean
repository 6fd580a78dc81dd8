import RemoteObjects.Device.RoundTrip
import RemoteObjects.Transition

/-! One client device over several connection sessions. Losing the link aborts
the socket and drops what it had buffered; connecting again gives the socket to
the data stream anew. The awaited length is in neither, and stays. -/
namespace RemoteObjects.Device
open Wire Reader Packet Transition
variable {S B V : Type} [Inhabited B] (d : DataStream S B V)

namespace IoDevice

/-- `m_socket->abort()` when the link is lost. -/
def abort (dev : IoDevice) : IoDevice := { dev with available := [] }

/-- `setDevice` and `resetStatus` of the data stream on the new connection, whose
bytes are counted from zero. -/
def initializeDataStream (dev : IoDevice) : IoDevice := { dev with position := 0 }

end IoDevice

/-- One session: what the peer's codec wrote to it, and the chunks in which a
part of that arrived before the link was lost. -/
structure Link (S B V : Type) [Inhabited B] (d : DataStream S B V) where
  contents : List (Content S B V)
  chunks : List (List UInt8)
  bounds : ∀ c ∈ contents, (bodyBytes d c).length < 2 ^ 32
  received : chunks.flatten <+: payloadBytes d contents

/-- How many of `n` bytes lie behind the last whole frame. -/
def unfinished : List (Content S B V) → Nat → Nat
  | [], n => n
  | c :: cs, n =>
    let size := (frame (bodyBytes d c)).length
    if n < size then n else unfinished cs (n - size)

/-- The bytes of an unfinished frame that were there when the link was lost. -/
def Link.cut (link : Link S B V d) : Nat := unfinished d link.contents link.chunks.flatten.length

variable [Inhabited S]

/-- A session from its first read to the first read of the next one. -/
def reconnect (dev : IoDevice) (link : Link S B V d) : Option IoDevice :=
  some (session d (codecReceiver d) () dev link.chunks).1.2.abort.initializeDataStream

/-- The first read looks for a length prefix, and the session is decoded as it
would be on a new device. -/
def DecodedAfresh (dev : IoDevice) (link : Link S B V d) : Prop :=
  dev.curReadSize = 0 ∧
    (session d (codecReceiver d) () dev link.chunks).2 =
      (session d (codecReceiver d) () .initial link.chunks).2

section Sessions
variable {d}

omit [Inhabited S] in
theorem cut_eq {done todo : List (Content S B V)}
    (bounds : ∀ c ∈ todo, (bodyBytes d c).length < 2 ^ 32)
    (starts : left ++ rest = payloadBytes d todo) (incomplete : Incomplete left) :
    unfinished d (done ++ todo) (payloadBytes d done ++ left).length = left.length := by
  induction done with
  | nil =>
    cases todo with
    | nil =>
      have empty := congrArg List.length starts
      simp only [payloadBytes, List.flatMap_nil, List.nil_append, List.length_append,
        List.length_nil] at empty ⊢
      exact rfl
    | cons c cs =>
      have shorter : left.length < (frame (bodyBytes d c)).length := by
        by_contra long
        have begins : frame (bodyBytes d c) <+: left :=
          List.prefix_of_prefix_length_le ⟨payloadBytes d cs, rfl⟩ ⟨rest, starts⟩ (by omega)
        obtain ⟨more, rfl⟩ := begins
        exact not_incomplete_frame (bounds c List.mem_cons_self) incomplete
      simp only [payloadBytes, List.flatMap_nil, List.nil_append, unfinished, if_pos shorter]
  | cons c cs ih =>
    have whole : (payloadBytes d (c :: cs) ++ left).length =
        (frame (bodyBytes d c)).length + (payloadBytes d cs ++ left).length := by
      simp only [payloadBytes, List.flatMap_cons, List.length_append, Nat.add_assoc]
    have long : ¬ (frame (bodyBytes d c)).length + (payloadBytes d cs ++ left).length <
        (frame (bodyBytes d c)).length := by omega
    rw [whole, List.cons_append, unfinished]
    simp only [if_neg long, Nat.add_sub_cancel_left]
    exact ih

/-- After a session on a fresh device, a length is awaited exactly when at least
its four bytes had arrived. -/
theorem curReadSize_session (link : Link S B V d) :
    (session d (codecReceiver d) () .initial link.chunks).1.2.curReadSize = 0 ↔ link.cut < 4 := by
  obtain ⟨rest, received⟩ := link.received
  have stream : link.chunks.flatten ++ rest = frames (link.contents.map (incoming d)) ++ [] := by
    rw [received, frames_incoming, List.append_nil]
  have follows := follows_incoming d link.bounds
  obtain ⟨done, todo, left, split, bytes, starts, incomplete⟩ :=
    split_frames_incomplete follows.bounds incomplete_nil stream
  obtain ⟨done, todo, contents, rfl, rfl⟩ := List.map_eq_append_iff.mp split
  rw [contents, List.map_append] at follows
  obtain ⟨state, first, -⟩ := follows.split
  obtain ⟨waiting, log, ran, -, waits⟩ := session_frames first IoDevice.waits_initial incomplete
    (by rw [List.nil_append, bytes])
  have bounds : ∀ c ∈ todo, (bodyBytes d c).length < 2 ^ 32 := fun c member =>
    link.bounds c (contents ▸ List.mem_append_right done member)
  rw [frames_incoming] at bytes starts
  rw [List.append_nil] at starts
  rw [ran, Link.cut, bytes, contents, cut_eq bounds starts incomplete]
  exact waits.taken

theorem reconnect_initial (link : Link S B V d) (cut : link.cut < 4) :
    reconnect d .initial link = some .initial := by
  have size := (curReadSize_session link).mpr cut
  rw [reconnect, IoDevice.abort, IoDevice.initializeDataStream, size]
  rfl

/-- Every session is decoded as if it were the first one exactly when no session
but the last is lost inside of a frame whose length has arrived. -/
theorem sessions_afresh_iff (links : List (Link S B V d)) :
    Admitted (reconnect d) (DecodedAfresh d) .initial links ↔
      ∀ link ∈ links.dropLast, link.cut < 4 := by
  induction links with
  | nil => simp [Admitted]
  | cons link links ih =>
    have first : DecodedAfresh d .initial link := ⟨rfl, rfl⟩
    cases links with
    | nil => simp [Admitted, first]
    | cons next links =>
      simp only [Admitted, List.dropLast_cons_cons, List.forall_mem_cons] at ih ⊢
      constructor
      · rintro ⟨-, later⟩
        have afresh := later _ rfl
        have cut := (curReadSize_session link).mp afresh.1.1
        rw [Option.some.inj (reconnect_initial link cut)] at afresh
        exact ⟨cut, ih.mp afresh⟩
      · rintro ⟨cut, rest⟩
        refine ⟨first, fun dev again => ?_⟩
        rw [reconnect_initial link cut] at again
        obtain rfl := Option.some.inj again
        exact ih.mpr rest

end Sessions

section Example
open QtStream

def pingA : List (Content QString QByteArray Int32) := [.ping (named "a")]

/-- The link is lost right behind the length prefix of a ping. -/
def lostInFrame : Link QString QByteArray Int32 stream where
  contents := pingA
  chunks := [(payloadBytes stream pingA).take 4]
  bounds := by decide
  received := by rw [List.flatten_singleton]; exact List.take_prefix _ _

def undisturbed : Link QString QByteArray Int32 stream where
  contents := pingA
  chunks := [payloadBytes stream pingA]
  bounds := by decide
  received := ⟨[], by rw [List.append_nil, List.flatten_singleton]⟩

/-- On the next connection the stale length swallows the new length prefix: the
ping is taken for a property change. -/
theorem lostInFrame_decodes_wrongly :
    ¬ Admitted (reconnect stream) (DecodedAfresh stream) .initial [lostInFrame, undisturbed] ∧
      ∃ dev, reconnect stream .initial lostInFrame = some dev ∧
        (session stream (codecReceiver stream) () dev undisturbed.chunks).2.map Parse.type =
          [.propertyChangePacket] := by
  refine ⟨fun afresh => ?_, _, rfl, by decide +kernel⟩
  exact absurd (afresh.2 _ rfl).1.1 (by decide +kernel)

end Example
end RemoteObjects.Device
