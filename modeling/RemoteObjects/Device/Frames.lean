import RemoteObjects.Device.Receive

/-! What the loop does to a stream of length-prefixed frames. A device that
awaits a body is described by the bytes of the unfinished frame, the length it
already took included, so that no proof has to tell the two phases apart. -/
namespace RemoteObjects.Device
open Wire Reader Packet
variable {S B V α σ : Type} [Inhabited B] {d : DataStream S B V}
variable {r : Receiver σ S α}

section Pending

/-- The device has taken `start` bytes of whole frames, and `bytes` have arrived
behind them. -/
inductive IoDevice.At : IoDevice → Nat → List UInt8 → Prop
  | idle : At ⟨0, bytes, start⟩ start bytes
  | sized : n ≠ 0 → At ⟨n, rest, start + 4⟩ start (quint32.put n ++ rest)

/-- A proper beginning of some frame. -/
def Incomplete (bytes : List UInt8) : Prop :=
  ∃ body : List UInt8, body.length < 2 ^ 32 ∧ bytes <+: frame body ∧
    bytes.length < (frame body).length

theorem incomplete_nil : Incomplete [] :=
  ⟨[], by decide, List.nil_prefix, by simp only [length_frame, List.length_nil]; omega⟩

/-- Nothing more can be done before further bytes arrive: of an incomplete frame,
the length has been taken as soon as it was there. -/
structure IoDevice.Waits (dev : IoDevice) (start : Nat) (bytes : List UInt8) : Prop where
  located : dev.At start bytes
  incomplete : Incomplete bytes
  taken : dev.curReadSize = 0 ↔ bytes.length < 4

theorem IoDevice.waits_initial : IoDevice.initial.Waits 0 [] where
  located := .idle
  incomplete := incomplete_nil
  taken := by decide

theorem IoDevice.At.arrive {dev : IoDevice} (located : dev.At start bytes) (chunk : List UInt8) :
    (dev.arrive chunk).At start (bytes ++ chunk) := by
  cases located with
  | idle => exact .idle
  | sized nonzero =>
    rw [List.append_assoc]
    exact .sized nonzero

variable {bytes body rest : List UInt8}

theorem quint32_get (n : UInt32) (rest : List UInt8) :
    quint32.get (quint32.put n ++ rest) = some ⟨n, true, rest⟩ :=
  quint32.reads n (by rw [length_put_quint32]; decide) rest

theorem quint32_get_short (short : bytes.length < 4) : quint32.get bytes = none := by
  rw [quint32, word_get, if_pos short]

/-- With the length prefix complete, `read()` looks for the body behind it. -/
theorem IoDevice.At.takeSize {dev : IoDevice} (located : dev.At start (quint32.put n ++ bytes)) :
    dev.takeSize = some ⟨n, bytes, start + 4⟩ := by
  generalize same : quint32.put n ++ bytes = pending at located
  cases located with
  | idle =>
    subst same
    have taken : start + ((quint32.put n ++ bytes).length - bytes.length) = start + 4 := by
      rw [List.length_append, length_put_quint32]
      omega
    simp only [IoDevice.takeSize, if_true, quint32_get, Option.map_some, IoDevice.leave, taken]
  | @sized m rest _ nonzero =>
    obtain ⟨sameSize, rfl⟩ := List.append_inj same (by rw [length_put_quint32, length_put_quint32])
    have size := quint32_get m []
    rw [← sameSize, quint32_get n []] at size
    obtain rfl := congrArg Item.value (Option.some.inj size)
    rw [IoDevice.takeSize, if_neg nonzero]

theorem frame_size (bound : body.length < 2 ^ 32) :
    (UInt32.ofNat body.length).toNat = body.length :=
  UInt32.toNat_ofNat_of_lt' bound

theorem IoDevice.At.awaitFrame_complete {dev : IoDevice}
    (located : dev.At start (frame body ++ rest)) (bound : body.length < 2 ^ 32) :
    dev.awaitFrame = (⟨0, body ++ rest, start + 4⟩, some (UInt32.ofNat body.length)) := by
  rw [frame, List.append_assoc] at located
  have enough : ¬ (body ++ rest).length < (UInt32.ofNat body.length).toNat := by
    rw [frame_size bound, List.length_append]
    omega
  simp only [IoDevice.awaitFrame, located.takeSize, if_neg enough]

theorem IoDevice.At.awaitFrame_incomplete {dev : IoDevice} (located : dev.At start bytes)
    (incomplete : Incomplete bytes) :
    ∃ waiting, dev.awaitFrame = (waiting, none) ∧ waiting.Waits start bytes := by
  obtain ⟨body, bound, ⟨missing, split⟩, shorter⟩ := id incomplete
  by_cases short : bytes.length < 4
  · cases located with
    | idle =>
      refine ⟨_, ?_, .idle, incomplete, by simp only [short]⟩
      simp only [IoDevice.awaitFrame, IoDevice.takeSize, if_true, quint32_get_short short,
        Option.map_none]
    | sized => simp only [List.length_append, length_put_quint32] at short; omega
  · -- The prefix is complete, so the bytes behind it are a proper prefix of the body.
    obtain ⟨more, rfl, rest⟩ : ∃ more, bytes = quint32.put (UInt32.ofNat body.length) ++ more ∧
        more ++ missing = body := by
      have cut : bytes.take 4 = quint32.put (UInt32.ofNat body.length) ∧
          bytes.drop 4 ++ missing = body :=
        List.append_inj (by rw [← List.append_assoc, List.take_append_drop, split, frame])
          (by rw [List.length_take_of_le (by omega), length_put_quint32])
      exact ⟨bytes.drop 4, by rw [← cut.1, List.take_append_drop], cut.2⟩
    have few : more.length < (UInt32.ofNat body.length).toNat := by
      simp only [List.length_append, length_frame, length_put_quint32] at shorter
      rw [frame_size bound]
      omega
    have nonzero : UInt32.ofNat body.length ≠ 0 := by
      intro zero
      rw [zero] at few
      exact Nat.not_lt_zero _ few
    refine ⟨⟨UInt32.ofNat body.length, more, start + 4⟩, ?_, .sized nonzero, incomplete,
      by simp only [nonzero, short]⟩
    simp only [IoDevice.awaitFrame, located.takeSize, if_pos few]

end Pending

section Bodies
variable (d) in
/-- `fromDataStream` on a stream that does not end within it. -/
def readHeader : Reader UInt8 (PacketType × Option S) := do
  let id ← quint16.get
  let type := PacketType.ofId id
  if type = .invalid ∨ type = .objectList then pure (type, none)
  else do
    let name ← d.string.get
    pure (type, some name)

variable (d r) in
/-- Type, name and what the handler reads, one after the other. -/
def readPacket : Reader UInt8 (PacketType × Option S × α) := do
  let header ← readHeader d
  let value ← r.body header.1
  pure (header.1, header.2, value)

theorem readHeader_delimiting : SelfDelimiting (readHeader d) := by
  refine quint16.delimiting.bind fun id => ?_
  simp only
  split
  · exact .pure _
  · exact d.string.delimiting.bind fun _ => .pure _

theorem readPacket_delimiting : SelfDelimiting (readPacket d r) :=
  readHeader_delimiting.bind fun header => (r.delimiting header.1).bind fun _ => .pure _

variable (d r) in
/-- The handlers of `r` read the body to its very end, in a state in which they
accept its type. -/
structure Readable (state : σ) (body : List UInt8) (type : PacketType) (name : Option S)
    (value : α) : Prop where
  bound : body.length < 2 ^ 32
  valid : type ≠ .invalid
  continues : r.stops state type = false
  reads : ∃ ok, readPacket d r body = some ⟨(type, name, value), ok, []⟩

variable [Inhabited S]

theorem extract_none [Inhabited α] {reader : Reader UInt8 α} (ended : reader bytes = none) :
    extract reader bytes = (default, []) := by
  rw [extract, ended]

theorem extract_some [Inhabited α] {reader : Reader UInt8 α} (read : reader bytes = some x) :
    extract reader bytes = (x.value, x.rest) := by
  rw [extract, read]

theorem fromDataStream_some (read : readHeader d bytes = some x) :
    fromDataStream d bytes = ⟨x.value.1, x.value.2, x.rest⟩ := by
  obtain ⟨id, last, readId, behind, rfl⟩ := bind_eq_some.mp read
  simp only [fromDataStream, extract_some readId]
  split at behind
  · rename_i nameless
    obtain rfl := Option.some.inj behind
    rw [if_pos nameless]
  · rename_i named
    obtain ⟨name, _, readName, done, rfl⟩ := bind_eq_some.mp behind
    obtain rfl := Option.some.inj done
    rw [if_neg named, extract_some readName]

/-- A header that runs past the end leaves nothing. -/
theorem fromDataStream_none (ended : readHeader d bytes = none) :
    (fromDataStream d bytes).rest = [] := by
  rw [readHeader, bind_apply] at ended
  cases readId : quint16.get bytes with
  | none =>
    simp only [fromDataStream, extract_none readId]
    have invalid : PacketType.ofId default = .invalid := by decide
    rw [if_pos (.inl invalid)]
  | some x =>
    simp only [fromDataStream, extract_some readId]
    simp only [readId, Option.bind_some, Option.map_eq_none_iff] at ended
    split at ended
    · contradiction
    · rename_i named
      rw [if_neg named]
      cases readName : d.string.get x.rest with
      | none => rw [extract_none readName]
      | some y =>
        rw [bind_apply, readName] at ended
        contradiction

/-- The header is part of what `readPacket` reads. -/
theorem readPacket_header (read : readPacket d r bytes = some x) :
    (fromDataStream d bytes).type = x.value.1 ∧ (fromDataStream d bytes).name = x.value.2.1 := by
  obtain ⟨header, y, first, behind, rfl⟩ := bind_eq_some.mp read
  obtain ⟨value, z, second, done, rfl⟩ := bind_eq_some.mp behind
  obtain rfl := Option.some.inj done
  rw [fromDataStream_some first]
  exact ⟨rfl, rfl⟩

theorem handle_start (state : σ) (dev : IoDevice) (size : UInt32) :
    ∃ parse, (handle d r state dev size).parse = some parse ∧ parse.start = dev.position := by
  simp only [handle]
  split
  · exact ⟨_, rfl, rfl⟩
  · split <;> exact ⟨_, rfl, rfl⟩

/-- The loop goes on only behind a packet that was read without running out of
bytes. -/
theorem handle_again {dev : IoDevice} (again : (handle d r state dev size).again = true) :
    ∃ x, readPacket d r dev.available = some x ∧ x.rest ≠ [] ∧ x.value.1 ≠ .invalid ∧
      (handle d r state dev size).dev = dev.leave x.rest ∧
      (handle d r state dev size).state = r.next state x.value.1 x.value.2.1 := by
  simp only [handle] at again ⊢
  split at again
  · contradiction
  · rename_i continues
    rw [if_neg continues]
    split at again
    · contradiction
    · rename_i x body
      have more : x.rest ≠ [] := by simpa using again
      cases header : readHeader d dev.available with
      | none =>
        have fewer : x.rest.length ≤ _ := (r.delimiting _).length_le body
        rw [fromDataStream_none header] at fewer
        exact absurd (List.eq_nil_of_length_eq_zero (Nat.le_zero.mp fewer)) more
      | some y =>
        simp only [fromDataStream_some header] at continues body ⊢
        refine ⟨⟨(y.value.1, y.value.2, x.value), y.ok && (x.ok && true), x.rest⟩,
          ?_, more, fun invalid => continues (.inl invalid), rfl, rfl⟩
        exact bind_eq_some.mpr ⟨y, _, header, bind_eq_some.mpr ⟨x, _, body, rfl, rfl⟩, rfl⟩

theorem Readable.handle (readable : Readable d r state body type name value)
    (rest : List UInt8) (start : Nat) (counted : UInt32) :
    handle d r state ⟨0, body ++ rest, start⟩ counted =
      ⟨r.next state type name, ⟨0, rest, start + body.length⟩,
        some ⟨start, counted.toNat, body.length + rest.length, type, name, some value,
          start + body.length⟩, !rest.isEmpty⟩ := by
  obtain ⟨bound, valid, continues, ok, reads⟩ := readable
  obtain ⟨⟨⟨type', name'⟩, okHeader, middle⟩, x, header, behind, same⟩ := bind_eq_some.mp reads
  obtain ⟨⟨value', okFields, last⟩, y, fields, done, rfl⟩ := bind_eq_some.mp behind
  obtain rfl := Option.some.inj done
  simp only [Item.mk.injEq, Prod.mk.injEq] at same
  obtain ⟨⟨rfl, rfl, rfl⟩, -, rfl⟩ := same
  have headerMore := readHeader_delimiting.append header rest
  have fieldsMore := (r.delimiting type).append fields rest
  simp only [Device.handle, fromDataStream_some headerMore, continues, Bool.false_eq_true, or_false,
    if_neg valid, fieldsMore, List.nil_append, IoDevice.leave, parsed, List.length_append,
    Nat.add_sub_cancel]

end Bodies

section Streams

/-- A frame's body and what the handler is to get out of it. -/
structure Incoming (S α : Type) where
  body : List UInt8
  type : PacketType
  name : Option S
  value : α

variable (d r) in
/-- A sequence of bodies that the handlers read one after the other. -/
inductive Follows : σ → List (Incoming S α) → σ → Prop
  | nil : Follows state [] state
  | cons : Readable d r state e.body e.type e.name e.value →
      Follows (r.next state e.type e.name) es last → Follows state (e :: es) last

def Parse.packet (p : Parse S α) : PacketType × Option S × Option α :=
  (p.type, p.name, p.fields)

/-- The log of frames that begin at `start`: each is parsed in its place, once
and in order, after all its bytes have arrived. -/
inductive Logged : Nat → List (Incoming S α) → List (Parse S α) → Prop
  | nil : Logged start [] []
  | cons : p.start = start + 4 → p.stop = start + 4 + e.body.length →
      p.counted = e.body.length → p.counted ≤ p.arrived →
      p.packet = (e.type, e.name, some e.value) →
      Logged (start + 4 + e.body.length) es log → Logged start (e :: es) (p :: log)

def frames (es : List (Incoming S α)) : List UInt8 :=
  es.flatMap fun e => frame e.body

@[simp] theorem frames_cons (e : Incoming S α) (es : List (Incoming S α)) :
    frames (e :: es) = frame e.body ++ frames es := rfl

@[simp] theorem frames_append (es fs : List (Incoming S α)) :
    frames (es ++ fs) = frames es ++ frames fs := List.flatMap_append

theorem Logged.append {es fs : List (Incoming S α)} {log more : List (Parse S α)}
    (first : Logged start es log) (last : Logged (start + (frames es).length) fs more) :
    Logged start (es ++ fs) (log ++ more) := by
  induction first with
  | nil => exact last
  | cons begins ends counted arrived packet _ ih =>
    refine .cons begins ends counted arrived packet (ih ?_)
    simpa only [frames_cons, List.length_append, length_frame, Nat.add_assoc] using last

theorem Logged.packets {es : List (Incoming S α)} {log : List (Parse S α)}
    (logged : Logged start es log) :
    log.map Parse.packet = es.map fun e => (e.type, e.name, some e.value) := by
  induction logged with
  | nil => rfl
  | cons _ _ _ _ packet _ ih => rw [List.map_cons, List.map_cons, packet, ih]

theorem Logged.arrived {es : List (Incoming S α)} {log : List (Parse S α)}
    (logged : Logged start es log) : ∀ p ∈ log, p.counted ≤ p.arrived := by
  induction logged with
  | nil => exact fun p member => absurd member List.not_mem_nil
  | cons _ _ _ arrived _ _ ih => exact List.forall_mem_cons.mpr ⟨arrived, ih⟩

theorem Follows.split {es fs : List (Incoming S α)} (whole : Follows d r state (es ++ fs) final) :
    ∃ middle, Follows d r state es middle ∧ Follows d r middle fs final := by
  induction es generalizing state with
  | nil => exact ⟨state, .nil, whole⟩
  | cons e es ih =>
    cases whole with
    | cons readable tail =>
      obtain ⟨middle, first, last⟩ := ih tail
      exact ⟨middle, .cons readable first, last⟩

theorem Follows.bounds {es : List (Incoming S α)} (follows : Follows d r state es final) :
    ∀ e ∈ es, e.body.length < 2 ^ 32 := by
  induction follows with
  | nil => exact fun e member => absurd member List.not_mem_nil
  | cons readable _ ih => exact List.forall_mem_cons.mpr ⟨readable.bound, ih⟩

/-- Bytes that hold a whole frame are not the beginning of another one: the two
lengths would differ. -/
theorem not_incomplete_frame (bound : body.length < 2 ^ 32) :
    ¬ Incomplete (frame body ++ rest) := by
  rintro ⟨other, otherBound, ⟨missing, same⟩, shorter⟩
  have prefixes := congrArg quint32.get same
  simp only [frame, List.append_assoc, quint32_get, Option.some.injEq, Item.mk.injEq] at prefixes
  have lengths := congrArg UInt32.toNat prefixes.1
  rw [frame_size bound, frame_size otherBound] at lengths
  simp only [List.length_append, length_frame] at shorter
  omega

theorem Incomplete.of_prefix (incomplete : Incomplete bytes) (isPrefix : left <+: bytes) :
    Incomplete left := by
  obtain ⟨body, bound, begins, shorter⟩ := incomplete
  exact ⟨body, bound, isPrefix.trans begins, Nat.lt_of_le_of_lt isPrefix.length_le shorter⟩

theorem incomplete_of_short (bound : body.length < 2 ^ 32)
    (stream : left ++ rest = frame body ++ more) (short : left.length < (frame body).length) :
    Incomplete left :=
  ⟨body, bound, List.prefix_of_prefix_length_le ⟨rest, stream⟩ ⟨more, rfl⟩ (Nat.le_of_lt short),
    short⟩

theorem frame_prefix (stream : left ++ rest = frame body ++ more)
    (long : ¬ left.length < (frame body).length) : ∃ behind, left = frame body ++ behind := by
  obtain ⟨behind, rfl⟩ : frame body <+: left :=
    List.prefix_of_prefix_length_le ⟨more, rfl⟩ ⟨rest, stream⟩ (by omega)
  exact ⟨behind, rfl⟩

/-- Bytes that end inside a stream of frames are some whole frames and a proper
beginning of the next one, unless they reach behind all frames. -/
theorem split_frames {es : List (Incoming S α)} (bounds : ∀ e ∈ es, e.body.length < 2 ^ 32)
    (stream : bytes ++ rest = frames es ++ tail) :
    ∃ done todo left, es = done ++ todo ∧ bytes = frames done ++ left ∧
      left ++ rest = frames todo ++ tail ∧ (todo = [] ∨ Incomplete left) := by
  induction es generalizing bytes with
  | nil => exact ⟨[], [], bytes, rfl, rfl, stream, .inl rfl⟩
  | cons e es ih =>
    rw [frames_cons, List.append_assoc] at stream
    by_cases short : bytes.length < (frame e.body).length
    · refine ⟨[], e :: es, bytes, rfl, rfl, ?_, .inr ?_⟩
      · rw [stream, frames_cons, List.append_assoc]
      · exact incomplete_of_short (bounds e List.mem_cons_self) stream short
    · obtain ⟨more, rfl⟩ := frame_prefix stream short
      rw [List.append_assoc, List.append_cancel_left_eq] at stream
      obtain ⟨done, todo, left, rfl, rfl, same, unfinished⟩ :=
        ih (fun e member => bounds e (List.mem_cons_of_mem _ member)) stream
      exact ⟨e :: done, todo, left, rfl, (List.append_assoc ..).symm, same, unfinished⟩

/-- The same when only the beginning of a further frame comes behind. -/
theorem split_frames_incomplete {es : List (Incoming S α)}
    (bounds : ∀ e ∈ es, e.body.length < 2 ^ 32) (ending : Incomplete tail)
    (stream : bytes ++ rest = frames es ++ tail) :
    ∃ done todo left, es = done ++ todo ∧ bytes = frames done ++ left ∧
      left ++ rest = frames todo ++ tail ∧ Incomplete left := by
  obtain ⟨done, todo, left, split, taken, same, rfl | incomplete⟩ := split_frames bounds stream
  · exact ⟨done, [], left, split, taken, same, ending.of_prefix ⟨rest, same⟩⟩
  · exact ⟨done, todo, left, split, taken, same, incomplete⟩

end Streams

section Loop
variable [Inhabited S]

theorem receive_incomplete {dev : IoDevice} (located : dev.At start bytes)
    (incomplete : Incomplete bytes) (state : σ) :
    ∃ waiting, receive d r state dev = ((state, waiting), []) ∧ waiting.Waits start bytes := by
  obtain ⟨waiting, awaits, waits⟩ := located.awaitFrame_incomplete incomplete
  refine ⟨waiting, ?_, waits⟩
  rw [receive_eq, iteration, awaits]
  rfl

theorem receive_empty (state : σ) (start : Nat) :
    receive d r state ⟨0, [], start⟩ = ((state, ⟨0, [], start⟩), []) := by
  have idle : (⟨0, [], start⟩ : IoDevice).awaitFrame = (⟨0, [], start⟩, none) := rfl
  rw [receive_eq, iteration, idle]
  rfl

/-- A readable frame is handled, and the loop goes on behind it. -/
theorem receive_frame {dev : IoDevice} {e : Incoming S α}
    (located : dev.At start (frame e.body ++ rest))
    (readable : Readable d r state e.body e.type e.name e.value) :
    ∃ parse, (∀ {es log}, Logged (start + 4 + e.body.length) es log →
        Logged start (e :: es) (parse :: log)) ∧
      receive d r state dev =
        ((receive d r (r.next state e.type e.name) ⟨0, rest, start + 4 + e.body.length⟩).1,
          parse :: (receive d r (r.next state e.type e.name)
            ⟨0, rest, start + 4 + e.body.length⟩).2) := by
  have handled := readable.handle rest (start + 4) (UInt32.ofNat e.body.length)
  refine ⟨⟨start + 4, (UInt32.ofNat e.body.length).toNat, e.body.length + rest.length, e.type,
    e.name, some e.value, start + 4 + e.body.length⟩, ?_, ?_⟩
  · intro es log logged
    refine .cons rfl rfl (frame_size readable.bound) ?_ rfl logged
    rw [frame_size readable.bound]
    exact Nat.le_add_right _ _
  · rw [receive_eq, iteration, located.awaitFrame_complete readable.bound]
    simp only [handled]
    cases rest with
    | cons byte rest => rfl
    | nil =>
      -- Nothing is left: the pass that `bytesAvailable` saves would change nothing.
      rw [receive_empty]
      rfl

/-- The loop handles all whole frames and then what is behind them. -/
theorem receive_frames {dev : IoDevice} {es : List (Incoming S α)}
    (follows : Follows d r state es final) (located : dev.At start (frames es ++ rest)) :
    ∃ dev' log, receive d r state dev =
        ((receive d r final dev').1, log ++ (receive d r final dev').2) ∧
      Logged start es log ∧ dev'.At (start + (frames es).length) rest := by
  induction follows generalizing dev start with
  | nil => exact ⟨dev, [], rfl, .nil, located⟩
  | @cons state es final e readable _ ih =>
    rw [frames_cons, List.append_assoc] at located
    have next : (⟨0, frames es ++ rest, start + 4 + e.body.length⟩ : IoDevice).At _ _ := .idle
    obtain ⟨dev', log, behind, logged, at_rest⟩ := ih next
    obtain ⟨parse, begins, received⟩ := receive_frame located readable
    refine ⟨dev', parse :: log, ?_, begins logged, ?_⟩
    · rw [received, behind]
      rfl
    · simpa only [frames_cons, List.length_append, length_frame, Nat.add_assoc] using at_rest

/-- The beginning of the next frame is kept. -/
theorem receive_frames_incomplete {dev : IoDevice} {es : List (Incoming S α)}
    (follows : Follows d r state es final) (located : dev.At start (frames es ++ left))
    (incomplete : Incomplete left) :
    ∃ waiting log, receive d r state dev = ((final, waiting), log) ∧ Logged start es log ∧
      waiting.Waits (start + (frames es).length) left := by
  obtain ⟨dev', log, received, logged, at_rest⟩ := receive_frames follows located
  obtain ⟨waiting, last, waits⟩ := receive_incomplete (d := d) (r := r) at_rest incomplete final
  refine ⟨waiting, log, ?_, logged, waits⟩
  rw [received, last, List.append_nil]

/-- However a stream of readable frames and the beginning of a further one is cut
into chunks, the handlers see the same packets. -/
theorem session_frames {dev : IoDevice} {es : List (Incoming S α)} {chunks : List (List UInt8)}
    (follows : Follows d r state es final) (waits : dev.Waits start left)
    (ending : Incomplete tail) (stream : left ++ chunks.flatten = frames es ++ tail) :
    ∃ waiting log, session d r state dev chunks = ((final, waiting), log) ∧
      Logged start es log ∧ waiting.Waits (start + (frames es).length) tail := by
  induction chunks generalizing state dev start left es with
  | nil =>
    rw [List.flatten_nil, List.append_nil] at stream
    cases follows with
    | nil =>
      obtain rfl : left = tail := stream
      exact ⟨dev, [], rfl, .nil, waits⟩
    | cons readable tail =>
      have incomplete := waits.incomplete
      rw [stream, frames_cons, List.append_assoc] at incomplete
      exact absurd incomplete (not_incomplete_frame readable.bound)
  | cons chunk chunks ih =>
    rw [List.flatten_cons, ← List.append_assoc] at stream
    obtain ⟨done, todo, more, rfl, split, same, unfinished⟩ :=
      split_frames_incomplete follows.bounds ending stream
    obtain ⟨middle, first, last⟩ := follows.split
    have arrived := waits.located.arrive chunk
    rw [split] at arrived
    obtain ⟨waiting, log, received, logged, waits⟩ :=
      receive_frames_incomplete first arrived unfinished
    obtain ⟨waiting', log', rest, logged', waits'⟩ := ih last waits same
    refine ⟨waiting', log ++ log', ?_, logged.append logged', ?_⟩
    · simp only [session, received, rest]
    · simpa only [frames_append, List.length_append, Nat.add_assoc] using waits'

theorem receive_start {dev : IoDevice} (located : dev.At start (frame body ++ rest))
    (bound : body.length < 2 ^ 32) (state : σ) :
    ∃ parse log, (receive d r state dev).2 = parse :: log ∧ parse.start = start + 4 := by
  obtain ⟨parse, parsed, begins⟩ := handle_start (d := d) (r := r) state
    ⟨0, body ++ rest, start + 4⟩ (UInt32.ofNat body.length)
  rw [receive_eq, iteration, located.awaitFrame_complete bound]
  simp only [parsed]
  split
  · exact ⟨parse, _, rfl, begins⟩
  · exact ⟨parse, [], rfl, begins⟩

/-- Behind readable frames, the next whole frame is parsed from its boundary,
whatever it holds. -/
theorem session_behind {dev : IoDevice} {es : List (Incoming S α)} {chunks : List (List UInt8)}
    (follows : Follows d r state es final) (waits : dev.Waits start left)
    (bound : body.length < 2 ^ 32)
    (stream : left ++ chunks.flatten = frames es ++ (frame body ++ more)) :
    ∃ log parse tail, (session d r state dev chunks).2 = log ++ parse :: tail ∧
      Logged start es log ∧ parse.start = start + (frames es).length + 4 := by
  induction chunks generalizing state dev start left es with
  | nil =>
    rw [List.flatten_nil, List.append_nil] at stream
    have incomplete := waits.incomplete
    rw [stream] at incomplete
    cases follows with
    | nil => exact absurd incomplete (not_incomplete_frame bound)
    | cons readable tail =>
      rw [frames_cons, List.append_assoc] at incomplete
      exact absurd incomplete (not_incomplete_frame readable.bound)
  | cons chunk chunks ih =>
    rw [List.flatten_cons, ← List.append_assoc] at stream
    obtain ⟨done, todo, beyond, rfl, split, same, unfinished⟩ := split_frames follows.bounds stream
    obtain ⟨middle, first, last⟩ := follows.split
    have arrived := waits.located.arrive chunk
    rw [split] at arrived
    have cases : Incomplete beyond ∨ todo = [] ∧ ∃ behind, beyond = frame body ++ behind := by
      rcases unfinished with rfl | incomplete
      · by_cases short : beyond.length < (frame body).length
        · exact .inl (incomplete_of_short bound same short)
        · exact .inr ⟨rfl, frame_prefix same short⟩
      · exact .inl incomplete
    rcases cases with incomplete | ⟨rfl, behind, rfl⟩
    · obtain ⟨waiting, log, received, logged, waits⟩ :=
        receive_frames_incomplete first arrived incomplete
      obtain ⟨log', parse, tail, rest, logged', begins⟩ := ih last waits same
      refine ⟨log ++ log', parse, tail, ?_, logged.append logged', ?_⟩
      · simp only [session, received, rest, List.append_assoc]
      · rw [begins, frames_append, List.length_append, Nat.add_assoc start]
    · obtain ⟨dev', log, received, logged, at_rest⟩ := receive_frames first arrived
      obtain ⟨parse, tail, next, begins⟩ := receive_start (d := d) (r := r) at_rest bound middle
      let last := (receive d r middle dev').1
      rw [List.append_nil]
      refine ⟨log, parse, tail ++ (session d r last.1 last.2 chunks).2, ?_, logged, begins⟩
      simp only [session, received, next, List.append_assoc, List.cons_append, last]

end Loop
end RemoteObjects.Device
