import RemoteObjects.Device.RoundTrip
import RemoteObjects.Transition

/-! Programs that exchange packets. What they reach when their packets go over the connections as bytes, which arrive in any
chunks, is what they reach when each packet is handed over as a whole. -/
namespace RemoteObjects.Device
open Wire Reader Packet Transition

/-- A packet as the loop has it for its handler. -/
abbrev Received (S B V : Type) [Inhabited B] := PacketType × Option S × Option (Fields S B V)

section Model
variable (σ E C K S B V : Type) [Inhabited B]

/-- The packets of a payload, which a codec sends to connections. -/
abbrev Sending := C × List K × List (Content S B V)

/-- What nodes and hosts do of their own, and for a packet that comes over a connection. `K` are the directions of the
connections, `C` the codecs. -/
structure Program where
  act : σ → E → Option (σ × List (Sending C K S B V))
  handler : σ → K → Received S B V → σ × List (Sending C K S B V)

/-- The packets that are under way. -/
structure PacketState where
  state : σ
  packets : K → List (Content S B V)

inductive PacketEvent
  | act (e : E)
  | receive (k : K)

/-- The bytes that are under way, and the two ends of the connections. -/
structure ByteState where
  state : σ
  codecs : C → DataStreamPacket
  bytes : K → List UInt8
  devices : K → IoDevice

/-- The next `n` bytes of a connection arrive, or what is left of them. -/
inductive ByteEvent
  | act (e : E)
  | arrive (k : K) (n : Nat)

variable {σ E C K S B V} [DecidableEq K]

def received (d : DataStream S B V) (c : Content S B V) : Received S B V := (c.type, c.name d, some (c.fields d))

/-- What is sent to a connection. -/
def sentTo (k : K) (out : List (Sending C K S B V)) : List (Content S B V) :=
  out.flatMap fun sending => if k ∈ sending.2.1 then sending.2.2 else []

namespace PacketState
variable (program : Program σ E C K S B V) (d : DataStream S B V) (s : PacketState σ K S B V)

def initial (state : σ) : PacketState σ K S B V := ⟨state, fun _ => []⟩

def post (result : σ × List (Sending C K S B V)) : PacketState σ K S B V :=
  ⟨result.1, fun k => s.packets k ++ sentTo k result.2⟩

def handle (k : K) (packet : Received S B V) : PacketState σ K S B V := s.post (program.handler s.state k packet)

def step (s : PacketState σ K S B V) : PacketEvent E K → Option (PacketState σ K S B V)
  | .act e => (program.act s.state e).map s.post
  | .receive k =>
    match s.packets k with
    | [] => none
    | c :: packets => some ({ s with packets := Function.update s.packets k packets }.handle program k (received d c))

end PacketState

namespace ByteState
variable [DecidableEq C] [Inhabited S] (program : Program σ E C K S B V) (d : DataStream S B V) (s : ByteState σ C K)

def initial (state : σ) : ByteState σ C K :=
  ⟨state, fun _ => .new PacketType.invokePacket.toId, fun _ => [], fun _ => .initial⟩

/-- The packets are serialized, and the codec sends its payload. -/
def send (s : ByteState σ C K) (sending : Sending C K S B V) : ByteState σ C K :=
  let packet := sending.2.2.foldl (serialize d) (s.codecs sending.1)
  { s with
    codecs := Function.update s.codecs sending.1 packet.reset
    bytes := fun k => s.bytes k ++ if k ∈ sending.2.1 then packet.payload else [] }

def post (result : σ × List (Sending C K S B V)) : ByteState σ C K :=
  result.2.foldl (send d) { s with state := result.1 }

def handle (k : K) (packet : Received S B V) : ByteState σ C K := s.post d (program.handler s.state k packet)

/-- The loop runs over what has arrived, with the handler behind each packet. -/
def arrive (k : K) (n : Nat) : ByteState σ C K :=
  let ((_, device), log) := receive d (codecReceiver d) () ((s.devices k).arrive ((s.bytes k).take n))
  log.foldl (fun s parse => s.handle program d k parse.packet)
    { s with bytes := Function.update s.bytes k ((s.bytes k).drop n), devices := Function.update s.devices k device }

def step (s : ByteState σ C K) : ByteEvent E K → Option (ByteState σ C K)
  | .act e => (program.act s.state e).map (s.post d)
  | .arrive k n => some (s.arrive program d k n)

end ByteState
end Model

section Statement
variable {σ E C K S B V : Type} [Inhabited B] (d : DataStream S B V)

/-- No payload is too large for the `int`s of the codec. -/
def SmallPayloads (out : List (Sending C K S B V)) : Prop := ∀ sending ∈ out, (payloadBytes d sending.2.2).length < 2 ^ 31

/-- What the program sends in this state, of its own or for the next packet of a connection, is small. -/
structure PacketState.Small (program : Program σ E C K S B V) (t : PacketState σ K S B V) : Prop where
  act : ∀ e next out, program.act t.state e = some (next, out) → SmallPayloads d out
  handler : ∀ k c packets, t.packets k = c :: packets → SmallPayloads d (program.handler t.state k (received d c)).2

/-- So it is in all states that are reached. -/
def Program.Small [DecidableEq K] (program : Program σ E C K S B V) (state : σ) : Prop :=
  ∀ es t, exec (PacketState.step program d) (.initial state) es = some t → t.Small d program

/-- The bytes on the way are those of the packets on the way; `left` of them wait at the receiver for the rest of a frame. -/
structure Transports (left : K → List UInt8) (s : ByteState σ C K) (t : PacketState σ K S B V) : Prop where
  state : s.state = t.state
  codecs : ∀ c, (s.codecs c).Holds []
  waits : ∀ k, ∃ start, (s.devices k).Waits start (left k)
  bytes : ∀ k, left k ++ s.bytes k = payloadBytes d (t.packets k)
  small : ∀ k, ∀ c ∈ t.packets k, (bodyBytes d c).length < 2 ^ 32

end Statement

section Payloads
variable {σ E C K S B V : Type} [Inhabited B] [DecidableEq K] [DecidableEq C] {d : DataStream S B V}
variable {program : Program σ E C K S B V} {s : ByteState σ C K} {t : PacketState σ K S B V} {left : K → List UInt8}

theorem payloadBytes_append (contents more : List (Content S B V)) :
    payloadBytes d (contents ++ more) = payloadBytes d contents ++ payloadBytes d more := List.flatMap_append

/-- The codec holds the frames of what was serialized. -/
theorem serialize_all {contents : List (Content S B V)} {packet : DataStreamPacket} {written : List UInt8}
    (holds : packet.Holds written) (small : (written ++ payloadBytes d contents).length < 2 ^ 31) :
    (contents.foldl (serialize d) packet).Holds (written ++ payloadBytes d contents) := by
  induction contents generalizing packet written with
  | nil => exact (List.append_nil written).symm ▸ holds
  | cons c contents ih =>
    have frames : payloadBytes d (c :: contents) = frame (bodyBytes d c) ++ payloadBytes d contents := rfl
    rw [frames, ← List.append_assoc] at small ⊢
    refine ih (serialize_holds d holds c ?_) small
    simp only [List.length_append, length_frame] at small
    omega

omit [DecidableEq C] in
theorem sentTo_cons (k : K) (sending : Sending C K S B V) (out : List (Sending C K S B V)) :
    sentTo k (sending :: out) = (if k ∈ sending.2.1 then sending.2.2 else []) ++ sentTo k out := rfl

theorem Transports.send (transports : Transports d left s t) {sending : Sending C K S B V}
    (small : (payloadBytes d sending.2.2).length < 2 ^ 31) :
    Transports d left (s.send d sending) ⟨t.state, fun k => t.packets k ++ if k ∈ sending.2.1 then sending.2.2 else []⟩ := by
  have holds := serialize_all (transports.codecs sending.1) small
  rw [List.nil_append] at holds
  refine ⟨transports.state, fun c => ?_, transports.waits, fun k => ?_, fun k c there => ?_⟩
  · change (Function.update s.codecs sending.1 _ c).Holds []
    rw [Function.update_apply]
    split
    · exact DataStreamPacket.holds_reset _
    · exact transports.codecs c
  · rw [payloadBytes_append, ← transports.bytes k, List.append_assoc]
    refine congrArg (left k ++ ·) (congrArg (s.bytes k ++ ·) ?_)
    split
    · exact holds.payload_eq
    · rfl
  · rcases List.mem_append.mp there with old | new
    · exact transports.small k c old
    · split at new
      · exact length_body_lt d small c new
      · cases new

theorem Transports.post (transports : Transports d left s t) {result : σ × List (Sending C K S B V)}
    (small : SmallPayloads d result.2) :
    Transports d left (s.post d result) (t.post result) := by
  obtain ⟨state, out⟩ := result
  have start : Transports d left { s with state } ⟨state, t.packets⟩ :=
    ⟨rfl, transports.codecs, transports.waits, transports.bytes, transports.small⟩
  clear transports
  rw [ByteState.post, PacketState.post]
  generalize { s with state } = s at start
  generalize t.packets = packets at start
  dsimp only
  induction out generalizing s packets with
  | nil =>
    have same : (fun k => packets k ++ sentTo k ([] : List (Sending C K S B V))) = packets := funext fun k => List.append_nil _
    rw [same]
    exact start
  | cons sending out ih =>
    obtain ⟨here, later⟩ := List.forall_mem_cons.mp small
    have rest := ih later _ _ (start.send here)
    simp only [List.append_assoc, ← sentTo_cons] at rest
    exact rest

omit [DecidableEq C] in
/-- What a handler sends comes behind what waits. -/
theorem handle_behind {k : K} {packet : Received S B V} (contents rest : List (Content S B V)) :
    (({ t with packets := Function.update t.packets k rest } : PacketState σ K S B V).handle program k packet) =
      { ({ t with packets := Function.update t.packets k (contents ++ rest) } : PacketState σ K S B V).handle program k packet with
        packets := Function.update
          (({ t with packets := Function.update t.packets k (contents ++ rest) } : PacketState σ K S B V).handle program k packet).packets k
          (rest ++ sentTo k (program.handler t.state k packet).2) } := by
  simp only [PacketState.handle, PacketState.post, PacketState.mk.injEq, true_and]
  funext j
  by_cases same : j = k
  · subst j
    simp
  · simp [Function.update_of_ne same]

/-- The packets that are whole are received one by one. -/
theorem Transports.handles {contents rest : List (Content S B V)} {k : K} (waiting : t.packets k = contents ++ rest)
    (small : ∀ es u, exec (PacketState.step program d) t es = some u → u.Small d program)
    (transports : Transports d left s { t with packets := Function.update t.packets k rest }) :
    ∃ u, exec (PacketState.step program d) t (List.replicate contents.length (.receive k)) = some u ∧
      Transports d left (contents.foldl (fun s c => s.handle program d k (received d c)) s) u := by
  induction contents generalizing s t rest with
  | nil =>
    have same : Function.update t.packets k rest = t.packets := by
      rw [← List.nil_append rest, ← waiting, Function.update_eq_self]
    rw [same] at transports
    exact ⟨t, rfl, transports⟩
  | cons c contents ih =>
    have head : t.step program d (.receive k) =
        some (({ t with packets := Function.update t.packets k (contents ++ rest) } : PacketState σ K S B V).handle program k (received d c)) := by
      rw [PacketState.step, waiting]
      rfl
    have sent := (small [] t rfl).handler k c (contents ++ rest) waiting
    have handled : Transports d left (s.handle program d k (received d c))
        (({ t with packets := Function.update t.packets k rest } : PacketState σ K S B V).handle program k (received d c)) := by
      unfold ByteState.handle PacketState.handle
      rw [transports.state]
      exact transports.post sent
    rw [handle_behind contents rest] at handled
    obtain ⟨u, run, after⟩ := ih (by simp [PacketState.handle, PacketState.post])
      (fun es u run => small (.receive k :: es) u (exec_cons.mpr ⟨_, head, run⟩)) handled
    exact ⟨u, exec_cons.mpr ⟨_, head, run⟩, after⟩

theorem payloadBytes_eq_nil {contents : List (Content S B V)} (none : payloadBytes d contents = []) : contents = [] := by
  cases contents with
  | nil => rfl
  | cons c contents =>
    have length := congrArg List.length none
    rw [payloadBytes, List.flatMap_cons, List.length_append, length_frame, List.length_nil] at length
    omega

omit [DecidableEq K] [DecidableEq C] in
theorem transports_initial (state : σ) :
    Transports d (fun _ => []) (.initial state : ByteState σ C K) (.initial state : PacketState σ K S B V) where
  state := rfl
  codecs _ := DataStreamPacket.holds_new _
  waits _ := ⟨0, IoDevice.waits_initial⟩
  bytes _ := rfl
  small _ _ there := absurd there List.not_mem_nil

theorem payloadBytes_frames (contents : List (Content S B V)) :
    payloadBytes d contents = frames (contents.map (incoming d)) := (frames_incoming d contents).symm

end Payloads

section Chunks
variable {σ E C K S B V : Type} [Inhabited B] [Inhabited S] [DecidableEq K] [DecidableEq C] {d : DataStream S B V}
variable {program : Program σ E C K S B V} {s : ByteState σ C K} {t : PacketState σ K S B V} {left : K → List UInt8}

/-- The bytes that arrive make some packets whole, and the beginning of the next one waits. -/
theorem Transports.arrive (transports : Transports d left s t)
    (small : ∀ es u, exec (PacketState.step program d) t es = some u → u.Small d program) (k : K) (n : Nat) :
    ∃ left' contents rest, t.packets k = contents ++ rest ∧ left k ++ (s.bytes k).take n = payloadBytes d contents ++ left' k ∧
      (∀ j, j ≠ k → left' j = left j) ∧ ∃ u,
        exec (PacketState.step program d) t (List.replicate contents.length (.receive k)) = some u ∧
        Transports d left' (s.arrive program d k n) u := by
  obtain ⟨start, waits⟩ := transports.waits k
  have stream : (left k ++ (s.bytes k).take n) ++ (s.bytes k).drop n = frames ((t.packets k).map (incoming d)) ++ [] := by
    rw [List.append_assoc, List.take_append_drop, transports.bytes k, payloadBytes_frames, List.append_nil]
  have follows : Follows d (codecReceiver d) () ((t.packets k).map (incoming d)) () := follows_incoming d (transports.small k)
  obtain ⟨done, todo, waiting, split, taken, same, unfinished⟩ := split_frames_incomplete follows.bounds incomplete_nil stream
  obtain ⟨contents, rest, parts, rfl, rfl⟩ := List.map_eq_append_iff.mp split
  rw [parts, List.map_append] at follows
  obtain ⟨_, first, -⟩ := follows.split
  have arrived := waits.located.arrive ((s.bytes k).take n)
  rw [taken] at arrived
  obtain ⟨device, log, read, logged, waits'⟩ := receive_frames_incomplete first arrived unfinished
  rw [List.append_nil, ← payloadBytes_frames] at same
  rw [← payloadBytes_frames] at taken
  refine ⟨Function.update left k waiting, contents, rest, parts, ?_, fun j other => Function.update_of_ne other .., ?_⟩
  · rw [Function.update_self]
    exact taken
  · have packets : log.map Parse.packet = contents.map (received d) := by
      rw [logged.packets, List.map_map]
      rfl
    have handled : s.arrive program d k n = (log.map Parse.packet).foldl (fun s packet => s.handle program d k packet)
        { s with bytes := Function.update s.bytes k ((s.bytes k).drop n), devices := Function.update s.devices k device } := by
      rw [ByteState.arrive, read, List.foldl_map]
    rw [handled, packets, List.foldl_map]
    have start : Transports d (Function.update left k waiting)
        { s with bytes := Function.update s.bytes k ((s.bytes k).drop n), devices := Function.update s.devices k device }
        { t with packets := Function.update t.packets k rest } := by
      refine ⟨transports.state, transports.codecs, fun j => ?_, fun j => ?_, fun j c there => ?_⟩
      · by_cases here : j = k
        · subst j
          simp only [Function.update_self]
          exact ⟨_, waits'⟩
        · simp only [Function.update_of_ne here]
          exact transports.waits j
      · by_cases here : j = k
        · subst j
          simp only [Function.update_self]
          exact same
        · simp only [Function.update_of_ne here]
          exact transports.bytes j
      · by_cases here : j = k
        · subst j
          simp only [Function.update_self] at there
          exact transports.small k c (parts ▸ List.mem_append_right _ there)
        · simp only [Function.update_of_ne here] at there
          exact transports.small j c there
    exact start.handles parts small

/-- In each run over bytes, what the program has done is what it has done in a run over packets, and the bytes on the way in
each direction are those of the packets on the way: none is lost, comes twice or overtakes another one. -/
theorem byte_run_is_packet_run {state : σ} (small : program.Small d state) {es : List (ByteEvent E K)}
    (run : exec (ByteState.step program d) (.initial state) es = some s) :
    ∃ es' t left, exec (PacketState.step program d) (.initial state) es' = some t ∧ Transports d left s t := by
  refine exec_always (P := fun s : ByteState σ C K =>
    ∃ es' t left, exec (PacketState.step program d) (.initial state) es' = some t ∧ Transports d left s t) ?_ run
    ⟨[], _, _, rfl, transports_initial state⟩
  rintro s e next ⟨es', t, left, run, transports⟩ head
  cases e with
  | act e =>
    obtain ⟨⟨after, out⟩, acts, rfl⟩ := Option.map_eq_some_iff.mp head
    rw [transports.state] at acts
    refine ⟨es' ++ [.act e], _, left, exec_append.mpr ⟨t, run, exec_cons.mpr ⟨_, ?_, rfl⟩⟩,
      transports.post ((small es' t run).act e after out acts)⟩
    rw [PacketState.step, acts]
    rfl
  | arrive k n =>
    obtain rfl := Option.some.inj head
    obtain ⟨left', contents, rest, -, -, -, u, receives, after⟩ :=
      transports.arrive (fun more u later => small (es' ++ more) u (exec_append.mpr ⟨t, run, later⟩)) k n
    exact ⟨_, u, left', exec_append.mpr ⟨t, run, receives⟩, after⟩

/-- A frame that arrives as a whole where nothing waits is one packet, and nothing waits behind it. -/
theorem Transports.arrive_frame {c : Content S B V} {packets : List (Content S B V)} (transports : Transports d (fun _ => []) s t)
    (small : ∀ es u, exec (PacketState.step program d) t es = some u → u.Small d program) {k : K} (waiting : t.packets k = c :: packets) :
    ∃ u, t.step program d (.receive k) = some u ∧
      Transports d (fun _ => []) (s.arrive program d k (frame (bodyBytes d c)).length) u := by
  obtain ⟨left', contents, rest, parts, taken, others, u, receives, after⟩ :=
    transports.arrive small k (frame (bodyBytes d c)).length
  have bytes : s.bytes k = frame (bodyBytes d c) ++ payloadBytes d packets := by
    have bytes := transports.bytes k
    rwa [waiting, List.nil_append] at bytes
  rw [bytes, List.take_left' rfl, List.nil_append] at taken
  obtain ⟨_, waits⟩ := after.waits k
  cases contents with
  | nil =>
    have whole : left' k = frame (bodyBytes d c) ++ [] := by rw [List.append_nil]; exact taken.symm
    have bound := transports.small k c (waiting ▸ List.mem_cons_self ..)
    exact absurd (whole ▸ waits.incomplete) (not_incomplete_frame bound)
  | cons first more =>
    obtain ⟨rfl, -⟩ := List.cons.inj (waiting.symm.trans parts)
    have behind : payloadBytes d more ++ left' k = [] := by
      rw [payloadBytes, List.flatMap_cons, ← payloadBytes, List.append_assoc] at taken
      exact List.append_right_eq_self.mp taken.symm
    obtain ⟨none, nothing⟩ := List.append_eq_nil_iff.mp behind
    obtain rfl := payloadBytes_eq_nil none
    have same : left' = fun _ => [] := by
      funext j
      by_cases here : j = k
      · exact here ▸ nothing
      · exact others j here
    obtain ⟨_, head, last⟩ := exec_cons.mp receives
    obtain rfl := Option.some.inj last
    exact ⟨_, head, same ▸ after⟩

/-- A step over packets is one over bytes, with whole frames. -/
theorem Transports.packet_step {t next : PacketState σ K S B V} {e : PacketEvent E K} (transports : Transports d (fun _ => []) s t)
    (small : ∀ es u, exec (PacketState.step program d) t es = some u → u.Small d program) (head : t.step program d e = some next) :
    ∃ e' after, s.step program d e' = some after ∧ Transports d (fun _ => []) after next := by
  cases e with
  | act e =>
    obtain ⟨⟨state, out⟩, acts, rfl⟩ := Option.map_eq_some_iff.mp head
    refine ⟨.act e, _, ?_, transports.post ((small [] t rfl).act e state out acts)⟩
    rw [ByteState.step, transports.state, acts]
    rfl
  | receive k =>
    cases waiting : t.packets k with
    | nil =>
      rw [PacketState.step, waiting] at head
      contradiction
    | cons c packets =>
      obtain ⟨u, receives, after⟩ := transports.arrive_frame small waiting
      obtain rfl := Option.some.inj (receives.symm.trans head)
      exact ⟨.arrive k (frame (bodyBytes d c)).length, _, rfl, after⟩

/-- The program reaches over bytes just what it reaches over packets. -/
theorem reachable_iff {state reached : σ} (small : program.Small d state) :
    (∃ es, ∃ s : ByteState σ C K, exec (ByteState.step program d) (.initial state) es = some s ∧ s.state = reached) ↔
      ∃ es t, exec (PacketState.step program d) (.initial state) es = some t ∧ t.state = reached := by
  constructor
  · rintro ⟨es, s, run, rfl⟩
    obtain ⟨es', t, left, run, transports⟩ := byte_run_is_packet_run small run
    exact ⟨es', t, run, transports.state.symm⟩
  · rintro ⟨es, t, run, rfl⟩
    have bytes := exec_always (P := fun t : PacketState σ K S B V =>
        (∃ es, exec (PacketState.step program d) (.initial state) es = some t) ∧ ∃ es', ∃ s : ByteState σ C K,
          exec (ByteState.step program d) (.initial state) es' = some s ∧ Transports d (fun _ => []) s t)
      (fun {t e next} kept head => by
        obtain ⟨⟨es, reaches⟩, es', s, run, transports⟩ := kept
        obtain ⟨e', after, moves, transports⟩ := transports.packet_step
          (fun more u later => small (es ++ more) u (exec_append.mpr ⟨t, reaches, later⟩)) head
        exact ⟨⟨es ++ [e], exec_append.mpr ⟨t, reaches, exec_cons.mpr ⟨next, head, rfl⟩⟩⟩, es' ++ [e'], after,
          exec_append.mpr ⟨s, run, exec_cons.mpr ⟨after, moves, rfl⟩⟩, transports⟩)
      run ⟨⟨[], rfl⟩, [], _, rfl, transports_initial state⟩
    obtain ⟨-, es', s, run, transports⟩ := bytes
    exact ⟨es', s, run, transports.state⟩

end Chunks
section Example
open QtStream

/-- A client that pings and counts the answers. -/
def pings : Program Nat Unit Unit Bool QString QByteArray Int32 where
  act count _ := some (count, [((), [true], [.ping (named "a")])])
  handler
    | count, true, (.ping, _, _) => (count, [((), [false], [.pong (named "a")])])
    | count, false, (.pong, _, _) => (count + 1, [])
    | count, _, _ => (count, [])

theorem pings_small : pings.Small stream 0 := by
  intro es t run
  refine ⟨fun e next out acts sending there => ?_, fun k c packets waiting sending there => ?_⟩
  · obtain ⟨-, rfl⟩ := Prod.mk.inj (Option.some.inj acts)
    obtain rfl := List.mem_singleton.mp there
    decide
  · simp only [pings] at there
    split at there
    · obtain rfl := List.mem_singleton.mp there
      decide
    · cases there
    · cases there

/-- The ping arrives in two parts. -/
def pinged : List (ByteEvent Unit Bool) := [.act (), .arrive true 3, .arrive true 100, .arrive false 100]

theorem byte_run_example : ∃ s, exec (ByteState.step pings stream) (.initial 0) pinged = some s ∧
    ∃ es' t left, exec (PacketState.step pings stream) (.initial 0) es' = some t ∧ Transports stream left s t := by
  have run : exec (ByteState.step pings stream) (.initial 0) pinged = some _ := rfl
  exact ⟨_, run, byte_run_is_packet_run pings_small run⟩

theorem reachable_example :
    (∃ es, ∃ s : ByteState Nat Unit Bool, exec (ByteState.step pings stream) (.initial 0) es = some s ∧ s.state = 1) ↔
      ∃ es t, exec (PacketState.step pings stream) (.initial 0) es = some t ∧ t.state = 1 :=
  reachable_iff pings_small

end Example
end RemoteObjects.Device
