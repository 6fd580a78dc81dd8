import RemoteObjects.Packet.CodecProofs

/-! The reading side of a connection: `QtROIoDeviceBase::read`, `fromDataStream`
and the loop `do { if (!read()) return; … } while (bytesAvailable())` that the
node and the source host run when bytes have arrived. -/
namespace RemoteObjects.Device
open Wire Reader Packet
variable {S B V α σ : Type} [Inhabited S] [Inhabited B] (d : DataStream S B V)

/-- `curReadSize` is the length of a frame whose body is awaited, or zero.
`position` counts the bytes taken from the connection so far. -/
structure IoDevice where
  curReadSize : UInt32
  available : List UInt8
  position : Nat
deriving DecidableEq, Repr

namespace IoDevice

def initial : IoDevice := ⟨0, [], 0⟩

def arrive (dev : IoDevice) (chunk : List UInt8) : IoDevice :=
  { dev with available := dev.available ++ chunk }

/-- The device once only `rest` is left to be read. -/
def leave (dev : IoDevice) (rest : List UInt8) : IoDevice :=
  { dev with available := rest, position := dev.position + (dev.available.length - rest.length) }

/-- The first half of `read()`: the length prefix is taken as soon as four bytes
are there. -/
def takeSize (dev : IoDevice) : Option IoDevice :=
  if dev.curReadSize = 0 then
    (quint32.get dev.available).map fun x => { dev.leave x.rest with curReadSize := x.value }
  else some dev

/-- `read()` up to `fromDataStream`: a frame is announced with its length when
all counted bytes are there. -/
def awaitFrame (dev : IoDevice) : IoDevice × Option UInt32 :=
  match dev.takeSize with
  | none => (dev, none)
  | some sized =>
    if sized.available.length < sized.curReadSize.toNat then (sized, none)
    else ({ sized with curReadSize := 0 }, some sized.curReadSize)

end IoDevice

/-- A read past the end drains the device and yields the default value. -/
def extract [Inhabited α] (r : Reader UInt8 α) (bytes : List UInt8) : α × List UInt8 :=
  match r bytes with
  | none => (default, [])
  | some x => (x.value, x.rest)

/-- What `fromDataStream` hands out, and what is left to be read. -/
structure Header (S : Type) where
  type : PacketType
  name : Option S
  rest : List UInt8

/-- No name is read for an unknown id and for an object list. -/
def fromDataStream (bytes : List UInt8) : Header S :=
  let id := extract quint16.get bytes
  let type := PacketType.ofId id.1
  if type = .invalid ∨ type = .objectList then ⟨type, none, id.2⟩
  else
    let name := extract d.string.get id.2
    ⟨type, some name.1, name.2⟩

/-- A record of one call of `fromDataStream` and of what was read behind it.
`arrived` bytes were there when it began; `fields` is empty when the body was
not read, or not to its end. -/
structure Parse (S α : Type) where
  start : Nat
  counted : Nat
  arrived : Nat
  type : PacketType
  name : Option S
  fields : Option α
  stop : Nat
deriving DecidableEq

/-- The handlers of one side: when they break out of the loop before a body,
how type and name change their state, and what they read of each body. -/
structure Receiver (σ S α : Type) where
  stops : σ → PacketType → Bool
  next : σ → PacketType → Option S → σ
  body : PacketType → Reader UInt8 α
  delimiting : ∀ type, SelfDelimiting (body type)

/-- What one pass through the loop does, and whether there is another one. -/
structure Turn (σ S α : Type) where
  state : σ
  dev : IoDevice
  parse : Option (Parse S α)
  again : Bool

def parsed (dev : IoDevice) (counted : UInt32) (header : Header S)
    (fields : Option α) (rest : List UInt8) : Parse S α where
  start := dev.position
  counted := counted.toNat
  arrived := dev.available.length
  type := header.type
  name := header.name
  fields := fields
  stop := (dev.leave rest).position

/-- Behind a complete frame: `read()` fails on an unknown id, otherwise the
handler of the packet runs. -/
def handle (r : Receiver σ S α) (state : σ) (dev : IoDevice) (counted : UInt32) : Turn σ S α :=
  let header := fromDataStream d dev.available
  if header.type = .invalid ∨ r.stops state header.type = true then
    ⟨state, dev.leave header.rest, some (parsed dev counted header none header.rest), false⟩
  else
    let state := r.next state header.type header.name
    match r.body header.type header.rest with
    | none => ⟨state, dev.leave [], some (parsed dev counted header none []), false⟩
    | some x =>
      ⟨state, dev.leave x.rest, some (parsed dev counted header (some x.value) x.rest),
        !x.rest.isEmpty⟩

def iteration (r : Receiver σ S α) (state : σ) (dev : IoDevice) : Turn σ S α :=
  match dev.awaitFrame with
  | (dev, none) => ⟨state, dev, none, false⟩
  | (dev, some counted) => handle d r state dev counted

/-- The loop. Every pass but the last takes bytes from the device, so that
`receive` gives it enough fuel. -/
def receiveLoop (r : Receiver σ S α) : Nat → σ → IoDevice → (σ × IoDevice) × List (Parse S α)
  | 0, state, dev => ((state, dev), [])
  | fuel + 1, state, dev =>
    let turn := iteration d r state dev
    if turn.again then
      let (last, log) := receiveLoop r fuel turn.state turn.dev
      (last, turn.parse.toList ++ log)
    else ((turn.state, turn.dev), turn.parse.toList)

def receive (r : Receiver σ S α) (state : σ) (dev : IoDevice) : (σ × IoDevice) × List (Parse S α) :=
  receiveLoop d r (dev.available.length + 1) state dev

/-- The loop once for each chunk that arrives. -/
def session (r : Receiver σ S α) :
    σ → IoDevice → List (List UInt8) → (σ × IoDevice) × List (Parse S α)
  | state, dev, [] => ((state, dev), [])
  | state, dev, chunk :: chunks =>
    let ((state, dev), log) := receive d r state (dev.arrive chunk)
    let (last, more) := session r state dev chunks
    (last, log ++ more)

section Fuel
variable {d} {r : Receiver σ S α}

theorem extract_length_le [Inhabited α] {reader : Reader UInt8 α} (delimiting : SelfDelimiting reader)
    (bytes : List UInt8) : (extract reader bytes).2.length ≤ bytes.length := by
  unfold extract
  cases found : reader bytes with
  | none => exact Nat.zero_le _
  | some x => exact delimiting.length_le found

/-- A header that is not rejected takes the two bytes of its id. -/
theorem fromDataStream_length (valid : (fromDataStream d bytes).type ≠ .invalid) :
    (fromDataStream d bytes).rest.length + 2 ≤ bytes.length := by
  have id : (extract quint16.get bytes).2.length + 2 ≤ bytes.length := by
    by_cases short : bytes.length < 2
    · have zero : extract quint16.get bytes = (0, []) := by
        rw [extract, quint16, word_get, if_pos short]
        rfl
      have invalid : PacketType.ofId 0 = .invalid := by decide
      exact absurd (by rw [fromDataStream, zero, invalid]; rfl) valid
    · have taken : (extract quint16.get bytes).2 = bytes.drop 2 := by
        rw [extract, quint16, word_get, if_neg short]
      rw [taken, List.length_drop]
      omega
  have name := extract_length_le d.string.delimiting (extract quint16.get bytes).2
  simp only [fromDataStream]
  split
  · exact id
  · exact (Nat.add_le_add_right name 2).trans id

theorem IoDevice.takeSize_length {dev sized : IoDevice} (taken : dev.takeSize = some sized) :
    sized.available.length ≤ dev.available.length := by
  unfold takeSize at taken
  split at taken
  · obtain ⟨x, read, rfl⟩ := Option.map_eq_some_iff.mp taken
    exact quint32.delimiting.length_le read
  · obtain rfl := Option.some.inj taken
    exact Nat.le_refl _

theorem IoDevice.awaitFrame_length (dev : IoDevice) :
    dev.awaitFrame.1.available.length ≤ dev.available.length := by
  unfold awaitFrame
  split
  · exact Nat.le_refl _
  · rename_i sized taken
    have shorter := takeSize_length taken
    split <;> exact shorter

theorem handle_length (again : (handle d r state dev counted).again = true) :
    (handle d r state dev counted).dev.available.length < dev.available.length := by
  simp only [handle] at again ⊢
  split at again
  · contradiction
  · rename_i continues
    have header := fromDataStream_length (fun invalid => continues (.inl invalid))
    rw [if_neg continues]
    split at again
    · contradiction
    · rename_i x read
      have fields : x.rest.length ≤ _ := (r.delimiting _).length_le read
      simp only [IoDevice.leave]
      omega

/-- Each further pass through the loop finds fewer bytes than the one before. -/
theorem iteration_length (again : (iteration d r state dev).again = true) :
    (iteration d r state dev).dev.available.length < dev.available.length := by
  have awaited := dev.awaitFrame_length
  unfold iteration at again ⊢
  split at again
  · contradiction
  · rename_i middle counted frame
    simp only [frame] at awaited ⊢
    exact Nat.lt_of_lt_of_le (handle_length again) awaited

/-- The result does not depend on the fuel, once there is enough. -/
theorem receiveLoop_fuel (enough : dev.available.length < fuel)
    (more : dev.available.length < fuel') :
    receiveLoop d r fuel state dev = receiveLoop d r fuel' state dev := by
  induction fuel generalizing fuel' state dev with
  | zero => contradiction
  | succ fuel ih =>
    obtain ⟨fuel', rfl⟩ := Nat.exists_eq_add_one_of_ne_zero (Nat.ne_zero_of_lt more)
    simp only [receiveLoop]
    split
    · rename_i again
      have fewer := iteration_length again
      rw [@ih fuel' _ _ (by omega) (by omega)]
    · rfl

/-- The loop as the source writes it, without fuel. -/
theorem receive_eq (r : Receiver σ S α) (state : σ) (dev : IoDevice) :
    receive d r state dev =
      let turn := iteration d r state dev
      if turn.again then
        let (last, log) := receive d r turn.state turn.dev
        (last, turn.parse.toList ++ log)
      else ((turn.state, turn.dev), turn.parse.toList) := by
  rw [receive, receiveLoop]
  simp only
  split
  · rename_i again
    have fewer := iteration_length again
    rw [receiveLoop_fuel fewer (Nat.lt_succ_self _), receive]
  · rfl

end Fuel
end RemoteObjects.Device
