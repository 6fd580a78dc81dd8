import RemoteObjects.Wire.Codec

/-! The buffer behind the packet codec. Packets are appended to one payload; each
length is written as zero first and patched when its packet is finished. -/
namespace RemoteObjects.Packet
open Wire

/-- A length-prefixed body. -/
def frame (body : List UInt8) : List UInt8 :=
  quint32.put (UInt32.ofNat body.length) ++ body

@[simp] theorem length_put_quint32 : (quint32.put n).length = 4 := length_littleEndian

@[simp] theorem length_put_quint16 : (quint16.put n).length = 2 := length_littleEndian

@[simp] theorem length_frame : (frame body).length = 4 + body.length := by
  rw [frame, List.length_append, length_put_quint32]

/-- The array is written through a buffer device at `pos`; `baseAddress` and
`size` are C++ `int`s. -/
structure DataStreamPacket where
  array : List UInt8
  pos : Nat
  baseAddress : Int
  size : Int
deriving DecidableEq, Repr

namespace DataStreamPacket

/-- The conversion of a position to `int`. -/
def toInt (n : Nat) : Int := Int.bmod n (2 ^ 32)

theorem toInt_of_lt (bound : n < 2 ^ 31) : toInt n = n :=
  Int.bmod_eq_of_le (by omega) (by omega)

/-- Writing overwrites what the array already holds from `pos` on. -/
def write (p : DataStreamPacket) (bytes : List UInt8) : DataStreamPacket where
  array := p.array.take p.pos ++ List.replicate (p.pos - p.array.length) 0 ++ bytes ++
    p.array.drop (p.pos + bytes.length)
  pos := p.pos + bytes.length
  baseAddress := p.baseAddress
  size := p.size

def seek (p : DataStreamPacket) (pos : Int) : DataStreamPacket :=
  if pos < 0 then p else { p with pos := pos.toNat }

/-- The constructor leaves six bytes behind that the first packet overwrites. -/
def new (id : UInt16) : DataStreamPacket :=
  ((⟨[], 0, 0, 0⟩ : DataStreamPacket).write (quint32.put 0)).write (quint16.put id)

def setId (p : DataStreamPacket) (id : UInt16) : DataStreamPacket :=
  ((p.seek p.baseAddress).write (quint32.put 0)).write (quint16.put id)

def finishPacket (p : DataStreamPacket) : DataStreamPacket :=
  let size := toInt p.pos
  let patched := (p.seek p.baseAddress).write
    (quint32.put (UInt32.ofNat ((size - p.baseAddress - 4) % 2 ^ 32).toNat))
  { patched with size := size, baseAddress := size }

/-- `array.resize(size)`, and the array. -/
def payload (p : DataStreamPacket) : List UInt8 :=
  p.array.take p.size.toNat ++ List.replicate (p.size.toNat - p.array.length) 0

def reset (p : DataStreamPacket) : DataStreamPacket :=
  { p with array := [], baseAddress := 0, size := 0 }

/-- Between packets, the payload so far is `written`. At most the six bytes of
the constructor stand behind it. -/
structure Holds (p : DataStreamPacket) (written : List UInt8) : Prop where
  prefix_written : written <+: p.array
  spare : p.array.length ≤ written.length + 6
  baseAddress_eq : p.baseAddress = written.length
  size_eq : p.size = written.length

theorem write_eq {p : DataStreamPacket} (array : p.array = front ++ spare)
    (pos : p.pos = front.length) :
    p.write bytes = { p with
      array := front ++ bytes ++ spare.drop bytes.length
      pos := front.length + bytes.length } := by
  have inside : front.length - (front.length + spare.length) = 0 := by omega
  have behind : List.drop (front.length + bytes.length) front = [] :=
    List.drop_eq_nil_of_le (by omega)
  simp only [write, array, pos, List.take_left, List.length_append, inside, List.replicate_zero,
    List.append_nil, List.drop_append, behind, List.nil_append, Nat.add_sub_cancel_left]

theorem write_at_end {p : DataStreamPacket} (at_end : p.pos = p.array.length) :
    p.write bytes = { p with array := p.array ++ bytes, pos := p.pos + bytes.length } := by
  rw [write_eq (List.append_nil p.array).symm at_end, List.drop_nil, List.append_nil, at_end]

theorem holds_new (id : UInt16) : (new id).Holds [] where
  prefix_written := List.nil_prefix
  spare := by simp [new, write]
  baseAddress_eq := rfl
  size_eq := rfl

theorem holds_reset (p : DataStreamPacket) : p.reset.Holds [] where
  prefix_written := List.nil_prefix
  spare := by simp [reset]
  baseAddress_eq := rfl
  size_eq := rfl

theorem Holds.payload_eq {p : DataStreamPacket} (holds : p.Holds written) :
    p.payload = written := by
  have fits := holds.prefix_written.length_le
  obtain ⟨spare, array⟩ := holds.prefix_written
  rw [payload, holds.size_eq, Int.toNat_natCast, Nat.sub_eq_zero_of_le fits, List.replicate_zero,
    List.append_nil, ← array, List.take_left]

theorem seek_base {p : DataStreamPacket} {n : Nat} (base : p.baseAddress = n) :
    p.seek p.baseAddress = { p with pos := n } := by
  rw [seek, if_neg (by omega), base, Int.toNat_natCast]

theorem Holds.setId {p : DataStreamPacket} (holds : p.Holds written) (id : UInt16) :
    p.setId id = { p with
      array := written ++ quint32.put 0 ++ quint16.put id
      pos := written.length + 6 } := by
  obtain ⟨spare, array⟩ := holds.prefix_written
  have short : spare.length ≤ 6 := by
    have := holds.spare
    rw [← array, List.length_append] at this
    omega
  have zeroed : (p.seek p.baseAddress).write (quint32.put 0) = { p with
      array := written ++ quint32.put 0 ++ spare.drop 4
      pos := written.length + 4 } := by
    rw [seek_base holds.baseAddress_eq,
      write_eq (p := { p with pos := written.length }) array.symm rfl, length_put_quint32]
  have end_written : (written ++ quint32.put 0).length = written.length + 4 := by simp
  rw [DataStreamPacket.setId, zeroed, write_eq rfl end_written.symm, List.drop_drop,
    length_put_quint16, List.drop_eq_nil_of_le (by omega), List.append_nil, end_written]

/-- Patching the zero that `setId` wrote turns the bytes written since into a
frame and moves the base behind it. -/
theorem finishPacket_holds {p : DataStreamPacket} (base : p.baseAddress = written.length)
    (array : p.array = written ++ quint32.put 0 ++ body) (pos : p.pos = p.array.length)
    (bound : written.length + 4 + body.length < 2 ^ 31) :
    p.finishPacket.Holds (written ++ frame body) := by
  have length : p.pos = written.length + 4 + body.length := by simp [pos, array]; omega
  have size : toInt p.pos = written.length + 4 + body.length := by
    rw [length, toInt_of_lt bound]; push_cast; ring
  have count : (((written.length + 4 + body.length : Int) - p.baseAddress - 4) % 2 ^ 32).toNat =
      body.length := by omega
  have patched : p.finishPacket = { p with
      array := written ++ frame body
      pos := written.length + 4
      baseAddress := written.length + 4 + body.length
      size := written.length + 4 + body.length } := by
    rw [List.append_assoc] at array
    rw [finishPacket, size, seek_base base, count,
      write_eq (p := { p with pos := written.length }) array rfl, length_put_quint32,
      ← length_put_quint32, List.drop_left, frame, List.append_assoc]
  rw [patched]
  constructor
  · exact List.prefix_rfl
  · exact Nat.le_add_right _ _
  · simp only [List.length_append, length_frame]; push_cast; ring
  · simp only [List.length_append, length_frame]; push_cast; ring

end DataStreamPacket
end RemoteObjects.Packet
