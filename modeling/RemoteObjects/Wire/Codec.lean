import Mathlib.Algebra.Order.Ring.Nat
import Mathlib.Tactic.Ring
import RemoteObjects.Wire.Reader

/-! Pairs of a writer and a reader that carry their own round trip. Fixed-width
little-endian words and counted lists are built once; a format composes them. -/
namespace RemoteObjects.Wire
open Reader
variable {β α γ : Type}

/-- A value format. Element counts are 32 bits wide, so the round trip is stated
for encodings that such a count can describe. -/
structure Format (β α : Type) where
  put : α → List β
  get : Reader β α
  put_ne : ∀ a, put a ≠ []
  reads : ∀ a, (put a).length < 2 ^ 32 → Reads get (put a) a
  delimiting : SelfDelimiting get

section Words

def littleEndian : Nat → Nat → List UInt8
  | 0, _ => []
  | width + 1, n => UInt8.ofNat n :: littleEndian width (n / 256)

def fromLittleEndian : List UInt8 → Nat
  | [] => 0
  | b :: bs => b.toNat + 256 * fromLittleEndian bs

@[simp] theorem length_littleEndian : (littleEndian width n).length = width := by
  induction width generalizing n with
  | zero => rfl
  | succ width ih => simp only [littleEndian, List.length_cons, ih]

theorem fromLittleEndian_littleEndian :
    fromLittleEndian (littleEndian width n) = n % 256 ^ width := by
  induction width generalizing n with
  | zero => simp only [littleEndian, fromLittleEndian, pow_zero, Nat.mod_one]
  | succ width ih =>
    have low : (UInt8.ofNat n).toNat = n % 256 := UInt8.toNat_ofNat'
    rw [littleEndian, fromLittleEndian, ih, low, pow_succ', ← Nat.mod_mul]

/-- A block of a known number of bytes. -/
def block (width : Nat) : Reader β (List β) := fun bytes =>
  if bytes.length < width then none else some ⟨bytes.take width, true, bytes.drop width⟩

theorem reads_block (bytes : List β) : Reads (block bytes.length) bytes bytes := by
  intro rest
  rw [block, if_neg (by simp only [List.length_append]; omega), List.take_left, List.drop_left]

theorem block_delimiting (width : Nat) : SelfDelimiting (block width : Reader β (List β)) := by
  intro bytes x success
  by_cases short : bytes.length < width
  · simp only [block, if_pos short, reduceCtorEq] at success
  · simp only [block, if_neg short, Option.some.injEq] at success
    subst success
    have exactly : (bytes.take width).length = width := List.length_take_of_le (by omega)
    refine ⟨bytes.take width, (List.take_append_drop width bytes).symm, fun rest => ?_⟩
    have whole := reads_block (bytes.take width) rest
    rwa [exactly] at whole

/-- A word of `width` bytes that stands for the values of `α`. -/
def word (width : Nat) (positive : 0 < width) (encode : α → Nat) (decode : Nat → α)
    (inverse : ∀ a, decode (encode a % 256 ^ width) = a) : Format UInt8 α where
  put a := littleEndian width (encode a)
  get := (fun bytes => decode (fromLittleEndian bytes)) <$> block width
  put_ne a := List.ne_nil_of_length_pos (by simpa using positive)
  reads a _ := by
    have bytes := reads_block (littleEndian width (encode a))
    rw [length_littleEndian] at bytes
    have value := bytes.map (g := fun bytes => decode (fromLittleEndian bytes))
    rwa [fromLittleEndian_littleEndian, inverse] at value
  delimiting := (block_delimiting width).map

/-- A word is read as soon as its bytes are there, whatever their values. -/
theorem word_get {width : Nat} {positive : 0 < width} {encode : α → Nat} {decode : Nat → α}
    {inverse : ∀ a, decode (encode a % 256 ^ width) = a} (bytes : List UInt8) :
    (word width positive encode decode inverse).get bytes =
      if bytes.length < width then none
      else some ⟨decode (fromLittleEndian (bytes.take width)), true, bytes.drop width⟩ := by
  change (block width >>= fun bytes => pure (decode (fromLittleEndian bytes))) bytes = _
  rw [bind_apply, block]
  split <;> rfl

def quint8 : Format UInt8 UInt8 :=
  word 1 (by decide) UInt8.toNat UInt8.ofNat fun a => by
    rw [Nat.mod_eq_of_lt (by simpa using a.toNat_lt), UInt8.ofNat_toNat]

theorem quint16_inverse (a : UInt16) : UInt16.ofNat (a.toNat % 256 ^ 2) = a := by
  rw [Nat.mod_eq_of_lt (by simpa using a.toNat_lt), UInt16.ofNat_toNat]

def quint16 : Format UInt8 UInt16 := word 2 Nat.two_pos UInt16.toNat UInt16.ofNat quint16_inverse

theorem four_bytes : 0 < 4 := by decide

theorem quint32_inverse (a : UInt32) : UInt32.ofNat (a.toNat % 256 ^ 4) = a := by
  rw [Nat.mod_eq_of_lt (by simpa using a.toNat_lt), UInt32.ofNat_toNat]

def quint32 : Format UInt8 UInt32 := word 4 four_bytes UInt32.toNat UInt32.ofNat quint32_inverse

theorem int_inverse (a : Int32) : (UInt32.ofNat (a.toUInt32.toNat % 256 ^ 4)).toInt32 = a := by
  rw [quint32_inverse]
  rfl

/-- A signed 32-bit integer travels as its two's complement bits. -/
def int : Format UInt8 Int32 :=
  word 4 four_bytes (fun a => a.toUInt32.toNat) (fun n => (UInt32.ofNat n).toInt32) int_inverse

def bool : Format UInt8 Bool :=
  word 1 (by decide) Bool.toNat (· != 0) fun a => by cases a <;> rfl

end Words

section Lists
variable (w : Format UInt8 α)

theorem length_le_flatMap_put (values : List α) :
    values.length ≤ (values.flatMap w.put).length := by
  induction values with
  | nil => exact Nat.le_refl 0
  | cons a as ih =>
    have positive := List.length_pos_of_ne_nil (w.put_ne a)
    simp only [List.flatMap_cons, List.length_append, List.length_cons]
    omega

theorem length_put_le_flatMap {values : List α} (member : a ∈ values) :
    (w.put a).length ≤ (values.flatMap w.put).length := by
  obtain ⟨front, back, rfl⟩ := List.append_of_mem member
  simp only [List.flatMap_append, List.flatMap_cons, List.length_append]
  omega

/-- A 32-bit count, then the elements one after the other. -/
def putList (values : List α) : List UInt8 :=
  quint32.put (UInt32.ofNat values.length) ++ values.flatMap w.put

theorem reads_list {loop : Nat → Reader UInt8 α → Reader UInt8 (List α)}
    (rule : ∀ {values : List α}, (∀ a ∈ values, Reads w.get (w.put a) a) →
      Reads (loop values.length w.get) (values.flatMap w.put) values)
    (bound : (putList w values).length < 2 ^ 32) :
    Reads (quint32.get >>= fun n => loop n.toNat w.get) (putList w values) values := by
  have count := length_le_flatMap_put w values
  rw [putList, List.length_append] at bound
  have toNat : (UInt32.ofNat values.length).toNat = values.length :=
    UInt32.toNat_ofNat_of_lt' (by rw [UInt32.size]; omega)
  refine (quint32.reads _ (by omega)).bind ?_
  rw [toNat]
  refine rule fun a member => w.reads a ?_
  have one := length_put_le_flatMap w member
  omega

/-- A counted list whose reader does not look at the stream status. -/
def countedList : Format UInt8 (List α) where
  put := putList w
  get := quint32.get >>= fun n => times n.toNat w.get
  put_ne _ := List.append_ne_nil_of_left_ne_nil (quint32.put_ne _) _
  reads _ bound := reads_list w Reads.times bound
  delimiting := quint32.delimiting.bind fun n => w.delimiting.times n.toNat

/-- A counted list whose reader stops at the first corrupt element. -/
def checkedList : Format UInt8 (List α) where
  put := putList w
  get := quint32.get >>= fun n => checked n.toNat w.get
  put_ne _ := List.append_ne_nil_of_left_ne_nil (quint32.put_ne _) _
  reads _ bound := reads_list w Reads.checked bound
  delimiting := quint32.delimiting.bind fun n => w.delimiting.checked n.toNat

end Lists

section Products

/-- One value after the other. -/
def pair (w : Format β α) (v : Format β γ) : Format β (α × γ) where
  put a := w.put a.1 ++ v.put a.2
  get := do
    let a ← w.get
    let c ← v.get
    pure (a, c)
  put_ne a := List.append_ne_nil_of_left_ne_nil (w.put_ne a.1) _
  reads a bound := by
    rw [List.length_append] at bound
    exact (w.reads a.1 (by omega)).bind ((v.reads a.2 (by omega)).last (reads_pure a))
  delimiting := w.delimiting.bind fun a =>
    v.delimiting.bind fun c => SelfDelimiting.pure (a, c)

/-- The format of a record that is read and written as the tuple of its fields. -/
def record (w : Format β γ) (fields : α → γ) (build : γ → α)
    (inverse : ∀ a, build (fields a) = a) : Format β α where
  put a := w.put (fields a)
  get := build <$> w.get
  put_ne a := w.put_ne (fields a)
  reads a bound := by
    have read := (w.reads (fields a) bound).map (g := build)
    rwa [inverse] at read
  delimiting := w.delimiting.map

end Products
end RemoteObjects.Wire
