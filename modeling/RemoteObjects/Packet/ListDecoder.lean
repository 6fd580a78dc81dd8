import RemoteObjects.Loops
import RemoteObjects.Packet.CodecProofs
import RemoteObjects.Packet.QtStream

/-! The loops of `deserializeQVariantList` on the list of the caller, and what a plain decoder makes of the same stream. A read at the
end of the stream, or past it, leaves the stream at its end. -/
namespace RemoteObjects.Packet
open Loops Wire Reader

section Model
variable {S B V : Type} [Inhabited B] (d : DataStream S B V)
-- What is read from a stream that ends within the value.
variable (pastEnd : List UInt8 → Variant S B V)

/-- `s >> l[i]`. What the variant was before does not matter: `load` clears it. -/
def readVariant (s : List UInt8) : Variant S B V × List UInt8 :=
  match d.getVariant s with
  | some item => (item.value, item.rest)
  | none => (pastEnd s, [])

/-- `s >> c`, which is 0 past the end of the stream. -/
def readCount (s : List UInt8) : Nat × List UInt8 :=
  match quint32.get s with
  | some item => (item.value.toNat, item.rest)
  | none => (0, [])

/-- So many values in a list that was empty. -/
def readValues (s : List UInt8) : Nat → List (Variant S B V) × List UInt8
  | 0 => ([], s)
  | n + 1 =>
    let values := readValues s n
    let value := readVariant d pastEnd values.2
    (values.1 ++ [value.1], value.2)

/-- The count, and then as many values. -/
def decodeList (s : List UInt8) : List (Variant S B V) × List UInt8 := readValues d pastEnd (readCount s).2 (readCount s).1

/-- What the function returns, the list and the stream. -/
structure Deserialized (S B V : Type) [Inhabited B] where
  success : Bool
  l : List (Variant S B V)
  s : List UInt8

structure ListLoop (S B V : Type) [Inhabited B] where
  i : Nat
  l : List (Variant S B V)
  s : List UInt8

/-- The body of both loops: `store` is an assignment at the index or an `emplace_back`. -/
def readElement (store : ListLoop S B V → Variant S B V → List (Variant S B V)) (loop : ListLoop S B V) :
    Control (Deserialized S B V) (ListLoop S B V) :=
  if loop.s.isEmpty then .exit ⟨false, loop.l, loop.s⟩
  else
    let value := readVariant d pastEnd loop.s
    .next ⟨loop.i + 1, store loop value.1, value.2⟩

def overwriteElements (tests : Nat) : ListLoop S B V → Control (Deserialized S B V) (ListLoop S B V) :=
  repeatWhile (fun loop => loop.i < loop.l.length) (readElement d pastEnd fun loop => loop.l.set loop.i) tests

def appendElements (count tests : Nat) : ListLoop S B V → Control (Deserialized S B V) (ListLoop S B V) :=
  repeatWhile (fun loop => loop.i < count) (readElement d pastEnd fun loop value => loop.l ++ [value]) tests

/-- `deserializeQVariantList`: a list that is too long is cut, and a list that is too short grows in the second loop. -/
def deserializeInPlace (tests : Nat) (l : List (Variant S B V)) (s : List UInt8) : Control (Deserialized S B V) Empty :=
  let count := readCount s
  let l := if count.1 < l.length then l.take count.1 else l
  (overwriteElements d pastEnd tests ⟨0, l, count.2⟩).bind fun loop =>
    (appendElements d pastEnd count.1 tests ⟨loop.l.length, loop.l, loop.s⟩).bind fun loop => .exit ⟨true, loop.l, loop.s⟩

/-- The end of the stream is reached in front of the next value. -/
def EndsAfter (s : List UInt8) (n : Nat) : Prop := (readValues d pastEnd s n).2 = []

/-- What the loops make of a list with an old content, with so many values read. -/
structure Partial (old : List (Variant S B V)) (s : List UInt8) (n : Nat) (l : List (Variant S B V)) (rest : List UInt8) : Prop where
  l : l = (readValues d pastEnd s n).1 ++ old.drop n
  rest : rest = (readValues d pastEnd s n).2
  goesOn : ∀ k < n, ¬ EndsAfter d pastEnd s k

end Model

section Loops
variable {S B V : Type} [Inhabited B] {d : DataStream S B V} {pastEnd : List UInt8 → Variant S B V}
variable {old l : List (Variant S B V)} {s rest : List UInt8} {n count tests : Nat}

@[simp] theorem readVariant_nil : readVariant d pastEnd [] = (pastEnd [], []) := by
  simp [readVariant, d.getVariant_atEnd]

@[simp] theorem length_readValues : (readValues d pastEnd s n).1.length = n := by
  induction n with
  | zero => rfl
  | succ n ih => simp [readValues, ih]

/-- Nothing is behind the end. -/
theorem EndsAfter.mono (ends : EndsAfter d pastEnd s n) (later : n ≤ count) : EndsAfter d pastEnd s count := by
  induction count, later using Nat.le_induction with
  | base => exact ends
  | succ m _ ih =>
    have same : (readValues d pastEnd s m).2 = [] := ih
    simp [EndsAfter, readValues, same]

/-- What a return from the body of a loop says. -/
def Stopped (d : DataStream S B V) (pastEnd : List UInt8 → Variant S B V) (old : List (Variant S B V)) (s : List UInt8) (count : Nat)
    (r : Deserialized S B V) : Prop :=
  r.success = false ∧ ∃ n < count, EndsAfter d pastEnd s n ∧ Partial d pastEnd old s n r.l r.s

theorem Partial.stopped (read : Partial d pastEnd old s n l []) (more : n < count) :
    Stopped d pastEnd old s count ⟨false, l, []⟩ :=
  ⟨rfl, n, more, read.rest.symm, read⟩

/-- One value more is read, or the stream has ended in front of it. -/
theorem readElement_ends {i : Nat} {store : ListLoop S B V → Variant S B V → List (Variant S B V)}
    (read : Partial d pastEnd old s i l rest) (more : i < count)
    (stores : ∀ value, store ⟨i, l, rest⟩ value = (readValues d pastEnd s i).1 ++ value :: old.drop (i + 1)) :
    (readElement d pastEnd store ⟨i, l, rest⟩).Ends
      (fun loop => loop.i = i + 1 ∧ Partial d pastEnd old s (i + 1) loop.l loop.s) (Stopped d pastEnd old s count) := by
  unfold readElement
  split
  · rename_i empty
    obtain rfl : rest = [] := List.isEmpty_iff.mp empty
    exact read.stopped more
  · rename_i some
    refine ⟨rfl, ?_, ?_, fun k before => ?_⟩
    · simp [stores, readValues, ← read.rest]
    · simp [readValues, ← read.rest]
    · obtain earlier | rfl : k < i ∨ k = i := by omega
      · exact read.goesOn k earlier
      · simpa [EndsAfter, ← read.rest] using some

theorem overwriteElements_ends (short : old.length ≤ count) (enough : old.length < tests) :
    (overwriteElements d pastEnd tests ⟨0, old, s⟩).Ends
      (fun loop => loop.l.length = old.length ∧ Partial d pastEnd old s old.length loop.l loop.s)
      (Stopped d pastEnd old s count) := by
  have length {i : Nat} {l : List (Variant S B V)} {rest : List UInt8} (read : Partial d pastEnd old s i l rest)
      (bound : i ≤ old.length) : l.length = old.length := by
    rw [read.l, List.length_append, length_readValues, List.length_drop, Nat.add_sub_cancel' bound]
  refine Control.Ends.mono (repeatWhile_ends
    (fun loop => loop.i ≤ old.length ∧ Partial d pastEnd old s loop.i loop.l loop.s) (fun loop => old.length - loop.i) ?_
    (by dsimp only; omega) ⟨Nat.zero_le _, rfl, rfl, nofun⟩) ?_ fun _ => id
  · rintro ⟨i, l, rest⟩ ⟨bound, read⟩ tested
    dsimp only at bound read
    simp only [decide_eq_true_eq, length read bound] at tested
    refine (readElement_ends read (by omega) fun value => ?_).mono ?_ fun _ => id
    · -- What is overwritten is the first of the old elements that are left.
      have first := List.drop_eq_getElem_cons tested
      simp only [read.l, first, List.set_append_right _ _ (Nat.le_of_eq length_readValues), length_readValues, Nat.sub_self,
        List.set_cons_zero]
    · rintro ⟨j, l, rest⟩ ⟨rfl, read⟩
      exact ⟨⟨tested, read⟩, by dsimp only; omega⟩
  · rintro ⟨i, l, rest⟩ ⟨⟨bound, read⟩, tested⟩
    dsimp only at bound read
    simp only [decide_eq_false_iff_not, length read bound] at tested
    obtain rfl : i = old.length := by omega
    exact ⟨length read bound, read⟩

theorem appendElements_ends (short : old.length ≤ count) (enough : count - old.length < tests)
    (read : Partial d pastEnd old s old.length l rest) :
    (appendElements d pastEnd count tests ⟨old.length, l, rest⟩).Ends
      (fun loop => Partial d pastEnd old s count loop.l loop.s) (Stopped d pastEnd old s count) := by
  refine Control.Ends.mono (repeatWhile_ends
    (fun loop => old.length ≤ loop.i ∧ loop.i ≤ count ∧ Partial d pastEnd old s loop.i loop.l loop.s) (fun loop => count - loop.i) ?_
    (by dsimp only; omega) ⟨Nat.le_refl _, short, read⟩) ?_ fun _ => id
  · rintro ⟨i, l, rest⟩ ⟨behind, bound, read⟩ tested
    dsimp only at behind read
    simp only [decide_eq_true_eq] at tested
    refine (readElement_ends read tested fun value => ?_).mono ?_ fun _ => id
    · simp [read.l, List.drop_of_length_le behind, List.drop_of_length_le (Nat.le_succ_of_le behind)]
    · rintro ⟨j, l, rest⟩ ⟨rfl, read⟩
      exact ⟨⟨Nat.le_succ_of_le behind, tested, read⟩, by dsimp only; omega⟩
  · rintro ⟨i, l, rest⟩ ⟨⟨behind, bound, read⟩, tested⟩
    dsimp only at bound read
    simp only [decide_eq_false_iff_not] at tested
    obtain rfl : i = count := by omega
    exact read

end Loops

section Main
variable {S B V : Type} [Inhabited B] (d : DataStream S B V) (pastEnd : List UInt8 → Variant S B V)

theorem deserializeInPlace_ends {tests : Nat} (l : List (Variant S B V)) (s : List UInt8) (enough : (readCount s).1 < tests) :
    (deserializeInPlace d pastEnd tests l s).Ends (fun _ => False) (fun r =>
      Stopped d pastEnd (l.take (readCount s).1) (readCount s).2 (readCount s).1 r ∨
        r.success = true ∧ Partial d pastEnd (l.take (readCount s).1) (readCount s).2 (readCount s).1 r.l r.s) := by
  have cut : (if (readCount s).1 < l.length then l.take (readCount s).1 else l) = l.take (readCount s).1 := by
    split
    · rfl
    · exact (List.take_of_length_le (by omega)).symm
  have short : (l.take (readCount s).1).length ≤ (readCount s).1 := List.length_take_le _ _
  simp only [deserializeInPlace, cut]
  refine ((overwriteElements_ends short (by omega)).mono (fun _ => id) fun _ => .inl).bind fun loop ⟨length, read⟩ => ?_
  rw [length]
  exact ((appendElements_ends short (by omega) read).mono (fun _ => id) fun _ => .inl).bind fun loop read => .inr ⟨rfl, read⟩

/-- The function returns. It fails if the stream ends in front of a value, and the list then has what was read, with the old
elements behind it that no value has overwritten. -/
theorem deserializeInPlace_decodes (l : List (Variant S B V)) (s : List UInt8) {tests : Nat} (enough : (readCount s).1 < tests) :
    ∃ r, deserializeInPlace d pastEnd tests l s = .exit r ∧ r.s = (decodeList d pastEnd s).2 ∧
      (r.success = false ↔ ∃ n < (readCount s).1, EndsAfter d pastEnd (readCount s).2 n) ∧
      (r.success = true → r.l = (decodeList d pastEnd s).1) ∧
      (r.success = false → ∃ n < (readCount s).1, EndsAfter d pastEnd (readCount s).2 n ∧
        Partial d pastEnd (l.take (readCount s).1) (readCount s).2 n r.l r.s) := by
  have ends := deserializeInPlace_ends d pastEnd l s enough
  cases returned : deserializeInPlace d pastEnd tests l s with
  | next r => exact nomatch r
  | unfinished => simp [returned, Control.Ends] at ends
  | exit r =>
    rw [returned] at ends
    obtain ⟨failed, n, more, ended, read⟩ | ⟨done, read⟩ := ends
    · have last : (decodeList d pastEnd s).2 = [] := ended.mono more.le
      exact ⟨r, rfl, by rw [last, read.rest, ended], by simpa [failed] using ⟨n, more, ended⟩, by simp [failed],
        fun _ => ⟨n, more, ended, read⟩⟩
    · refine ⟨r, rfl, read.rest, ?_, fun _ => ?_, by simp [done]⟩
      · simpa [done] using fun n more => read.goesOn n more
      · simp [read.l, decodeList, List.drop_of_length_le (List.length_take_le (readCount s).1 l)]

/-- Values that a reader gets are those of the plain decoder. -/
theorem readValues_of_times {n : Nat} {bytes : List UInt8} {item : Item UInt8 (List (Variant S B V))}
    (read : times n d.getVariant bytes = some item) :
    readValues d pastEnd bytes n = (item.value, item.rest) ∧ ∀ k < n, ¬ EndsAfter d pastEnd bytes k := by
  induction n generalizing item with
  | zero =>
    cases read
    exact ⟨rfl, nofun⟩
  | succ n ih =>
    rw [times_add] at read
    obtain ⟨front, later, values, rest, rfl⟩ := bind_eq_some.mp read
    obtain ⟨same, before⟩ := ih values
    obtain ⟨back, _, single, done, rfl⟩ := bind_eq_some.mp rest
    cases done
    obtain ⟨value, _, read', done, rfl⟩ := bind_eq_some.mp single
    cases done
    have next : readVariant d pastEnd front.rest = (value.value, value.rest) := by simp [readVariant, read']
    refine ⟨by simp [readValues, same, next], fun k earlier ended => ?_⟩
    obtain earlier | rfl : k < n ∨ k = n := by omega
    · exact before k earlier ended
    · have atEnd : front.rest = [] := by simpa [EndsAfter, same] using ended
      simp [atEnd, d.getVariant_atEnd] at read'

/-- Where the reader of the packet gets a list, the loops leave the same one. -/
theorem deserializeInPlace_of_reader {l : List (Variant S B V)} {s : List UInt8} {item : Item UInt8 (List (Variant S B V))}
    (read : deserializeQVariantList d l s = some item) {tests : Nat} (enough : (readCount s).1 < tests) :
    deserializeInPlace d pastEnd tests l s = .exit ⟨true, item.value, item.rest⟩ := by
  rw [deserializeQVariantList_eq] at read
  obtain ⟨count, values, first, each, rfl⟩ := bind_eq_some.mp read
  have counted : readCount s = (count.value.toNat, count.rest) := by simp [readCount, first]
  obtain ⟨same, before⟩ := readValues_of_times d pastEnd each
  have decoded : decodeList d pastEnd s = (values.value, values.rest) := by simp [decodeList, counted, same]
  obtain ⟨⟨success, l', s'⟩, returned, rest, failed, list, -⟩ := deserializeInPlace_decodes d pastEnd l s enough
  have done : success = true := by
    rw [counted] at failed
    by_contra stopped
    obtain ⟨n, earlier, ended⟩ := failed.mp (by simpa using stopped)
    exact before n earlier ended
  rw [returned, done]
  simp_all

end Main

section Example
open QtStream

/-- A variant that is left of an earlier packet. -/
def staleElement : Variant QString QByteArray Int32 := .plain 7

/-- One value is read over the first of two stale ones. -/
theorem deserializeInPlace_decodes_one : ∃ r,
    deserializeInPlace stream (fun _ => .plain 0) 2 [staleElement, staleElement] (quint32.put 1 ++ stream.putVariant 5) = .exit r ∧
      r.s = (decodeList stream (fun _ => .plain 0) (quint32.put 1 ++ stream.putVariant 5)).2 := by
  obtain ⟨r, returned, rest, -⟩ := deserializeInPlace_decodes stream (fun _ => .plain 0) [staleElement, staleElement]
    (quint32.put 1 ++ stream.putVariant 5) (show _ < 2 by decide)
  exact ⟨r, returned, rest⟩

/-- The list of the caller keeps an element where the stream ends behind the count, and a list that was empty would get another. -/
theorem deserializeInPlace_keeps_stale : ∃ r, deserializeInPlace stream (fun _ => .plain 0) 2 [staleElement] (quint32.put 1) = .exit r ∧
    r.l ≠ (decodeList stream (fun _ => .plain 0) (quint32.put 1)).1 := by
  refine ⟨_, rfl, fun same => ?_⟩
  have stale : staleElement = .plain 0 := (List.cons.inj same).1
  simp [staleElement] at stale

end Example
end RemoteObjects.Packet
