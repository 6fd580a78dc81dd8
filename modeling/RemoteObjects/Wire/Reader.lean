import Mathlib.Data.List.Basic

/-! Stateful readers of a binary stream and the two facts a receiver needs of
them: reading back what was written, and consuming bytes that depend on nothing
behind them. A read past the end of the stream is `none`: the device is drained.
Nothing here fixes a byte type or a format. -/
namespace RemoteObjects.Wire
variable {β α γ : Type}

/-- What one read leaves behind. `ok` is the stream status: a corrupt value
still consumes bytes, and loops may look at the status. -/
structure Item (β α : Type) where
  value : α
  ok : Bool
  rest : List β
deriving DecidableEq, Repr

def Reader (β α : Type) := List β → Option (Item β α)

namespace Reader

instance : Monad (Reader β) where
  pure a := fun bytes => some ⟨a, true, bytes⟩
  bind r f := fun bytes => (r bytes).bind fun x =>
    (f x.value x.rest).map fun y => ⟨y.value, x.ok && y.ok, y.rest⟩

/-- `n` reads in a row, whatever the status. -/
def times : Nat → Reader β α → Reader β (List α)
  | 0, _ => pure []
  | n + 1, r => do
    let a ← r
    let as ← times n r
    pure (a :: as)

/-- `n` reads, stopped by the first one that leaves the stream corrupt; the list
is then cleared. -/
def checked : Nat → Reader β α → Reader β (List α)
  | 0, _ => pure []
  | n + 1, r => fun bytes => (r bytes).bind fun x =>
    if x.ok then
      (checked n r x.rest).map fun y => ⟨if y.ok then x.value :: y.value else [], y.ok, y.rest⟩
    else some ⟨[], false, x.rest⟩

/-- A read that finds the stream corrupt and takes nothing more from it. -/
def corrupt (a : α) : Reader β α := fun bytes => some ⟨a, false, bytes⟩

/-- The reader turns exactly `bytes` into `a`, whatever follows them. -/
def Reads (r : Reader β α) (bytes : List β) (a : α) : Prop :=
  ∀ rest, r (bytes ++ rest) = some ⟨a, true, rest⟩

/-- A successful read depends only on the bytes it consumes. -/
def SelfDelimiting (r : Reader β α) : Prop :=
  ∀ bytes x, r bytes = some x →
    ∃ consumed, bytes = consumed ++ x.rest ∧
      ∀ rest, r (consumed ++ rest) = some ⟨x.value, x.ok, rest⟩

theorem bind_apply (r : Reader β α) (f : α → Reader β γ) (bytes : List β) :
    (r >>= f) bytes = (r bytes).bind fun x =>
      (f x.value x.rest).map fun y => ⟨y.value, x.ok && y.ok, y.rest⟩ := rfl

/-- A sequence succeeds when its first read does and the rest succeeds behind it. -/
theorem bind_eq_some {r : Reader β α} {f : α → Reader β γ} {x : Item β γ} :
    (r >>= f) bytes = some x ↔ ∃ y z, r bytes = some y ∧ f y.value y.rest = some z ∧
      x = ⟨z.value, y.ok && z.ok, z.rest⟩ := by
  simp only [bind_apply, Option.bind_eq_some_iff, Option.map_eq_some_iff]
  constructor
  · rintro ⟨y, head, z, tail, rfl⟩
    exact ⟨y, z, head, tail, rfl⟩
  · rintro ⟨y, z, head, tail, rfl⟩
    exact ⟨y, head, z, tail, rfl⟩

theorem pure_apply (a : α) (bytes : List β) :
    (pure a : Reader β α) bytes = some ⟨a, true, bytes⟩ := rfl

instance : LawfulMonad (Reader β) := LawfulMonad.mk' _
  (fun r => by
    funext bytes
    change (r >>= pure) bytes = r bytes
    cases found : r bytes <;> simp [bind_apply, pure_apply, found])
  (fun a f => by
    funext bytes
    simp [bind_apply, pure_apply])
  (fun r f g => by
    funext bytes
    cases first : r bytes with
    | none => simp [bind_apply, first]
    | some x => cases second : f x.value x.rest <;>
      simp [bind_apply, first, second, Bool.and_assoc, Function.comp_def])

/-- A sequence of reads may be cut in two. -/
theorem times_add (r : Reader β α) (m n : Nat) : times (m + n) r = (do
    let front ← times m r
    let back ← times n r
    pure (front ++ back)) := by
  induction m with
  | zero => simp [times]
  | succ m ih => simp [Nat.succ_add, times, ih]

theorem reads_pure (a : α) : Reads (pure a : Reader β α) [] a := fun _ => rfl

theorem Reads.bind {r : Reader β α} {f : α → Reader β γ} (head : Reads r bytes a)
    (tail : Reads (f a) more c) : Reads (r >>= f) (bytes ++ more) c := by
  intro rest
  simp only [bind_apply, List.append_assoc, head (more ++ rest), Option.bind_some, tail rest,
    Option.map_some, Bool.and_true]

/-- A sequence behind its first read. -/
theorem Reads.head {r : Reader β α} {f : α → Reader β γ} (head : Reads r bytes a) : (r >>= f) (bytes ++ more) = f a more := by
  cases found : f a more <;> simp [bind_apply, head more, found]

/-- The last read of a sequence: what follows it reads nothing. -/
theorem Reads.last {r : Reader β α} {f : α → Reader β γ} (head : Reads r bytes a)
    (tail : Reads (f a) [] c) : Reads (r >>= f) bytes c := by
  have whole : Reads (r >>= f) (bytes ++ []) c := head.bind tail
  rwa [List.append_nil] at whole

theorem Reads.map {r : Reader β α} {g : α → γ} (head : Reads r bytes a) :
    Reads (g <$> r) bytes (g a) :=
  show Reads (r >>= fun a => pure (g a)) bytes (g a) from head.last (reads_pure (g a))

theorem Reads.exact {r : Reader β α} (reads : Reads r bytes a) :
    r bytes = some ⟨a, true, []⟩ := by
  simpa only [List.append_nil] using reads []

theorem Reads.times {r : Reader β α} {put : α → List β}
    (each : ∀ a ∈ values, Reads r (put a) a) :
    Reads (times values.length r) (values.flatMap put) values := by
  induction values with
  | nil => exact reads_pure []
  | cons a as ih =>
    have tail := ih fun b member => each b (List.mem_cons_of_mem a member)
    exact (each a List.mem_cons_self).bind (tail.last (reads_pure (a :: as)))

theorem Reads.checked {r : Reader β α} {put : α → List β}
    (each : ∀ a ∈ values, Reads r (put a) a) :
    Reads (checked values.length r) (values.flatMap put) values := by
  induction values with
  | nil => exact reads_pure []
  | cons a as ih =>
    intro rest
    have tail := ih fun b member => each b (List.mem_cons_of_mem a member)
    simp only [List.length_cons, Reader.checked, List.flatMap_cons, List.append_assoc,
      each a List.mem_cons_self (as.flatMap put ++ rest), tail rest, Option.bind_some, if_true,
      Option.map_some]

theorem SelfDelimiting.pure (a : α) : SelfDelimiting (pure a : Reader β α) := by
  rintro bytes x success
  cases success
  exact ⟨[], rfl, fun _ => rfl⟩

theorem SelfDelimiting.corrupt (a : α) : SelfDelimiting (corrupt a : Reader β α) := by
  rintro bytes x success
  cases success
  exact ⟨[], rfl, fun _ => rfl⟩

theorem SelfDelimiting.bind {r : Reader β α} {f : α → Reader β γ}
    (head : SelfDelimiting r) (tail : ∀ a, SelfDelimiting (f a)) :
    SelfDelimiting (r >>= f) := by
  intro bytes x success
  obtain ⟨y, z, first, second, rfl⟩ := bind_eq_some.mp success
  obtain ⟨front, split, repeats⟩ := head bytes y first
  obtain ⟨back, splitBack, repeatsBack⟩ := tail y.value y.rest z second
  refine ⟨front ++ back, by rw [split, splitBack, List.append_assoc], fun rest => ?_⟩
  simp only [bind_apply, List.append_assoc, repeats (back ++ rest), Option.bind_some,
    repeatsBack rest, Option.map_some]

theorem SelfDelimiting.map {r : Reader β α} {g : α → γ} (head : SelfDelimiting r) :
    SelfDelimiting (g <$> r) :=
  head.bind fun a => SelfDelimiting.pure (g a)

theorem SelfDelimiting.times {r : Reader β α} (each : SelfDelimiting r) :
    ∀ n, SelfDelimiting (times n r)
  | 0 => SelfDelimiting.pure []
  | n + 1 => each.bind fun a => (times each n).bind fun as => SelfDelimiting.pure (a :: as)

theorem SelfDelimiting.checked {r : Reader β α} (each : SelfDelimiting r) :
    ∀ n, SelfDelimiting (checked n r)
  | 0 => SelfDelimiting.pure []
  | n + 1 => by
    intro bytes x success
    obtain ⟨y, first, success⟩ := Option.bind_eq_some_iff.mp success
    obtain ⟨front, split, repeats⟩ := each bytes y first
    cases status : y.ok with
    | false =>
      simp only [status, Bool.false_eq_true, if_false, Option.some.injEq] at success
      subst success
      exact ⟨front, split, fun rest => by simp [Reader.checked, repeats rest, status]⟩
    | true =>
      simp only [status, if_true] at success
      obtain ⟨z, second, rfl⟩ := Option.map_eq_some_iff.mp success
      obtain ⟨back, splitBack, repeatsBack⟩ := checked each n y.rest z second
      refine ⟨front ++ back, by rw [split, splitBack, List.append_assoc], fun rest => ?_⟩
      simp only [Reader.checked, List.append_assoc, repeats (back ++ rest), Option.bind_some,
        status, if_true, repeatsBack rest, Option.map_some]

/-- What a self-delimiting reader leaves of its input, it leaves of every
continuation too. -/
theorem SelfDelimiting.append {r : Reader β α} (delimiting : SelfDelimiting r)
    (success : r bytes = some x) (more : List β) :
    r (bytes ++ more) = some ⟨x.value, x.ok, x.rest ++ more⟩ := by
  obtain ⟨consumed, split, repeats⟩ := delimiting bytes x success
  rw [split, List.append_assoc, repeats]

theorem SelfDelimiting.length_le {r : Reader β α} (delimiting : SelfDelimiting r)
    (success : r bytes = some x) : x.rest.length ≤ bytes.length := by
  obtain ⟨consumed, split, -⟩ := delimiting bytes x success
  rw [split, List.length_append]
  omega

end Reader
end RemoteObjects.Wire
