import Mathlib.Data.List.Basic

/-! Texts that run together except where marks stand between them. -/
namespace RemoteObjects.Marks

section Model
variable {α M : Type*}

/-- The texts in front of the marks with these, and the text behind the last mark. -/
structure Outline (α M : Type*) where
  marked : List (List α × M)
  last : List α
deriving DecidableEq

/-- A text is put in front of the first mark. -/
def Outline.prepend (t : List α) : Outline α M → Outline α M
  | ⟨[], last⟩ => ⟨[], t ++ last⟩
  | ⟨(first, m) :: marked, last⟩ => ⟨(t ++ first, m) :: marked, last⟩

/-- Neighbouring texts become one. -/
def outline : List (List α ⊕ M) → Outline α M
  | [] => ⟨[], []⟩
  | .inl t :: pieces => (outline pieces).prepend t
  | .inr m :: pieces => ⟨([], m) :: (outline pieces).marked, (outline pieces).last⟩

/-- Everything in a row, with the marks as they are written. -/
def written (mark : M → List α) (pieces : List (List α ⊕ M)) : List α := pieces.flatMap (Sum.elim id mark)

def Outline.written (mark : M → List α) (o : Outline α M) : List α :=
  o.marked.flatMap (fun entry => entry.1 ++ mark entry.2) ++ o.last

end Model

section Injective
variable {α M : Type*} {mark : M → List α} {isMark : α → Bool} {valid : M → Prop} {o o' : Outline α M} {t : List α} {m : M}

theorem written_prepend (mark : M → List α) (t : List α) (o : Outline α M) :
    (o.prepend t).written mark = t ++ o.written mark := by
  obtain ⟨marked, last⟩ := o
  cases marked with
  | nil => rfl
  | cons entry marked =>
    simp only [Outline.prepend, Outline.written, List.flatMap_cons, List.append_assoc]

theorem written_outline (mark : M → List α) (pieces : List (List α ⊕ M)) :
    (outline pieces).written mark = written mark pieces := by
  induction pieces with
  | nil => rfl
  | cons piece pieces ih =>
    rw [written, List.flatMap_cons, ← written, ← ih]
    cases piece with
    | inl t => exact written_prepend mark t _
    | inr m => simp only [outline, Outline.written, List.flatMap_cons, List.nil_append, List.append_assoc, Sum.elim_inr]

/-- No text has a symbol with which a mark begins. -/
def Outline.Clean (isMark : α → Bool) (valid : M → Prop) (o : Outline α M) : Prop :=
  (∀ entry ∈ o.marked, valid entry.2 ∧ ∀ a ∈ entry.1, isMark a = false) ∧ ∀ a ∈ o.last, isMark a = false

theorem clean_prepend (clean : o.Clean isMark valid) (text : ∀ a ∈ t, isMark a = false) :
    (o.prepend t).Clean isMark valid := by
  obtain ⟨marked, last⟩ := o
  cases marked with
  | nil =>
    exact ⟨clean.1, fun a mem => (List.mem_append.mp mem).elim (text a) (clean.2 a)⟩
  | cons entry marked =>
    refine ⟨fun other mem => ?_, clean.2⟩
    rcases List.mem_cons.mp mem with rfl | later
    · obtain ⟨mark, first⟩ := clean.1 entry List.mem_cons_self
      exact ⟨mark, fun a mem => (List.mem_append.mp mem).elim (text a) (first a)⟩
    · exact clean.1 other (List.mem_cons_of_mem _ later)

theorem clean_outline {pieces : List (List α ⊕ M)} (texts : ∀ t, .inl t ∈ pieces → ∀ a ∈ t, isMark a = false)
    (marks : ∀ m, .inr m ∈ pieces → valid m) : (outline pieces).Clean isMark valid := by
  induction pieces with
  | nil => exact ⟨fun _ mem => absurd mem List.not_mem_nil, fun _ mem => absurd mem List.not_mem_nil⟩
  | cons piece pieces ih =>
    have rest := ih (fun t mem => texts t (List.mem_cons_of_mem _ mem)) fun m mem => marks m (List.mem_cons_of_mem _ mem)
    cases piece with
    | inl t => exact clean_prepend rest (texts t List.mem_cons_self)
    | inr m =>
      refine ⟨fun entry mem => ?_, rest.2⟩
      rcases List.mem_cons.mp mem with rfl | later
      · exact ⟨marks m List.mem_cons_self, fun _ mem => nomatch mem⟩
      · exact rest.1 entry later

theorem append_mark_inj {t t' : List α} {a a' : α} {s s' : List α} (text : ∀ b ∈ t, isMark b = false)
    (text' : ∀ b ∈ t', isMark b = false) (here : isMark a = true) (here' : isMark a' = true)
    (same : t ++ a :: s = t' ++ a' :: s') : t = t' ∧ a :: s = a' :: s' := by
  induction t generalizing t' with
  | nil =>
    cases t' with
    | nil => exact ⟨rfl, same⟩
    | cons b t' =>
      cases same
      exact absurd here (by rw [text' a List.mem_cons_self]; exact Bool.false_ne_true)
  | cons b t ih =>
    cases t' with
    | nil =>
      cases same
      exact absurd here' (by rw [text a' List.mem_cons_self]; exact Bool.false_ne_true)
    | cons b' t' =>
      obtain ⟨rfl, rest⟩ := List.cons.inj same
      obtain ⟨rfl, tail⟩ := ih (fun c mem => text c (List.mem_cons_of_mem _ mem))
        (fun c mem => text' c (List.mem_cons_of_mem _ mem)) rest
      exact ⟨rfl, tail⟩

/-- With marks of one length that begin with symbols of their own, what is written has one outline. -/
theorem written_injective {size : Nat} (length : ∀ m, (mark m).length = size)
    (begins : ∀ m, valid m → ∃ a s, mark m = a :: s ∧ isMark a = true)
    (injective : ∀ m m', valid m → valid m' → mark m = mark m' → m = m')
    (clean : o.Clean isMark valid) (clean' : o'.Clean isMark valid) (same : o.written mark = o'.written mark) : o = o' := by
  obtain ⟨marked, last⟩ := o
  obtain ⟨marked', last'⟩ := o'
  induction marked generalizing marked' with
  | nil =>
    cases marked' with
    | nil => exact congrArg (Outline.mk []) same
    | cons entry marked' =>
      obtain ⟨a, s, spelled, here⟩ := begins entry.2 (clean'.1 entry List.mem_cons_self).1
      have mem : a ∈ last := by
        have mem' : a ∈ Outline.written mark ⟨entry :: marked', last'⟩ := by
          simp [Outline.written, spelled]
        rw [← same] at mem'
        exact mem'
      exact absurd here (by rw [clean.2 a mem]; exact Bool.false_ne_true)
  | cons entry marked ih =>
    obtain ⟨t, m⟩ := entry
    obtain ⟨mark_m, text⟩ := clean.1 (t, m) List.mem_cons_self
    obtain ⟨a, s, spelled, here⟩ := begins m mark_m
    cases marked' with
    | nil =>
      have mem : a ∈ last' := by
        have mem' : a ∈ Outline.written mark ⟨(t, m) :: marked, last⟩ := by
          simp [Outline.written, spelled]
        rw [same] at mem'
        exact mem'
      exact absurd here (by rw [clean'.2 a mem]; exact Bool.false_ne_true)
    | cons entry' marked' =>
      obtain ⟨t', m'⟩ := entry'
      obtain ⟨mark_m', text'⟩ := clean'.1 (t', m') List.mem_cons_self
      obtain ⟨a', s', spelled', here'⟩ := begins m' mark_m'
      have split (t : List α) (m : M) (marked : List (List α × M)) (last : List α) :
          Outline.written mark ⟨(t, m) :: marked, last⟩ = t ++ (mark m ++ Outline.written mark ⟨marked, last⟩) := by
        simp only [Outline.written, List.flatMap_cons, List.append_assoc]
      rw [split, split] at same
      obtain ⟨rfl, tails⟩ : t = t' ∧ mark m ++ Outline.written mark ⟨marked, last⟩ =
          mark m' ++ Outline.written mark ⟨marked', last'⟩ := by
        rw [spelled, spelled', List.cons_append, List.cons_append] at same ⊢
        exact append_mark_inj text text' here here' same
      obtain ⟨marks, rests⟩ := List.append_inj tails ((length m).trans (length m').symm)
      cases injective m m' mark_m mark_m' marks
      cases ih ⟨fun entry mem => clean.1 entry (List.mem_cons_of_mem _ mem), clean.2⟩ marked'
        ⟨fun entry mem => clean'.1 entry (List.mem_cons_of_mem _ mem), clean'.2⟩ rests
      rfl

end Injective

end RemoteObjects.Marks
