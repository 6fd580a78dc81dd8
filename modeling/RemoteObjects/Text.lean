import Mathlib.Algebra.GroupWithZero.Nat
import Mathlib.Data.List.Infix

/-! Texts as lists: where a pattern stands first, replacing it there or all its occurrences from the
front, none of which overlaps the one before, and what is between separators. -/
namespace RemoteObjects.Text

/-- Names are such texts, and `∈` on a list of names computes with this equality. -/
instance lawfulName : LawfulBEq (List Char) := List.instLawfulBEq

variable {α : Type*} [DecidableEq α]

/-- The first place where the pattern stands. -/
def find (pattern : List α) : List α → Option Nat
  | [] => if pattern = [] then some 0 else none
  | a :: s => if pattern <+: a :: s then some 0 else (find pattern s).map (· + 1)

/-- The same with `-1` for a pattern that does not occur. -/
def indexOf (pattern s : List α) : Int :=
  match find pattern s with
  | some index => index
  | none => -1

/-- What is behind an index that is too large stays; a negative one leaves nothing. -/
def truncate (index : Int) (s : List α) : List α :=
  if index < s.length then s.take index.toNat else s

def replaceFrom (pattern by' : List α) : Nat → List α → List α
  | _, [] => []
  | skip + 1, _ :: s => replaceFrom pattern by' skip s
  | 0, a :: s =>
    if pattern <+: a :: s then by' ++ replaceFrom pattern by' (pattern.length - 1) s
    else a :: replaceFrom pattern by' 0 s

def replace (pattern by' s : List α) : List α := replaceFrom pattern by' 0 s

/-- Replacing the first occurrence only; without one the text stays. -/
def replaceFirst (pattern by' s : List α) : List α :=
  match find pattern s with
  | some index => s.take index ++ by' ++ s.drop (index + pattern.length)
  | none => s

section Index

theorem indexOf_eq_neg_one {pattern s : List α} : indexOf pattern s = -1 ↔ find pattern s = none := by
  unfold indexOf
  cases find pattern s <;> simp

omit [DecidableEq α] in
theorem truncate_natCast (index : Nat) (s : List α) : truncate index s = s.take index := by
  unfold truncate
  split
  · rw [Int.toNat_natCast]
  · exact (List.take_of_length_le (by omega)).symm

omit [DecidableEq α] in
theorem truncate_neg_one (s : List α) : truncate (-1) s = [] := by
  unfold truncate
  rw [if_pos (by omega)]
  rfl

end Index

section Replace
variable {pattern by' s t rest : List α}

theorem replaceFrom_eq (skip : Nat) (s : List α) :
    replaceFrom pattern by' skip s = replace pattern by' (s.drop skip) := by
  induction s generalizing skip with
  | nil => cases skip <;> rfl
  | cons a s ih =>
    cases skip with
    | zero => rfl
    | succ skip => exact ih skip

@[simp] theorem replace_nil : replace pattern by' [] = [] := rfl

theorem replace_pattern (nonempty : pattern ≠ []) (s : List α) :
    replace pattern by' (pattern ++ s) = by' ++ replace pattern by' s := by
  obtain ⟨a, rest, rfl⟩ := List.exists_cons_of_ne_nil nonempty
  rw [List.cons_append, replace, replaceFrom, ← List.cons_append, if_pos (List.prefix_append _ s), replaceFrom_eq,
    List.length_cons, Nat.add_sub_cancel, List.drop_left]

theorem replace_cons {a : α} (absent : ¬ pattern <+: a :: s) :
    replace pattern by' (a :: s) = a :: replace pattern by' s := by
  rw [replace, replaceFrom, if_neg absent, replace]

/-- A text is empty, or goes on behind an occurrence of the pattern, or behind something else. -/
theorem replace_induction (nonempty : pattern ≠ []) {P : List α → Prop} (nil : P [])
    (found : ∀ s, P s → P (pattern ++ s)) (other : ∀ a s, ¬ pattern <+: a :: s → P s → P (a :: s)) (s : List α) : P s := by
  induction length : s.length using Nat.strongRecOn generalizing s with
  | ind n ih =>
    cases s with
    | nil => exact nil
    | cons a s =>
      by_cases occurs : pattern <+: a :: s
      · obtain ⟨rest, same⟩ := occurs
        have shorter : rest.length < n := by
          have positive := List.length_pos_of_ne_nil nonempty
          rw [← length, ← same, List.length_append]
          omega
        rw [← same]
        exact found rest (ih rest.length shorter rest rfl)
      · exact other a s occurs (ih s.length (by rw [← length]; exact Nat.lt_succ_self _) s rfl)

/-- Where no occurrence begins in a text and ends behind it, the parts may be replaced apart. -/
theorem replace_append (nonempty : pattern ≠ [])
    (within : ∀ u, u ≠ [] → u <:+ t → pattern <+: u ++ rest → pattern <+: u) :
    replace pattern by' (t ++ rest) = replace pattern by' t ++ replace pattern by' rest := by
  induction t using replace_induction nonempty with
  | nil => rfl
  | found t ih =>
    rw [List.append_assoc, replace_pattern nonempty, replace_pattern nonempty, List.append_assoc,
      ih fun u some suffix => within u some (suffix.trans (List.suffix_append _ _))]
  | other a t absent ih =>
    have whole : ¬ pattern <+: a :: (t ++ rest) := fun occurs =>
      absent (within (a :: t) (List.cons_ne_nil a t) (List.suffix_refl _) occurs)
    rw [List.cons_append, replace_cons whole, replace_cons absent, List.cons_append,
      ih fun u some suffix => within u some (suffix.trans (List.suffix_cons a t))]

omit [DecidableEq α] in
/-- A prefix without a character ends in front of it. -/
theorem prefix_of_not_mem {a : α} (absent : a ∉ pattern) (occurs : pattern <+: s ++ a :: rest) : pattern <+: s := by
  induction s generalizing pattern with
  | nil =>
    cases pattern with
    | nil => exact List.nil_prefix
    | cons b pattern =>
      obtain ⟨rfl, _⟩ := List.cons_prefix_cons.mp occurs
      exact absurd List.mem_cons_self absent
  | cons c s ih =>
    cases pattern with
    | nil => exact List.nil_prefix
    | cons b pattern =>
      obtain ⟨rfl, later⟩ := List.cons_prefix_cons.mp occurs
      exact List.cons_prefix_cons.mpr ⟨rfl, ih (fun member => absent (List.mem_cons_of_mem _ member)) later⟩

/-- Characters that a pattern does not have separate a text. -/
theorem replace_separate (nonempty : pattern ≠ []) {a : α} (absent : a ∉ pattern) :
    replace pattern by' (s ++ a :: rest) = replace pattern by' s ++ a :: replace pattern by' rest := by
  have single : ¬ pattern <+: a :: rest := fun occurs => by
    obtain ⟨b, more, rfl⟩ := List.exists_cons_of_ne_nil nonempty
    obtain ⟨rfl, _⟩ := List.cons_prefix_cons.mp occurs
    exact absent List.mem_cons_self
  rw [replace_append nonempty fun _ _ _ => prefix_of_not_mem absent, replace_cons single]

theorem replace_eq_nil (nonempty : pattern ≠ []) (kept : by' ≠ []) : replace pattern by' s = [] ↔ s = [] := by
  induction s using replace_induction nonempty with
  | nil => simp
  | found s ih => simp [replace_pattern nonempty, nonempty, kept]
  | other a s absent ih => simp [replace_cons absent]

/-- Only repetitions of the pattern vanish. -/
theorem replace_nil_eq_nil (nonempty : pattern ≠ []) (s : List α) :
    replace pattern [] s = [] ↔ ∃ n, s = (List.replicate n pattern).flatten := by
  constructor
  · intro empty
    induction s using replace_induction nonempty with
    | nil => exact ⟨0, rfl⟩
    | found s ih =>
      rw [replace_pattern nonempty, List.nil_append] at empty
      obtain ⟨n, rfl⟩ := ih empty
      exact ⟨n + 1, rfl⟩
    | other a s absent _ =>
      rw [replace_cons absent] at empty
      exact absurd empty (List.cons_ne_nil _ _)
  · rintro ⟨n, rfl⟩
    induction n with
    | zero => rfl
    | succ n ih =>
      rw [List.replicate_succ, List.flatten_cons, replace_pattern nonempty, List.nil_append]
      exact ih

theorem mem_replace {a : α} (nonempty : pattern ≠ []) (member : a ∈ replace pattern by' s) : a ∈ by' ∨ a ∈ s := by
  induction s using replace_induction nonempty with
  | nil => exact .inr member
  | found s ih =>
    rw [replace_pattern nonempty] at member
    rcases List.mem_append.mp member with new | later
    · exact .inl new
    · exact (ih later).imp_right (List.mem_append_right pattern)
  | other b s absent ih =>
    rw [replace_cons absent] at member
    rcases List.mem_cons.mp member with rfl | later
    · exact .inr List.mem_cons_self
    · exact (ih later).imp_right (List.mem_cons_of_mem b)

theorem replace_absent (nonempty : pattern ≠ []) (absent : ¬ pattern <:+: s) : replace pattern by' s = s := by
  induction s using replace_induction nonempty with
  | nil => rfl
  | found s ih => exact absurd (List.prefix_append pattern s).isInfix absent
  | other a s _ ih =>
    rw [replace_cons fun occurs => absent occurs.isInfix,
      ih fun inside => absent (inside.trans (List.suffix_cons a s).isInfix)]

theorem replace_self (nonempty : pattern ≠ []) : replace pattern pattern s = s := by
  induction s using replace_induction nonempty with
  | nil => rfl
  | found s ih => rw [replace_pattern nonempty, ih]
  | other a s absent ih => rw [replace_cons absent, ih]

/-- The length changes by the difference of the two for each occurrence. -/
theorem length_replace (by' : List α) (nonempty : pattern ≠ []) (s : List α) :
    ∃ n, (replace pattern by' s).length + n * pattern.length = s.length + n * by'.length := by
  induction s using replace_induction nonempty with
  | nil => exact ⟨0, by simp⟩
  | found s ih =>
    obtain ⟨n, length⟩ := ih
    refine ⟨n + 1, ?_⟩
    rw [replace_pattern nonempty, List.length_append, List.length_append, Nat.succ_mul, Nat.succ_mul]
    omega
  | other a s absent ih =>
    obtain ⟨n, length⟩ := ih
    refine ⟨n, ?_⟩
    rw [replace_cons absent, List.length_cons, List.length_cons]
    omega

/-- What is replaced by something else does not stay. -/
theorem replace_eq_self (nonempty : pattern ≠ []) :
    replace pattern by' s = s ↔ pattern = by' ∨ ¬ pattern <:+: s := by
  constructor
  · intro same
    by_cases absent : pattern <:+: s
    · refine .inl ?_
      induction s using replace_induction nonempty with
      | nil => exact absurd (List.infix_nil.mp absent) nonempty
      | found s ih =>
        rw [replace_pattern nonempty] at same
        obtain ⟨n, length⟩ := length_replace by' nonempty s
        have total := congrArg List.length same
        rw [List.length_append, List.length_append] at total
        have equal : by'.length = pattern.length := by
          rcases Nat.lt_trichotomy by'.length pattern.length with less | equal | more
          · have := Nat.mul_le_mul_left n (Nat.le_of_lt less)
            omega
          · exact equal
          · have := Nat.mul_le_mul_left n (Nat.le_of_lt more)
            omega
        exact (List.append_inj_left same equal).symm
      | other a s none ih =>
        rw [replace_cons none] at same
        refine ih (List.cons_injective same) ?_
        rcases List.infix_cons_iff.mp absent with here | inside
        · exact absurd here none
        · exact inside
    · exact .inr absent
  · rintro (rfl | absent)
    · exact replace_self nonempty
    · exact replace_absent nonempty absent

/-- A character that only the pattern has gets rarer with each occurrence. -/
theorem count_replace {a : α} (member : a ∈ pattern) (new : a ∉ by') (s : List α) :
    (replace pattern by' s).count a ≤ s.count a ∧
      (pattern <:+: s → (replace pattern by' s).count a < s.count a) := by
  have nonempty : pattern ≠ [] := List.ne_nil_of_mem member
  induction s using replace_induction nonempty with
  | nil => exact ⟨Nat.le_refl _, fun occurs => absurd (List.infix_nil.mp occurs) nonempty⟩
  | found s ih =>
    have positive : 0 < pattern.count a := List.count_pos_iff.mpr member
    rw [replace_pattern nonempty, List.count_append, List.count_append, List.count_eq_zero_of_not_mem new]
    exact ⟨by omega, fun _ => by omega⟩
  | other b s absent ih =>
    rw [replace_cons absent, List.count_cons, List.count_cons]
    refine ⟨by omega, fun occurs => ?_⟩
    rcases List.infix_cons_iff.mp occurs with here | inside
    · exact absurd here absent
    · have less := ih.2 inside
      omega

/-- Where the pattern weighs as much as what comes in its place, the weight of a text stays. -/
theorem sum_replace (w : α → Nat) (nonempty : pattern ≠ []) (same : (by'.map w).sum = (pattern.map w).sum) (s : List α) :
    ((replace pattern by' s).map w).sum = (s.map w).sum := by
  induction s using replace_induction nonempty with
  | nil => rfl
  | found s ih => simp [replace_pattern nonempty, same, ih]
  | other a s absent ih => simp [replace_cons absent, ih]

end Replace

section First
variable {pattern by' s rest : List α} {a : α}

theorem replaceFirst_nil (nonempty : pattern ≠ []) : replaceFirst pattern by' [] = [] := by simp [replaceFirst, find, nonempty]

theorem replaceFirst_pattern (nonempty : pattern ≠ []) (s : List α) : replaceFirst pattern by' (pattern ++ s) = by' ++ s := by
  obtain ⟨a, t, rfl⟩ := List.exists_cons_of_ne_nil nonempty
  have here : a :: t <+: a :: (t ++ s) := List.prefix_append (a :: t) s
  simp [replaceFirst, find, here]

theorem replaceFirst_cons (absent : ¬ pattern <+: a :: s) : replaceFirst pattern by' (a :: s) = a :: replaceFirst pattern by' s := by
  rw [replaceFirst, find, if_neg absent, replaceFirst]
  cases find pattern s with
  | none => rfl
  | some index => simp [Nat.add_right_comm index 1]

/-- The first part that has the pattern in it is the one that is changed. -/
theorem replaceFirst_separate (nonempty : pattern ≠ []) (absent : a ∉ pattern) :
    replaceFirst pattern by' (s ++ a :: rest) =
      if pattern <:+: s then replaceFirst pattern by' s ++ a :: rest else s ++ a :: replaceFirst pattern by' rest := by
  induction s with
  | nil =>
    have single : ¬ pattern <+: a :: rest := fun occurs => by
      obtain ⟨b, more, rfl⟩ := List.exists_cons_of_ne_nil nonempty
      obtain ⟨rfl, _⟩ := List.cons_prefix_cons.mp occurs
      exact absent List.mem_cons_self
    rw [if_neg (by simpa using nonempty), List.nil_append, replaceFirst_cons single, List.nil_append]
  | cons b s ih =>
    by_cases here : pattern <+: b :: s
    · obtain ⟨t, same⟩ := here
      rw [if_pos ⟨[], t, same⟩, ← same, List.append_assoc, replaceFirst_pattern nonempty, replaceFirst_pattern nonempty, List.append_assoc]
    · have whole : ¬ pattern <+: b :: (s ++ a :: rest) := fun occurs => here (prefix_of_not_mem absent occurs)
      rw [List.cons_append, replaceFirst_cons whole, ih, replaceFirst_cons here]
      simp only [List.infix_cons_iff, here, false_or]
      split <;> rfl

theorem replaceFirst_absent (absent : ¬ pattern <:+: s) : replaceFirst pattern by' s = s := by
  induction s with
  | nil => exact replaceFirst_nil fun empty => absent (empty ▸ List.infix_rfl)
  | cons b s ih =>
    rw [List.infix_cons_iff, not_or] at absent
    rw [replaceFirst_cons absent.1, ih absent.2]

/-- The pattern's own weight is exchanged once. -/
theorem sum_replaceFirst (w : α → Nat) (nonempty : pattern ≠ []) (occurs : pattern <:+: s) :
    ((replaceFirst pattern by' s).map w).sum + (pattern.map w).sum = (s.map w).sum + (by'.map w).sum := by
  induction s with
  | nil => exact absurd (List.infix_nil.mp occurs) nonempty
  | cons b s ih =>
    by_cases here : pattern <+: b :: s
    · obtain ⟨t, same⟩ := here
      rw [← same, replaceFirst_pattern nonempty]
      simp only [List.map_append, List.sum_append]
      omega
    · have inside := ih ((List.infix_cons_iff.mp occurs).resolve_left here)
      rw [replaceFirst_cons here]
      simp only [List.map_cons, List.sum_cons]
      omega

theorem mem_replaceFirst (member : a ∈ replaceFirst pattern by' s) : a ∈ by' ∨ a ∈ s := by
  rw [replaceFirst] at member
  split at member
  · rcases List.mem_append.mp member with member | behind
    · rcases List.mem_append.mp member with before | new
      · exact .inr (List.mem_of_mem_take before)
      · exact .inl new
    · exact .inr (List.mem_of_mem_drop behind)
  · exact .inr member

end First

section Split
variable {s : List α} {a : α}

/-- What is between the separators is of the text and without separators. -/
theorem mem_splitOn : ∀ word ∈ s.splitOn a, a ∉ word ∧ ∀ b ∈ word, b ∈ s := by
  induction s with
  | nil =>
    intro word mem
    rw [List.splitOn_nil, List.mem_singleton] at mem
    rw [mem]
    exact ⟨List.not_mem_nil, nofun⟩
  | cons d s ih =>
    have later : ∀ word ∈ s.splitOn a, a ∉ word ∧ ∀ b ∈ word, b ∈ d :: s := fun word mem =>
      ⟨(ih word mem).1, fun b inside => List.mem_cons_of_mem d ((ih word mem).2 b inside)⟩
    intro word mem
    rw [List.splitOn_cons_eq_if_modifyHead] at mem
    split at mem
    · rcases List.mem_cons.mp mem with rfl | mem
      · exact ⟨List.not_mem_nil, nofun⟩
      · exact later word mem
    · next other =>
      obtain ⟨first, words, split⟩ := List.exists_cons_of_ne_nil (List.splitOn_ne_nil a s)
      rw [split, List.modifyHead_cons] at mem
      rw [split] at later
      rcases List.mem_cons.mp mem with rfl | mem
      · obtain ⟨absent, inside⟩ := later first List.mem_cons_self
        refine ⟨fun is => ?_, ?_⟩
        · rcases List.mem_cons.mp is with rfl | is
          · exact other (beq_self_eq_true a)
          · exact absent is
        · exact List.forall_mem_cons.mpr ⟨List.mem_cons_self, inside⟩
      · exact later word (List.mem_cons_of_mem first mem)

end Split
end RemoteObjects.Text
