import Mathlib.Data.List.Basic

/-! Logs of definitions and uses, read from the front with what is known before. -/
namespace RemoteObjects

inductive Announcement (α : Type*)
  | definition (a : α)
  | use (a : α)
deriving DecidableEq

namespace Announcement
variable {α : Type*} {k more : List α} {log later : List (Announcement α)} {a : α}

/-- What is known behind a log. -/
def known : List α → List (Announcement α) → List α
  | k, [] => k
  | k, .definition a :: log => known (a :: k) log
  | k, .use _ :: log => known k log

/-- Every use stands behind a definition, unless it was known before. -/
def Defined : List α → List (Announcement α) → Prop
  | _, [] => True
  | k, .definition a :: log => Defined (a :: k) log
  | k, .use a :: log => a ∈ k ∧ Defined k log

instance definedDecidable [DecidableEq α] : ∀ (k : List α) (log : List (Announcement α)), Decidable (Defined k log)
  | _, [] => .isTrue trivial
  | k, .definition a :: log => definedDecidable (a :: k) log
  | k, .use a :: log =>
    have := definedDecidable k log
    inferInstanceAs (Decidable (a ∈ k ∧ Defined k log))

theorem mem_known : a ∈ known k log ↔ a ∈ k ∨ .definition a ∈ log := by
  induction log generalizing k with
  | nil => simp [known]
  | cons entry log ih =>
    cases entry with
    | definition b =>
      rw [known, ih, List.mem_cons, List.mem_cons, definition.injEq]
      exact or_assoc.trans or_left_comm
    | use b => simp [known, ih]

theorem known_append : known k (log ++ later) = known (known k log) later := by
  induction log generalizing k with
  | nil => rfl
  | cons entry log ih => cases entry <;> exact ih

theorem subset_known (k : List α) (log : List (Announcement α)) : k ⊆ known k log := fun _ member =>
  mem_known.mpr (.inl member)

theorem defined_append : Defined k (log ++ later) ↔ Defined k log ∧ Defined (known k log) later := by
  induction log generalizing k with
  | nil => simp [Defined, known]
  | cons entry log ih =>
    cases entry with
    | definition b => exact ih
    | use b =>
      rw [List.cons_append, Defined, Defined, ih, and_assoc]
      rfl

theorem Defined.mono (defined : Defined k log) (kept : k ⊆ more) : Defined more log := by
  induction log generalizing k more with
  | nil => trivial
  | cons entry log ih =>
    cases entry with
    | definition b => exact ih defined (List.cons_subset_cons b kept)
    | use b => exact ⟨kept defined.1, ih defined.2 kept⟩

/-- A log may be read again. -/
theorem Defined.replicate (defined : Defined k log) (n : Nat) : Defined k (List.replicate n log).flatten := by
  induction n generalizing k with
  | zero => trivial
  | succ n ih =>
    rw [List.replicate_succ, List.flatten_cons]
    exact defined_append.mpr ⟨defined, ih (defined.mono (subset_known k log))⟩

theorem defined_uses {uses : List α} (known : uses ⊆ k) : Defined k (uses.map .use) := by
  induction uses with
  | nil => trivial
  | cons b uses ih =>
    obtain ⟨here, later⟩ := List.cons_subset.mp known
    exact ⟨here, ih later⟩

section Names
variable {N : Type*} {name : α → N} {types others : List α} {sent next last : List N}

/-- Every name of a set is that of something known. -/
def Covers (name : α → N) (k : List α) (sent : List N) : Prop := ∀ n ∈ sent, ∃ a ∈ k, name a = n

theorem Covers.mem (covers : Covers name k sent) (unique : Function.Injective name) (listed : name a ∈ sent) : a ∈ k := by
  obtain ⟨other, member, same⟩ := covers _ listed
  exact unique same ▸ member

theorem Covers.mono (covers : Covers name k sent) (kept : k ⊆ more) : Covers name more sent := fun n listed =>
  (covers n listed).imp fun _ found => ⟨kept found.1, found.2⟩

/-- A log that is fit for all who know what is in the set, and leaves them with what is in the
set behind it. The set gets no names but those of `types`. -/
structure Sends (name : α → N) (types : List α) (log : List (Announcement α)) (sent next : List N) : Prop where
  defined : ∀ k, Covers name k sent → Defined k log
  covers : ∀ k, Covers name k sent → Covers name (known k log) next
  added : ∀ n ∈ next, n ∈ sent ∨ ∃ a ∈ types, name a = n

theorem Sends.nil (name : α → N) (sent : List N) : Sends name [] [] sent sent :=
  ⟨fun _ _ => trivial, fun _ covers => covers, fun _ listed => .inl listed⟩

theorem Sends.use (unique : Function.Injective name) (listed : name a ∈ sent) : Sends name [] [.use a] sent sent :=
  ⟨fun _ covers => ⟨covers.mem unique listed, trivial⟩, fun _ covers => covers, fun _ listed => .inl listed⟩

theorem Sends.definition (name : α → N) (a : α) (sent : List N) :
    Sends name [a] [.definition a] sent (name a :: sent) where
  defined _ _ := trivial
  covers k covers n listed := by
    rcases List.mem_cons.mp listed with rfl | before
    · exact ⟨a, List.mem_cons_self, rfl⟩
    · exact (covers.mono (List.subset_cons_self a k)) n before
  added n listed := by
    rcases List.mem_cons.mp listed with rfl | before
    · exact .inr ⟨a, List.mem_singleton_self a, rfl⟩
    · exact .inl before

theorem Sends.append (first : Sends name types log sent next) (second : Sends name others later next last) :
    Sends name (types ++ others) (log ++ later) sent last where
  defined k covers := defined_append.mpr ⟨first.defined k covers, second.defined _ (first.covers k covers)⟩
  covers k covers := by
    rw [known_append]
    exact second.covers _ (first.covers k covers)
  added n listed := by
    rcases second.added n listed with before | ⟨a, member, same⟩
    · exact (first.added n before).imp_right fun ⟨a, member, same⟩ => ⟨a, List.mem_append_left _ member, same⟩
    · exact .inr ⟨a, List.mem_append_right _ member, same⟩

theorem Sends.mono (sends : Sends name types log sent next) (kept : types ⊆ others) :
    Sends name others log sent next :=
  { sends with added := fun n listed =>
      (sends.added n listed).imp_right fun ⟨a, member, same⟩ => ⟨a, kept member, same⟩ }

theorem Sends.uses (unique : Function.Injective name) (listed : ∀ entry ∈ log, ∃ a, entry = .use a ∧ name a ∈ sent) :
    Sends name [] log sent sent := by
  induction log with
  | nil => exact .nil name sent
  | cons entry log ih =>
    obtain ⟨⟨a, rfl, here⟩, later⟩ := List.forall_mem_cons.mp listed
    exact (Sends.use unique here).append (ih later)

/-- Who knows all types that the set gets names of is covered without the log. -/
theorem Covers.grow (covers : Covers name k sent) (added : ∀ n ∈ next, n ∈ sent ∨ ∃ a ∈ types, name a = n)
    (known : ∀ a ∈ types, name a ∉ sent → a ∈ k) : Covers name k next := by
  intro n listed
  rcases added n listed with before | ⟨a, member, rfl⟩
  · exact covers n before
  · by_cases before : name a ∈ sent
    · exact covers _ before
    · exact ⟨a, known a member before, rfl⟩

end Names
end Announcement
end RemoteObjects
