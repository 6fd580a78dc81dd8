import Mathlib.Data.Option.Basic
import Mathlib.Logic.Nontrivial.Basic
import Mathlib.Tactic.Common

/-! Partial knowledge of what is held at places, and what is left of it behind a change that moves what is held. -/
namespace RemoteObjects.Agreement
variable {ι κ V : Type*}

/-- What is known is what is held. -/
def Agrees (known : ι → Option V) (held : ι → V) : Prop := ∀ i v, known i = some v → held i = v

/-- Behind a change there is at each place what was held at another one, or something new. -/
def moved (origin : κ → Option ι) (new : κ → V) (held : ι → V) (k : κ) : V := (origin k).elim (new k) held

/-- Something that may be held, for all that is known. -/
def completed (known : ι → Option V) (other : V) (i : ι) : V := (known i).getD other

theorem agrees_completed (known : ι → Option V) (other : V) : Agrees known (completed known other) := by
  intro i v there
  rw [completed, there]
  rfl

theorem completed_eq {known : ι → Option V} {other v : V} {i : ι} (differs : other ≠ v) :
    completed known other i = v ↔ known i = some v := by
  rw [completed]
  cases known i with
  | none => simp [differs]
  | some w => simp

/-- Knowledge behind a change is right for whatever was held and comes new, if it was known of the place of origin. -/
theorem agrees_moved_iff [Nontrivial V] {known : ι → Option V} {known' : κ → Option V} {origin : κ → Option ι} :
    (∀ held new, Agrees known held → Agrees known' (moved origin new held)) ↔
      ∀ k v, known' k = some v → ∃ i, origin k = some i ∧ known i = some v := by
  constructor
  · intro kept k v there
    obtain ⟨other, differs⟩ := exists_ne v
    have held := kept (completed known other) (fun _ => other) (agrees_completed known other) k v there
    rw [moved] at held
    cases comes : origin k with
    | none =>
      rw [comes] at held
      exact absurd held differs
    | some i =>
      rw [comes] at held
      exact ⟨i, rfl, (completed_eq differs).mp held⟩
  · intro known_before held new agrees k v there
    obtain ⟨i, comes, before⟩ := known_before k v there
    rw [moved, comes]
    exact agrees i v before

/-- Where a place was before some were set free for new things, from which those behind have stepped back. -/
def placeBefore (start n k : ℕ) : Option ℕ := if k < start then some k else if k < start + n then none else some (k - n)

/-- Behind the new places nothing may be known. -/
theorem known_before_iff {known known' : ℕ → Option V} {start n : ℕ} (several : 0 < n) (below : ∀ i < start, known' i = known i)
    (above : ∀ i ≥ start, known' i = none → known i = none) :
    (∀ k v, known' k = some v → ∃ i, placeBefore start n k = some i ∧ known i = some v) ↔ ∀ i ≥ start, known' i = none := by
  constructor
  · intro known_before i
    induction i using Nat.strongRecOn with
    | ind i ih =>
      intro behind
      by_contra some_value
      obtain ⟨v, there⟩ := Option.ne_none_iff_exists'.mp some_value
      obtain ⟨j, comes, before⟩ := known_before i v there
      rw [placeBefore, if_neg (Nat.not_lt.mpr behind)] at comes
      split at comes
      · contradiction
      · obtain rfl := Option.some.inj comes
        rw [above (i - n) (by omega) (ih (i - n) (by omega) (by omega))] at before
        contradiction
  · intro nothing k v there
    have inside : k < start := by
      by_contra behind
      rw [nothing k (Nat.not_lt.mp behind)] at there
      contradiction
    exact ⟨k, if_pos inside, below k inside ▸ there⟩

end RemoteObjects.Agreement
