import Mathlib.Data.List.Basic
import Mathlib.Logic.Relation

/-! Inputs of a hash function that contain the digests of other inputs: which of them change when
one of them does. -/
namespace RemoteObjects.Digests

section Model
variable {β D : Type*}

/-- The input made of parts, each a symbol or the position of an input whose digest stands there. -/
def render (digest : List (β ⊕ D) → D) (input : Nat → List (β ⊕ D)) (parts : List (β ⊕ Nat)) : List (β ⊕ D) :=
  parts.map (Sum.map id fun i => digest (input i))

/-- The digest of the first input stands in the second one. -/
def Reads (parts : Nat → List (β ⊕ Nat)) (i j : Nat) : Prop := .inr i ∈ parts j

/-- The first input has an effect on the second one. -/
def Affects (parts : Nat → List (β ⊕ Nat)) : Nat → Nat → Prop := Relation.ReflTransGen (Reads parts)

end Model

section Changes
variable {β D : Type*} {digest : List (β ⊕ D) → D} {input input' : Nat → List (β ⊕ D)} {parts : Nat → List (β ⊕ Nat)}
  {changed i j : Nat}

theorem render_eq_iff (injective : Function.Injective digest) (l : List (β ⊕ Nat)) :
    render digest input l = render digest input' l ↔ ∀ i, .inr i ∈ l → input i = input' i := by
  unfold render
  rw [List.map_inj_left]
  constructor
  · intro same i mem
    exact injective (Sum.inr.inj (same (.inr i) mem))
  · intro same part mem
    cases part with
    | inl b => rfl
    | inr i => exact congrArg (Sum.inr ∘ digest) (same i mem)

/-- With one input changed, the inputs that change are those on which it has an effect. -/
theorem changed_iff (injective : Function.Injective digest) (backward : ∀ i j, Reads parts i j → i < j)
    (made : ∀ j, j ≠ changed → input j = render digest input (parts j))
    (made' : ∀ j, j ≠ changed → input' j = render digest input' (parts j))
    (differs : input changed ≠ input' changed) (j : Nat) : input j ≠ input' j ↔ Affects parts changed j := by
  induction j using Nat.strongRecOn with
  | ind j ih =>
    by_cases here : j = changed
    · subst here
      exact iff_of_true differs .refl
    · rw [made j here, made' j here, ne_eq, render_eq_iff injective]
      constructor
      · intro unequal
        obtain ⟨i, mem, other⟩ : ∃ i, Sum.inr i ∈ parts j ∧ input i ≠ input' i := by
          simpa only [not_forall, exists_prop] using unequal
        exact .tail ((ih i (backward i j mem)).mp other) mem
      · intro affects same
        rcases Relation.ReflTransGen.cases_tail affects with equal | ⟨i, reaches, reads⟩
        · exact here equal
        · exact (ih i (backward i j reads)).mpr reaches (same i reads)

end Changes

end RemoteObjects.Digests
