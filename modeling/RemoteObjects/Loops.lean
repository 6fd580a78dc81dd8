import Mathlib.Data.Nat.Notation

/-! Loops of a function: each goes on, leaves the function, or is not done in the rounds it is given. What a loop keeps and what
each round makes smaller say how it ends. -/
namespace RemoteObjects.Loops
variable {ρ σ τ : Type*}

/-- How a part of a function ends. -/
inductive Control (ρ σ : Type*)
  | next (state : σ)
  | exit (result : ρ)
  | unfinished
deriving DecidableEq

namespace Control

def bind (control : Control ρ σ) (f : σ → Control ρ τ) : Control ρ τ :=
  match control with
  | next s => f s
  | exit r => exit r
  | unfinished => unfinished

/-- The part is done, and what is said of its end holds. -/
def Ends (control : Control ρ σ) (goesOn : σ → Prop) (leaves : ρ → Prop) : Prop :=
  match control with
  | next s => goesOn s
  | exit r => leaves r
  | unfinished => False

variable {control : Control ρ σ} {goesOn goesOn' : σ → Prop} {leaves leaves' : ρ → Prop}

theorem Ends.mono (ends : control.Ends goesOn leaves) (next : ∀ s, goesOn s → goesOn' s)
    (exit : ∀ r, leaves r → leaves' r) : control.Ends goesOn' leaves' := by
  cases control with
  | next s => exact next s ends
  | exit r => exact exit r ends
  | unfinished => exact ends

theorem Ends.bind {f : σ → Control ρ τ} {goesOn' : τ → Prop} (ends : control.Ends goesOn leaves)
    (later : ∀ s, goesOn s → (f s).Ends goesOn' leaves) : (control.bind f).Ends goesOn' leaves := by
  cases control with
  | next s => exact later s ends
  | exit r => exact ends
  | unfinished => exact ends

end Control

/-- `while (guard) body`, where the guard is tested so many times at most. -/
def repeatWhile (guard : σ → Bool) (body : σ → Control ρ σ) : ℕ → σ → Control ρ σ
  | 0, _ => .unfinished
  | tests + 1, s => if guard s then (body s).bind (repeatWhile guard body tests) else .next s

/-- The rule of a loop: the body keeps the invariant and makes the measure smaller, or it leaves the function. -/
theorem repeatWhile_ends {guard : σ → Bool} {body : σ → Control ρ σ} {leaves : ρ → Prop} (invariant : σ → Prop) (measure : σ → ℕ)
    (round : ∀ s, invariant s → guard s = true → (body s).Ends (fun t => invariant t ∧ measure t < measure s) leaves)
    {tests : ℕ} {s : σ} (enough : measure s < tests) (initially : invariant s) :
    (repeatWhile guard body tests s).Ends (fun t => invariant t ∧ guard t = false) leaves := by
  induction tests generalizing s with
  | zero => exact absurd enough (Nat.not_lt_zero _)
  | succ tests ih =>
    cases tested : guard s with
    | false => simpa [repeatWhile, tested, Control.Ends] using initially
    | true =>
      simp only [repeatWhile, tested, if_true]
      exact (round s initially tested).bind fun t ⟨kept, smaller⟩ => ih (by omega) kept

end RemoteObjects.Loops
