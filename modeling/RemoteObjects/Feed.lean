import Mathlib.Data.List.Basic

/-! Copies of a value that follow it over a channel which keeps the order, by a snapshot and the updates behind it. -/
namespace RemoteObjects.Feed

inductive Message (V U : Type*)
  | snapshot (value : V)
  | update (change : U)
deriving DecidableEq

/-- A copy, and whether it has had a snapshot. -/
structure Copy (V : Type*) where
  value : V
  initialized : Bool

section Copies
variable {V U : Type*} (apply : U → V → V)

def Copy.receive (copy : Copy V) : Message V U → Copy V
  | .snapshot value => ⟨value, true⟩
  | .update change => { copy with value := apply change copy.value }

/-- The value will be in the copy when all that is under way has arrived. -/
def InStep (value : V) (copy : Copy V) (underWay : List (Message V U)) : Prop :=
  underWay.foldl (Copy.receive apply) copy = ⟨value, true⟩

variable {apply} {value : V} {copy : Copy V} {underWay : List (Message V U)}

theorem inStep_nil : InStep apply value copy [] ↔ copy = ⟨value, true⟩ := Iff.rfl

theorem inStep_cons {message : Message V U} :
    InStep apply value copy (message :: underWay) ↔ InStep apply value (copy.receive apply message) underWay := Iff.rfl

theorem inStep_snapshot (value : V) (copy : Copy V) (underWay : List (Message V U)) :
    InStep apply value copy (underWay ++ [.snapshot value]) := by
  rw [InStep, List.foldl_append]
  rfl

/-- An update for each change of the value keeps the copy in step. -/
theorem InStep.update (inStep : InStep apply value copy underWay) (change : U) :
    InStep apply (apply change value) copy (underWay ++ [.update change]) := by
  rw [InStep, List.foldl_append, inStep]
  rfl

theorem InStep.updates (inStep : InStep apply value copy underWay) (changes : List U) :
    InStep apply (changes.foldl (fun value change => apply change value) value) copy (underWay ++ changes.map .update) := by
  induction changes generalizing value underWay with
  | nil =>
    rw [List.map_nil, List.append_nil]
    exact inStep
  | cons change changes ih =>
    rw [List.map_cons, List.append_cons]
    exact ih (inStep.update change)

end Copies

section Follows
variable {S A M : Type*} {view : S → A} {R R' : A → M → A → Prop} {copy value after : S} {message : M} {underWay : List (M × S)}

/-- The messages under way lead from the copy to the value, as far as it is seen. Each comes with what the value is behind
it. -/
def Follows (view : S → A) (R : A → M → A → Prop) : S → List (M × S) → S → Prop
  | copy, [], value => view copy = view value
  | copy, (message, after) :: rest, value => R (view copy) message (view after) ∧ Follows view R after rest value

/-- A change that is not seen needs no message. -/
theorem Follows.unseen (follows : Follows view R copy underWay value) (same : view value = view after) :
    Follows view R copy underWay after := by
  induction underWay generalizing copy with
  | nil => exact follows.trans same
  | cons first rest ih => exact ⟨follows.1, ih follows.2⟩

theorem Follows.send (follows : Follows view R copy underWay value) (sent : R (view value) message (view after)) :
    Follows view R copy (underWay ++ [(message, after)]) after := by
  induction underWay generalizing copy with
  | nil =>
    have same : view copy = view value := follows
    exact ⟨same ▸ sent, rfl⟩
  | cons first rest ih => exact ⟨follows.1, ih follows.2⟩

theorem Follows.mono (follows : Follows view R copy underWay value)
    (weaker : ∀ first ∈ underWay, ∀ {a b}, R a first.1 b → R' a first.1 b) : Follows view R' copy underWay value := by
  induction underWay generalizing copy with
  | nil => exact follows
  | cons first rest ih =>
    exact ⟨weaker first List.mem_cons_self follows.1, ih follows.2 fun other there => weaker other (List.mem_cons_of_mem _ there)⟩

end Follows
end RemoteObjects.Feed
