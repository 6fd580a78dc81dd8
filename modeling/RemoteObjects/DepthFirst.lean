import Mathlib.Data.List.Lex

/-! The nodes of a tree in the order of a traversal, each as its path from the root. The labels of the nodes below a path
may depend on it. -/
namespace RemoteObjects.DepthFirst

section Model
variable {α : Type*} (labels : List α → List α) (opens : List α → Bool)

/-- The nodes below a path, to some depth. There are none below one that does not open. -/
def preorder : Nat → List α → List (List α)
  | 0, _ => []
  | depth + 1, path => (labels path).flatMap fun label =>
    (path ++ [label]) :: if opens (path ++ [label]) then preorder depth (path ++ [label]) else []

end Model

section Order
variable {α : Type*} {labels : List α → List α} {opens : List α → Bool} {r : α → α → Prop} {depth : Nat}
variable {top path node : List α} {label other : α}

theorem mem_preorder : node ∈ preorder labels opens (depth + 1) top ↔ ∃ label ∈ labels top, node = top ++ [label] ∨
    opens (top ++ [label]) ∧ node ∈ preorder labels opens depth (top ++ [label]) := by
  rw [preorder, List.mem_flatMap]
  refine exists_congr fun label => and_congr_right fun _ => ?_
  rw [List.mem_cons]
  split <;> simp [*]

theorem below (there : node ∈ preorder labels opens depth top) : ∃ label rest, node = top ++ label :: rest := by
  induction depth generalizing top with
  | zero => contradiction
  | succ depth ih =>
    obtain ⟨label, _, rfl | ⟨_, deeper⟩⟩ := mem_preorder.mp there
    · exact ⟨label, [], rfl⟩
    · obtain ⟨next, rest, rfl⟩ := ih deeper
      exact ⟨label, next :: rest, List.append_assoc _ _ _⟩

/-- A node comes before those below it and those behind it. -/
theorem preorder_sorted (sorted : ∀ path, (labels path).Pairwise r) :
    (preorder labels opens depth top).Pairwise (List.Lex r) := by
  induction depth generalizing top with
  | zero => exact .nil
  | succ depth ih =>
    have starts : ∀ {label node}, node ∈ (top ++ [label]) ::
        (if opens (top ++ [label]) then preorder labels opens depth (top ++ [label]) else []) →
        ∃ rest, node = top ++ label :: rest := by
      intro label node there
      obtain rfl | deeper := List.mem_cons.mp there
      · exact ⟨[], rfl⟩
      · split at deeper
        · obtain ⟨next, rest, rfl⟩ := below deeper
          exact ⟨next :: rest, List.append_assoc _ _ _⟩
        · contradiction
    rw [preorder, List.pairwise_flatMap]
    constructor
    · intro label _
      rw [List.pairwise_cons]
      split
      · refine ⟨fun node deeper => ?_, ih⟩
        obtain ⟨next, rest, rfl⟩ := below deeper
        rw [List.append_assoc]
        exact .append_left r (.cons .nil) top
      · exact ⟨nofun, .nil⟩
    · apply (sorted top).imp
      intro label other before node there node' there'
      obtain ⟨rest, rfl⟩ := starts there
      obtain ⟨rest', rfl⟩ := starts there'
      exact .append_left r (.rel before) top

/-- With a node, all those beside it are in the order. -/
theorem mem_sibling (there : path ++ [label] ∈ preorder labels opens depth top) :
    label ∈ labels path ∧ ∀ other ∈ labels path, path ++ [other] ∈ preorder labels opens depth top := by
  induction depth generalizing top with
  | zero => contradiction
  | succ depth ih =>
    obtain ⟨first, listed, same | ⟨isOpen, deeper⟩⟩ := mem_preorder.mp there
    · obtain ⟨rfl, last⟩ := List.append_inj' same rfl
      obtain rfl := List.head_eq_of_cons_eq last
      exact ⟨listed, fun other listed => mem_preorder.mpr ⟨other, listed, .inl rfl⟩⟩
    · obtain ⟨listed', siblings⟩ := ih deeper
      exact ⟨listed', fun other also => mem_preorder.mpr ⟨first, listed, .inr ⟨isOpen, siblings other also⟩⟩⟩

/-- So is the node above it. -/
theorem mem_parent (there : path ++ [label] ∈ preorder labels opens depth top) :
    path = top ∨ path ∈ preorder labels opens depth top ∧ opens path := by
  induction depth generalizing top with
  | zero => contradiction
  | succ depth ih =>
    obtain ⟨first, listed, same | ⟨isOpen, deeper⟩⟩ := mem_preorder.mp there
    · exact .inl (List.append_inj' same rfl).1
    · obtain rfl | ⟨above, opened⟩ := ih deeper
      · exact .inr ⟨mem_preorder.mpr ⟨first, listed, .inl rfl⟩, isOpen⟩
      · exact .inr ⟨mem_preorder.mpr ⟨first, listed, .inr ⟨isOpen, above⟩⟩, opened⟩

/-- What comes before one of the first elements of a sorted list is one of them. -/
theorem mem_take_of_before {β : Type*} {before : β → β → Prop} {list : List β} {n : Nat} {a b : β} (sorted : list.Pairwise before)
    (asymmetric : before a b → ¬ before b a) (there : a ∈ list) (first : b ∈ list.take n) (earlier : before a b) :
    a ∈ list.take n := by
  rw [← List.take_append_drop n list] at there sorted
  obtain taken | dropped := List.mem_append.mp there
  · exact taken
  · exact absurd ((List.pairwise_append.mp sorted).2.2 b first a dropped) (asymmetric earlier)

end Order
end RemoteObjects.DepthFirst
