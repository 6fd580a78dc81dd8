import Mathlib.Data.List.Infix

/-! Ordered forests with keyed trees. A node is known by the keys from a root down to it;
of trees with one key beside each other, only the first is looked at. -/
namespace RemoteObjects

/-- A forest is empty, or a tree with the forest below its root, and the trees behind it. -/
inductive Forest (α : Type*)
  | nil
  | cons (key : Nat) (value : α) (below rest : Forest α)
deriving DecidableEq

namespace Forest
variable {α β σ : Type*}

/-- The tree at a path: its root and the forest below. -/
def find : Forest α → List Nat → Option (α × Forest α)
  | nil, _ => none
  | cons _ _ _ _, [] => none
  | cons key value below rest, j :: path =>
    if j = key then
      match path with
      | [] => some (value, below)
      | k :: path => below.find (k :: path)
    else rest.find (j :: path)

def get (f : Forest α) (path : List Nat) : Option α := (f.find path).map Prod.fst

/-- The keys of the roots. -/
def keys : Forest α → List Nat
  | nil => []
  | cons key _ _ rest => key :: rest.keys

/-- The nodes with their paths, roots first. -/
def nodes : Forest α → List (List Nat × α)
  | nil => []
  | cons key value below rest =>
    ([key], value) :: below.nodes.map (fun node => (key :: node.1, node.2)) ++
      rest.nodes.filter fun node => node.1.head? ≠ some key

/-- The nodes with their paths, roots last. -/
def postorder : Forest α → List (List Nat × α)
  | nil => []
  | cons key value below rest =>
    below.postorder.map (fun node => (key :: node.1, node.2)) ++
      ([key], value) :: rest.postorder.filter fun node => node.1.head? ≠ some key

/-- The tree at a path is replaced. -/
def modify (change : α → Forest α → α × Forest α) : List Nat → Forest α → Forest α
  | _, nil => nil
  | [], f => f
  | j :: path, cons key value below rest =>
    if j = key then
      match path with
      | [] => cons key (change value below).1 (change value below).2 rest
      | k :: path => cons key value (below.modify change (k :: path)) rest
    else cons key value below (rest.modify change (j :: path))

/-- A property of all nodes. -/
def Forall (p : α → Prop) : Forest α → Prop
  | nil => True
  | cons _ value below rest => p value ∧ below.Forall p ∧ rest.Forall p

instance forallDecidable (p : α → Prop) [DecidablePred p] : ∀ f : Forest α, Decidable (f.Forall p)
  | nil => .isTrue trivial
  | cons _ value below rest =>
    have := forallDecidable p below
    have := forallDecidable p rest
    inferInstanceAs (Decidable (p value ∧ below.Forall p ∧ rest.Forall p))

/-- The trees with other keys. -/
def without (key : Nat) : Forest α → Forest α
  | nil => nil
  | cons other value below rest =>
    if other = key then rest.without key else cons other value below (rest.without key)

/-- The trees of one forest in front of those of another. -/
def append : Forest α → Forest α → Forest α
  | nil, g => g
  | cons key value below rest, g => cons key value below (rest.append g)

@[simp] theorem find_nil (path : List Nat) : (nil : Forest α).find path = none := by
  cases path <;> rfl

@[simp] theorem find_empty (f : Forest α) : f.find [] = none := by
  cases f <;> rfl

@[simp] theorem find_cons_self (key : Nat) (value : α) (below rest : Forest α) :
    (cons key value below rest).find [key] = some (value, below) := by
  simp only [find, ↓reduceIte]

theorem find_cons_below (key : Nat) (value : α) (below rest : Forest α) (k : Nat) (path : List Nat) :
    (cons key value below rest).find (key :: k :: path) = below.find (k :: path) := by
  simp only [find, ↓reduceIte]

theorem find_cons_other {key j : Nat} (other : j ≠ key) (value : α) (below rest : Forest α)
    (path : List Nat) : (cons key value below rest).find (j :: path) = rest.find (j :: path) := by
  simp only [find, if_neg other]

@[simp] theorem get_nil (path : List Nat) : (nil : Forest α).get path = none := by
  rw [get, find_nil, Option.map_none]

@[simp] theorem get_empty (f : Forest α) : f.get [] = none := by
  rw [get, find_empty, Option.map_none]

theorem get_cons (key : Nat) (value : α) (below rest : Forest α) (j : Nat) (path : List Nat) :
    (cons key value below rest).get (j :: path) =
      if j = key then if path = [] then some value else below.get path else rest.get (j :: path) := by
  by_cases here : j = key
  · subst here
    cases path with
    | nil => simp only [get, find_cons_self, Option.map_some, ↓reduceIte]
    | cons k path => simp only [get, find_cons_below, reduceCtorEq, ↓reduceIte]
  · simp only [get, find_cons_other here, if_neg here]

/-- Below a node, a path is looked up in the forest below it. -/
theorem find_append (f : Forest α) (path : List Nat) (k : Nat) (more : List Nat) :
    f.find (path ++ k :: more) =
      if path = [] then f.find (k :: more)
      else (f.find path).bind fun tree => tree.2.find (k :: more) := by
  induction f generalizing path with
  | nil => simp
  | cons key value below rest belowIh restIh =>
    cases path with
    | nil => rfl
    | cons j path =>
      rw [if_neg (List.cons_ne_nil j path), List.cons_append]
      by_cases here : j = key
      · subst here
        cases path with
        | nil => simp [find_cons_below]
        | cons i path =>
          rw [List.cons_append, find_cons_below, ← List.cons_append, belowIh,
            if_neg (List.cons_ne_nil i path), find_cons_below]
      · rw [find_cons_other here, find_cons_other here, ← List.cons_append, restIh,
          if_neg (List.cons_ne_nil j path)]

/-- Without the node there is nothing below it. -/
theorem get_of_prefix {f : Forest α} {path : List Nat} {value : α} (k : Nat) (more : List Nat)
    (present : f.get (path ++ k :: more) = some value) (nonempty : path ≠ []) :
    ∃ parent, f.get path = some parent := by
  rw [get, find_append, if_neg nonempty] at present
  obtain ⟨tree, found, _⟩ := Option.map_eq_some_iff.mp present
  obtain ⟨parent, here, _⟩ := Option.bind_eq_some_iff.mp found
  exact ⟨parent.1, by rw [get, here, Option.map_some]⟩

theorem mem_keys {f : Forest α} {key : Nat} : key ∈ f.keys ↔ ∃ value, f.get [key] = some value := by
  induction f with
  | nil => simp [keys]
  | cons other value below rest belowIh restIh =>
    rw [keys, List.mem_cons, get_cons, restIh]
    by_cases here : key = other <;> simp [here]

theorem mem_nodes {f : Forest α} {path : List Nat} {value : α} :
    (path, value) ∈ f.nodes ↔ f.get path = some value := by
  induction f generalizing path value with
  | nil => simp [nodes, get]
  | cons key root below rest belowIh restIh =>
    rw [nodes]
    simp only [List.cons_append, List.mem_cons, Prod.mk.injEq, List.mem_append, List.mem_map, Prod.exists,
      List.mem_filter, ne_eq, decide_eq_true_eq]
    cases path with
    | nil =>
      have none : rest.get [] = none := by rw [get, find_empty, Option.map_none]
      simp [get, restIh]
    | cons j path =>
      by_cases here : j = key
      · subst here
        cases path with
        | nil =>
          have none : below.get [] = none := by rw [get, find_empty, Option.map_none]
          simp [get, eq_comm, belowIh]
        | cons k path => simp [get, find_cons_below, belowIh]
      · simp [get, find_cons_other here, here, restIh, Ne.symm here]

theorem mem_postorder {f : Forest α} {node : List Nat × α} : node ∈ f.postorder ↔ node ∈ f.nodes := by
  induction f generalizing node with
  | nil => rfl
  | cons key value below rest belowIh restIh =>
    simp only [postorder, nodes, List.cons_append, List.mem_append, List.mem_cons, List.mem_map,
      List.mem_filter, belowIh, restIh]
    exact or_left_comm

theorem forall_get {f : Forest α} {P : List Nat → α → Prop} :
    (∀ path value, f.get path = some value → P path value) ↔ ∀ node ∈ f.nodes, P node.1 node.2 := by
  constructor
  · intro each node member
    exact each node.1 node.2 (mem_nodes.mp member)
  · intro each path value found
    exact each (path, value) (mem_nodes.mpr found)

/-- A property of all nodes can be decided from their list. -/
instance {f : Forest α} {P : List Nat → α → Prop} [∀ path value, Decidable (P path value)] :
    Decidable (∀ path value, f.get path = some value → P path value) :=
  decidable_of_iff (∀ node ∈ f.nodes, P node.1 node.2) forall_get.symm

section Forall
variable {p q : α → Prop} {f g : Forest α}

theorem Forall.imp (implies : ∀ value, p value → q value) (all : f.Forall p) : f.Forall q := by
  induction f with
  | nil => trivial
  | cons key value below rest belowIh restIh =>
    obtain ⟨here, inside, outside⟩ := all
    exact ⟨implies value here, belowIh inside, restIh outside⟩

theorem Forall.and (all : f.Forall p) (others : f.Forall q) : f.Forall fun value => p value ∧ q value := by
  induction f with
  | nil => trivial
  | cons key value below rest belowIh restIh =>
    exact ⟨⟨all.1, others.1⟩, belowIh all.2.1 others.2.1, restIh all.2.2 others.2.2⟩

theorem Forall.find (all : f.Forall p) {path : List Nat} {tree : α × Forest α} (found : f.find path = some tree) :
    p tree.1 ∧ tree.2.Forall p := by
  induction f generalizing path with
  | nil =>
    rw [find_nil] at found
    contradiction
  | cons key value below rest belowIh restIh =>
    obtain ⟨here, inside, outside⟩ := all
    cases path with
    | nil =>
      rw [find_empty] at found
      contradiction
    | cons j path =>
      by_cases same : j = key
      · subst same
        cases path with
        | nil =>
          rw [find_cons_self] at found
          obtain rfl := Option.some.inj found
          exact ⟨here, inside⟩
        | cons k path => exact belowIh inside (find_cons_below j value below rest k path ▸ found)
      · exact restIh outside (find_cons_other same value below rest path ▸ found)

theorem Forall.without (all : f.Forall p) (key : Nat) : (f.without key).Forall p := by
  induction f with
  | nil => trivial
  | cons other value below rest belowIh restIh =>
    obtain ⟨here, inside, outside⟩ := all
    rw [Forest.without]
    split
    · exact restIh outside
    · exact ⟨here, inside, restIh outside⟩

theorem Forall.append (all : f.Forall p) (others : g.Forall p) : (f.append g).Forall p := by
  induction f with
  | nil => exact others
  | cons key value below rest belowIh restIh =>
    obtain ⟨here, inside, outside⟩ := all
    exact ⟨here, inside, restIh outside⟩

/-- A change of a tree by its own properties keeps those of all nodes. -/
theorem Forall.modify (all : f.Forall p) {change : α → Forest α → α × Forest α} {target : List Nat}
    (changed : ∀ value below, f.find target = some (value, below) → p value → below.Forall p →
      p (change value below).1 ∧ (change value below).2.Forall p) : (f.modify change target).Forall p := by
  induction f generalizing target with
  | nil => cases target <;> trivial
  | cons key value below rest belowIh restIh =>
    obtain ⟨here, inside, outside⟩ := all
    cases target with
    | nil => exact ⟨here, inside, outside⟩
    | cons j target =>
      by_cases same : j = key
      · subst same
        cases target with
        | nil =>
          simp only [Forest.modify, ↓reduceIte]
          obtain ⟨root, kids⟩ := changed value below (find_cons_self j value below rest) here inside
          exact ⟨root, kids, outside⟩
        | cons k target =>
          simp only [Forest.modify, ↓reduceIte]
          refine ⟨here, belowIh inside fun value' below' found => changed value' below' ?_, outside⟩
          rw [find_cons_below, found]
      · simp only [Forest.modify, if_neg same]
        refine ⟨here, inside, restIh outside fun value' below' found => changed value' below' ?_⟩
        rw [find_cons_other same, found]

end Forall

section Modify
variable (change : α → Forest α → α × Forest α)

/-- What is not below the changed tree stays. -/
theorem get_modify_other {f : Forest α} {target path : List Nat} (apart : ¬ target <+: path) :
    (f.modify change target).get path = f.get path := by
  induction f generalizing target path with
  | nil => cases target <;> rfl
  | cons key value below rest belowIh restIh =>
    cases target with
    | nil => exact absurd List.nil_prefix apart
    | cons j target =>
      cases path with
      | nil => rw [get, get, find_empty, find_empty]
      | cons i path =>
        by_cases here : j = key
        · subst here
          cases target with
          | nil =>
            have other : i ≠ j := fun same => apart (by rw [same]; exact List.cons_prefix_cons.mpr ⟨rfl, List.nil_prefix⟩)
            simp only [modify, ↓reduceIte, get, find_cons_other other]
          | cons k target =>
            simp only [modify, ↓reduceIte]
            by_cases inside : i = j
            · subst inside
              cases path with
              | nil => simp only [get, find_cons_self, Option.map_some]
              | cons l path =>
                rw [get, get, find_cons_below, find_cons_below]
                exact belowIh fun inside => apart (List.cons_prefix_cons.mpr ⟨rfl, inside⟩)
            · rw [get, get, find_cons_other inside, find_cons_other inside]
        · simp only [modify, if_neg here]
          by_cases inside : i = key
          · subst inside
            cases path with
            | nil => simp only [get, find_cons_self, Option.map_some]
            | cons l path => rw [get, get, find_cons_below, find_cons_below]
          · rw [get, get, find_cons_other inside, find_cons_other inside]
            exact restIh apart

theorem find_modify_self {f : Forest α} {target : List Nat} :
    (f.modify change target).find target = (f.find target).map fun tree => change tree.1 tree.2 := by
  induction f generalizing target with
  | nil => cases target <;> rfl
  | cons key value below rest belowIh restIh =>
    cases target with
    | nil => rw [find_empty, find_empty, Option.map_none]
    | cons j target =>
      by_cases here : j = key
      · subst here
        cases target with
        | nil => simp only [modify, ↓reduceIte, find_cons_self, Option.map_some]
        | cons k target => simp only [modify, ↓reduceIte, find_cons_below, belowIh]
      · simp only [modify, if_neg here, find_cons_other here, restIh]

/-- A change that acts on every node of the tree by its path from there. -/
theorem get_modify_map {f : Forest α} {target : List Nat} (each : List Nat → α → α) (nonempty : target ≠ [])
    (root : ∀ value below, (change value below).1 = each [] value)
    (inner : ∀ value below path, (change value below).2.get path = (below.get path).map (each path))
    (path : List Nat) :
    (f.modify change target).get (target ++ path) = (f.get (target ++ path)).map (each path) := by
  cases path with
  | nil =>
    rw [List.append_nil, get, get, find_modify_self, Option.map_map, Option.map_map]
    exact Option.map_congr fun tree _ => root tree.1 tree.2
  | cons k path =>
    rw [get, get, find_append, find_append, if_neg nonempty, if_neg nonempty, find_modify_self]
    cases f.find target with
    | none => rfl
    | some tree => exact inner tree.1 tree.2 (k :: path)

end Modify
end Forest
end RemoteObjects
