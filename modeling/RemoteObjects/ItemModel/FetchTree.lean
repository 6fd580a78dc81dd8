import Mathlib.Data.Set.Finite.Lattice
import RemoteObjects.ItemModel.Prefetch
import RemoteObjects.ItemModel.Requests

/-! The tree of entries that `fetchTree` makes: the budget that its levels share, and what they reserve. -/
namespace RemoteObjects.ItemModel
open DepthFirst SourceModel

section Model
variable {V : Type} (m_model : SourceModel V)

namespace SourceModel

/-- The cells of the model: all valid indexes but the root. -/
def cellSet : Set IndexList := {index | index ≠ [] ∧ m_model.HasPath [] index}

/-- Whatever has cells below it says so. -/
def ChildrenReported : Prop := ∀ parent cell, m_model.hasIndex cell parent → parent ≠ [] → m_model.hasChildren parent

end SourceModel
end Model

section Depth
variable {V : Type} {m_model : SourceModel V} {roles : List Role} {size depth : Nat}

theorem fetchTree_left (roles : List Role) (depth : Nat) (parent : IndexList) (size : Nat) :
    (m_model.fetchTree roles depth parent size).2 ≤ size := by
  rw [(fetchTree_sends 0 depth parent size).left]
  exact Nat.sub_le _ _

/-- Only budgets below that of the level reach the levels under it. -/
theorem fetchCells_congr {below below' : IndexList → Nat → List (IndexValuePair V) × Nat}
    (less : ∀ index size, (below index size).2 ≤ size) (parent : IndexList) (list : List ModelIndex)
    (same : ∀ index n, n < size → below index n = below' index n) :
    m_model.fetchCells roles below parent list size = m_model.fetchCells roles below' parent list size := by
  induction list generalizing size with
  | nil => rfl
  | cons cell list ih =>
    cases size with
    | zero => rfl
    | succ size =>
      have here := same (parent ++ [cell]) size (Nat.lt_succ_self size)
      have rest : ∀ {left}, left ≤ size →
          m_model.fetchCells roles below parent list left = m_model.fetchCells roles below' parent list left :=
        fun fewer => ih fun index n small => same index n (by omega)
      simp only [fetchCells, ← here]
      split
      · rw [rest (less _ _)]
      · rw [rest (Nat.le_refl size)]

/-- The bound of the depth does not matter where it is not below the budget. -/
theorem fetchTree_depth (parent : IndexList) {depth' : Nat} (enough : size ≤ depth) (enough' : size ≤ depth') :
    m_model.fetchTree roles depth parent size = m_model.fetchTree roles depth' parent size := by
  induction depth generalizing depth' parent size with
  | zero =>
    obtain rfl := Nat.le_zero.mp enough
    cases depth' with
    | zero => rfl
    | succ depth' =>
      rw [fetchTree, fetchTree]
      cases cells (List.range (m_model.rowCount parent)) (List.range (m_model.columnCount parent)) <;> rfl
  | succ depth ih =>
    cases depth' with
    | zero =>
      obtain rfl := Nat.le_zero.mp enough'
      rw [fetchTree, fetchTree]
      cases cells (List.range (m_model.rowCount parent)) (List.range (m_model.columnCount parent)) <;> rfl
    | succ depth' =>
      exact fetchCells_congr (fetchTree_left roles depth) parent _ fun index n small => ih index (by omega) (by omega)

end Depth

section Budget
variable {V : Type} {m_model : SourceModel V} {roles : List Role} {size depth : Nat} {parent index : IndexList}

theorem hasIndex_iff {cell : ModelIndex} : m_model.hasIndex cell parent ↔ cell ∈ m_model.cellsOf parent := by
  simp [hasIndex, mem_cellsOf]

/-- The nodes of the traversal are the valid indexes, as deep as it goes. -/
theorem mem_preorder_cells (reported : m_model.ChildrenReported) : index ∈ preorder m_model.cellsOf m_model.hasChildren depth parent ↔
    ∃ rest, rest ≠ [] ∧ rest.length ≤ depth ∧ index = parent ++ rest ∧ m_model.HasPath parent rest := by
  induction depth generalizing parent with
  | zero => simp [preorder]
  | succ depth ih =>
    rw [mem_preorder]
    constructor
    · rintro ⟨cell, listed, rfl | ⟨_, deeper⟩⟩
      · exact ⟨[cell], List.cons_ne_nil _ _, by simp, rfl, hasIndex_iff.mpr listed, trivial⟩
      · obtain ⟨rest, _, short, rfl, path⟩ := ih.mp deeper
        exact ⟨cell :: rest, List.cons_ne_nil _ _, Nat.succ_le_succ short, by simp, hasIndex_iff.mpr listed, path⟩
    · rintro ⟨rest, nonempty, short, rfl, path⟩
      obtain ⟨cell, rest, rfl⟩ := List.exists_cons_of_ne_nil nonempty
      obtain ⟨valid, path⟩ := path
      refine ⟨cell, hasIndex_iff.mp valid, ?_⟩
      cases rest with
      | nil => exact .inl rfl
      | cons next rest =>
        have opens := reported _ next path.1 (List.concat_ne_nil _ _)
        exact .inr ⟨opens, ih.mpr ⟨next :: rest, List.cons_ne_nil _ _, Nat.le_of_succ_le_succ short, by simp, path⟩⟩

/-- All cells of a finite model in preorder. -/
theorem exists_preorder (finite : m_model.cellSet.Finite) (reported : m_model.ChildrenReported) (size : Nat) :
    ∃ depth, size ≤ depth ∧ ∀ index, index ∈ preorder m_model.cellsOf m_model.hasChildren depth [] ↔ index ∈ m_model.cellSet := by
  obtain ⟨bound, deepest⟩ : ∃ bound, ∀ index ∈ m_model.cellSet, index.length ≤ bound := by
    obtain ⟨bound, above⟩ := (finite.image List.length).bddAbove
    exact ⟨bound, fun index there => above (Set.mem_image_of_mem _ there)⟩
  refine ⟨max size bound, Nat.le_max_left _ _, fun index => ?_⟩
  rw [mem_preorder_cells reported]
  constructor
  · rintro ⟨rest, nonempty, _, rfl, path⟩
    exact ⟨nonempty, path⟩
  · intro there
    exact ⟨index, there.1, Nat.le_trans (deepest index there) (Nat.le_max_right _ _), rfl, there.2⟩

/-- A finite model is fetched in preorder as far as the budget lasts, and each entry takes one of it, at whatever depth. -/
theorem fetchTree_budget (finite : m_model.cellSet.Finite) (reported : m_model.ChildrenReported) (roles : List Role)
    (enough : size ≤ depth) :
    ∃ order : List IndexList, (∀ index, index ∈ order ↔ index ∈ m_model.cellSet) ∧ order.Pairwise (List.Lex Before) ∧
      indexesOfAll (m_model.fetchTree roles depth [] size).1 = order.take (min size order.length) ∧
      (indexesOfAll (m_model.fetchTree roles depth [] size).1).length + (m_model.fetchTree roles depth [] size).2 = size := by
  obtain ⟨whole, deep, all⟩ := exists_preorder finite reported size
  refine ⟨preorder m_model.cellsOf m_model.hasChildren whole [], all, preorder_sorted fun _ => ?_, ?_⟩
  · exact cells_sorted List.pairwise_lt_range List.pairwise_lt_range
  · have sends : Sends m_model 0 roles _ size (m_model.fetchTree roles whole [] size) := fetchTree_sends 0 whole [] size
    rw [fetchTree_depth [] enough deep, sends.indexes, sends.left]
    refine ⟨List.take_eq_take_min, ?_⟩
    rw [List.length_take]
    omega

end Budget

section BudgetExample

theorem exampleTree_reported : exampleTree.ChildrenReported := by
  intro parent cell valid nonempty
  simp only [hasIndex, exampleTree, Bool.and_eq_true, decide_eq_true_eq] at valid ⊢
  by_contra closed
  simp [nonempty, closed] at valid

theorem exampleTree_finite : exampleTree.cellSet.Finite := by
  apply (Set.toFinite {[⟨0, 0⟩], [⟨0, 1⟩], [⟨0, 0⟩, ⟨0, 0⟩]}).subset
  rintro (_ | ⟨⟨row, column⟩, rest⟩) ⟨nonempty, path⟩
  · contradiction
  · obtain ⟨valid, path⟩ := path
    simp only [hasIndex, exampleTree, Bool.and_eq_true, decide_eq_true_eq] at valid
    obtain ⟨rfl, _⟩ : row = 0 ∧ column < 2 := by simpa using valid
    cases rest with
    | nil =>
      obtain rfl | rfl : column = 0 ∨ column = 1 := by omega
      · simp
      · simp
    | cons index rest =>
      obtain ⟨row', column'⟩ := index
      obtain ⟨below, path⟩ := path
      have opens := exampleTree_reported _ _ below (List.concat_ne_nil _ _)
      obtain rfl : column = 0 := by simpa [exampleTree] using opens
      obtain ⟨rfl, rfl⟩ : row' = 0 ∧ column' = 0 := by simpa [hasIndex, exampleTree] using below
      cases rest with
      | nil => simp
      | cons index rest =>
        obtain ⟨deeper, _⟩ := path
        simp [hasIndex, exampleTree] at deeper

/-- The budget ends behind the row below the first cell. -/
theorem exampleTree_budget : ∃ order : List IndexList, (∀ index, index ∈ order ↔ index ∈ exampleTree.cellSet) ∧
    order.Pairwise (List.Lex Before) ∧
    indexesOfAll (exampleTree.fetchTree [0] 2 [] 2).1 = order.take (min 2 order.length) ∧
    (indexesOfAll (exampleTree.fetchTree [0] 2 [] 2).1).length + (exampleTree.fetchTree [0] 2 [] 2).2 = 2 :=
  fetchTree_budget exampleTree_finite exampleTree_reported [0] (Nat.le_refl 2)

end BudgetExample

section Reserve

/-- A level that reserves its entries: the index above its cells and the budget at that time. -/
structure Reservation where
  parent : IndexList
  size : Nat
deriving DecidableEq

/-- What an `int` makes of a number. -/
def toInt (n : Nat) : Int := Int.bmod n (2 ^ 32)

variable {V : Type} (m_model : SourceModel V)

/-- `std::min(rowCount * columnCount, int(size))`. -/
def Reservation.argument (r : Reservation) : Int :=
  min (toInt (m_model.rowCount r.parent * m_model.columnCount r.parent)) (toInt r.size)

namespace SourceModel

def hasCells (parent : IndexList) : Bool := m_model.rowCount parent ≠ 0 && m_model.columnCount parent ≠ 0

/-- `fetchCells`, with the reservations in place of the entries. -/
def reserveCells (below : IndexList → Nat → List Reservation × Nat) (parent : IndexList) :
    List ModelIndex → Nat → List Reservation × Nat
  | [], size => ([], size)
  | _, 0 => ([], 0)
  | cell :: cells, size + 1 =>
    let index := parent ++ [cell]
    let (inner, size) := if m_model.hasChildren index then below index size else ([], size)
    let (others, size) := reserveCells below parent cells size
    (inner ++ others, size)

/-- `fetchTree`, with the reservations in place of the entries. A level without budget has a reservation, too. -/
def reserveTree : Nat → IndexList → Nat → List Reservation × Nat
  | 0, _, size => ([], size)
  | depth + 1, parent, size =>
    if m_model.hasCells parent then
      let (inner, left) := m_model.reserveCells (reserveTree depth) parent (m_model.cellsOf parent) size
      (⟨parent, size⟩ :: inner, left)
    else ([], size)

/-- What `replicaCacheRequest` reserves. -/
def reservations (size : Nat) : List Reservation := (m_model.reserveTree (size + 1) [] size).1

end SourceModel

/-- The argument is within the number of cells and the budget, and no number on the way to it is wrapped. -/
structure Reservation.InRange (r : Reservation) : Prop where
  nonneg : 0 ≤ r.argument m_model
  bound : r.argument m_model ≤ min (m_model.rowCount r.parent * m_model.columnCount r.parent : Int) r.size
  product : toInt (m_model.rowCount r.parent * m_model.columnCount r.parent) = m_model.rowCount r.parent * m_model.columnCount r.parent
  conversion : toInt r.size = r.size

/-- The indexes below which there are cells that are fetched or reserved for. -/
def SourceModel.levels (order : List IndexList) : List IndexList :=
  order.filter fun index => m_model.hasChildren index && m_model.hasCells index

/-- What the level below an index reserves, with the levels under it. -/
structure Reserves (parent : IndexList) (order : List IndexList) (size : Nat) (result : List Reservation × Nat) : Prop where
  left : result.2 = size - order.length
  levels : result.1.map Reservation.parent = (if m_model.hasCells parent then [parent] else []) ++ m_model.levels (order.take size)
  sizes : ∀ r ∈ result.1, r.size ≤ size

end Reserve

section ReserveProofs
variable {V : Type} {m_model : SourceModel V} {size depth : Nat} {parent : IndexList}

theorem toInt_eq_iff (n : Nat) : toInt n = n ↔ n < 2 ^ 31 := by
  unfold toInt
  constructor
  · intro same
    have below : (n : Int).bmod (2 ^ 32) < _ := Int.bmod_lt (by decide)
    omega
  · intro small
    exact Int.bmod_eq_of_le (by omega) (by omega)

theorem Reservation.inRange_iff {r : Reservation} :
    r.InRange m_model ↔ m_model.rowCount r.parent * m_model.columnCount r.parent < 2 ^ 31 ∧ r.size < 2 ^ 31 := by
  have product := toInt_eq_iff (m_model.rowCount r.parent * m_model.columnCount r.parent)
  push_cast at product
  constructor
  · intro range
    exact ⟨product.mp range.product, (toInt_eq_iff r.size).mp range.conversion⟩
  · rintro ⟨few, small⟩
    have rows := product.mpr few
    have left := (toInt_eq_iff r.size).mpr small
    have smaller : r.argument m_model = min (m_model.rowCount r.parent * m_model.columnCount r.parent : Int) r.size := by
      simp only [argument, rows, left]
    refine ⟨?_, le_of_eq smaller, rows, left⟩
    rw [smaller]
    exact le_min (Int.mul_nonneg (Int.natCast_nonneg _) (Int.natCast_nonneg _)) (Int.natCast_nonneg _)

theorem reserveCells_spec {below : IndexList → Nat → List Reservation × Nat} {order : IndexList → List IndexList}
    (list : List ModelIndex) (reserves : ∀ index n, n < size → Reserves m_model index (order index) n (below index n)) :
    let cells := list.flatMap fun cell =>
      (parent ++ [cell]) :: if m_model.hasChildren (parent ++ [cell]) then order (parent ++ [cell]) else []
    let result := m_model.reserveCells below parent list size
    result.2 = size - cells.length ∧ result.1.map Reservation.parent = m_model.levels (cells.take size) ∧
      ∀ r ∈ result.1, r.size ≤ size := by
  induction list generalizing size with
  | nil => simp [reserveCells, levels]
  | cons cell list ih =>
    cases size with
    | zero => simp [reserveCells, levels]
    | succ size =>
      have here := reserves (parent ++ [cell]) size (Nat.lt_succ_self size)
      have rest (left : Nat) (fewer : left ≤ size) := @ih left fun index n small => reserves index n (by omega)
      simp only [List.flatMap_cons, reserveCells]
      by_cases opens : m_model.hasChildren (parent ++ [cell])
      · have less : (below (parent ++ [cell]) size).2 ≤ size := here.left ▸ Nat.sub_le _ _
        obtain ⟨left, levels, sizes⟩ := rest _ less
        simp only [if_pos opens]
        refine ⟨?_, ?_, fun r there => ?_⟩
        · rw [left, here.left]
          simp only [List.length_cons, List.length_append]
          omega
        · rw [List.map_append, here.levels, levels, here.left]
          simp [SourceModel.levels, List.filter_cons, List.take_append, opens]
          split <;> simp
        · obtain inner | other := List.mem_append.mp there
          · exact Nat.le_succ_of_le (here.sizes r inner)
          · exact Nat.le_trans (sizes r other) (Nat.le_succ_of_le less)
      · obtain ⟨left, levels, sizes⟩ := rest size (Nat.le_refl size)
        simp only [if_neg opens]
        refine ⟨?_, ?_, fun r there => Nat.le_succ_of_le (sizes r there)⟩
        · rw [left]
          simp
        · rw [List.nil_append, levels]
          simp [SourceModel.levels, opens]

theorem reserveTree_spec (enough : size < depth) :
    Reserves m_model parent (preorder m_model.cellsOf m_model.hasChildren depth parent) size (m_model.reserveTree depth parent size) := by
  induction depth generalizing parent size with
  | zero => contradiction
  | succ depth ih =>
    obtain ⟨left, levels, sizes⟩ := @reserveCells_spec _ m_model size parent _ _ (m_model.cellsOf parent)
      fun index n small => @ih n index (by omega)
    rw [reserveTree, preorder]
    by_cases has : m_model.hasCells parent
    · rw [if_pos has]
      refine ⟨left, ?_, fun r there => ?_⟩
      · rw [List.map_cons, levels, if_pos has]
        rfl
      · obtain rfl | inner := List.mem_cons.mp there
        · exact Nat.le_refl size
        · exact sizes r inner
    · have empty : m_model.cellsOf parent = [] := by
        refine List.eq_nil_iff_forall_not_mem.mpr fun cell listed => has ?_
        obtain ⟨row, column⟩ := mem_cellsOf.mp listed
        simp [hasCells, Nat.ne_of_gt (Nat.zero_lt_of_lt row), Nat.ne_of_gt (Nat.zero_lt_of_lt column)]
      rw [if_neg has, empty]
      exact ⟨rfl, by simp [has, SourceModel.levels], fun r there => absurd there List.not_mem_nil⟩

/-- A model without cells reserves nothing; otherwise the budget at the root is the one of the request. -/
theorem reservation_root (has : m_model.hasCells []) (size : Nat) : ⟨[], size⟩ ∈ m_model.reservations size := by
  rw [reservations, reserveTree, if_pos has]
  exact List.mem_cons_self

/-- The levels that are reserved for are the root and the indexes with cells below among the first ones. -/
theorem mem_levels : parent ∈ (m_model.reservations size).map Reservation.parent ↔
    m_model.hasCells parent ∧ (parent = [] ∨ m_model.hasChildren parent ∧ parent ∈ m_model.firstCells size) := by
  have first : m_model.firstCells size = (preorder m_model.cellsOf m_model.hasChildren (size + 1) []).take size := by
    have sends (depth : Nat) : indexesOfAll (m_model.fetchTree [] depth [] size).1 = _ :=
      (fetchTree_sends 0 depth [] size).indexes
    rw [firstCells, ← sends, ← sends, fetchTree_depth [] (Nat.le_refl size) (Nat.le_succ size)]
  rw [reservations, (reserveTree_spec (Nat.lt_succ_self size)).levels, ← first, SourceModel.levels, List.mem_append, List.mem_filter,
    Bool.and_eq_true]
  have top : parent ∈ (if m_model.hasCells [] then [[]] else ([] : List IndexList)) ↔ m_model.hasCells parent ∧ parent = [] := by
    split
    · rename_i has
      rw [List.mem_singleton]
      exact ⟨fun root => ⟨root ▸ has, root⟩, And.right⟩
    · rename_i has
      exact ⟨fun listed => absurd listed List.not_mem_nil, fun ⟨cells, root⟩ => absurd (root ▸ cells) has⟩
  rw [top]
  tauto

/-- All levels reserve within the cells and the budget, with no number wrapped, where the root has no cells or the budget is an `int`,
and the cells of each level that is visited are as many as an `int` can count. -/
theorem reservations_in_range : (∀ r ∈ m_model.reservations size, r.InRange m_model) ↔
    (m_model.hasCells [] → size < 2 ^ 31) ∧ ∀ parent, parent = [] ∨ m_model.hasChildren parent ∧ parent ∈ m_model.firstCells size →
      m_model.rowCount parent * m_model.columnCount parent < 2 ^ 31 := by
  simp only [Reservation.inRange_iff]
  constructor
  · intro range
    refine ⟨fun has => (range _ (reservation_root has size)).2, fun parent visited => ?_⟩
    by_cases has : m_model.hasCells parent
    · obtain ⟨r, there, rfl⟩ := List.mem_map.mp (mem_levels.mpr ⟨has, visited⟩)
      exact (range r there).1
    · have none : m_model.rowCount parent * m_model.columnCount parent = 0 := by
        simp only [hasCells, Bool.and_eq_true, decide_eq_true_eq, not_and_or, not_not] at has
        obtain empty | empty := has <;> simp [empty]
      rw [none]
      decide
  · rintro ⟨small, few⟩ r there
    refine ⟨few r.parent (mem_levels.mp (List.mem_map_of_mem there)).2, ?_⟩
    have has : m_model.hasCells [] := by
      by_contra has
      rw [reservations, reserveTree, if_neg has] at there
      contradiction
    exact Nat.lt_of_le_of_lt ((reserveTree_spec (Nat.lt_succ_self size)).sizes r there) (small has)

/-- A budget of `2 ^ 31` is a negative `int`. -/
theorem exampleTree_reserves_negative : ∃ r ∈ exampleTree.reservations (2 ^ 31), r.argument exampleTree < 0 ∧ ¬ r.InRange exampleTree := by
  refine ⟨_, reservation_root rfl _, ?_, fun range => ?_⟩
  · decide
  · exact absurd (Reservation.inRange_iff.mp range).2 (by decide)

end ReserveProofs
end RemoteObjects.ItemModel
