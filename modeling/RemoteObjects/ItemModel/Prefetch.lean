import Mathlib.Data.List.Induction
import Mathlib.Data.List.Perm.Subperm
import RemoteObjects.DepthFirst
import RemoteObjects.ItemModel.Filling

/-! The tree that a source sends for the cache of a replica, and what the replica makes of it. -/
namespace RemoteObjects.ItemModel
open DepthFirst

section Model
variable {V : Type} (m_model : SourceModel V)

namespace SourceModel

/-- The cells below an index, row by row. -/
def cellsOf (parent : IndexList) : List ModelIndex :=
  cells (List.range (m_model.rowCount parent)) (List.range (m_model.columnCount parent))

/-- The first cells of the model where those below a cell come directly behind it. None of them is deeper than their
number. -/
def firstCells (size : Nat) : List IndexList := (preorder m_model.cellsOf m_model.hasChildren size []).take size

/-- The entry that `fetchTree` makes for a cell, without those below it. -/
def entryOf (roles : List Role) (index : IndexList) : IndexValuePair V :=
  ⟨index, m_model.collectData roles index, m_model.hasChildren index, m_model.flags index, [],
    ⟨m_model.columnCount index, m_model.rowCount index⟩⟩

/-- As in most models, only cells in column 0 have children. -/
def ColumnZero : Prop := ∀ parent cell, m_model.hasChildren (parent ++ [cell]) → cell.column = 0

end SourceModel

mutual
/-- The indexes of an entry and of those below it. -/
def indexesOf : IndexValuePair V → List IndexList
  | ⟨index, _, _, _, children, _⟩ => index :: indexesOfAll children

def indexesOfAll : List (IndexValuePair V) → List IndexList
  | [] => []
  | pair :: pairs => indexesOf pair ++ indexesOfAll pairs
end

/-- The index in column 0 of the row of a cell. -/
def rowIndex (parent : IndexList) (cell : ModelIndex) : IndexList := parent ++ [⟨cell.row, 0⟩]

namespace CacheData

/-- `QAbstractItemModelReplica::hasChildren` for an index. -/
def hasChildren (index : IndexList) (m_rootItem : CacheData V) : Bool :=
  match index.getLast?, m_rootItem.item? (rowsOf index) with
  | some last, some item => last.column = 0 && item.hasChildren
  | _, _ => false

/-- The replica has of a cell what the source has. -/
structure Faithful (roles : List Role) (parent : IndexList) (cell : ModelIndex) (m_rootItem : CacheData V) : Prop where
  hasChildren : m_rootItem.hasChildren (parent ++ [cell]) = m_model.hasChildren (parent ++ [cell])
  cached : ∃ item, m_rootItem.item? (rowsOf (parent ++ [cell])) = some item ∧
    item.rowCount = m_model.rowCount (rowIndex parent cell) ∧ item.columnCount = m_model.columnCount (rowIndex parent cell) ∧
    ∃ entry, item.cachedRowEntry[cell.column]? = some entry ∧ entry.flags = m_model.flags (parent ++ [cell]) ∧
      ∀ role ∈ roles, entry.find? role = some (m_model.data (parent ++ [cell]) role)

/-- The entry for a cell is filled in. -/
def fillCell (nodesCacheSize : Nat) (roles : List Role) (m_rootItem : CacheData V) (index : IndexList) :
    Except Failure (CacheData V) :=
  m_rootItem.fillWith nodesCacheSize (m_model.entryOf roles index) roles
    fun item => { item with rowCount := m_model.rowCount index, columnCount := m_model.columnCount index }

end CacheData

/-- What the replica makes of the reply to a cache request. -/
def prefetch (adapter : Adapter) (nodesCacheSize size : Nat) (roles : List Role) (m_rootItem : CacheData V) :
    Except Failure (CacheData V) :=
  let entries := adapter.replicaCacheRequest m_model size roles
  CacheData.fillCaches nodesCacheSize entries.roles entries.data (Replica.resetRoot entries.size m_rootItem)

/-- No cell behind this one in its row is among the ones given. -/
def LastOf (done : List IndexList) (parent : IndexList) (cell : ModelIndex) : Prop :=
  ∀ column, parent ++ [⟨cell.row, column⟩] ∈ done → column ≤ cell.column

/-- The last cell that is fetched of a row has the sizes of the one in column 0, and the caches below the root have place for
the rows. -/
structure SourceModel.Prefetchable (nodesCacheSize size : Nat) : Prop where
  sizes : ∀ parent cell, parent ++ [cell] ∈ m_model.firstCells size → LastOf (m_model.firstCells size) parent cell →
    m_model.rowCount (parent ++ [cell]) = m_model.rowCount (rowIndex parent cell) ∧
      m_model.columnCount (parent ++ [cell]) = m_model.columnCount (rowIndex parent cell)
  room : ∀ parent cell, parent ++ [cell] ∈ m_model.firstCells size → parent ≠ [] → cell.row < nodesCacheSize

end Model

section Order
variable {V : Type} {m_model : SourceModel V} {roles : List Role} {nodesCacheSize size : Nat}
open SourceModel

/-- A cell comes before those behind it in its row and those in the rows below. -/
def Before (a b : ModelIndex) : Prop := a.row < b.row ∨ a.row = b.row ∧ a.column < b.column

theorem cells_sorted {rows columns : List Nat} (rows_sorted : rows.Pairwise (· < ·)) (columns_sorted : columns.Pairwise (· < ·)) :
    (cells rows columns).Pairwise Before := by
  rw [cells, List.pairwise_flatMap]
  constructor
  · intro row _
    rw [List.pairwise_map]
    exact columns_sorted.imp fun before => .inr ⟨rfl, before⟩
  · apply rows_sorted.imp
    intro row other before a there b there'
    obtain ⟨_, _, rfl⟩ := List.mem_map.mp there
    obtain ⟨_, _, rfl⟩ := List.mem_map.mp there'
    exact .inl before

theorem mem_cellsOf {parent : IndexList} {cell : ModelIndex} :
    cell ∈ m_model.cellsOf parent ↔ cell.row < m_model.rowCount parent ∧ cell.column < m_model.columnCount parent := by
  rw [cellsOf, mem_cells, List.mem_range, List.mem_range]

/-- What a level of the tree sends: the first of its cells, as long as the budget lasts. -/
structure Sends (m_model : SourceModel V) (nodesCacheSize : Nat) (roles : List Role) (order : List IndexList) (size : Nat)
    (result : List (IndexValuePair V) × Nat) : Prop where
  indexes : indexesOfAll result.1 = order.take size
  left : result.2 = size - order.length
  fills : ∀ c, CacheData.fillCaches nodesCacheSize roles result.1 c =
    (order.take size).foldlM (CacheData.fillCell m_model nodesCacheSize roles) c

theorem sends_nil : Sends m_model nodesCacheSize roles [] size ([], size) := by
  refine ⟨by rw [List.take_nil]; rfl, rfl, fun c => ?_⟩
  rw [List.take_nil, CacheData.fillCaches]
  rfl

theorem fetchCells_sends {below : IndexList → Nat → List (IndexValuePair V) × Nat} {order : IndexList → List IndexList}
    {parent : IndexList} (sends : ∀ index size, Sends m_model nodesCacheSize roles (order index) size (below index size))
    (list : List ModelIndex) (size : Nat) :
    Sends m_model nodesCacheSize roles (list.flatMap fun cell =>
      (parent ++ [cell]) :: if m_model.hasChildren (parent ++ [cell]) then order (parent ++ [cell]) else []) size
      (m_model.fetchCells roles below parent list size) := by
  induction list generalizing size with
  | nil => exact sends_nil
  | cons cell list ih =>
    cases size with
    | zero =>
      refine ⟨rfl, by rw [Nat.zero_sub]; rfl, fun c => ?_⟩
      rw [List.take_zero, fetchCells, CacheData.fillCaches]
      · rfl
      · nofun
    | succ size =>
      rw [List.flatMap_cons, fetchCells]
      generalize inside : (if m_model.hasChildren (parent ++ [cell]) then order (parent ++ [cell]) else []) = inner
      have first : Sends m_model nodesCacheSize roles inner size
          (if m_model.hasChildren (parent ++ [cell]) then below (parent ++ [cell]) size else ([], size)) := by
        subst inside
        split
        · exact sends _ _
        · exact sends_nil
      have rest := ih (size - inner.length)
      dsimp only
      rw [first.left]
      refine ⟨?_, ?_, fun c => ?_⟩
      · rw [indexesOfAll, indexesOf, first.indexes, rest.indexes, List.cons_append, List.cons_append, List.take_succ_cons,
          List.take_append]
      · rw [rest.left, List.cons_append, List.length_cons, List.length_append]
        omega
      · rw [CacheData.fillCaches, CacheData.fillCache, bind_assoc, List.cons_append, List.take_succ_cons, List.foldlM_cons]
        apply congrArg (CacheData.fillCell m_model nodesCacheSize roles c (parent ++ [cell]) >>= ·)
        funext d
        rw [first.fills, List.take_append, List.foldlM_append]
        congr 1
        funext d
        exact rest.fills d

theorem fetchTree_sends (nodesCacheSize depth : Nat) (parent : IndexList) (size : Nat) :
    Sends m_model nodesCacheSize roles (preorder m_model.cellsOf m_model.hasChildren depth parent) size
      (m_model.fetchTree roles depth parent size) := by
  induction depth generalizing parent size with
  | zero => exact sends_nil
  | succ depth ih => exact fetchCells_sends ih (m_model.cellsOf parent) size

theorem before_asymm {a b : ModelIndex} (before : Before a b) : ¬ Before b a := by
  unfold Before at *
  omega

theorem cells_order : (preorder m_model.cellsOf m_model.hasChildren size []).Pairwise (List.Lex Before) :=
  preorder_sorted fun _ => cells_sorted List.pairwise_lt_range List.pairwise_lt_range

/-- A cell that comes before one of the first cells is one of them. -/
theorem firstCells_before {index next : IndexList} (there : index ∈ preorder m_model.cellsOf m_model.hasChildren size [])
    (first : next ∈ m_model.firstCells size) (before : List.Lex Before index next) : index ∈ m_model.firstCells size :=
  mem_take_of_before cells_order (List.lex_asymm before_asymm) there first before

variable {parent other : IndexList} {cell a b : ModelIndex}

theorem before_below (parent : IndexList) (cell : ModelIndex) (rest : IndexList) :
    List.Lex Before parent (parent ++ cell :: rest) := by
  simpa using List.Lex.append_left Before (List.Lex.nil (l := rest)) parent

theorem firstCells_parent (there : parent ++ [cell] ∈ m_model.firstCells size) :
    parent = [] ∨ parent ∈ m_model.firstCells size ∧ m_model.hasChildren parent :=
  (mem_parent (List.mem_of_mem_take there)).imp_right fun above => ⟨firstCells_before above.1 there (before_below parent cell []), above.2⟩

/-- The cells of a row and of those above it are fetched before a cell. -/
theorem firstCells_sibling (there : parent ++ [cell] ∈ m_model.firstCells size) :
    cell ∈ m_model.cellsOf parent ∧
      ∀ other ∈ m_model.cellsOf parent, Before other cell → parent ++ [other] ∈ m_model.firstCells size := by
  obtain ⟨listed, siblings⟩ := mem_sibling (List.mem_of_mem_take there)
  refine ⟨listed, fun other also before => ?_⟩
  exact firstCells_before (siblings other also) there (.append_left Before (.rel before) parent)

theorem firstCells_columns (columnZero : m_model.ColumnZero) (there : parent ++ [cell] ∈ m_model.firstCells size) :
    ∀ index ∈ parent, index.column = 0 := by
  induction parent using List.reverseRecOn generalizing cell with
  | nil => nofun
  | append_singleton parent last ih =>
    obtain impossible | ⟨above, opens⟩ := firstCells_parent there
    · simp at impossible
    · intro index listed
      obtain earlier | last := List.mem_append.mp listed
      · exact ih above index earlier
      · obtain rfl := List.mem_singleton.mp last
        exact columnZero parent index opens

/-- An item with children is known by the rows on its path. -/
theorem firstCells_path (columnZero : m_model.ColumnZero) (there : parent ++ [a] ∈ m_model.firstCells size)
    (there' : other ++ [b] ∈ m_model.firstCells size) (same : rowsOf parent = rowsOf other) : parent = other := by
  have restored : ∀ {list : IndexList}, (∀ index ∈ list, index.column = 0) → list = (rowsOf list).map fun row => ⟨row, 0⟩ := by
    intro list zero
    rw [rowsOf, List.map_map, List.map_congr_left, List.map_id]
    intro index listed
    exact congrArg _ (zero index listed).symm
  rw [restored (firstCells_columns columnZero there), restored (firstCells_columns columnZero there'), same]

end Order

section Invariant
variable {V : Type} {m_model : SourceModel V} {roles : List Role} {nodesCacheSize size own : Nat} {done rest : List IndexList}
variable {c d x : CacheData V} {parent : IndexList} {cell : ModelIndex} {item : ItemData V}
open SourceModel CacheData

def Sized (m_model : SourceModel V) (index : IndexList) (item : ItemData V) : Prop :=
  item.rowCount = m_model.rowCount index ∧ item.columnCount = m_model.columnCount index

/-- What the row of a cell has of it. -/
structure Written (m_model : SourceModel V) (roles : List Role) (parent : IndexList) (cell : ModelIndex) (item : ItemData V) :
    Prop where
  hasChildren : item.hasChildren = m_model.hasChildren (rowIndex parent cell)
  entry : ∃ entry, item.cachedRowEntry[cell.column]? = some entry ∧ entry.flags = m_model.flags (parent ++ [cell]) ∧
    ∀ role ∈ roles, entry.find? role = some (m_model.data (parent ++ [cell]) role)

/-- The cache behind some of the cells: a row has what was written for each of its cells and the sizes of the last one. -/
structure Filled (m_model : SourceModel V) (roles : List Role) (done : List IndexList) (c : CacheData V) : Prop where
  top : Sized m_model [] c.item
  only : ∀ path, path ≠ [] → (c.item? path).isSome → ∃ index ∈ done, rowsOf index = path
  each : ∀ parent cell, parent ++ [cell] ∈ done → ∃ item, c.item? (rowsOf (parent ++ [cell])) = some item ∧
    Written m_model roles parent cell item ∧
    (LastOf done parent cell → Sized m_model (parent ++ [cell]) item ∧ item.cachedRowEntry.length = cell.column + 1)

/-- The cells that are filled in before the next one. -/
theorem mem_done {next index : IndexList} (order : m_model.firstCells size = done ++ next :: rest) :
    index ∈ done ↔ index ∈ m_model.firstCells size ∧ List.Lex Before index next := by
  have sorted : (m_model.firstCells size).Pairwise (List.Lex Before) := cells_order.sublist (List.take_sublist _ _)
  rw [order, List.pairwise_append] at sorted
  constructor
  · exact fun there => ⟨order ▸ List.mem_append_left _ there, sorted.2.2 index there next List.mem_cons_self⟩
  · rintro ⟨there, before⟩
    obtain done | later := List.mem_append.mp (order ▸ there)
    · exact done
    · obtain rfl | behind := List.mem_cons.mp later
      · exact absurd before (List.lex_asymm before_asymm before)
      · exact absurd ((List.pairwise_cons.mp sorted.2.1).1 index behind) (List.lex_asymm before_asymm before)

theorem lex_same {a b : ModelIndex} (more : IndexList) (lex : List.Lex Before (parent ++ [a]) (parent ++ b :: more)) :
    Before a b ∨ a = b := by
  induction parent with
  | nil =>
    obtain before | ⟨same, _⟩ := List.cons_lex_cons_iff.mp lex
    · exact .inl before
    · exact .inr same
  | cons index rest ih =>
    obtain before | ⟨_, inner⟩ := List.cons_lex_cons_iff.mp lex
    · exact absurd before (before_asymm before)
    · exact ih inner

/-- The item above the next cell is reached, with the sizes of the source. -/
theorem Filled.reaches {next more : IndexList} (filled : Filled m_model roles done c)
    (order : m_model.firstCells size = done ++ next :: rest) (within : next = parent ++ more) (nested : more ≠ [])
    (above : parent = [] ∨ parent ∈ m_model.firstCells size ∧ m_model.hasChildren parent) :
    ∃ x, Reaches (· = x) parent c ∧ Sized m_model parent x.item := by
  induction parent using List.reverseRecOn generalizing more with
  | nil => exact ⟨c, rfl, filled.top⟩
  | append_singleton parent cell ih =>
    obtain impossible | ⟨there, opens⟩ := above
    · simp at impossible
    · rw [List.append_assoc, List.singleton_append] at within
      obtain ⟨x, reaches, sized⟩ := ih within (List.cons_ne_nil _ _) (firstCells_parent there)
      obtain ⟨row, column⟩ := mem_cellsOf.mp (firstCells_sibling there).1
      have filledIn : parent ++ [cell] ∈ done := by
        obtain ⟨first, later, rfl⟩ := List.exists_cons_of_ne_nil nested
        refine (mem_done order).mpr ⟨there, ?_⟩
        rw [within]
        exact .append_left Before (.cons .nil) parent
      have last : LastOf done parent cell := by
        intro column also
        have before := ((mem_done order).mp also).2
        rw [within] at before
        obtain (above | ⟨_, before⟩) | same := lex_same more before
        · exact absurd above (Nat.lt_irrefl _)
        · exact Nat.le_of_lt before
        · rw [← same]
      obtain ⟨item, cached, _, lasts⟩ := filled.each parent cell filledIn
      have found : x.item? [cell.row] = some item := by
        rw [← cached, rowsOf, List.map_append, item?, item?]
        exact congrArg _ (reaches.find? [cell.row]).symm
      rw [item?_cons] at found
      obtain ⟨child, here, same⟩ := Option.bind_eq_some_iff.mp found
      obtain rfl := Option.some.inj same
      refine ⟨child, reaches_append.mpr (reaches.mono fun same => ?_), (lasts last).1⟩
      rw [same]
      exact ⟨⟨sized.1 ▸ row, sized.2 ▸ column⟩, child, here, rfl⟩

theorem done_before {other : ModelIndex} (order : m_model.firstCells size = done ++ (parent ++ [cell]) :: rest)
    (there : parent ++ [other] ∈ done) : Before other cell := by
  have before := ((mem_done order).mp there).2
  obtain first | rfl := lex_same [] before
  · exact first
  · exact absurd before (List.lex_asymm before_asymm before)

/-- A row that is cached in the item above the next cell was filled in. -/
theorem Filled.row {row : Nat} (columnZero : m_model.ColumnZero) (filled : Filled m_model roles done c)
    (order : m_model.firstCells size = done ++ (parent ++ [cell]) :: rest)
    (cached : (c.item? (rowsOf parent ++ [row])).isSome) : ∃ column, parent ++ [⟨row, column⟩] ∈ done := by
  obtain ⟨index, listed, same⟩ := filled.only _ (by simp) cached
  obtain rfl | ⟨other, last, rfl⟩ := List.eq_nil_or_concat' index
  · simp [rowsOf] at same
  · have next : parent ++ [cell] ∈ m_model.firstCells size := order ▸ List.mem_append_right _ List.mem_cons_self
    rw [rowsOf, List.map_append] at same
    obtain ⟨above, rows⟩ := List.append_inj' same rfl
    obtain rfl := firstCells_path columnZero ((mem_done order).mp listed).1 next above
    exact ⟨last.column, by rw [← List.head_eq_of_cons_eq rows]; exact listed⟩

theorem Filled.place (columnZero : m_model.ColumnZero) (filled : Filled m_model roles done c)
    (sound : Sound nodesCacheSize own c) (order : m_model.firstCells size = done ++ (parent ++ [cell]) :: rest)
    (found : c.find? (rowsOf parent) = some x) (room : cell.row < if parent = [] then own else nodesCacheSize) :
    x.Open cell.row := by
  have caches := sound (rowsOf parent) x found
  cases here : x.children.find? cell.row with
  | some child => exact .inl (by rw [here]; rfl)
  | none =>
    have fewer : x.children.keys ⊆ List.range cell.row := by
      intro row listed
      obtain ⟨child, there⟩ := Option.ne_none_iff_exists'.mp (LruCache.find?_none.not.mpr (not_not.mpr listed))
      have cached : (c.item? (rowsOf parent ++ [row])).isSome := by
        rw [item?_append, found, Option.bind_some, item?_cons, there]
        rfl
      obtain ⟨column, done⟩ := filled.row columnZero order cached
      obtain above | ⟨same, _⟩ := done_before order done
      · exact List.mem_range.mpr above
      · rw [show row = cell.row from same, here] at there
        contradiction
    have length := (List.subperm_of_subset caches.distinct fewer).length_le
    rw [List.length_range, LruCache.keys, List.length_map] at length
    refine .inr (Nat.lt_of_le_of_lt length ?_)
    rw [caches.size]
    simpa [rowsOf] using room

/-- The row of the next cell has the cells before it. -/
theorem Filled.child (nodesCacheSize : Nat) (columnZero : m_model.ColumnZero) (filled : Filled m_model roles done c)
    (order : m_model.firstCells size = done ++ (parent ++ [cell]) :: rest) (found : c.find? (rowsOf parent) = some x) :
    let item := (x.ensured nodesCacheSize cell.row).item
    item.cachedRowEntry.length = cell.column ∧
      (cell.column ≠ 0 → item.hasChildren = m_model.hasChildren (rowIndex parent cell)) := by
  have next : parent ++ [cell] ∈ m_model.firstCells size := order ▸ List.mem_append_right _ List.mem_cons_self
  have here : c.item? (rowsOf parent ++ [cell.row]) = (x.children.find? cell.row).map CacheData.item := by
    rw [item?_append, found, Option.bind_some, item?_cons]
    cases x.children.find? cell.row <;> rfl
  obtain ⟨row, column⟩ := cell
  cases column with
  | zero =>
    -- No cell of the row comes before.
    have fresh : x.children.find? row = none := by
      cases cached : x.children.find? row with
      | none => rfl
      | some child =>
        have there : (c.item? (rowsOf parent ++ [row])).isSome := by rw [here, cached]; rfl
        obtain ⟨column, done⟩ := filled.row columnZero order there
        obtain above | ⟨_, before⟩ := done_before order done
        · exact absurd above (Nat.lt_irrefl _)
        · contradiction
    rw [ensured, fresh]
    exact ⟨rfl, fun other => absurd rfl other⟩
  | succ column =>
    have before : parent ++ [⟨row, column⟩] ∈ done := by
      obtain ⟨listed, siblings⟩ := firstCells_sibling next
      obtain ⟨inRow, inColumn⟩ := mem_cellsOf.mp listed
      have earlier : Before ⟨row, column⟩ ⟨row, column + 1⟩ := .inr ⟨rfl, Nat.lt_succ_self column⟩
      exact (mem_done order).mpr ⟨siblings _ (mem_cellsOf.mpr ⟨inRow, Nat.lt_of_succ_lt inColumn⟩) earlier,
        .append_left Before (.rel earlier) parent⟩
    have last : LastOf done parent ⟨row, column⟩ := by
      intro other there
      obtain above | ⟨_, before⟩ := done_before order there
      · exact absurd above (Nat.lt_irrefl _)
      · exact Nat.le_of_lt_succ before
    obtain ⟨item, cached, wrote, lasts⟩ := filled.each parent _ before
    rw [rowsOf, List.map_append] at cached
    obtain ⟨child, there, rfl⟩ := Option.map_eq_some_iff.mp (here.symm.trans cached)
    rw [ensured, there]
    exact ⟨(lasts last).2, fun _ => wrote.hasChildren⟩

/-- What an entry makes of an item that has the cells before it. -/
theorem written_ok (roles : List Role) (next : item.cachedRowEntry.length = cell.column)
    (row : cell.column ≠ 0 → item.hasChildren = m_model.hasChildren (rowIndex parent cell)) (resize : ItemData V → ItemData V) :
    ∃ after entry, written roles (m_model.entryOf roles (parent ++ [cell])) cell.column resize item = .ok (resize after) ∧
      after.hasChildren = m_model.hasChildren (rowIndex parent cell) ∧
      after.cachedRowEntry = item.cachedRowEntry ++ [entry] ∧ entry.flags = m_model.flags (parent ++ [cell]) ∧
      ∀ role ∈ roles, entry.find? role = some (m_model.data (parent ++ [cell]) role) := by
  generalize given : m_model.entryOf roles (parent ++ [cell]) = pair
  have data : pair.data = m_model.collectData roles (parent ++ [cell]) := by rw [← given]; rfl
  have hasChildren : pair.hasChildren = m_model.hasChildren (parent ++ [cell]) := by rw [← given]; rfl
  have lengths : roles.length = pair.data.length := by rw [data, SourceModel.collectData, List.length_map]
  obtain ⟨entry, made⟩ : ∃ entry, fillCacheEntry pair roles .empty = .ok entry := ⟨_, if_pos lengths⟩
  have behind : item.cachedRowEntry[cell.column]? = none := List.getElem?_eq_none (Nat.le_of_eq next)
  refine ⟨_, entry, bind_ok.mpr ⟨_, fillItem_append behind made, rfl⟩, ?_, rfl, ?_, ?_⟩
  · dsimp only
    split
    · rename_i first
      rw [hasChildren, rowIndex, ← first]
    · rename_i later
      exact row later
  · rw [(fillCacheEntry_ok made 0).2.1, ← given]
    rfl
  · intro role listed
    obtain ⟨_, _, ⟨value, there, found⟩ | ⟨absent, _⟩⟩ := fillCacheEntry_ok made role
    · rw [data, SourceModel.collectData, ← List.map_prod_left_eq_zip] at there
      obtain ⟨_, _, same⟩ := List.mem_map.mp there
      cases same
      exact found
    · exact absurd listed absent

theorem ensured_item (nodesCacheSize : Nat) (found : c.find? (rowsOf parent) = some x)
    (cached : c.item? (rowsOf (parent ++ [cell])) = some item) : (x.ensured nodesCacheSize cell.row).item = item := by
  rw [rowsOf, List.map_append, item?_append, ← rowsOf, found, Option.bind_some] at cached
  obtain ⟨child, there, same⟩ := Option.bind_eq_some_iff.mp ((item?_cons x cell.row []).symm.trans cached)
  rw [ensured, there]
  exact Option.some.inj same

/-- One cell more is filled in. -/
theorem Filled.step (columnZero : m_model.ColumnZero) (filled : Filled m_model roles done c)
    (sound : Sound nodesCacheSize own c) (order : m_model.firstCells size = done ++ (parent ++ [cell]) :: rest)
    (room : cell.row < if parent = [] then own else nodesCacheSize) :
    ∃ d, fillCell m_model nodesCacheSize roles c (parent ++ [cell]) = .ok d ∧
      Filled m_model roles (done ++ [parent ++ [cell]]) d := by
  have next : parent ++ [cell] ∈ m_model.firstCells size := order ▸ List.mem_append_right _ List.mem_cons_self
  obtain ⟨x, reaches, sized⟩ := filled.reaches order rfl (List.cons_ne_nil _ _) (firstCells_parent next)
  have found : c.find? (rowsOf parent) = some x := by
    obtain ⟨_, found, rfl⟩ := reaches.find
    exact found
  obtain ⟨row, column⟩ := mem_cellsOf.mp (firstCells_sibling next).1
  obtain ⟨length, hasChildren⟩ := filled.child nodesCacheSize columnZero order found
  obtain ⟨after, entry, written, children, entries, flags, data⟩ := written_ok roles length hasChildren fun item =>
    { item with rowCount := m_model.rowCount (parent ++ [cell]), columnCount := m_model.columnCount (parent ++ [cell]) }
  obtain ⟨d, made, items⟩ := fillWith_item? reaches ⟨sized.1 ▸ row, sized.2 ▸ column⟩
    (filled.place columnZero sound order found room) rfl written
  refine ⟨d, made, ?_, ?_, ?_⟩
  · have kept := (items []).trans (if_neg (by simp [rowsOf, SourceModel.entryOf]))
    rw [Option.some.inj kept]
    exact filled.top
  · intro path nested cached
    rw [items path] at cached
    split at cached
    · rename_i same
      exact ⟨_, List.mem_append_right _ List.mem_cons_self, same.symm⟩
    · obtain ⟨index, listed, rows⟩ := filled.only path nested cached
      exact ⟨index, List.mem_append_left _ listed, rows⟩
  · intro above a there
    by_cases same : rowsOf (above ++ [a]) = rowsOf (parent ++ [cell])
    · obtain ⟨rfl, sameRow⟩ : above = parent ∧ a.row = cell.row := by
        have listed : above ++ [a] ∈ m_model.firstCells size := by
          obtain before | this := List.mem_append.mp there
          · exact ((mem_done order).mp before).1
          · exact List.mem_singleton.mp this ▸ next
        rw [rowsOf, rowsOf, List.map_append, List.map_append] at same
        obtain ⟨rows, last⟩ := List.append_inj' same rfl
        exact ⟨firstCells_path columnZero listed next rows, List.head_eq_of_cons_eq last⟩
      refine ⟨_, (items _).trans (if_pos same), ?_⟩
      obtain before | this := List.mem_append.mp there
      · obtain ⟨item, cached, ⟨_, old, entryThere, good⟩, _⟩ := filled.each above a before
        have kept := ensured_item nodesCacheSize found cached
        rw [sameRow] at kept
        refine ⟨⟨by rw [rowIndex, sameRow]; exact children, old, ?_, good⟩, fun last => ?_⟩
        · rw [entries, kept, List.getElem?_append_left (List.getElem?_eq_some_iff.mp entryThere).1]
          exact entryThere
        · obtain above | ⟨_, earlier⟩ := done_before order before
          · exact absurd sameRow (Nat.ne_of_lt above)
          · have later := last cell.column (by rw [sameRow]; exact List.mem_append_right _ List.mem_cons_self)
            exact absurd earlier (Nat.not_lt.mpr later)
      · obtain ⟨_, last⟩ := List.append_inj' (List.mem_singleton.mp this) rfl
        obtain rfl := List.head_eq_of_cons_eq last
        refine ⟨⟨children, entry, ?_, flags, data⟩, fun _ => ⟨⟨rfl, rfl⟩, ?_⟩⟩
        · rw [entries, ← length, List.getElem?_concat_length]
        · rw [entries, List.length_append, length]
          rfl
    · have before : above ++ [a] ∈ done := by
        obtain before | this := List.mem_append.mp there
        · exact before
        · exact absurd (congrArg rowsOf (List.mem_singleton.mp this)) same
      obtain ⟨item, cached, wrote, lasts⟩ := filled.each above a before
      exact ⟨item, ((items _).trans (if_neg same)).trans cached, wrote,
        fun last => lasts fun column listed => last column (List.mem_append_left _ listed)⟩

theorem fill_run (columnZero : m_model.ColumnZero) (order : m_model.firstCells size = done ++ rest)
    (room : ∀ parent cell, parent ++ [cell] ∈ m_model.firstCells size → cell.row < if parent = [] then own else nodesCacheSize)
    (filled : Filled m_model roles done c) (sound : Sound nodesCacheSize own c) :
    ∃ d, rest.foldlM (fillCell m_model nodesCacheSize roles) c = .ok d ∧ Filled m_model roles (m_model.firstCells size) d := by
  induction rest generalizing done c with
  | nil => exact ⟨c, rfl, by rw [order, List.append_nil]; exact filled⟩
  | cons index rest ih =>
    have listed : index ∈ m_model.firstCells size := order ▸ List.mem_append_right _ List.mem_cons_self
    obtain ⟨first, more, nested⟩ := below (List.mem_of_mem_take listed)
    obtain rfl | ⟨parent, cell, rfl⟩ := List.eq_nil_or_concat' index
    · contradiction
    · obtain ⟨middle, made, next⟩ := filled.step columnZero sound order (room parent cell listed)
      obtain ⟨d, rest, ends⟩ := ih (by simpa using order) next (sound.fillWith made)
      exact ⟨d, bind_ok.mpr ⟨middle, made, rest⟩, ends⟩

theorem sound_run (sound : Sound nodesCacheSize own c) (ended : rest.foldlM (fillCell m_model nodesCacheSize roles) c = .ok d) :
    Sound nodesCacheSize own d := by
  induction rest generalizing c with
  | nil =>
    cases ended
    exact sound
  | cons index rest ih =>
    obtain ⟨middle, made, ended⟩ := bind_ok.mp ended
    exact ih (sound.fillWith made) ended

/-- The first rows of the model are as many as the budget. -/
theorem firstCells_top (there : [] ++ [cell] ∈ m_model.firstCells size) : cell.row < size := by
  obtain ⟨listed, siblings⟩ := firstCells_sibling there
  obtain ⟨inRow, inColumn⟩ := mem_cellsOf.mp listed
  have rows : (List.range (cell.row + 1)).map (fun row => [ModelIndex.mk row cell.column]) ⊆ m_model.firstCells size := by
    intro index listed
    obtain ⟨row, inside, rfl⟩ := List.mem_map.mp listed
    obtain above | rfl := Nat.lt_or_eq_of_le (Nat.le_of_lt_succ (List.mem_range.mp inside))
    · exact siblings _ (mem_cellsOf.mpr ⟨Nat.lt_trans above inRow, inColumn⟩) (.inl above)
    · exact there
  have distinct : ((List.range (cell.row + 1)).map fun row => [ModelIndex.mk row cell.column]).Nodup :=
    List.nodup_range.map fun a b same => congrArg ModelIndex.row (List.head_eq_of_cons_eq same)
  have length := (List.subperm_of_subset distinct rows).length_le
  rw [List.length_map, List.length_range] at length
  exact Nat.lt_of_lt_of_le length (List.length_take_le _ _)

end Invariant
section Statement
variable {V : Type} {m_model : SourceModel V} {adapter : Adapter} {roles : List Role} {nodesCacheSize size own : Nat}
variable {c d m_rootItem : CacheData V} {parent : IndexList} {cell : ModelIndex}
open SourceModel CacheData

theorem fetched : indexesOfAll (adapter.replicaCacheRequest m_model size roles).data = m_model.firstCells size :=
  (fetchTree_sends 0 size [] size).indexes

/-- The roles that the source sends: all that are available if none are asked for. -/
def entryRoles (adapter : Adapter) (roles : List Role) : List Role := if roles.isEmpty then adapter.m_availableRoles else roles

theorem prefetch_cells : prefetch m_model adapter nodesCacheSize size roles m_rootItem =
    (m_model.firstCells size).foldlM (fillCell m_model nodesCacheSize (entryRoles adapter roles))
      (Replica.resetRoot ⟨m_model.columnCount [], m_model.rowCount []⟩ m_rootItem) :=
  (fetchTree_sends nodesCacheSize size [] size).fills _

theorem sound_reset (size : Size) (m_rootItem : CacheData V) :
    Sound nodesCacheSize m_rootItem.children.cacheSize (Replica.resetRoot size m_rootItem) := by
  refine sound_iff.mpr ⟨.empty _, fun row child found => ?_⟩
  rw [Replica.resetRoot, CacheData.clear, LruCache.find?_empty] at found
  contradiction

theorem prefetch_sound (made : prefetch m_model adapter nodesCacheSize size roles m_rootItem = .ok d) :
    Sound nodesCacheSize m_rootItem.children.cacheSize d := by
  rw [prefetch_cells] at made
  exact sound_run (sound_reset _ _) made

theorem prefetch_run (adapter : Adapter) (roles : List Role) (columnZero : m_model.ColumnZero) (fits : size ≤ m_rootItem.children.cacheSize)
    (room : ∀ parent cell, parent ++ [cell] ∈ m_model.firstCells size → parent ≠ [] → cell.row < nodesCacheSize) :
    ∃ d, prefetch m_model adapter nodesCacheSize size roles m_rootItem = .ok d ∧
      Filled m_model (entryRoles adapter roles) (m_model.firstCells size) d := by
  rw [prefetch_cells]
  refine fill_run columnZero (List.nil_append _).symm (fun parent cell there => ?_) ⟨⟨rfl, rfl⟩, fun path nested cached => ?_, ?_⟩
    (sound_reset _ _)
  · split
    · rename_i top
      exact Nat.lt_of_lt_of_le (firstCells_top (top ▸ there)) fits
    · rename_i nested
      exact room parent cell there nested
  · exfalso
    obtain ⟨key, path, rfl⟩ := List.exists_cons_of_ne_nil nested
    simp [item?_cons, Replica.resetRoot, CacheData.clear] at cached
  · exact fun _ _ there => absurd there List.not_mem_nil

theorem last_of_row (there : parent ++ [cell] ∈ m_model.firstCells size) :
    ∃ last, last.row = cell.row ∧ parent ++ [last] ∈ m_model.firstCells size ∧ LastOf (m_model.firstCells size) parent last := by
  induction left : m_model.columnCount parent - cell.column using Nat.strong_induction_on generalizing cell with
  | _ n ih =>
    by_cases last : LastOf (m_model.firstCells size) parent cell
    · exact ⟨cell, rfl, there, last⟩
    · simp only [LastOf, not_forall, Nat.not_le] at last
      obtain ⟨column, further, behind⟩ := last
      have inside := (mem_cellsOf.mp (firstCells_sibling further).1).2
      dsimp only at inside
      exact @ih _ (by dsimp only; omega) ⟨cell.row, column⟩ further rfl

/-- Rows that are all cached are not more than the cache may have. -/
theorem room_of_cached (sound : Sound nodesCacheSize own d) (nested : parent ≠ [])
    (cached : ∀ row ≤ cell.row, (d.item? (rowsOf parent ++ [row])).isSome) : cell.row < nodesCacheSize := by
  obtain ⟨x, found⟩ : ∃ x, d.find? (rowsOf parent) = some x := by
    have here := cached 0 (Nat.zero_le _)
    rw [item?_append] at here
    cases found : d.find? (rowsOf parent) with
    | some x => exact ⟨x, rfl⟩
    | none =>
      rw [found] at here
      contradiction
  have caches := sound (rowsOf parent) x found
  rw [if_neg (by simpa [rowsOf] using nested)] at caches
  have rows : List.range (cell.row + 1) ⊆ x.children.keys := by
    intro row listed
    have here := cached row (Nat.le_of_lt_succ (List.mem_range.mp listed))
    rw [item?_append, found, Option.bind_some, item?_cons] at here
    by_contra missing
    rw [LruCache.find?_none.mpr missing] at here
    contradiction
  have length := (List.subperm_of_subset List.nodup_range rows).length_le
  rw [List.length_range, LruCache.keys, List.length_map] at length
  exact Nat.lt_of_lt_of_le length caches.length

theorem hasChildren_faithful {item : ItemData V} (columnZero : m_model.ColumnZero)
    (cached : d.item? (rowsOf (parent ++ [cell])) = some item) (row : item.hasChildren = m_model.hasChildren (rowIndex parent cell)) :
    d.hasChildren (parent ++ [cell]) = m_model.hasChildren (parent ++ [cell]) := by
  rw [CacheData.hasChildren, List.getLast?_concat, cached]
  dsimp only
  rw [row, rowIndex]
  by_cases first : cell.column = 0
  · rw [decide_eq_true first, Bool.true_and, ← first]
  · rw [decide_eq_false first, Bool.false_and]
    cases opens : m_model.hasChildren (parent ++ [cell]) with
    | false => rfl
    | true => exact absurd (columnZero parent cell opens) first

theorem prefetch_faithful (columnZero : m_model.ColumnZero) (fits : size ≤ m_rootItem.children.cacheSize) :
    (∃ d, prefetch m_model adapter nodesCacheSize size roles m_rootItem = .ok d ∧ ∀ parent cell,
      parent ++ [cell] ∈ indexesOfAll (adapter.replicaCacheRequest m_model size roles).data →
        Faithful m_model (entryRoles adapter roles) parent cell d) ↔ m_model.Prefetchable nodesCacheSize size := by
  rw [fetched]
  constructor
  · rintro ⟨d, made, faithful⟩
    have room : ∀ parent cell, parent ++ [cell] ∈ m_model.firstCells size → parent ≠ [] → cell.row < nodesCacheSize := by
      intro parent cell there nested
      apply room_of_cached (prefetch_sound made) nested
      intro row upTo
      obtain ⟨listed, siblings⟩ := firstCells_sibling there
      obtain ⟨inRow, inColumn⟩ := mem_cellsOf.mp listed
      have above : ∃ column, parent ++ [⟨row, column⟩] ∈ m_model.firstCells size := by
        obtain above | rfl := Nat.lt_or_eq_of_le upTo
        · exact ⟨cell.column, siblings _ (mem_cellsOf.mpr ⟨Nat.lt_trans above inRow, inColumn⟩) (.inl above)⟩
        · exact ⟨cell.column, there⟩
      obtain ⟨column, fetched⟩ := above
      obtain ⟨item, cached, _⟩ := (faithful parent _ fetched).cached
      rw [rowsOf, List.map_append] at cached
      exact Option.isSome_iff_exists.mpr ⟨item, cached⟩
    refine ⟨fun parent cell there last => ?_, room⟩
    obtain ⟨_, again, filled⟩ := prefetch_run adapter roles columnZero fits room
    obtain rfl := Except.ok.inj (made.symm.trans again)
    obtain ⟨item, cached, _, lasts⟩ := filled.each parent cell there
    obtain ⟨other, here, rows, columns, _⟩ := (faithful parent cell there).cached
    obtain rfl := Option.some.inj (cached.symm.trans here)
    exact ⟨(lasts last).1.1.symm.trans rows, (lasts last).1.2.symm.trans columns⟩
  · intro fetchable
    obtain ⟨d, made, filled⟩ := prefetch_run adapter roles columnZero fits fetchable.room
    refine ⟨d, made, fun parent cell there => ?_⟩
    obtain ⟨item, cached, wrote, _⟩ := filled.each parent cell there
    obtain ⟨last, row, listed, isLast⟩ := last_of_row there
    obtain ⟨other, here, _, lasts⟩ := filled.each parent last listed
    obtain rfl : item = other := by
      have same : rowsOf (parent ++ [cell]) = rowsOf (parent ++ [last]) := by simp [rowsOf, row]
      exact Option.some.inj (cached.symm.trans (same ▸ here))
    obtain ⟨rows, columns⟩ := fetchable.sizes parent last listed isLast
    have sameRow : rowIndex parent last = rowIndex parent cell := by rw [rowIndex, row, rowIndex]
    rw [sameRow] at rows columns
    exact ⟨hasChildren_faithful columnZero cached wrote.hasChildren, item, cached, (lasts isLast).1.1.trans rows,
      (lasts isLast).1.2.trans columns, wrote.entry⟩

end Statement

section Example
open CacheData

/-- One row with two columns, and a row below its first cell. -/
def exampleTree : SourceModel Nat where
  rowCount index := if index = [] ∨ index = [⟨0, 0⟩] then 1 else 0
  columnCount index := if index = [] then 2 else if index = [⟨0, 0⟩] then 1 else 0
  hasChildren index := index = [⟨0, 0⟩]
  flags _ := 0
  data _ _ := 0
  headerData _ _ _ := 0
  setData _ _ _ := true

def exampleAdapter : Adapter := ⟨[0], false⟩

theorem exampleTree_columnZero : exampleTree.ColumnZero := by
  intro parent cell opens
  have same := of_decide_eq_true opens
  obtain ⟨_, last⟩ := List.append_inj' (same.trans (List.nil_append _).symm) rfl
  rw [List.head_eq_of_cons_eq last]

/-- A budget that ends before the second column. -/
theorem prefetch_faithful_example : ∃ d, prefetch exampleTree exampleAdapter 4 2 [] ⟨.empty, .empty 4⟩ = .ok d ∧
    ∀ parent cell, parent ++ [cell] ∈ indexesOfAll (exampleAdapter.replicaCacheRequest exampleTree 2 []).data →
      Faithful exampleTree (entryRoles exampleAdapter []) parent cell d := by
  have first : ∀ index ∈ exampleTree.firstCells 2, index.getLast? = some ⟨0, 0⟩ := by decide
  have cells : ∀ parent cell, parent ++ [cell] ∈ exampleTree.firstCells 2 → cell = ⟨0, 0⟩ := by
    intro parent cell there
    have last := first _ there
    rw [List.getLast?_concat] at last
    exact Option.some.inj last
  apply (prefetch_faithful exampleTree_columnZero (by decide)).mpr
  constructor
  · intro parent cell there _
    rw [cells parent cell there]
    exact ⟨rfl, rfl⟩
  · intro parent cell there _
    rw [cells parent cell there]
    decide

/-- The entry of the second column sets the rows of the item to none. -/
theorem second_column_overwrites : exampleTree.ColumnZero ∧ ¬ ∃ d,
    prefetch exampleTree exampleAdapter 4 4 [] ⟨.empty, .empty 4⟩ = .ok d ∧
      ∀ parent cell, parent ++ [cell] ∈ indexesOfAll (exampleAdapter.replicaCacheRequest exampleTree 4 []).data →
        Faithful exampleTree (entryRoles exampleAdapter []) parent cell d := by
  refine ⟨exampleTree_columnZero, ?_⟩
  rintro ⟨d, made, faithful⟩
  have rows : ((prefetch exampleTree exampleAdapter 4 4 [] ⟨.empty, .empty 4⟩).toOption.bind fun d => d.item? [0]).map
      ItemData.rowCount = some 0 := rfl
  obtain ⟨item, cached, rowCount, _⟩ := (faithful [] ⟨0, 0⟩ (by decide)).cached
  rw [made] at rows
  have here : d.item? [0] = some item := cached
  have none : some item.rowCount = some 0 := by rw [← rows, Except.toOption, Option.bind_some, here]; rfl
  rw [rowCount] at none
  contradiction

end Example
end RemoteObjects.ItemModel
