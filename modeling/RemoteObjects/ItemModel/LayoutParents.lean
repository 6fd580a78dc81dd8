import RemoteObjects.ItemModel.Replica

/-! The parents of a layout change, from the source to the replica. -/
namespace RemoteObjects.ItemModel
open Replica

section Statement
variable {V : Type} (config : Config)

/-- The path is one of the replica's. -/
def CacheData.HasPath (m_rootItem : CacheData V) (path : IndexList) : Prop :=
  ∃ after, m_rootItem.toQModelIndex config.nodesCacheSize path = .ok (true, after)

/-- The replica reads as many parents as the source has, in their order and with their rows. -/
def ParentsArrive (m_rootItem : CacheData V) (parents : List IndexList) : Prop :=
  ∃ indexes after, layoutParents config m_rootItem (Adapter.sourceLayoutChanged parents) = .ok (indexes, after) ∧
    indexes.map rowsOf = parents.map rowsOf

def LayoutParentsArrive (V : Type) : Prop :=
  ∀ (m_rootItem : CacheData V) (parents : List IndexList), (∀ parent ∈ parents, m_rootItem.HasPath config parent) →
    ParentsArrive config m_rootItem parents

end Statement

section Parents
variable {V : Type} {config : Config} {m_rootItem : CacheData V} {parents : List IndexList}

theorem sourceLayoutChanged_eq (parents : List IndexList) : Adapter.sourceLayoutChanged parents = parents.flatten := by
  suffices ∀ start, parents.foldl (fun indexes parent => indexes ++ parent) start = start ++ parents.flatten from this []
  induction parents with
  | nil => simp
  | cons parent parents ih => simp [ih]

/-- An index below the root is resolved without a change of the caches. -/
theorem toQModelIndex_top {index : ModelIndex} :
    m_rootItem.toQModelIndex config.nodesCacheSize [index] =
      .ok (index.row < m_rootItem.item.rowCount ∧ index.column < m_rootItem.item.columnCount, m_rootItem) := by
  rw [CacheData.toQModelIndex, CacheData.resolve]
  by_cases valid : index.row < m_rootItem.item.rowCount ∧ index.column < m_rootItem.item.columnCount
  · simp [valid, CacheData.ensureWhen, pure, Except.pure, bind, Except.bind]
  · simp [valid, CacheData.ensureWhen, pure, Except.pure, bind, Except.bind]

/-- Each index of the list is read as a parent of its own. -/
theorem layoutParents_ok {list : IndexList} {indexes : List IndexList} {after : CacheData V}
    (read : layoutParents config m_rootItem list = .ok (indexes, after)) : indexes = list.map fun index => [index] := by
  induction list generalizing m_rootItem indexes with
  | nil =>
    cases read
    rfl
  | cons index list ih =>
    obtain ⟨root, valid, rest⟩ := bind_ok.mp read
    obtain ⟨⟨others, root⟩, later, same⟩ := bind_ok.mp rest
    cases same
    rw [ih later]
    rfl

theorem layoutParents_top {list : IndexList} (valid : ∀ index ∈ list, m_rootItem.HasPath config [index]) :
    layoutParents config m_rootItem list = .ok (list.map fun index => [index], m_rootItem) := by
  induction list with
  | nil => rfl
  | cons index list ih =>
    obtain ⟨here, later⟩ := List.forall_mem_cons.mp valid
    obtain ⟨after, resolved⟩ := here
    rw [toQModelIndex_top] at resolved
    obtain ⟨inside, rfl⟩ := Prod.mk.inj (Except.ok.inj resolved)
    have first : m_rootItem.validQModelIndex config.nodesCacheSize [index] = .ok m_rootItem := by
      rw [CacheData.validQModelIndex, toQModelIndex_top, inside]
      rfl
    rw [layoutParents, bind_ok]
    exact ⟨_, first, bind_ok.mpr ⟨_, ih later, rfl⟩⟩

/-- The parents arrive just when all of them are directly below the root. -/
theorem layoutParents_arrive_iff (present : ∀ parent ∈ parents, m_rootItem.HasPath config parent) :
    ParentsArrive config m_rootItem parents ↔ ∀ parent ∈ parents, parent.length = 1 := by
  constructor
  · rintro ⟨indexes, after, read, same⟩ parent there
    have listed : rowsOf parent ∈ indexes.map rowsOf := same ▸ List.mem_map_of_mem there
    obtain ⟨index, decoded, rows⟩ := List.mem_map.mp listed
    rw [layoutParents_ok read] at decoded
    obtain ⟨one, _, rfl⟩ := List.mem_map.mp decoded
    simpa [rowsOf] using (congrArg List.length rows).symm
  · intro single
    have heads : ∃ list : IndexList, parents = list.map fun index => [index] := by
      refine ⟨parents.flatten, ?_⟩
      clear present
      induction parents with
      | nil => rfl
      | cons parent parents ih =>
        obtain ⟨here, later⟩ := List.forall_mem_cons.mp single
        obtain ⟨index, rfl⟩ := List.length_eq_one_iff.mp here
        exact congrArg _ (ih later)
    obtain ⟨list, rfl⟩ := heads
    refine ⟨_, m_rootItem, ?_, rfl⟩
    rw [sourceLayoutChanged_eq, ← List.flatMap_def, List.flatMap_singleton']
    exact layoutParents_top fun index there => present _ (List.mem_map_of_mem there)

end Parents

section Example

def exampleReplicaConfig : Config := ⟨1000, .fetchRootSize, [], []⟩

/-- One row and one column below the root, and the same below that row. -/
def exampleRoot : CacheData Nat :=
  ⟨⟨[], true, 1, 1⟩, ⟨[(0, ⟨⟨[], true, 1, 1⟩, ⟨[], 1000⟩⟩)], 1000⟩⟩

theorem layoutParents_arrive_example : ParentsArrive exampleReplicaConfig exampleRoot [[⟨0, 0⟩]] :=
  (layoutParents_arrive_iff (by
    intro parent there
    obtain rfl := List.mem_singleton.mp there
    exact ⟨_, rfl⟩)).mpr (by decide)

/-- One parent on the second level becomes two on the first. -/
theorem nested_parent_split : ¬ LayoutParentsArrive exampleReplicaConfig Nat := by
  intro arrive
  have present : ∀ parent ∈ [[⟨0, 0⟩, ⟨0, 0⟩]], exampleRoot.HasPath exampleReplicaConfig parent := by
    intro parent there
    obtain rfl := List.mem_singleton.mp there
    exact ⟨_, rfl⟩
  obtain ⟨indexes, after, read, same⟩ := arrive exampleRoot _ present
  rw [layoutParents_ok read] at same
  revert same
  decide

end Example
end RemoteObjects.ItemModel
