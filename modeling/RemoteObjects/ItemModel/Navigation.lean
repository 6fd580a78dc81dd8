import RemoteObjects.ItemModel.Adapter
import RemoteObjects.ItemModel.Ownership

/-! The indexes of a replica. An index has the pointer of its parent's item, and its own item is looked up by its row. -/
namespace RemoteObjects.ItemModel
open Transition HeapForest

section Model

/-- An index that is valid. The one that is not, which stands for the root, is `none`. -/
structure QModelIndex where
  row : Nat
  column : Nat
  internalPointer : Address
deriving DecidableEq, Repr

/-- What happens to the cached items: an operation on one of them, or the application sets the size of the root's cache. -/
inductive ReplicaOperation
  | item (item : Address) (operation : CacheOperation)
  | setRootCacheSize (rootCacheSize : Nat)

namespace CacheHeap
-- A new item gets the address that is suggested for its parent and its row.
variable (nodesCacheSize : Nat) (suggested : Address → Nat → Address) (h : CacheHeap)

def setRootCacheSize (rootCacheSize : Nat) : Except Failure CacheHeap := do
  let node ← h.read rootAddress
  let (children, victim) ← { node.children with cacheSize := rootCacheSize }.cleanCache h.hasChildren
  h.update rootAddress { node with children } victim.toList

def replicaStep (h : CacheHeap) : ReplicaOperation → Option CacheHeap
  | .item item operation => h.step nodesCacheSize (item, operation)
  | .setRootCacheSize rootCacheSize => (h.setRootCacheSize rootCacheSize).toOption

/-- The item of an index if it is cached, which makes it the one that was used last. -/
def cacheData : Option QModelIndex → Except Failure (Option Address × CacheHeap)
  | none => .ok (some rootAddress, h)
  | some index =>
    if index.internalPointer ∈ h.m_activeParents then do
      let parent ← h.read index.internalPointer
      match parent.children.find? index.row with
      | some item =>
        let h ← h.update index.internalPointer { parent with children := parent.children.front index.row item } []
        pure (some item, h)
      | none => pure (none, h)
    else .ok (none, h)

def index (row column : Nat) (parent : Option QModelIndex) : Except Failure (Option QModelIndex × CacheHeap) := do
  let (parentItem, h) ← h.cacheData parent
  match parentItem with
  | none => pure (none, h)
  | some item =>
    if parent.isSome = decide (item ≠ rootAddress) then do
      let node ← h.read item
      if row < node.rowCount ∧ column < node.columnCount then do
        let h ← if item = rootAddress then pure h else h.ensureChild nodesCacheSize item (suggested item) row
        pure (some ⟨row, column, item⟩, h)
      else pure (none, h)
    else .error .assertion

def parentIndex (index : Option QModelIndex) : Except Failure (Option QModelIndex) := do
  let above ← h.parent (index.map QModelIndex.internalPointer)
  pure (above.map fun (row, internalPointer) => ⟨row, 0, internalPointer⟩)

/-- The loop of `toModelIndexList`, or `none` if it is not over after some steps. -/
def prependParents : Nat → Option QModelIndex → IndexList → Option (Except Failure IndexList)
  | _, none, list => some (.ok list)
  | 0, some _, _ => none
  | steps + 1, some index, list =>
    match h.parentIndex (some index) with
    | .ok above => prependParents steps above (⟨index.row, index.column⟩ :: list)
    | .error failure => some (.error failure)

def toModelIndexList (steps : Nat) (index : Option QModelIndex) : Option (Except Failure IndexList) :=
  h.prependParents steps index []

/-- `toQModelIndex` without `ok` and `ensureItem`. -/
def toQModelIndex (list : IndexList) : Except Failure (Option QModelIndex × CacheHeap) :=
  list.foldlM (fun (result, h) index => do
    let (result, h) ← h.index nodesCacheSize suggested index.row index.column result
    if result.isSome then pure (result, h) else .error .qFatal) (none, h)

end CacheHeap
end Model

section Statement

/-- An index of the model: it is within the bounds of its parent's item, and the items of its parent and of all above it are
cached. Whoever has an index below an item has asked for one, so that the item is in the set. -/
inductive CacheHeap.IsIndex (h : CacheHeap) : QModelIndex → Prop
  | top {row column : Nat} {node : CacheNode} (here : h.nodes.lookup rootAddress = some node)
      (bounds : row < node.rowCount ∧ column < node.columnCount) : IsIndex h ⟨row, column, rootAddress⟩
  | nested {parent : QModelIndex} {item : Address} {seen : CacheHeap} {row column : Nat} {node : CacheNode}
      (above : IsIndex h parent) (first : parent.column = 0) (cached : h.cacheData (some parent) = .ok (some item, seen))
      (active : item ∈ h.m_activeParents) (here : h.nodes.lookup item = some node)
      (bounds : row < node.rowCount ∧ column < node.columnCount) : IsIndex h ⟨row, column, item⟩

/-- An index below an item that is cached leads back to it, and is one of the model if the item's is. The list of rows and
columns of an index leads back to the index. -/
structure CacheHeap.Navigates (nodesCacheSize : Nat) (suggested : Address → Nat → Address) (h : CacheHeap) : Prop where
  parent_index : ∀ {parent item seen node row column}, (∀ p ∈ parent, p.column = 0) →
    h.cacheData parent = .ok (some item, seen) → h.nodes.lookup item = some node →
    row < node.rowCount ∧ column < node.columnCount →
    ∃ i after, h.index nodesCacheSize suggested row column parent = .ok (some i, after) ∧
      after.parentIndex (some i) = .ok parent ∧ ((∀ p ∈ parent, h.IsIndex p) → after.IsIndex i)
  list_index : ∀ {i}, (∀ index ∈ i, h.IsIndex index) →
    ∃ list enough, (∀ steps, enough ≤ steps → h.toModelIndexList steps i = some (.ok list)) ∧
      ∃ after, h.toQModelIndex nodesCacheSize suggested list = .ok (i, after)

end Statement

section Lookup
variable {nodesCacheSize : Nat} {suggested : Address → Nat → Address} {h seen after : CacheHeap} {item : Address}
  {node : CacheNode} {p i : QModelIndex} {parent : Option QModelIndex} {row column : Nat}

open CacheHeap

/-- The item of an index, as the heap has it. -/
def CacheHeap.Holds (h : CacheHeap) (p : QModelIndex) (item : Address) : Prop :=
  p.internalPointer ∈ h.m_activeParents ∧
    ∃ owner, h.nodes.lookup p.internalPointer = some owner ∧ owner.children.find? p.row = some item

/-- The same items under the same rows, used in another order. -/
structure CacheHeap.Alike (h after : CacheHeap) : Prop where
  active : after.m_activeParents = h.m_activeParents
  node : ∀ {item node}, h.nodes.lookup item = some node → ∃ children, after.nodes.lookup item = some { node with children } ∧
    ∀ row, children.find? row = node.children.find? row

theorem CacheHeap.Alike.refl (h : CacheHeap) : h.Alike h := ⟨rfl, fun {_ node} here => ⟨node.children, here, fun _ => rfl⟩⟩

theorem CacheHeap.Alike.trans (first : h.Alike seen) (second : seen.Alike after) : h.Alike after where
  active := second.active.trans first.active
  node here := by
    obtain ⟨children, there, same⟩ := first.node here
    obtain ⟨children', there', same'⟩ := second.node there
    exact ⟨children', there', fun row => (same' row).trans (same row)⟩

theorem CacheHeap.Alike.holds (alike : h.Alike after) (holds : h.Holds p item) : after.Holds p item := by
  obtain ⟨active, owner, here, found⟩ := holds
  obtain ⟨children, there, same⟩ := alike.node here
  exact ⟨alike.active ▸ active, _, there, (same _).trans found⟩

theorem update_nothing (h : CacheHeap) (item : Address) (next : CacheNode) :
    h.update item next [] = .ok { h with nodes := h.nodes.insert item next } := by
  simp [CacheHeap.update, CacheHeap.deleteItems, destroy]

/-- `get` moves an entry of the parent's cache, and nothing else. -/
theorem cacheData_alike (good : h.Good []) (cached : h.cacheData parent = .ok (some item, seen)) : seen.Good [] ∧ h.Alike seen := by
  cases parent with
  | none =>
    cases cached
    exact ⟨good, .refl h⟩
  | some p =>
    rw [CacheHeap.cacheData] at cached
    split at cached
    · rename_i active
      obtain ⟨owner, here⟩ := mem_iff_lookup.mp (good.live _ active)
      rw [read_live here, ok_bind] at cached
      cases found : owner.children.find? p.row with
      | none =>
        rw [found] at cached
        cases cached
      | some child =>
        rw [found] at cached
        dsimp only at cached
        rw [update_nothing] at cached
        cases cached
        have safe := front_safe good here found
        rw [update_nothing] at safe
        refine ⟨safe.1, rfl, fun {x node} there => ?_⟩
        by_cases same : x = p.internalPointer
        · subst same
          obtain rfl := Option.some.inj (there.symm.trans here)
          refine ⟨_, AList.lookup_insert h.nodes, fun row => ?_⟩
          rw [LruCache.find?_front]
          split
          · rename_i same
            rw [same, found]
          · rfl
        · exact ⟨node.children, lookup_insert_iff.mpr (.inr ⟨same, there⟩), fun _ => rfl⟩
    · cases cached

theorem cacheData_iff (good : h.Good []) : (∃ seen, h.cacheData (some p) = .ok (some item, seen)) ↔ h.Holds p item := by
  rw [CacheHeap.cacheData, Holds]
  by_cases active : p.internalPointer ∈ h.m_activeParents
  · obtain ⟨owner, here⟩ := mem_iff_lookup.mp (good.live _ active)
    rw [if_pos active, read_live here, ok_bind]
    cases found : owner.children.find? p.row with
    | none =>
      refine iff_of_false (fun ⟨_, same⟩ => nomatch same) ?_
      simp [here, found]
    | some child => simp [active, here, found, update_nothing]
  · simp [active]

/-- The item of an index is a child of the one that its pointer leads to. -/
theorem CacheHeap.Holds.child (good : h.Good []) (holds : h.Holds p item) : item ≠ rootAddress ∧
    (∃ node, h.nodes.lookup item = some node ∧ node.parent = some p.internalPointer) ∧
    ∀ {rank}, Ranked CacheNode.owned rank h.nodes → rank p.internalPointer < rank item := by
  obtain ⟨_, owner, here, found⟩ := holds
  have owned : item ∈ owner.owned := List.mem_map_of_mem (LruCache.find?_mem found)
  obtain ⟨_, node, there, up⟩ := good.owns.child here item owned
  refine ⟨?_, ⟨node, there, up⟩, fun ranked => ranked here item owned⟩
  rintro rfl
  obtain ⟨top, there', none⟩ := good.owns.rooted
  rw [Option.some.inj (there'.symm.trans there), up] at none
  contradiction

/-- `find` finds the row of an item, as no two rows have the same item. -/
theorem parentIndex_holds (good : h.Good []) (holds : h.Holds p item) (first : p.column = 0) (active : item ∈ h.m_activeParents) :
    h.parentIndex (some ⟨row, column, item⟩) = .ok (some p) := by
  obtain ⟨other, ⟨node, there, up⟩, _⟩ := holds.child good
  obtain ⟨above, owner, here, found⟩ := holds
  have listed := LruCache.find?_mem found
  have searched : owner.children.cachedItems.find? (fun entry => entry.2 = item) = some (p.row, item) := by
    cases search : owner.children.cachedItems.find? fun entry => entry.2 = item with
    | none =>
      have absent := List.find?_eq_none.mp search _ listed
      simp at absent
    | some entry =>
      have same : entry.2 = item := by simpa using List.find?_some search
      exact congrArg some (List.inj_on_of_nodup_map (good.owns.distinct here) (List.mem_of_find?_eq_some search) listed same)
  have searches : h.parent (some item) = .ok (some (p.row, p.internalPointer)) := by
    rw [CacheHeap.parent, if_neg (not_or.mpr ⟨other, not_not.mpr active⟩), read_live there, ok_bind, up]
    dsimp only
    rw [if_neg (not_not.mpr above), read_live here, ok_bind, searched]
  rw [CacheHeap.parentIndex, Option.map_some, searches]
  cases p
  cases first
  rfl

theorem parentIndex_top : h.parentIndex (some ⟨row, column, rootAddress⟩) = .ok none := by
  rw [CacheHeap.parentIndex, Option.map_some, CacheHeap.parent, if_pos (.inl rfl)]
  rfl

/-- What stays when a new item is there as well, stays of the items from before. -/
theorem CacheHeap.Kept.construct {columnCount : Nat} {address : Address}
    (kept : Kept item (h.construct nodesCacheSize item columnCount address).1 after) : Kept item h after where
  nearer there nearer := by
    have older : ∀ {p owner}, h.nodes.lookup p = some owner →
        (h.construct nodesCacheSize item columnCount address).1.nodes.lookup p = some owner := by
      intro p owner there
      refine lookup_insert_iff.mpr (.inr ⟨?_, there⟩)
      rintro rfl
      exact fresh_not_mem address h.nodes (mem_iff_lookup.mpr ⟨owner, there⟩)
    exact kept.nearer (older there) fun ranked => nearer fun found => ranked (older found)
  active x there live := kept.active x (Finset.mem_insert_of_mem there) live

theorem construct_childless (h : CacheHeap) (item : Address) (columnCount : Nat) (address : Address) :
    (h.construct nodesCacheSize item columnCount address).1.hasChildren
      (h.construct nodesCacheSize item columnCount address).2 = false := by
  simp [CacheHeap.construct, CacheHeap.hasChildren, AList.lookup_insert]

/-- `ensureChildren` for a row ends, with the item in the set, and takes away nothing but items below it. -/
theorem ensureChild_ends (good : h.Good []) (here : h.nodes.lookup item = some node) {address : Nat → Address} :
    ∃ after children, h.ensureChild nodesCacheSize item address row = .ok after ∧ after.Good [] ∧
      after.nodes.lookup item = some { node with children } ∧ item ∈ after.m_activeParents ∧ Kept item h after ∧
      (node.children.contains row → after = h) := by
  rw [CacheHeap.ensureChild, read_live here, ok_bind]
  by_cases there : node.children.contains row
  · rw [if_pos there]
    obtain ⟨child, found⟩ := Option.isSome_iff_exists.mp there
    have active := good.active here (List.ne_nil_of_mem (LruCache.find?_mem found))
    exact ⟨h, node.children, rfl, good, here, active, ⟨fun there _ => there, fun _ there _ => there⟩, fun _ => rfl⟩
  · rw [if_neg there]
    have new : row ∉ node.children.keys := by
      rw [← LruCache.find?_none]
      simpa [LruCache.contains] using there
    obtain ⟨children, victim, ensured⟩ := @LruCache.ensure_ok _ node.children row
      (h.construct nodesCacheSize item 0 (address row)).2 _ (good.small here) (construct_childless h item 0 (address row))
    dsimp only
    rw [ensured, ok_bind]
    obtain ⟨⟨after, ended, kept, found, stays⟩, active⟩ : CacheHeap.Changes _ item { node with children } _ ∧ _ :=
      good.attach here rfl rfl ⟨good.keys here, new⟩ ensured rfl rfl
    refine ⟨after, children, ended, kept, found, ?_, stays.construct, fun again => absurd again there⟩
    exact stays.active item active (mem_iff_lookup.mpr ⟨_, found⟩)

end Lookup

section Navigation
variable {nodesCacheSize : Nat} {suggested : Address → Nat → Address} {h seen after : CacheHeap} {item : Address}
  {node : CacheNode} {p i : QModelIndex} {parent : Option QModelIndex} {row column : Nat}

open CacheHeap

theorem CacheHeap.Kept.holds {child : Address} (kept : Kept item h after) (holds : h.Holds p child)
    (nearer : ∀ {rank}, Ranked CacheNode.owned rank h.nodes → rank p.internalPointer < rank item) : after.Holds p child := by
  obtain ⟨active, owner, here, found⟩ := holds
  have there := kept.nearer here nearer
  exact ⟨kept.active _ active (mem_iff_lookup.mpr ⟨owner, there⟩), owner, there, found⟩

theorem CacheHeap.IsIndex.alike (good : h.Good []) (goodAfter : after.Good []) (alike : h.Alike after) (index : h.IsIndex i) :
    after.IsIndex i := by
  induction index with
  | top here bounds =>
    obtain ⟨children, there, _⟩ := alike.node here
    exact .top there bounds
  | nested above first cached active here bounds ih =>
    obtain ⟨children, there, _⟩ := alike.node here
    obtain ⟨seen, cached⟩ := (cacheData_iff goodAfter).mpr (alike.holds ((cacheData_iff good).mp ⟨_, cached⟩))
    exact .nested ih first cached (alike.active ▸ active) there bounds

/-- An index stays one when only items below one behind its parent's are taken away. -/
theorem CacheHeap.IsIndex.kept (good : h.Good []) (goodAfter : after.Good []) (kept : Kept item h after) (index : h.IsIndex i)
    (nearer : ∀ {rank}, Ranked CacheNode.owned rank h.nodes → rank i.internalPointer < rank item) : after.IsIndex i := by
  induction index with
  | top here bounds => exact .top (kept.nearer here nearer) bounds
  | nested above first cached active here bounds ih =>
    have there := kept.nearer here nearer
    have holds := (cacheData_iff good).mp ⟨_, cached⟩
    obtain ⟨_, _, behind⟩ := holds.child good
    have further : ∀ {rank}, Ranked CacheNode.owned rank h.nodes → rank _ < rank item :=
      fun ranked => (behind ranked).trans (nearer ranked)
    obtain ⟨seen, cached⟩ := (cacheData_iff goodAfter).mpr (kept.holds holds further)
    exact .nested (ih further) first cached (kept.active _ active (mem_iff_lookup.mpr ⟨_, there⟩)) there bounds

/-- `index` for an item that is cached, with what it leaves of the items. -/
theorem index_ends (good : h.Good []) (cached : h.cacheData parent = .ok (some item, seen)) (here : h.nodes.lookup item = some node)
    (bounds : row < node.rowCount ∧ column < node.columnCount) :
    ∃ after children, h.index nodesCacheSize suggested row column parent = .ok (some ⟨row, column, item⟩, after) ∧
      after.Good [] ∧ after.nodes.lookup item = some { node with children } ∧ (item ≠ rootAddress → item ∈ after.m_activeParents) ∧
      Kept item seen after ∧ (item = rootAddress ∨ node.children.contains row → after = seen) := by
  obtain ⟨goodSeen, alike⟩ := cacheData_alike good cached
  obtain ⟨children, there, same⟩ := alike.node here
  have known : parent.isSome = decide (item ≠ rootAddress) := by
    cases parent with
    | none =>
      cases cached
      rfl
    | some p =>
      have holds := (cacheData_iff good).mp ⟨_, cached⟩
      exact (decide_eq_true (holds.child good).1).symm
  rw [CacheHeap.index, cached, ok_bind]
  dsimp only
  rw [if_pos known, read_live there, ok_bind, if_pos bounds]
  by_cases root : item = rootAddress
  · rw [if_pos root]
    exact ⟨seen, children, rfl, goodSeen, there, absurd root, ⟨fun there _ => there, fun _ there _ => there⟩, fun _ => rfl⟩
  · rw [if_neg root]
    obtain ⟨after, children', ended, kept, found, active, stays, again⟩ :=
      @ensureChild_ends nodesCacheSize _ _ _ row goodSeen there (suggested item)
    rw [ended]
    refine ⟨after, children', rfl, kept, found, fun _ => active, stays, fun present => again ?_⟩
    rw [LruCache.contains, same]
    exact present.resolve_left root

/-- The index of a cell of an item leads back to the item's, and the items above are as they were. -/
theorem parent_of_index (good : h.Good []) (first : ∀ p ∈ parent, p.column = 0) (cached : h.cacheData parent = .ok (some item, seen))
    (here : h.nodes.lookup item = some node) (bounds : row < node.rowCount ∧ column < node.columnCount) :
    ∃ i after, h.index nodesCacheSize suggested row column parent = .ok (some i, after) ∧
      after.parentIndex (some i) = .ok parent ∧ ((∀ p ∈ parent, h.IsIndex p) → after.IsIndex i) := by
  obtain ⟨after, children, ended, kept, there, active, stays, _⟩ := @index_ends nodesCacheSize suggested _ _ _ _ _ _ _ good cached here bounds
  refine ⟨_, after, ended, ?_⟩
  cases parent with
  | none =>
    cases cached
    exact ⟨parentIndex_top, fun _ => .top there bounds⟩
  | some p =>
    obtain ⟨goodSeen, alike⟩ := cacheData_alike good cached
    have before : seen.Holds p item := alike.holds ((cacheData_iff good).mp ⟨_, cached⟩)
    obtain ⟨other, _, behind⟩ := before.child goodSeen
    have holds : after.Holds p item := stays.holds before behind
    refine ⟨parentIndex_holds kept holds (first p rfl) (active other), fun index => ?_⟩
    obtain ⟨again, cached⟩ := (cacheData_iff kept).mpr holds
    exact .nested (((index p rfl).alike good goodSeen alike).kept goodSeen kept stays behind) (first p rfl) cached (active other) there
      bounds

theorem prependParents_none (h : CacheHeap) (steps : Nat) (list : IndexList) : h.prependParents steps none list = some (.ok list) := by
  cases steps <;> rfl

theorem prependParents_some {steps : Nat} {list : IndexList} (above : h.parentIndex (some i) = .ok parent) :
    h.prependParents (steps + 1) (some i) list = h.prependParents steps parent (⟨i.row, i.column⟩ :: list) := by
  rw [CacheHeap.prependParents, above]

theorem toQModelIndex_snoc {list : IndexList} (walked : h.toQModelIndex nodesCacheSize suggested list = .ok (parent, seen))
    (ended : seen.index nodesCacheSize suggested row column parent = .ok (some i, after)) :
    h.toQModelIndex nodesCacheSize suggested (list ++ [⟨row, column⟩]) = .ok (some i, after) := by
  rw [CacheHeap.toQModelIndex] at walked ⊢
  rw [List.foldlM_append, walked, ok_bind, List.foldlM_cons]
  dsimp only
  rw [ended]
  rfl

/-- The way up from an index, and down again. Where its own item is cached too, no item is made on the way down, and the caches
only change their order. -/
theorem CacheHeap.IsIndex.list (good : h.Good []) (index : h.IsIndex i) : ∃ list enough,
    (∀ steps tail, enough ≤ steps → h.prependParents steps (some i) tail = some (.ok (list ++ tail))) ∧
    ∃ after, h.toQModelIndex nodesCacheSize suggested list = .ok (some i, after) ∧
      ∀ item, h.Holds i item → after.Good [] ∧ h.Alike after := by
  have climbs : ∀ {i parent list enough}, h.parentIndex (some i) = .ok parent →
      (∀ steps tail, enough ≤ steps → h.prependParents steps parent tail = some (.ok (list ++ tail))) →
      ∀ steps tail, enough + 1 ≤ steps → h.prependParents steps (some i) tail = some (.ok (list ++ [⟨i.row, i.column⟩] ++ tail)) := by
    intro i parent list enough above rest steps tail long
    obtain ⟨steps, rfl⟩ := Nat.exists_eq_succ_of_ne_zero (Nat.ne_zero_of_lt long)
    rw [prependParents_some above, rest steps _ (Nat.le_of_succ_le_succ long), List.append_assoc]
    rfl
  induction index with
  | @top row column node here bounds =>
    obtain ⟨after, children, ended, kept, there, _, _, again⟩ :=
      @index_ends nodesCacheSize suggested _ _ _ _ none _ _ good rfl here bounds
    obtain rfl := again (.inl rfl)
    refine ⟨[] ++ [⟨row, column⟩], 0 + 1, climbs parentIndex_top fun steps tail _ => prependParents_none _ steps tail, after, ?_, ?_⟩
    · exact toQModelIndex_snoc rfl ended
    · exact fun _ _ => ⟨kept, .refl _⟩
  | @nested p item seen row column node above first cached active here bounds ih =>
    obtain ⟨list, enough, up, middle, down, same⟩ := ih
    have holds := (cacheData_iff good).mp ⟨_, cached⟩
    obtain ⟨goodMiddle, alike⟩ := same item holds
    obtain ⟨before, cached⟩ := (cacheData_iff goodMiddle).mpr (alike.holds holds)
    obtain ⟨goodBefore, alike'⟩ := cacheData_alike goodMiddle cached
    obtain ⟨children, there, keys⟩ := alike.node here
    obtain ⟨after, _, ended, kept, _, _, _, again⟩ :=
      @index_ends nodesCacheSize suggested _ _ _ _ _ _ _ goodMiddle cached there bounds
    refine ⟨list ++ [⟨row, column⟩], enough + 1, climbs (parentIndex_holds good holds first active) up, after, ?_, ?_⟩
    · exact toQModelIndex_snoc down ended
    · rintro child ⟨_, owner, here', found⟩
      obtain rfl := Option.some.inj (here.symm.trans here')
      have present : LruCache.contains children row := by
        rw [LruCache.contains, keys, found]
        rfl
      obtain rfl := again (.inr present)
      exact ⟨kept, alike.trans alike'⟩

theorem CacheHeap.Good.navigates (good : h.Good []) : h.Navigates nodesCacheSize suggested where
  parent_index := parent_of_index good
  list_index {i} index := by
    cases i with
    | none => exact ⟨[], 0, fun steps _ => prependParents_none h steps [], h, rfl⟩
    | some i =>
      obtain ⟨list, enough, up, after, down, _⟩ := @CacheHeap.IsIndex.list nodesCacheSize suggested _ _ good (index i rfl)
      exact ⟨list, enough, fun steps long => (up steps [] long).trans (by rw [List.append_nil]), after, down⟩

end Navigation

section Main
variable {nodesCacheSize : Nat} {suggested : Address → Nat → Address} {h after : CacheHeap}

open CacheHeap

/-- A new size for the root's cache deletes one of its items, if it ends. -/
theorem CacheHeap.Good.setRootCacheSize {rootCacheSize : Nat} (good : h.Good [])
    (ended : h.setRootCacheSize rootCacheSize = .ok after) : after.Good [] := by
  obtain ⟨node, here, _⟩ := good.owns.rooted
  obtain ⟨rank, ranked⟩ := good.owns.ranked
  rw [CacheHeap.setRootCacheSize, read_live here, ok_bind] at ended
  obtain ⟨⟨children, victim⟩, cleaned, ended⟩ := bind_ok.mp ended
  have keys : (LruCache.keys { node.children with cacheSize := rootCacheSize }).Nodup := good.keys here
  obtain ⟨distinct, small, moved⟩ := LruCache.cleanCache_perm keys cleaned
  have changes : h.Changes rootAddress { node with children } (h.update rootAddress { node with children } victim.toList) := by
    apply good.update here
    · rfl
    · rw [List.append_nil]
      exact moved
    · exact fun _ listed => nomatch listed
    · exact ⟨rank, ranked, fun _ listed => nomatch listed⟩
    · intro some
      apply good.active here
      intro none
      obtain ⟨entry, listed⟩ := List.exists_mem_of_ne_nil _ some
      have listed := moved.mem_iff.mp (List.mem_append_left _ (List.mem_map_of_mem listed))
      rw [LruCache.values, none] at listed
      contradiction
    · exact distinct
    · exact small
  obtain ⟨result, same, kept, _⟩ := changes
  obtain rfl := Except.ok.inj (same.symm.trans ended)
  exact kept

/-- In every state that a replica's items reach, `parent` and `index` agree, and so do the two conversions of indexes. -/
theorem indexes_navigate {rootCacheSize : Nat} {operations : List ReplicaOperation}
    (run : exec (CacheHeap.replicaStep nodesCacheSize) (initial rootCacheSize) operations = some h) :
    h.Navigates nodesCacheSize suggested := by
  have kept : ∀ {s e t}, s.Good [] → CacheHeap.replicaStep nodesCacheSize s e = some t → t.Good [] := by
    intro s e t good head
    cases e with
    | item item operation => exact good_step good head
    | setRootCacheSize rootCacheSize =>
      rw [CacheHeap.replicaStep] at head
      cases resized : s.setRootCacheSize rootCacheSize with
      | error failure =>
        rw [resized] at head
        contradiction
      | ok after =>
        rw [resized] at head
        exact Option.some.inj head ▸ good.setRootCacheSize resized
  exact (exec_always kept run (good_initial rootCacheSize)).navigates

/-- Two rows with two columns, the second with a row that has one as well; the root's cache is to have one item then. -/
def rowsInRow : List ReplicaOperation :=
  [.item 0 (.assign true 2 2), .item 0 (.ensureChildren 0 1 fun row => row + 1), .item 2 (.assign true 2 1),
    .item 2 (.ensureChildren 0 0 fun _ => 3), .item 3 (.assign true 2 4), .setRootCacheSize 1]

theorem rowsInRow_navigate : ∃ h, exec (CacheHeap.replicaStep 1) (initial 2) rowsInRow = some h ∧
    h.Navigates 1 fun _ row => row := by
  have runs : (exec (CacheHeap.replicaStep 1) (initial 2) rowsInRow).isSome := by decide
  obtain ⟨h, run⟩ := Option.isSome_iff_exists.mp runs
  exact ⟨h, run, indexes_navigate run⟩

-- The address of an item that is deleted is used again for an item below another.
example : ((exec (CacheHeap.replicaStep 1) (initial 2) rowsInRow).bind fun h =>
      (h.toQModelIndex 1 (fun _ _ => 1) [⟨1, 0⟩, ⟨0, 0⟩, ⟨3, 1⟩]).toOption.map Prod.fst) = some (some ⟨3, 1, 3⟩) := by
  decide

end Main
end RemoteObjects.ItemModel
