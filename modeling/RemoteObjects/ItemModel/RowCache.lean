import Mathlib.Logic.Function.Basic
import RemoteObjects.Transition
import RemoteObjects.ItemModel.LruCache

/-! The list and the hash map of `LRUCache`, and the rows under which the children of an item are found. -/
namespace RemoteObjects.ItemModel
open Transition

section Model

abbrev Iterator := Nat

/-- A `CacheData`, told apart from all others that were ever constructed. -/
abbrev NodePointer := Nat

/-- An element of `cachedItems`, with the iterator that stays at it. -/
structure ListNode where
  position : Iterator
  key : Nat
  value : NodePointer
deriving DecidableEq

/-- `LRUCache` with both containers. The hash map has its elements in any order; iterators are new up to `positions`. -/
structure LruTables where
  cachedItems : List ListNode
  cachedItemsMap : List (Nat × Iterator)
  cacheSize : Nat
  positions : Iterator

/-- The part of `CacheData` for its rows. -/
structure RowCache where
  children : LruTables
  rowCount : Nat
  hasChildren : NodePointer → Bool
  allocated : NodePointer
  deleted : List NodePointer

inductive RowEvent
  | ensureChildren (start finish : Nat)
  | insertChildren (start finish : Nat)
  | removeChildren (start finish : Nat)
  | get (row : Nat)
  /-- What the rest of the replica sets: the size of the item, and whether a child has children. -/
  | setRowCount (rowCount : Nat)
  | setHasChildren (child : NodePointer) (hasChildren : Bool)
  /-- The hash map may be reordered at any time. -/
  | rehash (order : List (Nat × Iterator))

namespace LruTables
variable (m : LruTables)

def empty (cacheSize : Nat) : LruTables := ⟨[], [], cacheSize, 0⟩

/-- What an iterator is at. -/
def at? (position : Iterator) : Except Failure ListNode :=
  match m.cachedItems.find? fun node => node.position = position with
  | some node => .ok node
  | none => .error .erasedIterator

/-- `cachedItemsMap.find`. -/
def mapFind? (key : Nat) : Option Iterator := (m.cachedItemsMap.find? fun entry => entry.1 = key).map Prod.snd

/-- `cachedItemsMap[key] = position`. -/
def mapAssign (map : List (Nat × Iterator)) (entry : Nat × Iterator) : List (Nat × Iterator) :=
  entry :: map.filter fun other => other.1 ≠ entry.1

/-- `Q_ASSERT(cachedItems.size() == cachedItemsMap.size())`. -/
def assertSizes : Except Failure Unit :=
  if m.cachedItems.length = m.cachedItemsMap.length then .ok () else .error .assertion

/-- An entry is erased from both containers. -/
def eraseNode (node : ListNode) : LruTables :=
  { m with
    cachedItems := m.cachedItems.filter fun other => other.position ≠ node.position
    cachedItemsMap := m.cachedItemsMap.filter fun entry => entry.1 ≠ node.key }

/-- Behind an entry that was erased the loop would go on with the iterator of it. -/
def cleanCache (hasChildren : NodePointer → Bool) : Except Failure (LruTables × Option NodePointer) := do
  m.assertSizes
  if m.cachedItemsMap.length ≤ m.cacheSize then pure (m, none)
  else match m.cachedItems.reverse.find? fun node => !hasChildren node.value with
    | none => .error .pastTheEnd
    | some node =>
      let cleaned := m.eraseNode node
      if cleaned.cachedItemsMap.length ≤ cleaned.cacheSize then do
        cleaned.assertSizes
        pure (cleaned, some node.value)
      else .error .erasedIterator

/-- The loop of `changeKeys` over the elements of the map: `changed`, those that stay, and the list. -/
def moveKeys (key : Nat) (delta : Int) :
    List (Nat × Iterator) → List ListNode → List (Nat × Iterator) × List (Nat × Iterator) × List ListNode
  | [], items => ([], [], items)
  | (row, position) :: map, items =>
    if key ≤ row then
      let (changed, kept, items) := moveKeys key delta map
        (items.map fun node => if node.position = position then { node with key := (node.key + delta).toNat } else node)
      (((row + delta).toNat, position) :: changed, kept, items)
    else
      let (changed, kept, items) := moveKeys key delta map items
      (changed, (row, position) :: kept, items)

def changeKeys (key : Nat) (delta : Int) : LruTables :=
  let (changed, kept, items) := moveKeys key delta m.cachedItemsMap m.cachedItems
  { m with cachedItems := items, cachedItemsMap := changed.foldl mapAssign kept }

def ensure (hasChildren : NodePointer → Bool) (key : Nat) (value : NodePointer) : Except Failure (LruTables × Option NodePointer) :=
  cleanCache { m with
    cachedItems := ⟨m.positions, key, value⟩ :: m.cachedItems
    cachedItemsMap := mapAssign m.cachedItemsMap (key, m.positions)
    positions := m.positions + 1 } hasChildren

def insert (hasChildren : NodePointer → Bool) (key : Nat) (value : NodePointer) :
    Except Failure (LruTables × Option NodePointer) := do
  let (m, victim) ← (m.changeKeys key 1).ensure hasChildren key value
  m.assertSizes
  pure (m, victim)

def remove (key : Nat) : Except Failure (LruTables × Option NodePointer) := do
  let (erased, victim) ← match m.mapFind? key with
    | some position => do
      let node ← m.at? position
      pure (m.eraseNode node, some node.value)
    | none => pure (m, none)
  let moved := erased.changeKeys key (-1)
  moved.assertSizes
  pure (moved, victim)

def get (key : Nat) : Except Failure (LruTables × Option NodePointer) :=
  match m.mapFind? key with
  | some position => do
    let node ← m.at? position
    if node.key = key then
      pure ({ m with cachedItems := node :: m.cachedItems.filter fun other => other.position ≠ node.position }, some node.value)
    else .error .assertion
  | none => pure (m, none)

/-- `exists`. -/
def hasKey (key : Nat) : Bool := (m.mapFind? key).isSome

end LruTables

namespace RowCache
variable (c : RowCache)

def initial (cacheSize : Nat) : RowCache := ⟨.empty cacheSize, 0, fun _ => false, 0, []⟩

/-- `new CacheData`, which has no children. -/
def construct : RowCache := { c with hasChildren := Function.update c.hasChildren c.allocated false, allocated := c.allocated + 1 }

def ensureChild (c : RowCache) (row : Nat) : Except Failure RowCache :=
  if c.children.hasKey row then .ok c
  else do
    let made := c.construct
    let (children, victim) ← made.children.ensure made.hasChildren row c.allocated
    pure { made with children, deleted := victim.toList ++ made.deleted }

def insertChild (c : RowCache) (row : Nat) : Except Failure RowCache := do
  let made := c.construct
  let (children, victim) ← made.children.insert made.hasChildren row c.allocated
  pure { made with children, deleted := victim.toList ++ made.deleted, rowCount := c.rowCount + 1 }

def removeChild (c : RowCache) (row : Nat) : Except Failure RowCache := do
  let (children, victim) ← c.children.remove row
  pure { c with children, deleted := victim.toList ++ c.deleted, rowCount := c.rowCount - 1 }

def handle : RowEvent → Except Failure RowCache
  | .ensureChildren start finish => (List.range' start (finish + 1 - start)).foldlM ensureChild c
  | .insertChildren start finish =>
    if start ≤ finish then (List.range' start (finish + 1 - start)).foldlM insertChild c else .error .assertion
  | .removeChildren start finish =>
    if start ≤ finish ∧ finish < c.rowCount then (List.range' start (finish + 1 - start)).reverse.foldlM removeChild c
    else .error .assertion
  | .get row => do
    let (children, _) ← c.children.get row
    pure { c with children }
  | .setRowCount rowCount => .ok { c with rowCount }
  | .setHasChildren child hasChildren => .ok { c with hasChildren := Function.update c.hasChildren child hasChildren }
  | .rehash order =>
    .ok (if order.Perm c.children.cachedItemsMap then { c with children := { c.children with cachedItemsMap := order } } else c)

def step (c : RowCache) (e : RowEvent) : Option RowCache := (c.handle e).toOption

end RowCache
end Model

section Statement

namespace LruTables

/-- The list and the map have the same keys, each once, and the map leads to the node of its key. -/
structure Agree (m : LruTables) : Prop where
  keys : (m.cachedItems.map ListNode.key).Nodup
  positions : (m.cachedItems.map ListNode.position).Nodup
  map : m.cachedItemsMap.Perm (m.cachedItems.map fun node => (node.key, node.position))
  used : ∀ node ∈ m.cachedItems, node.position < m.positions

/-- The node of a key through the map, where nothing moves. -/
def find? (m : LruTables) (key : Nat) : Option NodePointer :=
  (m.mapFind? key).bind fun position => (m.cachedItems.find? fun node => node.position = position).map ListNode.value

end LruTables

/-- Where the row of a list is behind an event. -/
def RowEvent.shift : RowEvent → Nat → Option Nat
  | .insertChildren start finish, row => some (if row < start then row else row + (finish + 1 - start))
  | .removeChildren start finish, row =>
    if row < start then some row else if row ≤ finish then none else some (row - (finish + 1 - start))
  | _, row => some row

def shiftBy : List RowEvent → Nat → Option Nat
  | [], row => some row
  | e :: es, row => (e.shift row).bind (shiftBy es)

namespace RowCache

/-- The rows of the operation are in order, and there where they are removed. -/
def Allowed (c : RowCache) : RowEvent → Prop
  | .insertChildren start finish => start ≤ finish
  | .removeChildren start finish => start ≤ finish ∧ finish < c.rowCount
  | _ => True

/-- No assertion fails and no iterator is used behind its end. -/
def Served (c : RowCache) (e : RowEvent) : Prop := c.Allowed e → ∃ d, c.handle e = .ok d

/-- What is cached is not deleted. -/
def Alive (c : RowCache) : Prop := ∀ node ∈ c.children.cachedItems, node.value ∉ c.deleted

/-- A node that is not deleted is found in the row to which its row has moved. -/
def Follows (es : List RowEvent) (c d : RowCache) : Prop :=
  ∀ row node, c.children.find? row = some node → node ∉ d.deleted →
    ∃ moved, shiftBy es row = some moved ∧ d.children.find? moved = some node

end RowCache
end Statement

section Rows
variable {α : Type} {l new : List α} {start finish row moved : Nat}

end Rows

section Lists
variable {α κ V : Type} [DecidableEq κ] {l : List α} {f : α → κ}

/-- An element is the one that is found by what no other has. -/
theorem find?_unique {a : α} (distinct : (l.map f).Nodup) (there : a ∈ l) : l.find? (fun b => f b = f a) = some a := by
  cases found : l.find? fun b => f b = f a with
  | none =>
    have differs := List.find?_eq_none.mp found a there
    simp at differs
  | some b =>
    have same : f b = f a := by simpa using List.find?_some found
    rw [List.inj_on_of_nodup_map distinct (List.mem_of_find?_eq_some found) there same]

theorem perm_cons_filter {a : α} (distinct : (l.map f).Nodup) (there : a ∈ l) : l.Perm (a :: l.filter fun b => f b ≠ f a) := by
  induction l with
  | nil => contradiction
  | cons b l ih =>
    obtain ⟨once, distinct⟩ := List.nodup_cons.mp distinct
    obtain rfl | later := List.mem_cons.mp there
    · have others : l.filter (fun b => f b ≠ f a) = l := by
        rw [List.filter_eq_self]
        exact fun b listed => decide_eq_true fun same => once (same ▸ List.mem_map_of_mem listed)
      rw [List.filter_cons_of_neg (by simp), others]
    · have differs : f b ≠ f a := fun same => once (same ▸ List.mem_map_of_mem later)
      rw [List.filter_cons_of_pos (by simpa using differs)]
      exact ((ih distinct later).cons b).trans (.swap a b _)

/-- Assignments to new keys, one after the other. -/
theorem foldl_mapAssign {changed kept : List (Nat × Iterator)} (distinct : ((changed ++ kept).map Prod.fst).Nodup) :
    (changed.foldl LruTables.mapAssign kept).Perm (changed ++ kept) := by
  induction changed generalizing kept with
  | nil => exact .refl _
  | cons entry changed ih =>
    obtain ⟨new, rest⟩ := List.nodup_cons.mp distinct
    have same : LruTables.mapAssign kept entry = entry :: kept := by
      rw [LruTables.mapAssign, List.filter_eq_self.mpr]
      intro other there
      refine decide_eq_true fun equal => new ?_
      exact List.mem_map.mpr ⟨other, List.mem_append_right changed there, equal⟩
    rw [List.foldl_cons, same]
    have moved : (changed ++ entry :: kept).Perm (entry :: (changed ++ kept)) := List.perm_middle
    exact (ih ((moved.map Prod.fst).nodup_iff.mpr distinct)).trans moved

end Lists

section Refinement
namespace LruTables
variable {m : LruTables} {node : ListNode} {key : Nat} {value : NodePointer} {hasChildren : NodePointer → Bool}

/-- Both containers as one list. -/
def merged (m : LruTables) : LruCache NodePointer := ⟨m.cachedItems.map fun node => (node.key, node.value), m.cacheSize⟩

@[simp] theorem merged_keys (m : LruTables) : m.merged.keys = m.cachedItems.map ListNode.key := List.map_map

@[simp] theorem merged_values (m : LruTables) : m.merged.values = m.cachedItems.map ListNode.value := List.map_map

theorem Agree.length (agree : m.Agree) : m.cachedItemsMap.length = m.cachedItems.length := by
  rw [agree.map.length_eq, List.length_map]

theorem Agree.assertSizes (agree : m.Agree) : m.assertSizes = .ok () := if_pos agree.length.symm

theorem Agree.mapKeys (agree : m.Agree) : (m.cachedItemsMap.map Prod.fst).Nodup := by
  rw [(agree.map.map Prod.fst).nodup_iff, List.map_map]
  exact agree.keys

/-- The map leads from the key of a node to the node. -/
theorem Agree.mapFind? (agree : m.Agree) (there : node ∈ m.cachedItems) : m.mapFind? node.key = some node.position := by
  have entry : (node.key, node.position) ∈ m.cachedItemsMap := agree.map.mem_iff.mpr (List.mem_map.mpr ⟨node, there, rfl⟩)
  rw [LruTables.mapFind?, find?_unique agree.mapKeys entry]
  rfl

theorem Agree.mapFind?_none (agree : m.Agree) (absent : key ∉ m.merged.keys) : m.mapFind? key = none := by
  rw [LruTables.mapFind?, Option.map_eq_none_iff, List.find?_eq_none]
  intro entry there same
  obtain ⟨node, listed, rfl⟩ := List.mem_map.mp (agree.map.mem_iff.mp there)
  exact absent (by rw [merged_keys]; exact List.mem_map.mpr ⟨node, listed, by simpa using same⟩)

theorem Agree.at? (agree : m.Agree) (there : node ∈ m.cachedItems) : m.at? node.position = .ok node := by
  rw [LruTables.at?, find?_unique agree.positions there]

theorem merged_find? (agree : m.Agree) (there : node ∈ m.cachedItems) : m.merged.find? node.key = some node.value := by
  rw [LruCache.find?_some (by rw [merged_keys]; exact agree.keys)]
  exact List.mem_map.mpr ⟨node, there, rfl⟩

/-- A node has the key, or nothing has it. -/
theorem key_cases (m : LruTables) (key : Nat) : (∃ node ∈ m.cachedItems, node.key = key) ∨ key ∉ m.merged.keys := by
  by_cases there : key ∈ m.merged.keys
  · rw [merged_keys] at there
    exact .inl (List.mem_map.mp there)
  · exact .inr there

theorem Agree.find? (agree : m.Agree) (key : Nat) : m.find? key = m.merged.find? key := by
  obtain ⟨node, there, rfl⟩ | absent := m.key_cases key
  · rw [LruTables.find?, agree.mapFind? there, merged_find? agree there, Option.bind_some, find?_unique agree.positions there]
    rfl
  · rw [LruTables.find?, agree.mapFind?_none absent, LruCache.find?_none.mpr absent]
    rfl

theorem Agree.hasKey (agree : m.Agree) (key : Nat) : m.hasKey key = m.merged.contains key := by
  rw [LruCache.contains, LruTables.hasKey]
  obtain ⟨node, there, rfl⟩ | absent := m.key_cases key
  · rw [agree.mapFind? there, merged_find? agree there]
    rfl
  · rw [agree.mapFind?_none absent, LruCache.find?_none.mpr absent]

/-- A result with both containers refines one with the merged list. -/
def Refines : Except Failure (LruTables × Option NodePointer) → Except Failure (LruCache NodePointer × Option NodePointer) → Prop
  | .ok (m, victim), result => m.Agree ∧ result = .ok (m.merged, victim)
  | .error failure, result => result = .error failure

/-- To erase by the iterator is to erase by the key. -/
theorem Agree.eraseNode (agree : m.Agree) (there : node ∈ m.cachedItems) :
    (m.eraseNode node).Agree ∧ (m.eraseNode node).merged = m.merged.erase node.key := by
  have same : ∀ other ∈ m.cachedItems, other.position ≠ node.position ↔ other.key ≠ node.key := by
    intro other listed
    refine not_congr ⟨fun equal => ?_, fun equal => ?_⟩
    · rw [List.inj_on_of_nodup_map agree.positions listed there equal]
    · rw [List.inj_on_of_nodup_map agree.keys listed there equal]
  have filtered : m.cachedItems.filter (fun other => other.position ≠ node.position) =
      m.cachedItems.filter fun other => other.key ≠ node.key :=
    List.filter_congr fun other listed => decide_eq_decide.mpr (same other listed)
  have left := List.filter_sublist (l := m.cachedItems) (p := fun other => other.position ≠ node.position)
  refine ⟨⟨agree.keys.sublist (left.map _), agree.positions.sublist (left.map _), ?_, fun other listed =>
    agree.used other (left.subset listed)⟩, ?_⟩
  · refine (agree.map.filter _).trans ?_
    rw [LruTables.eraseNode, filtered, List.filter_map]
    exact .refl _
  · rw [merged, LruTables.eraseNode, filtered, LruCache.erase, merged, List.filter_map]
    rfl

theorem Agree.cleanCache (agree : m.Agree) (hasChildren : NodePointer → Bool) :
    Refines (m.cleanCache hasChildren) (m.merged.cleanCache hasChildren) := by
  have victim : m.merged.victim? hasChildren =
      (m.cachedItems.reverse.find? fun node => !hasChildren node.value).map fun node => (node.key, node.value) := by
    rw [LruCache.victim?, merged, ← List.map_reverse, List.find?_map]
    rfl
  have count : m.merged.cachedItems.length = m.cachedItemsMap.length := by rw [agree.length, merged, List.length_map]
  have size : m.merged.cacheSize = m.cacheSize := rfl
  rw [LruTables.cleanCache, agree.assertSizes, ok_bind, LruCache.cleanCache, count, size, victim]
  split
  · exact ⟨agree, rfl⟩
  · split
    · rename_i none
      rw [none]
      rfl
    · rename_i node found
      have there := List.mem_reverse.mp (List.mem_of_find?_eq_some found)
      obtain ⟨agree', erased⟩ := agree.eraseNode there
      have count' : (m.merged.erase node.key).cachedItems.length = (m.eraseNode node).cachedItemsMap.length := by
        rw [← erased, agree'.length, merged, List.length_map]
      rw [found, Option.map_some]
      have size' : (m.eraseNode node).cacheSize = m.cacheSize := rfl
      dsimp only
      rw [count', size']
      split
      · rw [agree'.assertSizes, ok_bind]
        exact ⟨agree', by rw [erased]⟩
      · rfl

theorem Agree.ensure (agree : m.Agree) (new : key ∉ m.merged.keys) :
    Refines (m.ensure hasChildren key value) (m.merged.ensure hasChildren key value) := by
  have absent : m.cachedItemsMap.filter (fun entry => entry.1 ≠ key) = m.cachedItemsMap := by
    rw [List.filter_eq_self]
    intro entry there
    refine decide_eq_true fun same => new ?_
    obtain ⟨node, listed, rfl⟩ := List.mem_map.mp (agree.map.mem_iff.mp there)
    rw [merged_keys, ← same]
    exact List.mem_map.mpr ⟨node, listed, rfl⟩
  rw [LruTables.ensure, mapAssign, absent]
  apply Agree.cleanCache
  refine ⟨List.nodup_cons.mpr ⟨by rwa [merged_keys] at new, agree.keys⟩, List.nodup_cons.mpr ⟨fun used => ?_, agree.positions⟩,
    agree.map.cons _, fun node there => ?_⟩
  · obtain ⟨node, listed, same⟩ := List.mem_map.mp used
    exact Nat.lt_irrefl _ (same ▸ agree.used node listed)
  · obtain rfl | there := List.mem_cons.mp there
    · exact Nat.lt_succ_self _
    · exact Nat.lt_succ_of_lt (agree.used node there)

/-- The loop moves the nodes of the entries from the key on. -/
theorem moveKeys_eq (key : Nat) (delta : Int) (map : List (Nat × Iterator)) (items : List ListNode)
    (distinct : (map.map Prod.snd).Nodup) :
    moveKeys key delta map items =
      ((map.filter fun entry => key ≤ entry.1).map (fun entry => ((entry.1 + delta).toNat, entry.2)),
        map.filter (fun entry => ¬ key ≤ entry.1),
        items.map fun node => if node.position ∈ (map.filter fun entry => key ≤ entry.1).map Prod.snd
          then { node with key := (node.key + delta).toNat } else node) := by
  induction map generalizing items with
  | nil => simp [moveKeys]
  | cons entry map ih =>
    obtain ⟨row, position⟩ := entry
    obtain ⟨once, distinct⟩ := List.nodup_cons.mp distinct
    rw [moveKeys]
    split
    · rename_i moves
      rw [ih _ distinct, List.filter_cons_of_pos (by simpa using moves), List.filter_cons_of_neg (by simpa using moves)]
      refine Prod.ext rfl (Prod.ext rfl ?_)
      rw [List.map_map]
      refine List.map_congr_left fun node _ => ?_
      have later : position ∉ (map.filter fun entry => key ≤ entry.1).map Prod.snd := fun there =>
        once ((List.filter_sublist.map Prod.snd).subset there)
      by_cases here : node.position = position
      · simp only [Function.comp_apply, here, ↓reduceIte, later, List.map_cons, List.mem_cons, true_or]
      · simp only [Function.comp_apply, here, ↓reduceIte, List.map_cons, List.mem_cons, false_or]
    · rename_i stays
      rw [ih _ distinct, List.filter_cons_of_neg (by simpa using stays), List.filter_cons_of_pos (by simpa using stays)]

/-- The keys move in both containers, where that keeps them apart. -/
theorem Agree.changeKeys (agree : m.Agree) (key : Nat) (delta : Int) (apart : (m.merged.changeKeys key delta).keys.Nodup) :
    (m.changeKeys key delta).Agree ∧ (m.changeKeys key delta).merged = m.merged.changeKeys key delta := by
  have distinct : (m.cachedItemsMap.map Prod.snd).Nodup := by
    rw [(agree.map.map Prod.snd).nodup_iff, List.map_map]
    exact agree.positions
  have moves (node : ListNode) (there : node ∈ m.cachedItems) :
      node.position ∈ (m.cachedItemsMap.filter fun entry => key ≤ entry.1).map Prod.snd ↔ key ≤ node.key := by
    have entry : (node.key, node.position) ∈ m.cachedItemsMap := agree.map.mem_iff.mpr (List.mem_map.mpr ⟨node, there, rfl⟩)
    constructor
    · intro moved
      obtain ⟨other, listed, same⟩ := List.mem_map.mp moved
      obtain ⟨listed, least⟩ := List.mem_filter.mp listed
      rw [List.inj_on_of_nodup_map distinct listed entry same] at least
      exact of_decide_eq_true least
    · exact fun least => List.mem_map.mpr ⟨_, List.mem_filter.mpr ⟨entry, decide_eq_true least⟩, rfl⟩
  have items : (moveKeys key delta m.cachedItemsMap m.cachedItems).2.2 =
      m.cachedItems.map fun node => { node with key := LruCache.movedKey key delta node.key } := by
    rw [moveKeys_eq _ _ _ _ distinct]
    refine List.map_congr_left fun node there => ?_
    rw [LruCache.movedKey, if_congr (moves node there) rfl rfl]
    split <;> rfl
  have entries : ((moveKeys key delta m.cachedItemsMap m.cachedItems).1 ++ (moveKeys key delta m.cachedItemsMap m.cachedItems).2.1).Perm
      (m.cachedItemsMap.map fun entry => (LruCache.movedKey key delta entry.1, entry.2)) := by
    rw [moveKeys_eq _ _ _ _ distinct]
    refine .trans (.of_eq ?_) ((List.filter_append_perm (fun entry => decide (key ≤ entry.1)) m.cachedItemsMap).map _)
    rw [List.map_append]
    congr 1
    · refine List.map_congr_left fun entry there => ?_
      rw [LruCache.movedKey, if_pos (of_decide_eq_true (List.mem_filter.mp there).2)]
    · have kept : m.cachedItemsMap.filter (fun entry => ¬ key ≤ entry.1) =
          m.cachedItemsMap.filter fun entry => !decide (key ≤ entry.1) := List.filter_congr fun entry _ => decide_not
      rw [kept]
      refine (List.map_id _).symm.trans (List.map_congr_left fun entry there => ?_)
      rw [LruCache.movedKey, if_neg (by simpa using (List.mem_filter.mp there).2)]
      rfl
  have merged : (m.changeKeys key delta).merged = m.merged.changeKeys key delta := by
    rw [LruTables.merged, LruTables.changeKeys]
    dsimp only
    rw [items, LruCache.changeKeys, LruTables.merged, List.map_map, List.map_map]
    rfl
  have whole : (m.cachedItemsMap.map fun entry => (LruCache.movedKey key delta entry.1, entry.2)).Perm
      ((m.changeKeys key delta).cachedItems.map fun node => (node.key, node.position)) := by
    refine (agree.map.map _).trans (.of_eq ?_)
    rw [LruTables.changeKeys]
    dsimp only
    rw [items, List.map_map, List.map_map]
    rfl
  have keys : ((m.changeKeys key delta).cachedItems.map ListNode.key).Nodup := by rwa [← merged_keys, merged]
  refine ⟨⟨keys, ?_, ?_, fun node there => ?_⟩, merged⟩
  · rw [LruTables.changeKeys]
    dsimp only
    rw [items, List.map_map]
    exact agree.positions
  · refine .trans (foldl_mapAssign ?_) (entries.trans whole)
    rw [((entries.trans whole).map Prod.fst).nodup_iff, List.map_map]
    exact keys
  · rw [LruTables.changeKeys] at there
    dsimp only at there
    rw [items] at there
    obtain ⟨old, listed, rfl⟩ := List.mem_map.mp there
    exact agree.used old listed

theorem Agree.insert (agree : m.Agree) (hasChildren : NodePointer → Bool) (key : Nat) (value : NodePointer) :
    Refines (m.insert hasChildren key value) (m.merged.insert hasChildren key value) := by
  obtain ⟨apart, new⟩ := @LruCache.changeKeys_up _ m.merged key (by rw [merged_keys]; exact agree.keys)
  obtain ⟨moved, same⟩ := agree.changeKeys key 1 apart
  have ensured : Refines ((m.changeKeys key 1).ensure hasChildren key value) ((m.changeKeys key 1).merged.ensure hasChildren key value) :=
    moved.ensure (by rwa [same])
  rw [same] at ensured
  rw [LruTables.insert, LruCache.insert]
  cases result : (m.changeKeys key 1).ensure hasChildren key value with
  | error failure =>
    rw [result] at ensured
    exact ensured
  | ok cleaned =>
    rw [result] at ensured
    obtain ⟨agree', equal⟩ := ensured
    rw [ok_bind]
    dsimp only
    rw [agree'.assertSizes]
    exact ⟨agree', equal⟩

/-- `remove` deletes the node of the key, if there is one. -/
theorem Agree.remove (agree : m.Agree) (key : Nat) :
    ∃ moved, m.remove key = .ok (moved, m.merged.find? key) ∧ moved.Agree ∧ moved.merged = m.merged.remove key := by
  have down {erased : LruTables} (agree' : erased.Agree) (same : erased.merged = m.merged.erase key) :
      (erased.changeKeys key (-1)).Agree ∧ (erased.changeKeys key (-1)).merged = m.merged.remove key := by
    obtain ⟨distinct, without⟩ := @LruCache.erase_keys _ m.merged key (by rw [merged_keys]; exact agree.keys)
    rw [LruCache.remove, ← same]
    exact agree'.changeKeys key (-1) (by rw [same]; exact LruCache.changeKeys_down distinct without)
  rw [LruTables.remove]
  obtain ⟨node, there, rfl⟩ | absent := m.key_cases key
  · obtain ⟨erased, same⟩ := agree.eraseNode there
    obtain ⟨agree', equal⟩ := down erased same
    refine ⟨_, ?_, agree', equal⟩
    rw [agree.mapFind? there, merged_find? agree there]
    dsimp only
    rw [agree.at? there, ok_bind]
    dsimp only [pure, Except.pure]
    rw [ok_bind]
    dsimp only
    rw [agree'.assertSizes, ok_bind]
  · have same : m.merged = m.merged.erase key := by
      have all : m.merged.cachedItems.filter (fun item => item.1 ≠ key) = m.merged.cachedItems := by
        rw [List.filter_eq_self]
        exact fun item listed => decide_eq_true fun equal => absent (List.mem_map.mpr ⟨item, listed, equal⟩)
      rw [LruCache.erase, all]
    obtain ⟨agree', equal⟩ := down agree same
    refine ⟨_, ?_, agree', equal⟩
    rw [agree.mapFind?_none absent, LruCache.find?_none.mpr absent]
    dsimp only [pure, Except.pure]
    rw [ok_bind]
    dsimp only
    rw [agree'.assertSizes, ok_bind]

/-- `get` moves the node to the front. -/
theorem Agree.get (agree : m.Agree) (key : Nat) :
    ∃ moved, m.get key = .ok (moved, m.merged.find? key) ∧ moved.Agree ∧
      moved.merged = match m.merged.find? key with
        | some value => m.merged.front key value
        | none => m.merged := by
  rw [LruTables.get]
  obtain ⟨node, there, rfl⟩ | absent := m.key_cases key
  · obtain ⟨erased, same⟩ := agree.eraseNode there
    rw [agree.mapFind? there, merged_find? agree there]
    dsimp only
    rw [agree.at? there, ok_bind, if_pos rfl]
    refine ⟨_, rfl, ⟨?_, ?_, ?_, ?_⟩, ?_⟩
    · refine List.nodup_cons.mpr ⟨?_, erased.keys⟩
      have gone := (@LruCache.erase_keys _ m.merged node.key (by rw [merged_keys]; exact agree.keys)).2
      rwa [← same, merged_keys] at gone
    · refine List.nodup_cons.mpr ⟨fun listed => ?_, erased.positions⟩
      obtain ⟨other, listed, equal⟩ := List.mem_map.mp listed
      exact of_decide_eq_true (List.mem_filter.mp listed).2 equal
    · exact agree.map.trans ((perm_cons_filter agree.positions there).map _)
    · intro other listed
      obtain rfl | listed := List.mem_cons.mp listed
      · exact agree.used _ there
      · exact agree.used other (List.mem_filter.mp listed).1
    · rw [LruCache.front, ← same]
      rfl
  · rw [agree.mapFind?_none absent, LruCache.find?_none.mpr absent]
    exact ⟨m, rfl, agree, rfl⟩

end LruTables
end Refinement

section Merged
namespace LruCache
variable {α : Type} {c d : LruCache α} {key other size : Nat} {value old : α} {victim : Option α} {hasChildren : α → Bool}

/-- An old entry stays, or it is the one that is deleted. -/
theorem find?_ensure_old (distinct : c.keys.Nodup) (new : key ∉ c.keys) (ensured : c.ensure hasChildren key value = .ok (d, victim))
    (there : c.find? other = some old) : victim = some old ∨ d.find? other = some old := by
  have before : find? ⟨(key, value) :: c.cachedItems, c.cacheSize⟩ other = some old := by
    rw [find?_cons, if_neg]
    · exact there
    · rintro rfl
      rw [find?_none.mpr new] at there
      contradiction
  have fresh : (LruCache.keys ⟨(key, value) :: c.cachedItems, c.cacheSize⟩).Nodup := List.nodup_cons.mpr ⟨new, distinct⟩
  rw [LruCache.ensure, cleanCache] at ensured
  split at ensured
  · cases ensured
    exact .inr before
  · split at ensured
    · contradiction
    · rename_i victimKey victimValue found
      dsimp only at ensured
      split at ensured
      · cases ensured
        rw [find?_erase]
        split
        · rename_i same
          subst same
          have listed := List.mem_reverse.mp (List.mem_of_find?_eq_some found)
          rw [(find?_some fresh).mpr listed] at before
          exact .inl before
        · exact .inr before
      · contradiction

theorem Sound.changeKeys (sound : c.Sound size) (delta : Int) (apart : (c.changeKeys key delta).keys.Nodup) :
    (c.changeKeys key delta).Sound size :=
  ⟨apart, sound.size, Nat.le_trans (Nat.le_of_eq (List.length_map _)) sound.length⟩

theorem Sound.remove (sound : c.Sound size) (key : Nat) : (c.remove key).Sound size := by
  obtain ⟨distinct, without⟩ := @erase_keys _ c key sound.distinct
  refine ⟨changeKeys_down distinct without, sound.size, ?_⟩
  exact Nat.le_trans (Nat.le_of_eq (List.length_map _)) (Nat.le_trans (List.length_filter_le _ _) sound.length)

end LruCache
end Merged

section Tracking
namespace RowCache
variable {c d e : RowCache} {size row start n : Nat} {move next : Nat → Option Nat}

/-- The containers agree, within the size of the cache, and nodes are constructed once and deleted once. -/
structure Sound (size : Nat) (c : RowCache) : Prop where
  agree : c.children.Agree
  sound : c.children.merged.Sound size
  once : (c.children.merged.values ++ c.deleted).Nodup
  used : ∀ node ∈ c.children.merged.values ++ c.deleted, node < c.allocated

/-- Nodes are found in the rows to which their rows move, unless they are deleted. -/
structure Tracks (move : Nat → Option Nat) (c d : RowCache) : Prop where
  deleted : ∀ node ∈ c.deleted, node ∈ d.deleted
  found : ∀ row node, c.children.find? row = some node →
    node ∈ d.deleted ∨ ∃ moved, move row = some moved ∧ d.children.find? moved = some node

theorem Tracks.refl (c : RowCache) : Tracks some c c := ⟨fun _ => id, fun row _ there => .inr ⟨row, rfl, there⟩⟩

theorem Tracks.trans (first : Tracks move c d) (second : Tracks next d e) : Tracks (fun row => (move row).bind next) c e := by
  refine ⟨fun node gone => second.deleted node (first.deleted node gone), fun row node there => ?_⟩
  obtain gone | ⟨middle, moved, there⟩ := first.found row node there
  · exact .inl (second.deleted node gone)
  · obtain gone | ⟨last, moved', there⟩ := second.found middle node there
    · exact .inl gone
    · exact .inr ⟨last, by rw [moved, Option.bind_some, moved'], there⟩

theorem Tracks.congr (tracks : Tracks move c d) (same : ∀ row, move row = next row) : Tracks next c d :=
  (funext same : move = next) ▸ tracks

/-- The new node is in the cache, and what is deleted for it was there. -/
theorem Sound.added {children : LruTables} {victim : Option NodePointer} {rowCount : Nat} (sound : c.Sound size)
    (agree : children.Agree) (cached : children.merged.Sound size)
    (moved : (children.merged.values ++ victim.toList).Perm (c.allocated :: c.children.merged.values)) :
    Sound size { c.construct with children, deleted := victim.toList ++ c.deleted, rowCount } := by
  have whole : (children.merged.values ++ (victim.toList ++ c.deleted)).Perm
      (c.allocated :: (c.children.merged.values ++ c.deleted)) := by
    rw [← List.append_assoc]
    exact moved.append_right c.deleted
  refine ⟨agree, cached, whole.nodup_iff.mpr (List.nodup_cons.mpr ⟨fun there => ?_, sound.once⟩), fun node there => ?_⟩
  · exact Nat.lt_irrefl _ (sound.used _ there)
  · obtain rfl | there := List.mem_cons.mp (whole.mem_iff.mp there)
    · exact Nat.lt_succ_self _
    · exact Nat.lt_succ_of_lt (sound.used node there)

theorem construct_childless (c : RowCache) : c.construct.hasChildren c.allocated = false := Function.update_self ..

theorem ensureChild_spec (sound : c.Sound size) (row : Nat) : ∃ d, c.ensureChild row = .ok d ∧ d.Sound size ∧ Tracks some c d := by
  rw [ensureChild, sound.agree.hasKey, LruCache.contains]
  split
  · exact ⟨c, rfl, sound, .refl c⟩
  · rename_i missing
    have absent : c.children.merged.find? row = none := Option.not_isSome_iff_eq_none.mp missing
    have new := LruCache.find?_none.mp absent
    obtain ⟨merged, victim, ensured⟩ : ∃ d victim, c.children.merged.ensure c.construct.hasChildren row c.allocated = .ok (d, victim) :=
      LruCache.ensure_ok sound.sound.small c.construct_childless
    have refines : LruTables.Refines (c.children.ensure c.construct.hasChildren row c.allocated)
        (c.children.merged.ensure c.construct.hasChildren row c.allocated) := sound.agree.ensure new
    cases result : c.children.ensure c.construct.hasChildren row c.allocated with
    | error failure =>
      rw [result, ensured] at refines
      cases refines
    | ok cleaned =>
      obtain ⟨children, victim'⟩ := cleaned
      rw [result, ensured] at refines
      obtain ⟨agree, same⟩ := refines
      cases same
      have made : c.construct.children.ensure c.construct.hasChildren row c.allocated = .ok (children, victim) := result
      dsimp only
      rw [made, ok_bind]
      refine ⟨_, rfl, sound.added agree (sound.sound.ensure absent ensured)
        (LruCache.ensure_spec sound.sound.distinct new ensured).2.2, fun node gone => List.mem_append_right _ gone,
        fun other node there => ?_⟩
      rw [sound.agree.find?] at there
      obtain rfl | kept := LruCache.find?_ensure_old sound.sound.distinct new ensured there
      · exact .inl (List.mem_append_left _ List.mem_cons_self)
      · exact .inr ⟨other, rfl, (agree.find? other).trans kept⟩

theorem insertChild_spec (sound : c.Sound size) (row : Nat) :
    ∃ d, c.insertChild row = .ok d ∧ d.Sound size ∧ Tracks (fun other => some (if other < row then other else other + 1)) c d := by
  obtain ⟨apart, new⟩ := @LruCache.changeKeys_up _ _ row sound.sound.distinct
  have moved := sound.sound.changeKeys 1 apart
  obtain ⟨merged, victim, ensured⟩ : ∃ d victim,
      (c.children.merged.changeKeys row 1).ensure c.construct.hasChildren row c.allocated = .ok (d, victim) :=
    LruCache.ensure_ok moved.small c.construct_childless
  have refines := sound.agree.insert c.construct.hasChildren row c.allocated
  rw [LruCache.insert, ensured] at refines
  cases result : c.children.insert c.construct.hasChildren row c.allocated with
  | error failure =>
    rw [result] at refines
    cases refines
  | ok cleaned =>
    obtain ⟨children, victim'⟩ := cleaned
    rw [result] at refines
    obtain ⟨agree, same⟩ := refines
    cases same
    have made : c.construct.children.insert c.construct.hasChildren row c.allocated = .ok (children, victim) := result
    have values := (LruCache.ensure_spec moved.distinct new ensured).2.2
    rw [LruCache.changeKeys_values] at values
    rw [insertChild]
    dsimp only
    rw [made, ok_bind]
    refine ⟨_, rfl, sound.added agree (moved.ensure (LruCache.find?_none.mpr new) ensured) values,
      fun node gone => List.mem_append_right _ gone, fun other node there => ?_⟩
    rw [sound.agree.find?] at there
    have shifted : (c.children.merged.changeKeys row 1).find? (if other < row then other else other + 1) = some node := by
      rw [LruCache.find?_changeKeys_up, ← there]
      grind
    obtain rfl | kept := LruCache.find?_ensure_old moved.distinct new ensured shifted
    · exact .inl (List.mem_append_left _ List.mem_cons_self)
    · exact .inr ⟨_, rfl, (agree.find? _).trans kept⟩

theorem removeChild_spec (sound : c.Sound size) (row : Nat) :
    ∃ d, c.removeChild row = .ok d ∧ d.Sound size ∧
      Tracks (fun other => if other < row then some other else if other = row then none else some (other - 1)) c d := by
  obtain ⟨children, removed, agree, same⟩ := sound.agree.remove row
  rw [removeChild, removed, ok_bind]
  have values : (children.merged.values ++ ((c.children.merged.find? row).toList ++ c.deleted)).Perm
      (c.children.merged.values ++ c.deleted) := by
    rw [same, LruCache.remove, LruCache.changeKeys_values, ← List.append_assoc]
    refine List.Perm.append_right c.deleted ?_
    have split := c.children.merged.erase_perm row
    cases found : c.children.merged.find? row with
    | none =>
      have nothing : c.children.merged.cachedItems.filter (fun item => item.1 = row) = [] := by
        rw [List.filter_eq_nil_iff]
        exact fun item listed equal =>
          LruCache.find?_none.mp found (List.mem_map.mpr ⟨item, listed, of_decide_eq_true equal⟩)
      rw [nothing] at split
      exact split
    | some value =>
      rw [LruCache.filter_key sound.sound.distinct (LruCache.find?_mem found)] at split
      exact split
  refine ⟨_, rfl, ⟨agree, by rw [same]; exact sound.sound.remove row, values.nodup_iff.mpr sound.once,
    fun node there => sound.used node (values.mem_iff.mp there)⟩, fun node gone => List.mem_append_right _ gone,
    fun other node there => ?_⟩
  rw [sound.agree.find?] at there
  by_cases here : other = row
  · subst here
    rw [there]
    exact .inl (List.mem_append_left _ List.mem_cons_self)
  · refine .inr ⟨if other < row then other else other - 1, by grind, ?_⟩
    rw [agree.find?, same, LruCache.find?_remove, ← there]
    congr 1
    grind

theorem ensureRows_spec (sound : c.Sound size) (rows : List Nat) :
    ∃ d, rows.foldlM ensureChild c = .ok d ∧ d.Sound size ∧ Tracks some c d := by
  induction rows generalizing c with
  | nil => exact ⟨c, rfl, sound, .refl c⟩
  | cons row rows ih =>
    obtain ⟨d, ensured, sound', tracks⟩ := ensureChild_spec sound row
    obtain ⟨e, rest, sound'', tracks'⟩ := ih sound'
    exact ⟨e, by rw [List.foldlM_cons, ensured, ok_bind, rest], sound'', tracks.trans tracks'⟩

theorem insertRows_tracks (sound : c.Sound size) (start n : Nat) :
    ∃ d, (List.range' start n).foldlM insertChild c = .ok d ∧ d.Sound size ∧
      Tracks (fun row => some (if row < start then row else row + n)) c d := by
  induction n generalizing c start with
  | zero => exact ⟨c, rfl, sound, (Tracks.refl c).congr fun row => by rw [Nat.add_zero, ite_self]⟩
  | succ n ih =>
    obtain ⟨d, inserted, sound', tracks⟩ := insertChild_spec sound start
    obtain ⟨e, rest, sound'', tracks'⟩ := ih sound' (start + 1)
    refine ⟨e, by rw [List.range'_succ, List.foldlM_cons, inserted, ok_bind, rest], sound'', (tracks.trans tracks').congr ?_⟩
    intro row
    rw [Option.bind_some]
    congr 1
    grind

theorem removeRows_tracks (sound : c.Sound size) (start n : Nat) :
    ∃ d, (List.range' start n).reverse.foldlM removeChild c = .ok d ∧ d.Sound size ∧
      Tracks (fun row => if row < start then some row else if row < start + n then none else some (row - n)) c d := by
  induction n generalizing c with
  | zero => exact ⟨c, rfl, sound, (Tracks.refl c).congr fun row => by grind⟩
  | succ n ih =>
    obtain ⟨d, removed, sound', tracks⟩ := removeChild_spec sound (start + n)
    obtain ⟨e, rest, sound'', tracks'⟩ := ih sound'
    have rows : (List.range' start (n + 1)).reverse = (start + n) :: (List.range' start n).reverse := by
      rw [List.range'_1_concat, List.reverse_append]
      rfl
    refine ⟨e, by rw [rows, List.foldlM_cons, removed, ok_bind, rest], sound'', (tracks.trans tracks').congr ?_⟩
    intro row
    grind

/-- A change that leaves the values and what is found as they are. -/
theorem Sound.rearranged {children : LruTables} (sound : c.Sound size) (agree : children.Agree) (cached : children.merged.Sound size)
    (values : children.merged.values.Perm c.children.merged.values)
    (same : ∀ key, children.merged.find? key = c.children.merged.find? key) :
    Sound size { c with children } ∧ Tracks some c { c with children } := by
  have whole := values.append_right c.deleted
  refine ⟨⟨agree, cached, whole.nodup_iff.mpr sound.once, fun node there => sound.used node (whole.mem_iff.mp there)⟩,
    fun _ => id, fun row node there => .inr ⟨row, rfl, ?_⟩⟩
  rw [agree.find?, same, ← sound.agree.find?, there]

/-- Each operation succeeds and moves the nodes with their rows. -/
theorem handle_spec (sound : c.Sound size) (event : RowEvent) (allowed : c.Allowed event) :
    ∃ d, c.handle event = .ok d ∧ d.Sound size ∧ Tracks event.shift c d := by
  cases event with
  | ensureChildren start finish => exact ensureRows_spec sound _
  | insertChildren start finish =>
    have ordered : start ≤ finish := allowed
    rw [handle, if_pos ordered]
    exact insertRows_tracks sound start _
  | removeChildren start finish =>
    obtain ⟨ordered, inside⟩ := allowed
    rw [handle, if_pos ⟨ordered, inside⟩]
    obtain ⟨d, removed, sound', tracks⟩ := removeRows_tracks sound start (finish + 1 - start)
    refine ⟨d, removed, sound', tracks.congr fun row => ?_⟩
    rw [RowEvent.shift]
    grind
  | get row =>
    obtain ⟨children, found, agree, same⟩ := sound.agree.get row
    rw [handle, found, ok_bind]
    refine ⟨_, rfl, ?_⟩
    cases there : c.children.merged.find? row with
    | none =>
      rw [there] at same
      exact sound.rearranged agree (by rw [same]; exact sound.sound) (by rw [same]) fun key => by rw [same]
    | some value =>
      rw [there] at same
      refine sound.rearranged agree (by rw [same]; exact sound.sound.front there)
        (by rw [same]; exact LruCache.front_perm sound.sound.distinct there) fun key => ?_
      rw [same, LruCache.find?_front]
      split
      · rename_i equal
        rw [equal, there]
      · rfl
  | setRowCount rowCount =>
    exact ⟨_, rfl, ⟨sound.agree, sound.sound, sound.once, sound.used⟩, fun _ => id, fun row _ there => .inr ⟨row, rfl, there⟩⟩
  | setHasChildren child hasChildren =>
    exact ⟨_, rfl, ⟨sound.agree, sound.sound, sound.once, sound.used⟩, fun _ => id, fun row _ there => .inr ⟨row, rfl, there⟩⟩
  | rehash order =>
    rw [handle]
    refine ⟨_, rfl, ?_⟩
    split
    · rename_i perm
      exact sound.rearranged ⟨sound.agree.keys, sound.agree.positions, perm.trans sound.agree.map, sound.agree.used⟩
        sound.sound (.refl _) fun _ => rfl
    · exact ⟨sound, .refl c⟩

theorem step_spec {event : RowEvent} (sound : c.Sound size) (stepped : c.step event = some d) :
    d.Sound size ∧ Tracks event.shift c d := by
  have allowed : c.Allowed event := by
    cases event with
    | insertChildren start finish =>
      by_contra refused
      simp [step, handle, show ¬ start ≤ finish from refused] at stepped
      cases stepped
    | removeChildren start finish =>
      by_contra refused
      simp only [step, handle, if_neg (show ¬ (start ≤ finish ∧ finish < c.rowCount) from refused)] at stepped
      cases stepped
    | ensureChildren | get | setRowCount | setHasChildren | rehash => trivial
  obtain ⟨d', handled, sound', tracks⟩ := handle_spec sound event allowed
  rw [step, handled] at stepped
  cases stepped
  exact ⟨sound', tracks⟩

theorem Sound.initial (cacheSize : Nat) : (initial cacheSize).Sound cacheSize :=
  ⟨⟨.nil, .nil, .refl _, nofun⟩, .empty cacheSize, .nil, nofun⟩

theorem exec_tracks {es : List RowEvent} (sound : c.Sound size) (run : exec step c es = some d) : Tracks (shiftBy es) c d := by
  induction es generalizing c with
  | nil =>
    cases run
    exact .refl _
  | cons event es ih =>
    obtain ⟨middle, head, tail⟩ := exec_cons.mp run
    obtain ⟨sound', tracks⟩ := step_spec sound head
    exact tracks.trans (ih sound' tail)

theorem Sound.alive (sound : c.Sound size) : c.Alive := by
  intro node there gone
  have cached : node.value ∈ c.children.merged.values := by
    rw [LruTables.merged_values]
    exact List.mem_map_of_mem there
  exact (List.nodup_append'.mp sound.once).2.2 cached gone

/-- Both containers agree in every state, no assertion fails, and from wherever a node is found it is found in its row for as
long as it is not deleted. -/
theorem rows_refine (cacheSize : Nat) (es : List RowEvent) :
    Admitted step Served (initial cacheSize) es ∧
      ∀ c, exec step (initial cacheSize) es = some c → c.children.Agree ∧ c.Alive ∧
        ∀ later d, exec step c later = some d → Follows later c d := by
  have keeps {c d : RowCache} {event : RowEvent} (sound : c.Sound cacheSize) (head : c.step event = some d) : d.Sound cacheSize :=
    (step_spec sound head).1
  refine ⟨admitted_always keeps (fun sound allowed => ?_) (.initial cacheSize), fun c run => ?_⟩
  · obtain ⟨d, handled, _⟩ := handle_spec sound _ allowed
    exact ⟨d, handled⟩
  · have reached : c.Sound cacheSize := exec_always keeps run (.initial cacheSize)
    refine ⟨reached.agree, reached.alive, fun later d rest row node there undeleted => ?_⟩
    exact ((exec_tracks reached rest).found row node there).resolve_left undeleted

end RowCache
end Tracking
end RemoteObjects.ItemModel
