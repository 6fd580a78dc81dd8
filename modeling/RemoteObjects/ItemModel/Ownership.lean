import Mathlib.Data.Finset.Basic
import RemoteObjects.Transition
import RemoteObjects.HeapForest
import RemoteObjects.ItemModel.LruCache

/-! The cached items of a replica as nodes on the heap, with the set by which a pointer in an index is judged. -/
namespace RemoteObjects.ItemModel
open Transition HeapForest

section Model

/-- `CacheData` on the heap, without its row. -/
structure CacheNode where
  parent : Option Address
  hasChildren : Bool
  columnCount : Nat
  rowCount : Nat
  children : LruCache Address

structure CacheHeap where
  nodes : Heap CacheNode
  m_activeParents : Finset Address

/-- What is done to an item. A new item gets the address that is given for its row, if that is free. -/
inductive CacheOperation
  | ensureChildren (start finish : Nat) (suggested : Nat → Address)
  | insertChildren (start finish : Nat) (suggested : Nat → Address)
  | removeChildren (start finish : Nat)
  | clear
  /-- `get`, which moves the entry to the front. -/
  | get (row : Nat)
  /-- A reply or an entry sets what the item says of its children. -/
  | assign (hasChildren : Bool) (columnCount rowCount : Nat)

/-- The address of `m_rootItem`. -/
def rootAddress : Address := 0

def CacheNode.owned (node : CacheNode) : List Address := node.children.values

namespace CacheHeap
-- What `LRUCache` takes from the environment as its size.
variable (nodesCacheSize : Nat) (h : CacheHeap)

def initial (rootCacheSize : Nat) : CacheHeap := ⟨AList.singleton rootAddress ⟨none, false, 0, 0, .empty rootCacheSize⟩, ∅⟩

def read (item : Address) : Except Failure CacheNode :=
  match h.nodes.lookup item with
  | some node => .ok node
  | none => .error .deadItem

def hasChildren (item : Address) : Bool := ((h.nodes.lookup item).map CacheNode.hasChildren).getD false

/-- `new CacheData(replicaModel, item)`. -/
def construct (item : Address) (columnCount : Nat) (suggested : Address) : CacheHeap × Address :=
  let child := fresh suggested h.nodes
  (⟨h.nodes.insert child ⟨some item, false, columnCount, 0, .empty nodesCacheSize⟩, insert item h.m_activeParents⟩, child)

/-- `delete` of some items, each with its children behind it. The destructor takes the item out of the set. -/
def deleteItems (items : List Address) : Except Failure CacheHeap :=
  match destroy CacheNode.owned h.nodes.keys.length items h.nodes with
  | some (nodes, gone) => .ok ⟨nodes, gone.foldl Finset.erase h.m_activeParents⟩
  | none => .error .deadItem

/-- An item is changed, and those that leave its list are deleted. The code deletes them before it takes them off the
list, which they cannot see. -/
def update (item : Address) (next : CacheNode) (victims : List Address) : Except Failure CacheHeap :=
  deleteItems { h with nodes := h.nodes.insert item next } victims

def ensureChild (item : Address) (suggested : Nat → Address) (h : CacheHeap) (row : Nat) : Except Failure CacheHeap := do
  let node ← h.read item
  if node.children.contains row then pure h
  else
    let made := h.construct nodesCacheSize item 0 (suggested row)
    let (children, victim) ← node.children.ensure made.1.hasChildren row made.2
    made.1.update item { node with children } victim.toList

def insertChild (item : Address) (suggested : Nat → Address) (h : CacheHeap) (row : Nat) : Except Failure CacheHeap := do
  let node ← h.read item
  let made := h.construct nodesCacheSize item node.columnCount (suggested row)
  let (children, victim) ← node.children.insert made.1.hasChildren row made.2
  made.1.update item { node with children, rowCount := node.rowCount + 1 } victim.toList

def removeChild (item : Address) (h : CacheHeap) (row : Nat) : Except Failure CacheHeap := do
  let node ← h.read item
  h.update item { node with children := node.children.remove row, rowCount := node.rowCount - 1 }
    ((node.children.cachedItems.filter fun entry => entry.1 = row).map Prod.snd)

def handle (item : Address) : CacheOperation → Except Failure CacheHeap
  | .ensureChildren start finish suggested =>
    (List.range' start (finish + 1 - start)).foldlM (ensureChild nodesCacheSize item suggested) h
  | .insertChildren start finish suggested =>
    if start ≤ finish then do
      let h ← (List.range' start (finish + 1 - start)).foldlM (insertChild nodesCacheSize item suggested) h
      let node ← h.read item
      h.update item { node with hasChildren := node.hasChildren || node.rowCount ≠ 0 } []
    else .error .assertion
  | .removeChildren start finish => do
    let node ← h.read item
    if start ≤ finish ∧ finish < node.rowCount then do
      let h ← (List.range' start (finish + 1 - start)).reverse.foldlM (removeChild item) h
      let node ← h.read item
      h.update item { node with hasChildren := node.rowCount ≠ 0 } []
    else .error .assertion
  | .clear => do
    let node ← h.read item
    h.update item ⟨node.parent, false, 0, 0, .empty node.children.cacheSize⟩ node.owned
  | .get row => do
    let node ← h.read item
    match node.children.find? row with
    | some child => h.update item { node with children := node.children.front row child } []
    | none => pure h
  | .assign hasChildren columnCount rowCount => do
    let node ← h.read item
    h.update item { node with hasChildren, columnCount, rowCount } []

/-- An operation on an item that exists. A run ends where `cleanCache` walks past the end of its list. -/
def step (h : CacheHeap) (e : Address × CacheOperation) : Option CacheHeap :=
  if e.1 ∈ h.nodes then (h.handle nodesCacheSize e.1 e.2).toOption else none

/-- `parent` of an index by its pointer: the row and the pointer of the index that it returns, if that is valid. -/
def parent : Option Address → Except Failure (Option (Nat × Address))
  | none => .ok none
  | some item =>
    if item = rootAddress ∨ item ∉ h.m_activeParents then .ok none
    else do
      let node ← h.read item
      match node.parent with
      | none => .ok none
      | some above =>
        if above ∉ h.m_activeParents then .ok none
        else do
          let owner ← h.read above
          match owner.children.cachedItems.find? fun entry => entry.2 = item with
          | some (row, _) => .ok (some (row, above))
          | none => .error .assertion

end CacheHeap
end Model

section Statement

/-- The set has live items only, and those with a child in the cache; every item but the root is cached under one key by
its parent; and no pointer makes `parent` follow one to a deleted item, or `find` fail. -/
structure CacheHeap.Owned (nodesCacheSize : Nat) (h : CacheHeap) : Prop where
  live : ∀ item ∈ h.m_activeParents, item ∈ h.nodes
  active : ∀ {item node}, h.nodes.lookup item = some node → node.children.cachedItems ≠ [] → item ∈ h.m_activeParents
  cached : ∀ {item node}, h.nodes.lookup item = some node → item ≠ rootAddress →
    ∃ above owner, node.parent = some above ∧ h.nodes.lookup above = some owner ∧
      ∃! row, (row, item) ∈ owner.children.cachedItems
  parents : ∀ pointer, ∃ index, h.parent pointer = .ok index
  operations : ∀ {item operation failure}, item ∈ h.nodes → h.handle nodesCacheSize item operation = .error failure →
    failure = .pastTheEnd ∨ failure = .assertion

end Statement

section Invariant
variable {nodesCacheSize : Nat} {h : CacheHeap} {item : Address} {node : CacheNode} {work : List Address}

/-- All items, with some that no item owns for a moment. -/
structure CacheHeap.Good (work : List Address) (h : CacheHeap) : Prop where
  owns : Owns CacheNode.parent CacheNode.owned rootAddress work h.nodes
  live : ∀ item ∈ h.m_activeParents, item ∈ h.nodes
  active : ∀ {item node}, h.nodes.lookup item = some node → node.children.cachedItems ≠ [] → item ∈ h.m_activeParents
  keys : ∀ {item node}, h.nodes.lookup item = some node → node.children.keys.Nodup
  small : ∀ {item node}, h.nodes.lookup item = some node → node.children.cachedItems.length ≤ node.children.cacheSize

open CacheHeap

theorem mem_foldl_erase {gone : List Address} {set : Finset Address} :
    item ∈ gone.foldl Finset.erase set ↔ item ∈ set ∧ item ∉ gone := by
  induction gone generalizing set with
  | nil => simp
  | cons a gone ih =>
    rw [List.foldl_cons, ih, Finset.mem_erase, List.mem_cons, not_or]
    tauto

theorem CacheHeap.Good.deleteItems (good : h.Good work) :
    ∃ after, h.deleteItems work = .ok after ∧ after.Good [] ∧
      (∀ item ∈ h.m_activeParents, item ∈ after.nodes → item ∈ after.m_activeParents) ∧
      ∀ {item rank}, Ranked CacheNode.owned rank h.nodes → (∀ c ∈ work, rank item < rank c) →
        after.nodes.lookup item = h.nodes.lookup item := by
  obtain ⟨nodes, gone, destroyed, owns, kept, behind⟩ := destroy_owns good.owns le_rfl
  refine ⟨⟨nodes, gone.foldl Finset.erase h.m_activeParents⟩, ?_, ?_, ?_, ?_⟩
  · rw [CacheHeap.deleteItems, destroyed]
  · constructor
    · exact owns
    · intro item there
      obtain ⟨before, stays⟩ := mem_foldl_erase.mp there
      obtain ⟨node, found⟩ := mem_iff_lookup.mp (good.live item before)
      exact mem_iff_lookup.mpr ⟨node, kept.mpr ⟨stays, found⟩⟩
    · intro item node there some
      obtain ⟨stays, before⟩ := kept.mp there
      exact mem_foldl_erase.mpr ⟨good.active before some, stays⟩
    · exact fun there => good.keys (kept.mp there).2
    · exact fun there => good.small (kept.mp there).2
  · intro item there live
    obtain ⟨node, found⟩ := mem_iff_lookup.mp live
    exact mem_foldl_erase.mpr ⟨there, (kept.mp found).1⟩
  · intro item rank ranked above
    have stays : item ∉ gone := by
      intro there
      obtain ⟨w, listed, less⟩ := behind ranked item there
      exact absurd (above w listed) (Nat.not_lt.mpr less)
    ext node
    exact kept.trans (and_iff_right stays)

/-- What stays of the nodes when an item is changed: those that every rank has before it, and the set as far as its items
live. -/
structure CacheHeap.Kept (item : Address) (h after : CacheHeap) : Prop where
  nearer : ∀ {other found}, h.nodes.lookup other = some found →
    (∀ {rank}, Ranked CacheNode.owned rank h.nodes → rank other < rank item) → after.nodes.lookup other = some found
  active : ∀ other ∈ h.m_activeParents, other ∈ after.nodes → other ∈ after.m_activeParents

/-- A change of an item that ends. -/
def CacheHeap.Changes (h : CacheHeap) (item : Address) (next : CacheNode) (result : Except Failure CacheHeap) : Prop :=
  ∃ after, result = .ok after ∧ after.Good [] ∧ after.nodes.lookup item = some next ∧ Kept item h after

/-- What an operation on an item leaves: the invariant and the item, unless `cleanCache` has walked past the end. -/
def CacheHeap.Safe (item : Address) : Except Failure CacheHeap → Prop
  | .ok after => after.Good [] ∧ item ∈ after.nodes
  | .error failure => failure = .pastTheEnd

theorem CacheHeap.Changes.safe {next : CacheNode} {result : Except Failure CacheHeap} (changes : h.Changes item next result) :
    Safe item result := by
  obtain ⟨after, rfl, good, here, _⟩ := changes
  exact ⟨good, mem_iff_lookup.mpr ⟨next, here⟩⟩

theorem CacheHeap.Good.update {next : CacheNode} {victims : List Address} (good : h.Good work)
    (here : h.nodes.lookup item = some node) (same : next.parent = node.parent)
    (moved : (next.owned ++ victims).Perm (node.owned ++ work))
    (fits : ∀ c ∈ work, ∃ below, h.nodes.lookup c = some below ∧ below.parent = some item)
    (ranked : ∃ rank, Ranked CacheNode.owned rank h.nodes ∧ ∀ c ∈ work, rank item < rank c)
    (active : next.children.cachedItems ≠ [] → item ∈ h.m_activeParents)
    (keys : next.children.keys.Nodup) (small : next.children.cachedItems.length ≤ next.children.cacheSize) :
    h.Changes item next (h.update item next victims) := by
  obtain ⟨rank, ranked, above⟩ := ranked
  have behind : ∀ c, c ∈ next.owned ∨ c ∈ victims → rank item < rank c := by
    intro c listed
    obtain own | later := List.mem_append.mp (moved.mem_iff.mp (List.mem_append.mpr listed))
    · exact ranked here c own
    · exact above c later
  have owns : Owns CacheNode.parent CacheNode.owned rootAddress victims (h.nodes.insert item next) := by
    apply good.owns.replace here same moved
    · intro c listed
      obtain own | later := List.mem_append.mp (moved.mem_iff.mp (List.mem_append_left _ listed))
      · exact (good.owns.child here c own).2
      · exact fits c later
    · exact ⟨rank, ranked, fun c own => behind c (.inl own)⟩
  have changed : Good victims { h with nodes := h.nodes.insert item next } := by
    constructor
    · exact owns
    · exact fun c there => (AList.mem_insert h.nodes).mpr (.inr (good.live c there))
    · intro c found there some
      obtain ⟨rfl, rfl⟩ | ⟨_, before⟩ := lookup_insert_iff.mp there
      · exact active some
      · exact good.active before some
    · intro c found there
      obtain ⟨rfl, rfl⟩ | ⟨_, before⟩ := lookup_insert_iff.mp there
      · exact keys
      · exact good.keys before
    · intro c found there
      obtain ⟨rfl, rfl⟩ | ⟨_, before⟩ := lookup_insert_iff.mp there
      · exact small
      · exact good.small before
  have reranked : Ranked CacheNode.owned rank (h.nodes.insert item next) := by
    intro p owner there c own
    obtain ⟨rfl, rfl⟩ | ⟨_, before⟩ := lookup_insert_iff.mp there
    · exact behind c (.inl own)
    · exact ranked before c own
  obtain ⟨after, deleted, kept, active, stays⟩ := changed.deleteItems
  refine ⟨after, deleted, kept, ?_, ?_, active⟩
  · rw [stays reranked fun c listed => behind c (.inr listed)]
    exact AList.lookup_insert h.nodes
  · intro other found there nearer
    have nearer := nearer ranked
    rw [stays reranked fun c listed => nearer.trans (behind c (.inr listed))]
    refine lookup_insert_iff.mpr (.inr ⟨?_, there⟩)
    rintro rfl
    exact Nat.lt_irrefl _ nearer

/-- An operation that neither makes an item nor changes keys. -/
theorem CacheHeap.Good.assign {next : CacheNode} (good : h.Good []) (here : h.nodes.lookup item = some node)
    (same : next.parent = node.parent) (children : next.children = node.children) : Safe item (h.update item next []) := by
  obtain ⟨rank, ranked⟩ := good.owns.ranked
  apply (good.update here same ?_ ?_ ?_ ?_ ?_ ?_).safe
  · rw [CacheNode.owned, children]
    exact .refl _
  · exact fun _ listed => nomatch listed
  · exact ⟨rank, ranked, fun _ listed => nomatch listed⟩
  · rw [children]
    exact good.active here
  · rw [children]
    exact good.keys here
  · rw [children]
    exact good.small here

/-- The new item waits for its parent to own it. -/
theorem CacheHeap.Good.construct (good : h.Good []) (here : h.nodes.lookup item = some node) {made : CacheHeap × Address}
    {columnCount : Nat} {suggested : Address} (new : made = h.construct nodesCacheSize item columnCount suggested) :
    made.1.Good [made.2] ∧ made.1.nodes.lookup item = some node ∧ item ∈ made.1.m_activeParents ∧
      (∃ below, made.1.nodes.lookup made.2 = some below ∧ below.parent = some item) ∧
      ∃ rank, Ranked CacheNode.owned rank made.1.nodes ∧ rank item < rank made.2 := by
  subst new
  have free := fresh_not_mem suggested h.nodes
  have older : item ≠ fresh suggested h.nodes := by
    intro same
    exact free (same ▸ mem_iff_lookup.mpr ⟨node, here⟩)
  refine ⟨?_, ?_, Finset.mem_insert_self _ _, ?_, good.owns.allocate_ranked free rfl older⟩
  · constructor
    · exact good.owns.allocate free rfl
    · intro c there
      apply (AList.mem_insert h.nodes).mpr
      obtain rfl | before := Finset.mem_insert.mp there
      · exact .inr (mem_iff_lookup.mpr ⟨node, here⟩)
      · exact .inr (good.live c before)
    · intro c found there some
      obtain ⟨rfl, rfl⟩ | ⟨_, before⟩ := lookup_insert_iff.mp there
      · contradiction
      · exact Finset.mem_insert_of_mem (good.active before some)
    · intro c found there
      obtain ⟨rfl, rfl⟩ | ⟨_, before⟩ := lookup_insert_iff.mp there
      · exact List.nodup_nil
      · exact good.keys before
    · intro c found there
      obtain ⟨rfl, rfl⟩ | ⟨_, before⟩ := lookup_insert_iff.mp there
      · exact Nat.zero_le _
      · exact good.small before
  · exact lookup_insert_iff.mpr (.inr ⟨older, here⟩)
  · exact ⟨_, AList.lookup_insert h.nodes, rfl⟩

/-- The new item under a new key of its parent, whose other keys may have changed. -/
theorem CacheHeap.Good.attach {made : CacheHeap × Address} {base children : LruCache Address} {victim : Option Address}
    {row columnCount : Nat} {suggested : Address} {next : CacheNode} (good : h.Good [])
    (here : h.nodes.lookup item = some node) (new : made = h.construct nodesCacheSize item columnCount suggested)
    (values : base.values = node.children.values) (keys : base.keys.Nodup ∧ row ∉ base.keys)
    (ensured : base.ensure made.1.hasChildren row made.2 = .ok (children, victim)) (same : next.parent = node.parent)
    (cached : next.children = children) :
    made.1.Changes item next (made.1.update item next victim.toList) ∧ item ∈ made.1.m_activeParents := by
  obtain ⟨waiting, here, active, below, rank, ranked, behind⟩ := good.construct here new
  obtain ⟨distinct, small, moved⟩ := LruCache.ensure_spec keys.1 keys.2 ensured
  refine ⟨waiting.update here same ?_ ?_ ?_ (fun _ => active) ?_ ?_, active⟩
  · rw [CacheNode.owned, CacheNode.owned, ← values, cached]
    exact moved.trans (List.perm_append_singleton _ _).symm
  · intro c listed
    obtain rfl := List.mem_singleton.mp listed
    exact below
  · refine ⟨rank, ranked, fun c listed => ?_⟩
    obtain rfl := List.mem_singleton.mp listed
    exact behind
  · rw [cached]
    exact distinct
  · rw [cached]
    exact small

theorem CacheHeap.Good.attach_safe {made : CacheHeap × Address} {base : LruCache Address} {row columnCount : Nat}
    {suggested : Address} {next : LruCache Address → CacheNode} (good : h.Good [])
    (here : h.nodes.lookup item = some node) (new : made = h.construct nodesCacheSize item columnCount suggested)
    (values : base.values = node.children.values) (small : base.cachedItems.length ≤ base.cacheSize)
    (keys : base.keys.Nodup ∧ row ∉ base.keys) (same : ∀ children, (next children).parent = node.parent)
    (cached : ∀ children, (next children).children = children) :
    Safe item (base.ensure made.1.hasChildren row made.2 >>= fun (children, victim) =>
      made.1.update item (next children) victim.toList) := by
  cases ensured : base.ensure made.1.hasChildren row made.2 with
  | error failure => exact LruCache.ensure_fails small ensured
  | ok result =>
    rw [ok_bind]
    exact (good.attach here new values keys ensured (same _) (cached _)).1.safe

theorem safe_bind {result : Except Failure CacheHeap} {f : CacheHeap → Except Failure CacheHeap} (safe : Safe item result)
    (rest : ∀ {after : CacheHeap}, after.Good [] → item ∈ after.nodes → Safe item (f after)) : Safe item (result >>= f) := by
  cases result with
  | error failure => exact safe
  | ok after => exact rest safe.1 safe.2

theorem safe_foldlM {f : CacheHeap → Nat → Except Failure CacheHeap} {rows : List Nat}
    (each : ∀ {h : CacheHeap} {row}, h.Good [] → item ∈ h.nodes → Safe item (f h row)) (good : h.Good [])
    (live : item ∈ h.nodes) : Safe item (rows.foldlM f h) := by
  induction rows generalizing h with
  | nil => exact ⟨good, live⟩
  | cons row rows ih =>
    rw [List.foldlM_cons]
    exact safe_bind (each good live) ih

theorem read_live (here : h.nodes.lookup item = some node) : h.read item = .ok node := by
  rw [CacheHeap.read, here]

theorem ensureChild_safe {suggested : Nat → Address} {row : Nat} (good : h.Good []) (live : item ∈ h.nodes) :
    Safe item (h.ensureChild nodesCacheSize item suggested row) := by
  obtain ⟨node, here⟩ := mem_iff_lookup.mp live
  rw [CacheHeap.ensureChild, read_live here, ok_bind]
  split
  · exact ⟨good, live⟩
  · rename_i missing
    have new : row ∉ node.children.keys := by
      rw [← LruCache.find?_none]
      simpa [LruCache.contains] using missing
    exact good.attach_safe here rfl rfl (good.small here) ⟨good.keys here, new⟩ (fun _ => rfl) fun _ => rfl

theorem insertChild_safe {suggested : Nat → Address} {row : Nat} (good : h.Good []) (live : item ∈ h.nodes) :
    Safe item (h.insertChild nodesCacheSize item suggested row) := by
  obtain ⟨node, here⟩ := mem_iff_lookup.mp live
  rw [CacheHeap.insertChild, read_live here, ok_bind]
  have small : (node.children.changeKeys row 1).cachedItems.length ≤ node.children.cacheSize := by
    rw [LruCache.changeKeys, List.length_map]
    exact good.small here
  exact good.attach_safe here rfl (LruCache.changeKeys_values row 1) small (LruCache.changeKeys_up (good.keys here))
    (fun _ => rfl) fun _ => rfl

theorem removeChild_safe {row : Nat} (good : h.Good []) (live : item ∈ h.nodes) : Safe item (h.removeChild item row) := by
  obtain ⟨node, here⟩ := mem_iff_lookup.mp live
  obtain ⟨rank, ranked⟩ := good.owns.ranked
  rw [CacheHeap.removeChild, read_live here, ok_bind]
  refine (good.update here ?_ ?_ ?_ ?_ ?_ ?_ ?_).safe
  · rfl
  · rw [List.append_nil]
    rw [CacheNode.owned, LruCache.remove, LruCache.changeKeys_values]
    exact node.children.erase_perm row
  · exact fun _ listed => nomatch listed
  · exact ⟨rank, ranked, fun _ listed => nomatch listed⟩
  · intro some
    apply good.active here
    intro none
    apply some
    simp [LruCache.remove, LruCache.changeKeys, LruCache.erase, none]
  · obtain ⟨distinct, without⟩ : (node.children.erase row).keys.Nodup ∧ row ∉ (node.children.erase row).keys :=
      LruCache.erase_keys (good.keys here)
    exact LruCache.changeKeys_down distinct without
  · simp only [LruCache.remove, LruCache.changeKeys, LruCache.erase, List.length_map]
    exact (List.length_filter_le _ _).trans (good.small here)

theorem front_safe {row : Nat} {child : Address} (good : h.Good []) (here : h.nodes.lookup item = some node)
    (found : node.children.find? row = some child) :
    Safe item (h.update item { node with children := node.children.front row child } []) := by
  obtain ⟨rank, ranked⟩ := good.owns.ranked
  have same := LruCache.front_perm (good.keys here) found
  refine (good.update here ?_ ?_ ?_ ?_ ?_ ?_ ?_).safe
  · rfl
  · exact same.append_right []
  · exact fun _ listed => nomatch listed
  · exact ⟨rank, ranked, fun _ listed => nomatch listed⟩
  · intro _
    exact good.active here (List.ne_nil_of_mem (LruCache.find?_mem found))
  · obtain ⟨distinct, without⟩ : (node.children.erase row).keys.Nodup ∧ row ∉ (node.children.erase row).keys :=
      LruCache.erase_keys (good.keys here)
    exact List.nodup_cons.mpr ⟨without, distinct⟩
  · have length := same.length_eq
    rw [LruCache.values, LruCache.values, List.length_map, List.length_map] at length
    exact length.trans_le (good.small here)

theorem clear_safe (good : h.Good []) (here : h.nodes.lookup item = some node) :
    Safe item (h.update item ⟨node.parent, false, 0, 0, .empty node.children.cacheSize⟩ node.owned) := by
  obtain ⟨rank, ranked⟩ := good.owns.ranked
  refine (good.update here ?_ ?_ ?_ ?_ ?_ ?_ ?_).safe
  · rfl
  · rw [List.append_nil]
    exact .refl _
  · exact fun _ listed => nomatch listed
  · exact ⟨rank, ranked, fun _ listed => nomatch listed⟩
  · exact fun some => absurd rfl some
  · exact List.nodup_nil
  · exact Nat.zero_le _

/-- An operation keeps the invariant, or ends in the two ways that are not its item's. -/
theorem handle_safe {operation : CacheOperation} (good : h.Good []) (live : item ∈ h.nodes) :
    Safe item (h.handle nodesCacheSize item operation) ∨ h.handle nodesCacheSize item operation = .error .assertion := by
  have assigned : ∀ {after : CacheHeap} {f : CacheNode → CacheNode}, (∀ node, (f node).parent = node.parent) →
      (∀ node, (f node).children = node.children) → after.Good [] → item ∈ after.nodes →
      Safe item (after.read item >>= fun node => after.update item (f node) []) := by
    intro after f parent children good live
    obtain ⟨node, here⟩ := mem_iff_lookup.mp live
    rw [read_live here, ok_bind]
    exact good.assign here (parent node) (children node)
  obtain ⟨node, here⟩ := mem_iff_lookup.mp live
  cases operation with
  | ensureChildren start finish suggested => exact .inl (safe_foldlM ensureChild_safe good live)
  | insertChildren start finish suggested =>
    rw [CacheHeap.handle]
    split
    · exact .inl (safe_bind (safe_foldlM insertChild_safe good live) (assigned (fun _ => rfl) fun _ => rfl))
    · exact .inr rfl
  | removeChildren start finish =>
    rw [CacheHeap.handle, read_live here, ok_bind]
    split
    · exact .inl (safe_bind (safe_foldlM removeChild_safe good live) (assigned (fun _ => rfl) fun _ => rfl))
    · exact .inr rfl
  | clear =>
    rw [CacheHeap.handle, read_live here, ok_bind]
    exact .inl (clear_safe good here)
  | get row =>
    rw [CacheHeap.handle, read_live here, ok_bind]
    cases found : node.children.find? row with
    | some child => exact .inl (front_safe good here found)
    | none => exact .inl ⟨good, live⟩
  | assign hasChildren columnCount rowCount => exact .inl (assigned (fun _ => rfl) (fun _ => rfl) good live)

/-- `parent` follows pointers to live items, and `find` finds the item that is asked for. -/
theorem CacheHeap.Good.parent (good : h.Good []) (pointer : Option Address) : ∃ index, h.parent pointer = .ok index := by
  cases pointer with
  | none => exact ⟨none, rfl⟩
  | some item =>
    rw [CacheHeap.parent]
    split
    · exact ⟨none, rfl⟩
    · rename_i asked
      obtain ⟨other, active⟩ := not_or.mp asked
      obtain ⟨node, here⟩ := mem_iff_lookup.mp (good.live item (not_not.mp active))
      obtain ⟨above, owner, up, live, holds⟩ := good.owns.held here other List.not_mem_nil
      rw [read_live here, ok_bind, show node.parent = some above from up]
      dsimp only
      split
      · exact ⟨none, rfl⟩
      · rw [read_live live, ok_bind]
        obtain ⟨entry, listed, same⟩ := List.mem_map.mp holds
        have found : (owner.children.cachedItems.find? fun entry => entry.2 = item).isSome := by
          rw [List.find?_isSome]
          exact ⟨entry, listed, decide_eq_true same⟩
        obtain ⟨entry, found⟩ := Option.isSome_iff_exists.mp found
        rw [found]
        exact ⟨_, rfl⟩

theorem CacheHeap.Good.owned (good : h.Good []) : h.Owned nodesCacheSize where
  live := good.live
  active := good.active
  cached here other := by
    obtain ⟨above, owner, up, live, holds⟩ := good.owns.held here other List.not_mem_nil
    obtain ⟨⟨row, item⟩, listed, rfl⟩ := List.mem_map.mp holds
    refine ⟨above, owner, up, live, row, listed, fun row' listed' => ?_⟩
    exact (Prod.mk.inj (List.inj_on_of_nodup_map (good.owns.distinct live) listed' listed rfl)).1
  parents := good.parent
  operations live failed := by
    obtain safe | assertion := handle_safe good live
    · rw [failed] at safe
      exact .inl safe
    · exact .inr (Except.error.inj (failed.symm.trans assertion))

theorem good_initial (rootCacheSize : Nat) : (initial rootCacheSize).Good [] := by
  have only : ∀ {item node}, (initial rootCacheSize).nodes.lookup item = some node →
      item = rootAddress ∧ node = ⟨none, false, 0, 0, .empty rootCacheSize⟩ := by
    intro item node there
    rw [initial, ← AList.insert_empty] at there
    obtain both | ⟨_, none⟩ := lookup_insert_iff.mp there
    · exact both
    · rw [AList.lookup_empty] at none
      contradiction
  constructor
  · constructor
    · exact ⟨_, AList.lookup_insert ∅, rfl⟩
    · exact List.nodup_nil
    · exact fun _ listed => nomatch listed
    · exact fun there other => absurd (only there).1 other
    · intro p node there c own
      rw [(only there).2] at own
      contradiction
    · intro p node there
      rw [(only there).2]
      exact List.nodup_nil
    · refine ⟨id, fun there c own => ?_⟩
      rw [(only there).2] at own
      contradiction
  · exact fun _ listed => absurd listed (Finset.notMem_empty _)
  · intro item node there some
    rw [(only there).2] at some
    contradiction
  · intro item node there
    rw [(only there).2]
    exact List.nodup_nil
  · intro item node there
    rw [(only there).2]
    exact Nat.zero_le _

theorem good_step {e : Address × CacheOperation} {after : CacheHeap} (good : h.Good [])
    (head : h.step nodesCacheSize e = some after) : after.Good [] := by
  rw [CacheHeap.step] at head
  split at head
  · rename_i live
    have handled : h.handle nodesCacheSize e.1 e.2 = .ok after := by
      cases result : h.handle nodesCacheSize e.1 e.2 <;> simp_all [Except.toOption]
    obtain safe | assertion := handle_safe good live
    · rw [handled] at safe
      exact safe.1
    · rw [handled] at assertion
      contradiction
  · contradiction

/-- In every state that operations on items reach, the tree of cached items owns its nodes and the set tells which exist. -/
theorem cache_tree_owned {rootCacheSize : Nat} {operations : List (Address × CacheOperation)}
    (run : exec (CacheHeap.step nodesCacheSize) (initial rootCacheSize) operations = some h) : h.Owned nodesCacheSize := by
  exact (exec_always good_step run (good_initial rootCacheSize)).owned

/-- Three rows of which a cache for two keeps two, a row below one of them, and the removal of that one. -/
def cachedRows : List (Address × CacheOperation) :=
  [(0, .insertChildren 0 2 fun row => row + 1), (2, .ensureChildren 0 0 fun _ => 1), (2, .assign true 1 1), (0, .get 1),
    (0, .removeChildren 1 1), (0, .ensureChildren 0 0 fun _ => 2), (0, .clear)]

theorem cachedRows_owned : ∃ h, exec (CacheHeap.step 1000) (initial 2) cachedRows = some h ∧ h.Owned 1000 := by
  have runs : (exec (CacheHeap.step 1000) (initial 2) cachedRows).isSome := by decide
  obtain ⟨h, run⟩ := Option.isSome_iff_exists.mp runs
  exact ⟨h, run, cache_tree_owned run⟩

end Invariant
end RemoteObjects.ItemModel
