import RemoteObjects.ItemModel.Headers
import RemoteObjects.ItemModel.Network

/-! Trees: the row counts that a replica has of its source, over all orders of insertions, removals and size requests. -/
namespace RemoteObjects.ItemModel
open Transition

section Statement
variable {V : Type} (config : Config)

/-- The index of the item at some rows. -/
def columnZero (rows : List Nat) : IndexList := rows.map fun row => ⟨row, 0⟩

def InColumnZero (list : IndexList) : Prop := ∀ index ∈ list, index.column = 0

/-- The sizes of a model by the rows of the items of a replica. -/
def SourceModel.sizes (m_model : SourceModel V) (rows : List Nat) : Size :=
  ⟨m_model.columnCount (columnZero rows), m_model.rowCount (columnZero rows)⟩

/-- The sizes in a reply are those of the model. -/
def SizesRight (sizes : List Nat → Size) : Watcher → Reply V → Prop
  | .size parentList, .size size => size = sizes (rowsOf parentList)
  | .init, .size size | .reset, .size size => size = sizes []
  | .init, .cache entries | .reset, .cache entries | .layout _, .cache entries => entries.size = sizes [] ∧
      AllOf (fun pair => InColumnZero pair.index → pair.size = sizes (rowsOf pair.index)) entries.data
  | _, _ => True

/-- The parent of a signal is found with its size, and then in column 0, or it is not found and no size that is cached
changes. -/
def FindsParent (ensureItem : Bool) (parent : IndexList) (m_rootItem : CacheData V) (before after : List Nat → Size) : Prop :=
  ∀ ok middle, m_rootItem.resolve config.nodesCacheSize ensureItem true parent = .ok (ok, middle) →
    (ok = true → InColumnZero parent ∧
      ∀ item, middle.item? (rowsOf parent) = some item → item.rowCount ≠ 0 ∨ (before (rowsOf parent)).height = 0) ∧
    (ok = false → ∀ path item, m_rootItem.item? path = some item → item.rowCount ≠ 0 →
      (after path).height = (before path).height)

/-- What the replica has to know for a signal. Rows of the root may come before the initial reply is handled. -/
def Finds (s : Replica V) (before after : List Nat → Size) : Signal → Prop
  | .rowsInserted parent _ _ => parent = [] ∧ ¬ s.m_initDone ∨ FindsParent config true parent s.m_rootItem before after
  | .rowsRemoved parent _ _ => (parent = [] → s.m_initDone) ∧ FindsParent config false parent s.m_rootItem before after
  | _ => True

namespace Network

/-- The assertions in `onRowsRemoved` and `handleSizeDone` hold. -/
def Asserts (net : Network V) : NetworkEvent V → Prop
  | .receive => ∀ parent start finish view packets, net.packets = (.signal (.rowsRemoved parent start finish), view) :: packets →
      net.replica.onRowsRemoved config parent start finish ≠ .error .assertion
  | .replica .processEvent => ∀ serial parentList size posted,
      net.replica.Handles serial (.size size) (.size parentList) posted → net.replica.processEvent config ≠ .error .assertion
  | _ => True

/-- No request or packet is under way, and no reply is posted. -/
structure Quiet (net : Network V) : Prop where
  packets : net.packets = []
  sent : net.replica.sent = []
  posted : ∀ serial reply, .finished serial reply ∉ net.replica.posted

/-- Items with rows have as many as at the source. -/
def Converged (net : Network V) : Prop :=
  ∀ path item, net.replica.m_rootItem.item? path = some item → item.rowCount ≠ 0 →
    item.rowCount = net.m_model.rowCount (columnZero path)

def TreeConverges (m_model : SourceModel V) (rootCacheSize : Nat) : Prop :=
  ∀ es, Admitted (step config) (Asserts config) (initial config m_model rootCacheSize) es ∧
    ∀ t, exec (step config) (initial config m_model rootCacheSize) es = some t → t.Quiet → t.Converged

/-- When a signal is read the size of its parent is known, and no reply that is posted has a size that changes. When a size
reply is handled the item has no more columns than its index, and a cache reply has rows in column 0 only. -/
def Knows (net : Network V) : NetworkEvent V → Prop
  | .receive => ∀ signal view packets, net.packets = (.signal signal, view) :: packets →
      Finds config net.replica net.view.sizes view.sizes signal ∧
      ∀ serial reply watcher, .finished serial reply ∈ net.replica.posted → net.replica.watcher? serial = some watcher →
        SizesRight net.view.sizes watcher reply → SizesRight view.sizes watcher reply
  | .replica .processEvent => ∀ serial reply watcher posted, net.replica.Handles serial reply watcher posted →
      match watcher, reply with
        | .size parentList, .size _ => ∀ item, net.replica.m_rootItem.item? (rowsOf parentList) = some item →
            item.columnCount ≤ (net.view.sizes (rowsOf parentList)).width
        | .init, .cache entries => AllOf (fun pair => pair.size.height ≠ 0 → InColumnZero pair.index) entries.data
        | _, _ => True
  | _ => True

end Network
end Statement

section Source
variable {V : Type} {config : Config} {m_model : SourceModel V} {change : SourceChange V} {parent index rest : IndexList}
variable {start count : Nat} {p path : List Nat}

@[simp] theorem rowsOf_columnZero (rows : List Nat) : rowsOf (columnZero rows) = rows := by
  rw [rowsOf, columnZero, List.map_map]
  exact List.map_id rows

theorem InColumnZero.eq (inside : InColumnZero parent) : parent = columnZero (rowsOf parent) := by
  rw [columnZero, rowsOf, List.map_map]
  refine (List.map_id parent).symm.trans (List.map_congr_left fun index there => ?_)
  exact congrArg (ModelIndex.mk index.row) (inside index there)

theorem columnZero_append (p path : List Nat) : columnZero (p ++ path) = columnZero p ++ columnZero path := List.map_append

theorem prefix_of_columnZero (within : columnZero p <+: columnZero path) : p <+: path := by
  have rows := within.map ModelIndex.row
  rwa [← rowsOf, ← rowsOf, rowsOf_columnZero, rowsOf_columnZero] at rows

theorem beforeInsertion_append (start count : Nat) (parent rest : IndexList) :
    beforeInsertion start count parent (parent ++ rest) = (beforeInsertion start count [] rest).map (parent ++ ·) := by
  induction parent with
  | nil => exact (congrFun Option.map_id _).symm
  | cons index parent ih =>
    rw [List.cons_append, beforeInsertion, if_pos rfl, ih, Option.map_map]
    rfl

theorem beforeInsertion_other (start count : Nat) (other : ¬ parent <+: index) :
    beforeInsertion start count parent index = some index := by
  induction parent generalizing index with
  | nil => exact absurd List.nil_prefix other
  | cons first parent ih =>
    cases index with
    | nil => rfl
    | cons cell rest =>
      rw [beforeInsertion]
      split
      · rename_i same
        rw [ih fun within => other (List.cons_prefix_cons.mpr ⟨same.symm, within⟩)]
        rfl
      · rfl

theorem beforeRemoval_append (start count : Nat) (parent rest : IndexList) :
    beforeRemoval start count parent (parent ++ rest) = parent ++ beforeRemoval start count [] rest := by
  induction parent with
  | nil => rfl
  | cons index parent ih => rw [List.cons_append, beforeRemoval, if_pos rfl, ih, List.cons_append]

theorem beforeRemoval_other (start count : Nat) (other : ¬ parent <+: index) :
    beforeRemoval start count parent index = index := by
  induction parent generalizing index with
  | nil => exact absurd List.nil_prefix other
  | cons first parent ih =>
    cases index with
    | nil => rfl
    | cons cell rest =>
      rw [beforeRemoval]
      split
      · rename_i same
        rw [ih fun within => other (List.cons_prefix_cons.mpr ⟨same.symm, within⟩)]
      · rfl

/-- Rows are inserted at a path: what the heights were before. -/
structure RowsInserted (p : List Nat) (start n : Nat) (before after : List Nat → Size) : Prop where
  here : (after p).height = (before p).height + n
  above : ∀ row < start, ∀ rest, (after (p ++ row :: rest)).height = (before (p ++ row :: rest)).height
  below : ∀ row, start ≤ row → ∀ rest, (after (p ++ (row + n) :: rest)).height = (before (p ++ row :: rest)).height
  outside : ∀ path, ¬ p <+: path → (after path).height = (before path).height

structure RowsRemoved (p : List Nat) (start n : Nat) (before after : List Nat → Size) : Prop where
  here : (after p).height = (before p).height - n
  below : ∀ row rest, (after (p ++ row :: rest)).height =
    (before (p ++ (if row < start then row else row + n) :: rest)).height
  outside : ∀ path, ¬ p <+: path → (after path).height = (before path).height

/-- What a signal says of the sizes before and behind it. -/
def SizesChange (before : List Nat → Size) : Signal → (List Nat → Size) → Prop
  | .dataChanged .., after => after = before
  | .rowsInserted parent start finish, after => start ≤ finish ∧
      (InColumnZero parent → RowsInserted (rowsOf parent) start (finish + 1 - start) before after)
  | .rowsRemoved parent start finish, after => start ≤ finish ∧ (InColumnZero parent → finish < (before (rowsOf parent)).height ∧
      RowsRemoved (rowsOf parent) start (finish + 1 - start) before after)
  | _, _ => False

theorem insertRows_sizes (after : SourceModel V) (p : List Nat) (start n : Nat) :
    RowsInserted p start n m_model.sizes (m_model.insertRows after (columnZero p) start n).sizes where
  here := if_pos rfl
  above row inside rest := by
    have differs : columnZero (p ++ row :: rest) ≠ columnZero p := by simp [columnZero]
    refine (if_neg differs).trans ?_
    rw [columnZero_append, beforeInsertion_append]
    simp [columnZero, beforeInsertion, inside, SourceModel.sizes]
  below row inside rest := by
    have differs : columnZero (p ++ (row + n) :: rest) ≠ columnZero p := by simp [columnZero]
    refine (if_neg differs).trans ?_
    have far : ¬ row + n < start := by omega
    have far' : ¬ row + n < start + n := by omega
    rw [columnZero_append, beforeInsertion_append]
    simp [columnZero, beforeInsertion, far, far', SourceModel.sizes]
  outside path other := by
    have differs : columnZero path ≠ columnZero p := fun same => other (prefix_of_columnZero (same ▸ List.prefix_rfl))
    refine (if_neg differs).trans ?_
    rw [beforeInsertion_other start n fun within => other (prefix_of_columnZero within)]
    rfl

theorem removeRows_sizes (after : SourceModel V) (p : List Nat) (start n : Nat) :
    RowsRemoved p start n m_model.sizes (m_model.removeRows after (columnZero p) start n).sizes where
  here := if_pos rfl
  below row rest := by
    have differs : columnZero (p ++ row :: rest) ≠ columnZero p := by simp [columnZero]
    refine (if_neg differs).trans ?_
    rw [columnZero_append, beforeRemoval_append]
    by_cases inside : row < start <;> simp [columnZero, beforeRemoval, inside, SourceModel.sizes]
  outside path other := by
    have differs : columnZero path ≠ columnZero p := fun same => other (prefix_of_columnZero (same ▸ List.prefix_rfl))
    refine (if_neg differs).trans ?_
    rw [beforeRemoval_other start n fun within => other (prefix_of_columnZero within)]
    rfl

/-- A change of the source is told by one signal, or it changes no sizes. -/
theorem sizes_change (allowed : m_model.allows change) :
    (∀ signal ∈ (Network.adapter config).emitted change, SizesChange m_model.sizes signal (m_model.apply change).sizes) ∧
      ((Network.adapter config).emitted change = [] → m_model.sizes = (m_model.apply change).sizes) := by
  cases change with
  | dataChanged start finish roles after =>
    refine ⟨fun signal there => ?_, fun _ => rfl⟩
    rw [Adapter.emitted, Adapter.sourceDataChanged] at there
    split at there
    · contradiction
    · obtain rfl := List.mem_singleton.mp there
      rfl
  | rowsInserted parent start finish after =>
    refine ⟨fun signal there => ?_, fun quiet => absurd quiet (List.cons_ne_nil _ _)⟩
    obtain rfl := List.mem_singleton.mp there
    simp only [SourceModel.allows, Bool.and_eq_true, decide_eq_true_eq] at allowed
    refine ⟨allowed.1.2, fun inside => ?_⟩
    rw [SourceModel.apply, inside.eq, rowsOf_columnZero]
    exact insertRows_sizes after _ start _
  | rowsRemoved parent start finish after =>
    refine ⟨fun signal there => ?_, fun quiet => absurd quiet (List.cons_ne_nil _ _)⟩
    obtain rfl := List.mem_singleton.mp there
    simp only [SourceModel.allows, Bool.and_eq_true, decide_eq_true_eq] at allowed
    refine ⟨allowed.1.2, fun inside => ⟨?_, ?_⟩⟩
    · have below := allowed.2
      rw [inside.eq] at below
      exact below
    · rw [SourceModel.apply, inside.eq, rowsOf_columnZero]
      exact removeRows_sizes after _ start _

end Source
section Serving
variable {V : Type} {config : Config} {m_model : SourceModel V} {roles : List Role}

/-- An entry of the tree has the sizes of its index. -/
def EntrySized (m_model : SourceModel V) (pair : IndexValuePair V) : Prop :=
  pair.size = ⟨m_model.columnCount pair.index, m_model.rowCount pair.index⟩

theorem fetchCells_sized {below : IndexList → Nat → List (IndexValuePair V) × Nat} {parent : IndexList}
    (sized : ∀ index size, AllOf (EntrySized m_model) (below index size).1) (cells : List ModelIndex) (size : Nat) :
    AllOf (EntrySized m_model) (m_model.fetchCells roles below parent cells size).1 := by
  induction cells generalizing size with
  | nil => trivial
  | cons cell cells ih =>
    cases size with
    | zero => trivial
    | succ size =>
      have first : AllOf (EntrySized m_model)
          (if m_model.hasChildren (parent ++ [cell]) then below (parent ++ [cell]) size else ([], size)).1 := by
        split
        · exact sized _ _
        · trivial
      exact ⟨⟨rfl, first⟩, ih _⟩

theorem fetchTree_sized (depth : Nat) (parent : IndexList) (size : Nat) :
    AllOf (EntrySized m_model) (m_model.fetchTree roles depth parent size).1 := by
  induction depth generalizing parent size with
  | zero => trivial
  | succ depth ih => exact fetchCells_sized ih _ size

mutual
theorem All.mono₂ {P Q R : IndexValuePair V → Prop} (both : ∀ {pair}, P pair → Q pair → R pair) :
    ∀ {pair : IndexValuePair V}, All P pair → All Q pair → All R pair
  | ⟨_, _, _, _, _, _⟩, first, second => ⟨both first.1 second.1, AllOf.mono₂ both first.2 second.2⟩

theorem AllOf.mono₂ {P Q R : IndexValuePair V → Prop} (both : ∀ {pair}, P pair → Q pair → R pair) :
    ∀ {pairs : List (IndexValuePair V)}, AllOf P pairs → AllOf Q pairs → AllOf R pairs
  | [], _, _ => trivial
  | _ :: _, first, second => ⟨All.mono₂ both first.1 second.1, AllOf.mono₂ both first.2 second.2⟩
end

theorem entrySized_sizes {pair : IndexValuePair V} (sized : EntrySized m_model pair) (inside : InColumnZero pair.index) :
    pair.size = m_model.sizes (rowsOf pair.index) := by
  rw [sized, SourceModel.sizes, ← inside.eq]

theorem replicaSizeRequest_sizes {parentList : IndexList} {size : Size} (inside : InColumnZero parentList)
    (served : Adapter.replicaSizeRequest m_model parentList = .ok size) : size = m_model.sizes (rowsOf parentList) := by
  obtain ⟨parent, resolved, same⟩ := bind_ok.mp served
  obtain ⟨_, rfl⟩ := toQModelIndex_ok.mp resolved
  cases same
  rw [SourceModel.sizes, ← inside.eq]

/-- A reply is made from the sizes of the model. -/
theorem serve_sizes {request : Request V} {watcher : Watcher} {reply : Reply V} (asks : Replica.Asks request watcher)
    (served : (Network.adapter config).serve m_model request = .ok (some reply)) : SizesRight m_model.sizes watcher reply := by
  have whole : ∀ {size roles}, AllOf (fun pair : IndexValuePair V => InColumnZero pair.index → pair.size = m_model.sizes (rowsOf pair.index))
      ((Network.adapter config).replicaCacheRequest m_model size roles).data :=
    AllOf.mono₂ (fun sized _ => entrySized_sizes sized) (fetchTree_sized _ _ _) (AllOf.of_forall (Q := fun _ => True) (fun _ => trivial) _)
  cases request with
  | size parentList =>
    obtain ⟨size, made, same⟩ := bind_ok.mp served
    cases same
    cases watcher with
    | size other =>
      obtain ⟨rfl, inside⟩ := asks
      exact replicaSizeRequest_sizes inside made
    | init | reset =>
      obtain rfl : parentList = [] := asks
      exact replicaSizeRequest_sizes (fun _ there => absurd there List.not_mem_nil) made
    | row | header | layout => exact absurd asks id
  | cache size roles =>
    cases served
    cases watcher with
    | init | reset | layout => exact ⟨rfl, whole⟩
    | size | row | header => exact absurd asks id
  | row start finish roles =>
    cases watcher with
    | row => trivial
    | init | reset | size | header | layout => exact absurd asks id
  | header orientations sections roles =>
    cases watcher with
    | header => trivial
    | init | reset | size | row | layout => exact absurd asks id
  | setData | setCurrentIndex => cases watcher <;> exact absurd asks id

end Serving

section Items
variable {V : Type} {config : Config} {before after sizes : List Nat → Size} {c d : CacheData V} {p : List Nat}
variable {nodesCacheSize start finish : Nat} {P : List Nat → ItemData V → Prop}
open CacheData

/-- No rows are known for the item, or those of the source. -/
def Agrees (sizes : List Nat → Size) (path : List Nat) (item : ItemData V) : Prop :=
  item.rowCount = 0 ∨ item.rowCount = (sizes path).height

/-- What is cached before the initial reply. -/
def Blank : List Nat → ItemData V → Prop
  | [], item => item.columnCount = 0
  | _ :: _, item => item.rowCount = 0

/-- What is cached, by whether the initial reply is handled. -/
def Cached (sizes : List Nat → Size) (done : Bool) : List Nat → ItemData V → Prop := if done then Agrees sizes else Blank

theorem blank_empty (path : List Nat) : Blank path (.empty : ItemData V) := by cases path <;> rfl

theorem agrees_inserted (agrees : Everywhere (Agrees before) c) (changes : RowsInserted p start (finish + 1 - start) before after)
    (known : ∀ item, c.item? p = some item → item.rowCount ≠ 0 ∨ (before p).height = 0)
    (modified : c.modify (insertChildren nodesCacheSize start finish) p = .ok d) : Everywhere (Agrees after) d := by
  obtain ⟨top, next, found, inserts, inside, outside⟩ := modify_spec modified
  obtain ⟨_, inserted⟩ := insertChildren_spec inserts
  have old : ∀ rest item, top.item? rest = some item → Agrees before (p ++ rest) item := by
    intro rest item there
    apply agrees
    rw [item?_append, found]
    exact there
  intro path item there
  by_cases within : p <+: path
  · obtain ⟨rest, rfl⟩ := within
    rw [inside] at there
    cases rest with
    | nil =>
      obtain rfl := Option.some.inj there
      rw [List.append_nil]
      have cached : c.item? p = some top.item := by rw [item?, found]; rfl
      refine .inr (inserted.rowCount.trans ?_)
      rw [changes.here]
      have same := agrees p top.item cached
      have none := known top.item cached
      rw [Agrees] at same
      omega
    | cons row rest =>
      obtain ⟨above, there⟩ | ⟨_, _, rfl, rfl⟩ | ⟨below, there⟩ := inserted.below there
      · rw [Agrees, changes.above row above]
        exact old _ item there
      · exact .inl rfl
      · have moved := changes.below (row - (finish + 1 - start)) (by omega) rest
        rw [Nat.sub_add_cancel (by omega)] at moved
        rw [Agrees, moved]
        exact old _ item there
  · rw [Agrees, changes.outside path within]
    rw [outside path within] at there
    exact agrees path item there

theorem agrees_removed (agrees : Everywhere (Agrees before) c) (changes : RowsRemoved p start (finish + 1 - start) before after)
    (removed : c.modifyCached (removeChildren start finish) p = .ok d)
    (known : ∀ item, c.item? p = some item → item.rowCount ≠ 0 ∨ (before p).height = 0) : Everywhere (Agrees after) d := by
  rw [modifyCached] at removed
  split at removed
  · obtain ⟨top, next, found, removes, inside, outside⟩ := modify_spec removed
    obtain ⟨_, rows⟩ := removeChildren_spec removes
    intro path item there
    by_cases within : p <+: path
    · obtain ⟨rest, rfl⟩ := within
      rw [inside] at there
      cases rest with
      | nil =>
        obtain rfl := Option.some.inj there
        rw [List.append_nil, rows.item]
        have cached : c.item? p = some top.item := by rw [item?, found]; rfl
        have same := agrees p top.item cached
        have none := known top.item cached
        rw [Agrees] at same ⊢
        rw [changes.here]
        dsimp only
        omega
      | cons row rest =>
        rw [Agrees, changes.below]
        apply agrees
        rw [item?_append, found]
        exact (rows.below row rest).symm.trans there
    · rw [Agrees, changes.outside path within]
      rw [outside path within] at there
      exact agrees path item there
  · rename_i missing
    cases removed
    intro path item there
    rw [Agrees, changes.outside]
    · exact agrees path item there
    · rintro ⟨rest, rfl⟩
      rw [item?_append] at there
      obtain ⟨_, found, _⟩ := Option.bind_eq_some_iff.mp there
      rw [found] at missing
      contradiction

/-- Clearing cells changes no sizes. -/
theorem everywhere_clearRows (keeps : ∀ {path item entries}, P path item → P path { item with cachedRowEntry := entries })
    {startColumn lastColumn : Nat} {roles : List Role} {rows : List Nat} (all : Everywhere P c)
    (cleared : Replica.clearRows startColumn lastColumn roles rows c = .ok d) : Everywhere P d := by
  induction rows generalizing c with
  | nil =>
    cases cleared
    exact all
  | cons row rows ih =>
    rw [Replica.clearRows] at cleared
    split at cleared
    · split at cleared
      · exact ih all cleared
      · rename_i child found
        obtain ⟨entries, _, cleared⟩ := bind_ok.mp cleared
        refine ih ?_ cleared
        intro path item there
        cases path with
        | nil => exact all [] item there
        | cons key path =>
          rw [item?_cons, setChild_find?] at there
          split at there
          · rename_i same
            subst same
            have below : ∀ {path item}, child.item? path = some item → P (key :: path) item := by
              intro path item there
              apply all
              rw [item?_cons, found]
              exact there
            cases path with
            | nil =>
              obtain rfl := Option.some.inj there
              exact keeps (below rfl)
            | cons next path => exact below there
          · apply all
            rw [item?_cons]
            exact there
    · contradiction

theorem everywhere_onDataChanged (keeps : ∀ {path item entries}, P path item → P path { item with cachedRowEntry := entries })
    (empty : ∀ path, path ≠ [] → P path .empty) {s t : Replica V} {first last : IndexList} {roles : List Role}
    (all : Everywhere P s.m_rootItem) (handled : s.onDataChanged config first last roles = .ok t) :
    Everywhere P t.m_rootItem ∧ t.m_initDone = s.m_initDone := by
  obtain ⟨_, middle, root, data, clears, refreshes, _, same⟩ := Replica.onDataChanged_ok handled
  have cleared : Everywhere P middle := by
    obtain ⟨inner, refreshes, ⟨_, rfl⟩ | ⟨_, _, _, _, modified⟩⟩ := Replica.clearCache_ok clears
    · exact all.refreshes empty refreshes
    · refine (all.refreshes empty refreshes).modify modified fun found changed => ?_
      refine everywhere_clearRows keeps ?_ changed
      intro path item there
      apply all.refreshes empty refreshes
      rw [item?_append, found]
      exact there
  obtain rfl | rfl := same
  all_goals exact ⟨cleared.refreshes empty refreshes, rfl⟩

end Items
section Handlers
variable {V : Type} {config : Config} {before after sizes : List Nat → Size} {s t : Replica V} {e : ReplicaEvent V} {serial : Nat}
open CacheData Replica

theorem agrees_empty (path : List Nat) : Agrees sizes path (.empty : ItemData V) := .inl rfl

/-- The slots of signals for rows and data, where the sizes are known. -/
theorem agrees_signal {signal : Signal} (agrees : Everywhere (Agrees before) s.m_rootItem) (done : s.m_initDone)
    (changes : SizesChange before signal after) (finds : Finds config s before after signal)
    (handled : s.onSignal config signal = .ok t) : Everywhere (Agrees after) t.m_rootItem ∧ t.m_initDone = s.m_initDone := by
  have unfound : ∀ {middle}, Refreshes s.m_rootItem middle → (∀ path item, s.m_rootItem.item? path = some item →
      item.rowCount ≠ 0 → (after path).height = (before path).height) → Everywhere (Agrees after) middle := by
    intro middle refreshes same path item there
    obtain old | ⟨_, rfl⟩ := refreshes.below there
    · by_cases none : item.rowCount = 0
      · exact .inl none
      · rw [Agrees, same path item old none]
        exact agrees path item old
    · exact .inl rfl
  cases signal with
  | dataChanged start finish roles =>
    have same : after = before := changes
    rw [same]
    exact everywhere_onDataChanged id (fun _ _ => agrees_empty _) agrees handled
  | rowsInserted parent start finish =>
    have finds : FindsParent config true parent s.m_rootItem before after := finds.resolve_left fun early => early.2 done
    obtain ⟨ok, middle, resolved, ⟨rfl, rfl⟩ | ⟨rfl, root, modified, rfl⟩⟩ := onRowsInserted_ok handled
    · exact ⟨unfound (.resolve resolved) ((finds _ _ resolved).2 rfl), rfl⟩
    · obtain ⟨inside, known⟩ := (finds _ _ resolved).1 rfl
      have refreshed := agrees.refreshes (fun _ _ => agrees_empty _) (.resolve resolved)
      exact ⟨agrees_inserted refreshed (changes.2 inside) known modified, rfl⟩
  | rowsRemoved parent start finish =>
    obtain ⟨ok, middle, resolved, ⟨rfl, rfl⟩ | ⟨rfl, root, modified, _, rfl⟩⟩ := onRowsRemoved_ok handled
    · exact ⟨unfound (.toQModelIndex resolved) ((finds.2 _ _ resolved).2 rfl), rfl⟩
    · obtain ⟨inside, known⟩ := (finds.2 _ _ resolved).1 rfl
      have refreshed := agrees.refreshes (fun _ _ => agrees_empty _) (.toQModelIndex resolved)
      exact ⟨agrees_removed refreshed (changes.2 inside).2 modified known, rfl⟩
  | columnsInserted | headerDataChanged | modelReset | layoutChanged => exact absurd changes id

/-- Nothing is found below a root without columns. -/
theorem resolve_blank {ensureItem ok : Bool} {nodesCacheSize : Nat} {c d : CacheData V} {parent : IndexList}
    (blank : c.item.columnCount = 0) (nested : parent ≠ [])
    (resolved : c.resolve nodesCacheSize ensureItem true parent = .ok (ok, d)) : ok = false := by
  cases parent with
  | nil => exact absurd rfl nested
  | cons index rest =>
    obtain ⟨first, ensured, ⟨_, invalid, _⟩ | ⟨⟨_, inside⟩, _⟩⟩ := resolve_cons resolved
    · exact invalid
    · rw [(Refreshes.ensureWhen ensured).top, blank] at inside
      contradiction

theorem blank_signal {signal : Signal} (blank : Everywhere Blank s.m_rootItem) (early : ¬ s.m_initDone)
    (changes : SizesChange before signal after) (finds : Finds config s before after signal)
    (handled : s.onSignal config signal = .ok t) : Everywhere Blank t.m_rootItem ∧ t.m_initDone = s.m_initDone := by
  have top : s.m_rootItem.item.columnCount = 0 := blank [] _ rfl
  cases signal with
  | dataChanged start finish roles =>
    refine everywhere_onDataChanged ?_ (fun path _ => blank_empty path) blank handled
    intro path item entries
    cases path <;> exact id
  | rowsInserted parent start finish =>
    obtain ⟨ok, middle, resolved, ⟨rfl, rfl⟩ | ⟨rfl, root, modified, rfl⟩⟩ := onRowsInserted_ok handled
    · exact ⟨blank.refreshes (fun path _ => blank_empty path) (.resolve resolved), rfl⟩
    · obtain rfl : parent = [] := by
        by_contra nested
        exact Bool.noConfusion (resolve_blank top nested resolved)
      cases resolved
      obtain ⟨_, inserted⟩ := insertChildren_spec modified
      refine ⟨fun path item there => ?_, rfl⟩
      cases path with
      | nil =>
        obtain rfl := Option.some.inj there
        exact inserted.columnCount.trans top
      | cons row rest =>
        obtain ⟨_, there⟩ | ⟨_, _, rfl, rfl⟩ | ⟨_, there⟩ := inserted.below there
        · exact blank (row :: rest) item there
        · rfl
        · have none := blank _ item there
          exact none
  | rowsRemoved parent start finish =>
    obtain ⟨ok, middle, resolved, ⟨rfl, rfl⟩ | ⟨rfl, _⟩⟩ := onRowsRemoved_ok handled
    · exact ⟨blank.refreshes (fun path _ => blank_empty path) (.toQModelIndex resolved), rfl⟩
    · have nested : parent ≠ [] := fun root => early (finds.1 root)
      exact Bool.noConfusion (resolve_blank top nested resolved)
  | columnsInserted | headerDataChanged | modelReset | layoutChanged => exact absurd changes id

/-- A reply for all of the model. -/
theorem fetched_agrees {reply : Reply V} {size : Size} {root : CacheData V} (fetched : Fetched config s.m_rootItem reply size root)
    (right : SizesRight sizes .init reply)
    (columns : ∀ entries, reply = .cache entries → AllOf (fun pair => pair.size.height ≠ 0 → InColumnZero pair.index) entries.data) :
    Everywhere (Agrees sizes) root := by
  have reset : ∀ {size}, size = sizes [] → Everywhere (Agrees sizes) (resetRoot size s.m_rootItem) := by
    rintro _ rfl path item there
    cases path with
    | nil =>
      obtain rfl := Option.some.inj there
      exact .inr rfl
    | cons row rest => contradiction
  cases fetched with
  | rootSize size action => exact reset right
  | @prefetch entries root action filled =>
    have each : AllOf (fun pair => pair.size.height = 0 ∨ pair.size.height = (sizes (rowsOf pair.index)).height) entries.data := by
      refine AllOf.mono₂ (fun {pair} sized column => ?_) right.2 (columns entries rfl)
      by_cases none : pair.size.height = 0
      · exact .inl none
      · exact .inr (congrArg Size.height (sized (column none)))
    exact Everywhere.fillCaches (fun _ _ => agrees_empty _) (fun sized _ _ _ => sized) (reset right.1) each filled

theorem requestedData_everywhere {P : List Nat → ItemData V → Prop} {start finish : IndexList} {roles : List Role}
    {entries : List (IndexValuePair V)} (empty : ∀ path, path ≠ [] → P path .empty)
    (keeps : ∀ {path item hasChildren entries}, P path item → P path { item with hasChildren, cachedRowEntry := entries })
    (all : Everywhere P s.m_rootItem) (handled : s.requestedData config serial start finish roles entries = .ok t) :
    Everywhere P t.m_rootItem ∧ t.m_initDone = s.m_initDone := by
  obtain ⟨middle, item, resolved, _, ⟨_, rfl⟩ | ⟨filled, root, fill, refreshes, rfl⟩⟩ := requestedData_ok handled
  · exact ⟨all.refreshes empty ((Refreshes.validQModelIndex resolved).trans (.touch _ _)), rfl⟩
  · have first := all.refreshes empty ((Refreshes.validQModelIndex resolved).trans (.touch (rowsOf start.dropLast) middle))
    refine ⟨Everywhere.refreshes (first.fillRows empty ?_ fill) empty refreshes, rfl⟩
    intro pair _ item last after _ here filled
    obtain ⟨_, _, rfl⟩ := fillItem_ok filled
    exact keeps here

theorem handleSizeDone_agrees {parentList : IndexList} {size : Size} (agrees : Everywhere (Agrees sizes) s.m_rootItem)
    (right : size = sizes (rowsOf parentList)) (handled : s.handleSizeDone config serial parentList size = .ok t) :
    Everywhere (Agrees sizes) t.m_rootItem ∧ t.m_initDone = s.m_initDone := by
  obtain ⟨middle, root, refreshes, modified, rfl⟩ := handleSizeDone_ok handled
  refine ⟨(agrees.refreshes (fun _ _ => agrees_empty _) refreshes).mapItem modified ?_, rfl⟩
  intro item after _ made
  subst right
  rw [sizeDone] at made
  split at made
  · contradiction
  · split at made
    · cases made
      exact .inr rfl
    · split at made
      · rename_i same
        cases made
        exact .inr same
      · contradiction

theorem modify_error {f : CacheData V → Except Failure (CacheData V)} {rows : List Nat} {c : CacheData V} {failure : Failure}
    (failed : c.modify f rows = .error failure) :
    failure = .nullItem ∨ ∃ before, c.find? rows = some before ∧ f before = .error failure := by
  induction rows generalizing c with
  | nil => exact .inr ⟨c, rfl, failed⟩
  | cons row rows ih =>
    rw [CacheData.modify] at failed
    split at failed
    · exact .inl (Except.error.inj failed).symm
    · rename_i child found
      obtain failed | ⟨_, _, impossible⟩ := bind_error.mp failed
      · refine (ih failed).imp_right ?_
        rintro ⟨before, there, failed⟩
        refine ⟨before, ?_, failed⟩
        rw [find?_cons, found]
        exact there
      · contradiction

theorem validQModelIndex_assertion {nodesCacheSize : Nat} {c : CacheData V} {list : IndexList} :
    c.validQModelIndex nodesCacheSize list ≠ .error .assertion := by
  intro failed
  obtain failed | ⟨_, _, failed⟩ := bind_error.mp failed
  · exact (resolve_error failed).elim nofun nofun
  · dsimp only at failed
    split at failed <;> cases failed

/-- What is asserted of a size reply holds where the item has no more columns than the reply. -/
theorem handleSizeDone_asserts {parentList : IndexList} {size : Size} (agrees : Everywhere (Agrees sizes) s.m_rootItem)
    (right : size = sizes (rowsOf parentList))
    (columns : ∀ item, s.m_rootItem.item? (rowsOf parentList) = some item → item.columnCount ≤ size.width) :
    s.handleSizeDone config serial parentList size ≠ .error .assertion := by
  intro failed
  obtain failed | ⟨first, resolved, rest⟩ := bind_error.mp failed
  · exact validQModelIndex_assertion failed
  · obtain failed | ⟨second, again, rest⟩ := bind_error.mp rest
    · exact validQModelIndex_assertion failed
    · split at rest
      · cases rest
      · obtain failed | ⟨_, _, impossible⟩ := bind_error.mp rest
        · obtain null | ⟨top, found, failed⟩ := modify_error failed
          · contradiction
          · obtain failed | ⟨_, _, impossible⟩ := bind_error.mp failed
            · have refreshes := (Refreshes.validQModelIndex resolved).trans ((Refreshes.touch (rowsOf parentList) first).trans
                (.validQModelIndex again))
              have cached : second.item? (rowsOf parentList) = some top.item := by rw [item?, found]; rfl
              have same := agrees.refreshes (fun _ _ => agrees_empty _) refreshes _ _ cached
              have width : top.item.columnCount ≤ size.width := by
                obtain old | ⟨_, empty⟩ := refreshes.below cached
                · exact columns _ old
                · rw [empty]
                  exact Nat.zero_le _
              rw [Agrees, ← right] at same
              rw [sizeDone] at failed
              split at failed
              · omega
              · split at failed
                · contradiction
                · split at failed
                  · contradiction
                  · omega
            · contradiction
        · contradiction

theorem onRowsRemoved_asserts {parent : IndexList} {start finish : Nat} (agrees : Everywhere (Agrees before) s.m_rootItem)
    (changes : SizesChange before (.rowsRemoved parent start finish) after)
    (finds : FindsParent config false parent s.m_rootItem before after) :
    s.onRowsRemoved config parent start finish ≠ .error .assertion := by
  intro failed
  obtain failed | ⟨⟨ok, middle⟩, resolved, rest⟩ := bind_error.mp failed
  · exact (resolve_error failed).elim nofun nofun
  · dsimp only at rest
    split at rest
    · contradiction
    · rename_i present
      obtain rfl : ok = true := by simpa using present
      obtain ⟨inside, known⟩ := (finds _ _ resolved).1 rfl
      obtain failed | ⟨_, _, rest⟩ := bind_error.mp rest
      · rw [modifyCached] at failed
        split at failed
        · obtain null | ⟨top, found, failed⟩ := modify_error failed
          · contradiction
          · have cached : middle.item? (rowsOf parent) = some top.item := by rw [item?, found]; rfl
            have same := agrees.refreshes (fun _ _ => agrees_empty _) (.toQModelIndex resolved) _ _ cached
            have below := (changes.2 inside).1
            have rows := known top.item cached
            have ordered := changes.1
            rw [Agrees] at same
            rw [removeChildren, if_pos (by omega)] at failed
            contradiction
        · contradiction
      · split at rest <;> cases rest

end Handlers

section Runs
variable {V : Type} {config : Config} {net next s t : Network V} {e : NetworkEvent V}
open Replica Network

/-- No watcher is for a reset or a layout change. -/
def Watcher.Plain : Watcher → Prop
  | .reset | .layout _ => False
  | _ => True

/-- The initial reply is under way. -/
def Network.Awaits (net : Network V) : Prop :=
  ∃ serial, net.replica.watcher? serial = some .init ∧
    (serial ∈ net.replica.m_pendingCalls ∧ (serial ∈ net.replica.sent.map Prod.fst ∨
      ∃ reply view, (.reply serial reply, view) ∈ net.packets) ∨ ∃ reply, .finished serial reply ∈ net.replica.posted)

/-- What a step of the replica leaves of a request that it waits for. -/
structure Waits (serial : Nat) (s t : Replica V) : Prop where
  watcher : s.watcher? serial = some .init → t.watcher? serial = some .init
  m_pendingCalls : serial ∈ s.m_pendingCalls → serial ∈ t.m_pendingCalls
  sent : serial ∈ s.sent.map Prod.fst → serial ∈ t.sent.map Prod.fst
  posted : ∀ reply, .finished serial reply ∈ s.posted → .finished serial reply ∈ t.posted

variable {r u : Replica V} {serial : Nat}

theorem Waits.request (waits : Waits serial r u) (call : Request V) (watcher : Watcher) : Waits serial r (u.request call watcher) where
  watcher there := by
    have found := waits.watcher there
    rw [Replica.watcher?, Option.map_eq_some_iff] at found ⊢
    obtain ⟨entry, found, same⟩ := found
    refine ⟨entry, ?_, same⟩
    rw [Replica.request, List.find?_append, found]
    rfl
  m_pendingCalls there := List.mem_append_left _ (waits.m_pendingCalls there)
  sent there := by
    rw [Replica.request, List.map_append]
    exact List.mem_append_left _ (waits.sent there)
  posted := waits.posted

theorem Waits.pendingRequest (waits : Waits serial r u) (call : Request V) (watcher : Watcher) :
    Waits serial r (u.pendingRequest call watcher) :=
  ⟨(waits.request call watcher).watcher, (waits.request call watcher).m_pendingCalls, (waits.request call watcher).sent,
    (waits.request call watcher).posted⟩

theorem waits_step {e : ReplicaEvent V} (plain : e ≠ .receive (.signal .modelReset) ∧
      ∀ parents, e ≠ .receive (.signal (.layoutChanged parents)))
    (other : ∀ reply, e ≠ .receive (.reply serial reply)) (here : r.watcher? serial = some .init)
    (head : r.step config e = some u) :
    Waits serial r u ∨ ∃ reply posted, e = .processEvent ∧ r.Handles serial reply .init posted := by
  obtain ⟨v, queued, same⟩ := handle_queues (step_handle head)
  have behind : ∀ {event : Posted V} {posted}, r.posted = event :: posted → (∀ reply, event ≠ .finished serial reply) →
      Waits serial r { r with posted } := by
    intro event posted first differs
    refine ⟨id, id, id, fun reply there => ?_⟩
    rw [first] at there
    obtain rfl | later := List.mem_cons.mp there
    · exact absurd rfl (differs reply)
    · exact later
  suffices first : Waits serial r v ∨ ∃ reply posted, e = .processEvent ∧ r.Handles serial reply .init posted by
    refine first.imp_left fun waits => ⟨?_, ?_, ?_, ?_⟩
    · rw [Replica.watcher?, Replica.watcher?, same.watchers]
      exact waits.watcher
    · rw [same.m_pendingCalls]
      exact waits.m_pendingCalls
    · rw [same.sent]
      exact waits.sent
    · rw [same.posted]
      exact waits.posted
  cases queued with
  | still => exact .inl ⟨id, id, id, fun _ => id⟩
  | fetch | fetchHeader => exact .inl ⟨id, id, id, fun _ there => List.mem_append_left _ there⟩
  | reset done => exact absurd rfl plain.1
  | layout parents => exact absurd rfl (plain.2 parents)
  | reply number reply =>
    left
    have differs : number ≠ serial := fun same => other reply (same ▸ rfl)
    obtain same | ⟨_, same⟩ | ⟨_, _, same⟩ := r.notifyAboutReply_cases number reply
    · rw [same]
      exact ⟨id, id, id, fun _ => id⟩
    · rw [same]
      exact ⟨id, fun there => List.mem_filter.mpr ⟨there, decide_eq_true differs.symm⟩, id, fun _ => id⟩
    · rw [same]
      exact ⟨id, fun there => List.mem_filter.mpr ⟨there, decide_eq_true differs.symm⟩, id,
        fun _ there => List.mem_append_left _ there⟩
  | size ends cached unknown => exact .inl (Waits.request ⟨id, id, id, fun _ => id⟩ _ _)
  | fetchPendingData first =>
    have rest := behind first (by rintro _ ⟨⟩)
    exact .inl (fetchPendingData_keeps (P := Waits serial r) ⟨rest.watcher, rest.m_pendingCalls, rest.sent, rest.posted⟩
      (fun _ good => good.pendingRequest _ _) rest)
  | fetchPendingHeaderData first =>
    have rest := behind first (by rintro _ ⟨⟩)
    refine .inl (Waits.pendingRequest ?_ _ _)
    exact ⟨rest.watcher, rest.m_pendingCalls, rest.sent, rest.posted⟩
  | dropped first gone =>
    refine .inl (behind first fun reply same => ?_)
    cases same
    rw [here] at gone
    contradiction
  | @finished posted number reply watcher handles =>
    by_cases same : number = serial
    · subst same
      obtain rfl := Option.some.inj (here.symm.trans handles.watcher)
      exact .inr ⟨reply, posted, rfl, handles⟩
    · left
      have rest := behind handles.first fun reply equal => same (Posted.finished.inj equal).1
      refine ⟨fun there => ?_, id, id, fun reply there => List.mem_filter.mpr ⟨rest.posted reply there, ?_⟩⟩
      · obtain ⟨entry, found, equal⟩ := Option.map_eq_some_iff.mp there
        refine Option.map_eq_some_iff.mpr ⟨entry, ?_, equal⟩
        refine Eq.trans ?_ found
        rw [release, deleteWatcher, List.find?_filter]
        congr 1
        funext other
        by_cases listed : other.1 = serial <;> simp [listed, Ne.symm same]
      · simp [Posted.of, Ne.symm same]
  | left handles without =>
    refine .inl (behind handles.first fun reply same => ?_)
    cases same
    have impossible := here.symm.trans handles.watcher
    cases impossible

theorem cached_empty {sizes : List Nat → Size} (done : Bool) (path : List Nat) : Cached sizes done path (.empty : ItemData V) := by
  cases done with
  | false => exact blank_empty path
  | true => exact agrees_empty path

theorem cached_signal {before after : List Nat → Size} {signal : Signal} (cached : Everywhere (Cached before r.m_initDone) r.m_rootItem)
    (changes : SizesChange before signal after) (finds : Finds config r before after signal)
    (handled : r.onSignal config signal = .ok u) :
    Everywhere (Cached after u.m_initDone) u.m_rootItem ∧ u.m_initDone = r.m_initDone := by
  cases done : r.m_initDone with
  | false =>
    rw [done] at cached
    obtain ⟨blank, same⟩ := blank_signal cached (ne_true_of_eq_false done) changes finds handled
    rw [same, done]
    exact ⟨blank, rfl⟩
  | true =>
    rw [done] at cached
    obtain ⟨agrees, same⟩ := agrees_signal cached done changes finds handled
    rw [same, done]
    exact ⟨agrees, rfl⟩

/-- What the handler of a reply makes of the sizes. -/
theorem cached_finished {sizes : List Nat → Size} {watcher : Watcher} {reply : Reply V}
    (cached : Everywhere (Cached sizes r.m_initDone) r.m_rootItem) (plain : watcher.Plain)
    (nested : ∀ parentList, watcher = .size parentList → parentList ≠ []) (right : SizesRight sizes watcher reply)
    (columns : ∀ entries, watcher = .init → reply = .cache entries →
      AllOf (fun pair => pair.size.height ≠ 0 → InColumnZero pair.index) entries.data)
    (handled : r.onFinished config serial watcher reply = .ok u) :
    Everywhere (Cached sizes u.m_initDone) u.m_rootItem ∧ (r.m_initDone → u.m_initDone) ∧ (watcher = .init → u.m_initDone) := by
  have empty : ∀ path, path ≠ [] → Cached sizes r.m_initDone path (.empty : ItemData V) := fun path _ => cached_empty _ path
  cases watcher with
  | init =>
    obtain ⟨v, reset, rfl⟩ := handleInitDone_ok handled
    obtain ⟨size, root, fetched, rfl⟩ := handleModelResetDone_ok reset
    exact ⟨fetched_agrees fetched right fun entries same => columns entries rfl same, fun _ => rfl, fun _ => rfl⟩
  | size parentList =>
    cases reply with
    | size size =>
      cases done : r.m_initDone with
      | false =>
        rw [done] at cached
        obtain ⟨middle, resolved, _⟩ := bind_ok.mp handled
        have found := resolve_blank (cached [] _ rfl) (nested parentList rfl) (validQModelIndex_ok.mp resolved)
        contradiction
      | true =>
        rw [done] at cached
        obtain ⟨agrees, same⟩ := handleSizeDone_agrees cached right handled
        rw [same, done]
        exact ⟨agrees, id, nofun⟩
    | entries | header | cache => contradiction
  | row start finish roles =>
    cases reply with
    | entries entries =>
      have keeps : ∀ {path} {item : ItemData V} {hasChildren} {entries : List (CacheEntry V)}, Cached sizes r.m_initDone path item →
          Cached sizes r.m_initDone path { item with hasChildren, cachedRowEntry := entries } := by
        intro path item hasChildren entries
        cases r.m_initDone with
        | false => cases path <;> exact id
        | true => exact id
      obtain ⟨all, same⟩ := requestedData_everywhere empty keeps cached handled
      rw [same]
      exact ⟨all, id, nofun⟩
    | size | header | cache => contradiction
  | header orientations sections roles =>
    cases reply with
    | header data =>
      obtain ⟨_, rfl, _⟩ := requestedHeaderData_ok handled
      exact ⟨cached, id, nofun⟩
    | size | entries | cache => contradiction
  | reset | layout => exact absurd plain id

/-- The sizes that are cached are those up to where the replica has read, or the initial reply is still to come. -/
structure Following (net : Network V) : Prop where
  wired : Wired SourceModel.sizes SizesChange SizesRight net
  nested : SizesNested net.replica
  plain : ∀ watcher ∈ net.replica.watchers, watcher.2.Plain
  cached : Everywhere (Cached net.view.sizes net.replica.m_initDone) net.replica.m_rootItem
  awaits : net.replica.m_initDone = false → net.Awaits

theorem knows_lawful (knows : net.Knows config e) : Lawful SourceModel.sizes SizesChange SizesRight config net e where
  changes change _ allowed := sizes_change allowed
  serves request watcher reply _ asks served := serve_sizes asks served
  timely signal view packets same first := by
    subst same
    exact (knows signal view packets first).2

theorem Following.right (following : Following net) {serial : Nat} {reply : Reply V} {watcher : Watcher}
    {posted : List (Posted V)} (handles : net.replica.Handles serial reply watcher posted) :
    SizesRight net.view.sizes watcher reply := by
  refine (following.wired.posted serial reply ?_).2 watcher handles.watcher
  rw [handles.first]
  exact List.mem_cons_self

theorem Following.changes (following : Following net) {signal : Signal} {view : SourceModel V}
    {packets : List (Packet V × SourceModel V)} (first : net.packets = (.signal signal, view) :: packets) :
    SizesChange net.view.sizes signal view.sizes := by
  have follows := following.wired.follows
  rw [first] at follows
  exact follows.1

theorem Following.finished (following : Following net) (knows : net.Knows config (.replica .processEvent)) {reply : Reply V}
    {watcher : Watcher} {posted : List (Posted V)} (handles : net.replica.Handles serial reply watcher posted)
    (handled : onFinished config { net.replica with posted } serial watcher reply = .ok u) :
    Everywhere (Cached net.view.sizes u.m_initDone) u.m_rootItem ∧ (net.replica.m_initDone → u.m_initDone) ∧
      (watcher = .init → u.m_initDone) := by
  have listed := watcher?_mem handles.watcher
  refine cached_finished (r := { net.replica with posted }) following.cached (following.plain _ listed) ?_
    (following.right handles) ?_ handled
  · rintro parentList rfl
    exact following.nested serial parentList listed
  · rintro entries rfl rfl
    exact knows serial _ _ posted handles

/-- What the replica does besides reading a signal. -/
theorem Following.inner (following : Following net) {e : ReplicaEvent V} (head : net.replica.step config e = some u)
    (other : ∀ signal, e ≠ .receive (.signal signal)) (knows : e = .processEvent → net.Knows config (.replica .processEvent)) :
    Everywhere (Cached net.view.sizes u.m_initDone) u.m_rootItem ∧ (net.replica.m_initDone → u.m_initDone) := by
  obtain ⟨refreshes, _, done⟩ | ⟨number, reply, watcher, posted, rfl, handles, handled⟩ := step_root head other
  · rw [done]
    exact ⟨following.cached.refreshes (fun path _ => cached_empty _ path) refreshes, id⟩
  · obtain ⟨cached, later, _⟩ := following.finished (knows rfl) handles handled
    exact ⟨cached, later⟩

theorem plain_step {e : ReplicaEvent V} (all : ∀ watcher ∈ r.watchers, watcher.2.Plain) (head : r.step config e = some u)
    (plain : e ≠ .receive (.signal .modelReset) ∧ ∀ parents, e ≠ .receive (.signal (.layoutChanged parents))) : ∀ watcher ∈ u.watchers, watcher.2.Plain :=
  watchers_step (P := Watcher.Plain) all plain (fun _ _ _ => trivial) (fun _ => trivial) (fun _ _ _ => trivial) head

theorem Network.Awaits.replica (awaits : net.Awaits) {e : ReplicaEvent V} (head : net.replica.step config e = some u)
    (other : ∀ packet, e ≠ .receive packet)
    (unfinished : ∀ serial reply posted, e = .processEvent → ¬ net.replica.Handles serial reply .init posted) :
    Network.Awaits { net with replica := u } := by
  obtain ⟨serial, here, waiting⟩ := awaits
  obtain waits | ⟨reply, posted, same, handles⟩ := waits_step ⟨other _, fun _ => other _⟩ (fun _ => other _) here head
  · refine ⟨serial, waits.watcher here, waiting.imp ?_ ?_⟩
    · rintro ⟨called, under⟩
      exact ⟨waits.m_pendingCalls called, under.imp_left waits.sent⟩
    · rintro ⟨reply, posted⟩
      exact ⟨reply, waits.posted reply posted⟩
  · exact absurd handles (unfinished serial reply posted same)

theorem Network.Awaits.receive (awaits : net.Awaits) {packet : Packet V} {view : SourceModel V}
    {packets : List (Packet V × SourceModel V)} (first : net.packets = (packet, view) :: packets)
    (plain : packet ≠ .signal .modelReset ∧ ∀ parents, packet ≠ .signal (.layoutChanged parents))
    (head : net.replica.step config (.receive packet) = some u) : Network.Awaits { net with view, packets, replica := u } := by
  obtain ⟨serial, here, waiting⟩ := awaits
  by_cases same : ∃ reply, packet = .reply serial reply
  · obtain ⟨reply, rfl⟩ := same
    cases step_handle head
    refine ⟨serial, ?_, ?_⟩
    · obtain same | ⟨_, same⟩ | ⟨_, _, same⟩ := net.replica.notifyAboutReply_cases serial reply
      all_goals
        rw [same]
        exact here
    · right
      by_cases called : serial ∈ net.replica.m_pendingCalls
      · refine ⟨reply, ?_⟩
        rw [notifyAboutReply, if_pos called]
        have waits : (watcher? { net.replica with m_pendingCalls := net.replica.m_pendingCalls.filter (· ≠ serial) } serial).isSome :=
          Option.isSome_iff_exists.mpr ⟨.init, here⟩
        dsimp only
        rw [if_pos waits]
        exact List.mem_append_right _ List.mem_cons_self
      · obtain ⟨called', _⟩ | ⟨other, posted⟩ := waiting
        · exact absurd called' called
        · refine ⟨other, ?_⟩
          rw [notifyAboutReply, if_neg called]
          exact posted
  · have differs : ∀ reply, ReplicaEvent.receive packet ≠ .receive (.reply serial reply) :=
      fun reply equal => same ⟨reply, ReplicaEvent.receive.inj equal⟩
    obtain waits | ⟨_, _, impossible, _⟩ := waits_step
      ⟨fun equal => plain.1 (ReplicaEvent.receive.inj equal), fun _ equal => plain.2 _ (ReplicaEvent.receive.inj equal)⟩
      differs here head
    · refine ⟨serial, waits.watcher here, waiting.imp ?_ ?_⟩
      · rintro ⟨called, under⟩
        refine ⟨waits.m_pendingCalls called, under.imp waits.sent ?_⟩
        rintro ⟨reply, behind, there⟩
        rw [first] at there
        obtain equal | later := List.mem_cons.mp there
        · cases equal
          exact absurd ⟨reply, rfl⟩ same
        · exact ⟨reply, behind, later⟩
      · rintro ⟨reply, posted⟩
        exact ⟨reply, waits.posted reply posted⟩
    · contradiction

/-- The request behind the initial watcher has a reply. -/
theorem asks_init {request : Request V} {m_model : SourceModel V} {reply : Option (Reply V)} (asks : Asks request .init)
    (served : (Network.adapter config).serve m_model request = .ok reply) : reply.isSome := by
  cases request with
  | size parentList =>
    obtain ⟨_, _, same⟩ := bind_ok.mp served
    cases same
    rfl
  | cache size roles =>
    cases served
    rfl
  | row | header | setData | setCurrentIndex => exact absurd asks id

theorem following_step (following : Following net) (knows : net.Knows config e) (head : net.step config e = some next) :
    Following next := by
  have wired := wired_step following.wired (knows_lawful knows) head
  cases e with
  | change change =>
    rw [Network.step] at head
    split at head
    · cases head
      refine ⟨wired, following.nested, following.plain, following.cached, fun early => ?_⟩
      obtain ⟨serial, here, waiting⟩ := following.awaits early
      refine ⟨serial, here, waiting.imp_left fun state => ⟨state.1, state.2.imp_right ?_⟩⟩
      rintro ⟨reply, view, there⟩
      exact ⟨reply, view, List.mem_append_left _ there⟩
    · contradiction
  | serve =>
    rw [Network.step] at head
    split at head
    · contradiction
    · rename_i number request sent waiting
      obtain ⟨reply, served, rfl⟩ := Option.map_eq_some_iff.mp head
      have made : (Network.adapter config).serve net.m_model request = .ok reply := by
        cases result : (Network.adapter config).serve net.m_model request with
        | ok value => rw [result] at served; exact congrArg _ (Option.some.inj served)
        | error failure => rw [result] at served; contradiction
      refine ⟨wired, following.nested, following.plain, following.cached, fun early => ?_⟩
      obtain ⟨serial, here, state⟩ := following.awaits early
      refine ⟨serial, here, state.imp_left fun known => ⟨known.1, ?_⟩⟩
      obtain sending | ⟨other, view, there⟩ := known.2
      · rw [waiting] at sending
        obtain first | later := List.mem_cons.mp sending
        · have asked : (number, request) ∈ net.replica.sent := waiting ▸ List.mem_cons_self
          obtain rfl : serial = number := first
          obtain ⟨reply, rfl⟩ := Option.isSome_iff_exists.mp (asks_init ((following.wired.numbered.sent _ asked).2 .init here) made)
          exact .inr ⟨reply, net.m_model, List.mem_append_right _ List.mem_cons_self⟩
        · exact .inl later
      · exact .inr ⟨other, view, List.mem_append_left _ there⟩
  | receive =>
    rw [Network.step] at head
    split at head
    · contradiction
    · rename_i packet view packets first
      obtain ⟨t, handled, rfl⟩ := Option.map_eq_some_iff.mp head
      have nested := sizesNested_step following.nested handled
      have plain : packet ≠ .signal .modelReset ∧ ∀ parents, packet ≠ .signal (.layoutChanged parents) := by
        constructor
        · rintro rfl
          exact following.changes first
        · rintro parents rfl
          exact following.changes first
      have watchers := plain_step following.plain handled ⟨fun same => plain.1 (ReplicaEvent.receive.inj same),
        fun _ same => plain.2 _ (ReplicaEvent.receive.inj same)⟩
      cases packet with
      | signal signal =>
        obtain ⟨cached, done⟩ := cached_signal following.cached (following.changes first) (knows signal view packets first).1
          (step_handle handled)
        exact ⟨wired, nested, watchers, cached, fun early => (following.awaits (done ▸ early)).receive first plain handled⟩
      | reply serial reply =>
        obtain ⟨cached, later⟩ := following.inner handled (by rintro _ ⟨⟩) (by rintro ⟨⟩)
        have follows := following.wired.follows
        rw [first] at follows
        have same : view.sizes = net.view.sizes := follows.1.1
        refine ⟨wired, nested, watchers, ?_, fun early => ?_⟩
        · show Everywhere (Cached view.sizes t.m_initDone) t.m_rootItem
          rw [same]
          exact cached
        · refine (following.awaits ?_).receive first plain handled
          exact Bool.eq_false_iff.mpr fun done => Bool.eq_false_iff.mp early (later done)
  | replica e =>
    obtain ⟨t, handled, rfl, inner⟩ := replica_step head
    have known : e = .processEvent → net.Knows config (.replica .processEvent) := by
      rintro rfl
      exact knows
    obtain ⟨cached, later⟩ := following.inner handled (fun _ => inner _) known
    refine ⟨wired, sizesNested_step following.nested handled, plain_step following.plain handled ⟨inner _, fun _ => inner _⟩,
      cached, fun early => ?_⟩
    have before := Bool.eq_false_iff.mpr fun done => Bool.eq_false_iff.mp early (later done)
    refine (following.awaits before).replica handled inner fun serial reply posted same handles => ?_
    subst same
    have finished : net.replica.processEvent config = .ok t := step_handle handled
    rw [processEvent_handles handles] at finished
    obtain ⟨_, _, done⟩ := following.finished knows handles finished
    exact Bool.eq_false_iff.mp early (done rfl)

theorem following_initial (config : Config) (m_model : SourceModel V) (rootCacheSize : Nat) :
    Following (Network.initial config m_model rootCacheSize) := by
  have start : Numbered (Replica.initial rootCacheSize : Replica V) := ⟨nofun, nofun⟩
  have none : ∀ serial reply, .finished serial reply ∉ ((Replica.initial rootCacheSize : Replica V).init config).posted :=
    fun _ _ there => absurd (show _ ∈ ([] : List (Posted V)) from there) List.not_mem_nil
  have watchers : ∀ watcher ∈ ((Replica.initial rootCacheSize : Replica V).init config).watchers, watcher = (0, .init) :=
    fun watcher there => List.mem_singleton.mp there
  refine ⟨⟨(start.doModelReset (.inl rfl)).1, rfl, fun serial reply there => absurd there (none serial reply)⟩,
    fun serial parentList there => ?_, fun watcher there => ?_, fun path item there => ?_, fun _ => ⟨0, rfl, .inl ⟨?_, .inl ?_⟩⟩⟩
  · cases watchers _ there
  · rw [watchers watcher there]
    trivial
  · cases path with
    | nil =>
      obtain rfl := Option.some.inj there
      rfl
    | cons row rest => contradiction
  · exact List.mem_singleton_self 0
  · exact List.mem_singleton_self 0

/-- Below a root without columns nothing is removed. -/
theorem onRowsRemoved_blank {parent : IndexList} {start finish : Nat} (blank : r.m_rootItem.item.columnCount = 0)
    (nested : parent ≠ []) : r.onRowsRemoved config parent start finish ≠ .error .assertion := by
  intro failed
  obtain failed | ⟨⟨ok, middle⟩, resolved, rest⟩ := bind_error.mp failed
  · exact (resolve_error failed).elim nofun nofun
  · rw [resolve_blank blank nested resolved] at rest
    contradiction

theorem handleSizeDone_blank {parentList : IndexList} {size : Size} (blank : r.m_rootItem.item.columnCount = 0)
    (nested : parentList ≠ []) : r.handleSizeDone config serial parentList size ≠ .error .assertion := by
  intro failed
  obtain failed | ⟨middle, resolved, _⟩ := bind_error.mp failed
  · exact validQModelIndex_assertion failed
  · have found := resolve_blank blank nested (validQModelIndex_ok.mp resolved)
    contradiction

theorem following_asserts (following : Following net) (knows : net.Knows config e) : net.Asserts config e := by
  have cached := following.cached
  cases e with
  | change | serve => trivial
  | receive =>
    intro parent start finish view packets first
    obtain ⟨root, finds⟩ := (knows _ view packets first).1
    cases done : net.replica.m_initDone with
    | true =>
      rw [done] at cached
      exact onRowsRemoved_asserts cached (following.changes first) finds
    | false =>
      rw [done] at cached root
      exact onRowsRemoved_blank (cached [] _ rfl) fun top => Bool.false_ne_true (root top)
  | replica e =>
    cases e with
    | processEvent =>
      intro serial parentList size posted handles
      have right : size = net.view.sizes (rowsOf parentList) := following.right handles
      rw [processEvent_handles handles]
      by_cases done : net.replica.m_initDone = true
      · rw [done] at cached
        have columns := knows serial _ _ posted handles
        dsimp only at columns
        rw [← right] at columns
        exact handleSizeDone_asserts (s := { net.replica with posted }) cached right columns
      · rw [Bool.not_eq_true] at done
        rw [done] at cached
        exact handleSizeDone_blank (cached [] _ rfl) (following.nested serial parentList (watcher?_mem handles.watcher))
    | receive | multiData | rowCount | headerData => trivial

theorem following_converged (following : Following net) (quiet : net.Quiet) : net.Converged := by
  intro path item there rows
  have same : net.view.sizes = net.m_model.sizes := by
    have follows := following.wired.follows
    rw [quiet.packets] at follows
    exact follows
  have cached := following.cached
  cases done : net.replica.m_initDone with
  | true =>
    rw [done, same] at cached
    exact (cached path item there).resolve_left rows
  | false =>
    obtain ⟨serial, _, ⟨_, sending | ⟨_, _, under⟩⟩ | ⟨reply, posted⟩⟩ := following.awaits done
    · rw [quiet.sent] at sending
      contradiction
    · rw [quiet.packets] at under
      contradiction
    · exact absurd posted (quiet.posted serial reply)

/-- The assertions hold, and the row counts are those of the source where nothing is under way, in every run in which the
replica knows what it has to. -/
theorem tree_converges {m_model : SourceModel V} {rootCacheSize : Nat} {es : List (NetworkEvent V)}
    (knows : Admitted (Network.step config) (Knows config) (Network.initial config m_model rootCacheSize) es) :
    Admitted (Network.step config) (Asserts config) (Network.initial config m_model rootCacheSize) es ∧
      ∀ t, exec (Network.step config) (Network.initial config m_model rootCacheSize) es = some t → t.Quiet → t.Converged := by
  have start := following_initial config m_model rootCacheSize
  refine ⟨admitted_of_invariant following_step following_asserts knows start, fun t run => ?_⟩
  exact following_converged (exec_invariant following_step run knows start)

end Runs

section Example
open Network

/-- One row, with some rows below it. -/
def rowsBelow (rows : Nat) : SourceModel Nat where
  rowCount
    | [] => 1
    | [⟨0, 0⟩] => rows
    | _ => 0
  columnCount _ := 1
  hasChildren index := index = [] ∨ index = [⟨0, 0⟩]
  flags _ := 0
  data _ _ := 0
  headerData _ _ _ := 0
  setData _ _ _ := true

/-- Behind the initial reply rows are inserted below a parent. -/
def insertedBelow (parent : IndexList) (start : Nat) : List (NetworkEvent Nat) :=
  opening ++ [.change (.rowsInserted parent start start (rowsBelow 0)), .receive]

theorem tree_converges_example : ∃ t : Network Nat,
    exec (Network.step Replica.exampleListConfig) (Network.initial Replica.exampleListConfig (rowsBelow 0) 1000)
      (insertedBelow [] 1) = some t ∧ t.Converged := by
  have run : exec (Network.step Replica.exampleListConfig) (Network.initial Replica.exampleListConfig (rowsBelow 0) 1000)
      (insertedBelow [] 1) = some _ := rfl
  have knows : Admitted (Network.step Replica.exampleListConfig) (Knows Replica.exampleListConfig)
      (Network.initial Replica.exampleListConfig (rowsBelow 0) 1000) (insertedBelow [] 1) := by
    refine .cons trivial rfl (.cons ?_ rfl (.cons ?_ rfl (.cons trivial rfl (.cons ?_ rfl trivial))))
    · intro signal view packets first
      cases first
    · intro serial reply watcher posted handles
      cases handles.first
      cases handles.watcher
      trivial
    · intro signal view packets first
      cases first
      refine ⟨.inr fun ok middle resolved => ?_, fun _ _ _ posted => nomatch posted⟩
      cases resolved
      refine ⟨fun _ => ⟨nofun, fun item there => ?_⟩, nofun⟩
      cases there
      exact .inl (by decide)
  exact ⟨_, run, (tree_converges knows).2 _ run ⟨rfl, rfl, fun _ _ posted => nomatch posted⟩⟩

/-- A row is inserted below an item that has one already, before its size is asked for. -/
theorem unknown_size_not_converged : ¬ TreeConverges Replica.exampleListConfig (rowsBelow 1) 1000 := by
  intro converges
  have run : exec (Network.step Replica.exampleListConfig) (Network.initial Replica.exampleListConfig (rowsBelow 1) 1000)
      (insertedBelow [⟨0, 0⟩] 0) = some _ := rfl
  have wrong := (converges _).2 _ run ⟨rfl, rfl, fun _ _ posted => nomatch posted⟩ [0] _ rfl (by decide)
  contradiction

end Example
end RemoteObjects.ItemModel
