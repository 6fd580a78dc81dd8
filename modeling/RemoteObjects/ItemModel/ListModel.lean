import RemoteObjects.ItemModel.Network
import RemoteObjects.ItemModel.Replies

/-! Lists: what a replica has cached of the rows of its source, over all orders of changes, requests and replies. -/
namespace RemoteObjects.ItemModel
open Transition

section Statement
variable {V : Type} (config : Config)

/-- One column, and nothing below its rows. -/
structure SourceModel.Flat (m_model : SourceModel V) : Prop where
  columnCount : m_model.columnCount [] = 1
  rowCount : ∀ index, index ≠ [] → m_model.rowCount index = 0
  hasChildren : ∀ index, index ≠ [] → m_model.hasChildren index = false

/-- The value that is cached in the first column. -/
def ItemData.value? (item : ItemData V) (role : Role) : Option V := item.cachedRowEntry[0]?.bind fun entry => entry.find? role

/-- A signal leaves what a reply has of a row: it is about other roles, or the row stays, or there will be no such row. -/
def Signal.Spares (rowCount row : Nat) (roles : List Role) : Signal → Prop
  | .dataChanged start finish changed => inRange start finish [⟨row, 0⟩] → ∀ role ∈ roles, role ∉ changed
  | .rowsInserted _ start finish => row < start ∨ rowCount + (finish + 1 - start) ≤ row
  | .rowsRemoved _ start finish => row < start ∨ rowCount - (finish + 1 - start) ≤ row
  | _ => True

namespace Network

/-- The source stays a list. -/
def FlatChange (net : Network V) : NetworkEvent V → Prop
  | .change change => (net.m_model.apply change).Flat
  | _ => True

/-- The values that are cached are those of the source, and so is the number of rows. -/
structure Coherent (net : Network V) : Prop where
  rowCount : net.replica.m_rootItem.item.rowCount = net.m_model.rowCount []
  values : ∀ row item role value, net.replica.m_rootItem.item? [row] = some item → item.value? role = some value →
    value = net.m_model.data [⟨row, 0⟩] role

def StaysCoherent (m_model : SourceModel V) (rootCacheSize : Nat) : Prop :=
  m_model.Flat → config.m_initialAction = .fetchRootSize → ∀ {s es t},
    exec (step config) (initial config m_model rootCacheSize) opening = some s → exec (step config) s es = some t →
    Admitted (step config) FlatChange s es → t.packets = [] → t.replica.sent = [] → t.Coherent

/-- No signal is read that is about what a row reply has which is posted and not handled. -/
def Fresh (net : Network V) : NetworkEvent V → Prop
  | .receive => ∀ signal view packets, net.packets = (.signal signal, view) :: packets →
      ∀ serial entries start finish roles, .finished serial (.entries entries) ∈ net.replica.posted →
        net.replica.watcher? serial = some (.row start finish roles) → ∀ pair ∈ entries, ∀ row, pair.index = [⟨row, 0⟩] →
        signal.Spares net.replica.m_rootItem.item.rowCount row roles
  | _ => True

end Network
end Statement

section Table
variable {V : Type}

/-- What a replica may have of a list: its rows, and the values of the roles that are available. -/
structure Table (V : Type) where
  rows : Nat
  value : Nat → Role → Option V

def SourceModel.table (config : Config) (m_model : SourceModel V) : Table V where
  rows := m_model.rowCount []
  value row role := if role ∈ config.availableRoles then some (m_model.data [⟨row, 0⟩] role) else none

/-- What a signal says of the list before and behind it. -/
def Table.Changes (config : Config) (before : Table V) : Signal → Table V → Prop
  | .dataChanged start finish roles, after => ∃ first last, start = [⟨first, 0⟩] ∧ finish = [⟨last, 0⟩] ∧
      first < before.rows ∧ last < before.rows ∧ after.rows = before.rows ∧ roles ≠ [] ∧
      (∀ role ∈ roles, role ∈ config.availableRoles) ∧
      ∀ row role, after.value row role = before.value row role ∨ first ≤ row ∧ row ≤ last ∧ role ∈ roles
  | .rowsInserted parent start finish, after => parent = [] ∧ start ≤ finish ∧ start ≤ before.rows ∧
      after.rows = before.rows + (finish + 1 - start) ∧ (∀ row < start, after.value row = before.value row) ∧
      ∀ row, start ≤ row → after.value (row + (finish + 1 - start)) = before.value row
  | .rowsRemoved parent start finish, after => parent = [] ∧ start ≤ finish ∧ finish < before.rows ∧
      after.rows = before.rows - (finish + 1 - start) ∧
      ∀ row, after.value row = before.value (if row < start then row else row + (finish + 1 - start))
  | _, _ => False

/-- The entries of a row reply are those of the list, as far as it has their rows. -/
def Table.Right (config : Config) (table : Table V) : Watcher → Reply V → Prop
  | .row _ _ roles, .entries entries => ∀ pair ∈ entries, ∃ row, pair.index = [⟨row, 0⟩] ∧ pair.hasChildren = false ∧
      (row < table.rows → ∀ role value, (role, value) ∈ roles.zip pair.data → role ∈ config.availableRoles →
        table.value row role = some value)
  | _, _ => True

end Table

section Source
variable {V : Type} {config : Config} {m_model : SourceModel V} {change : SourceChange V}
open SourceModel

theorem SourceModel.Flat.path (flat : m_model.Flat) {index : IndexList} (path : m_model.HasPath [] index) (nonempty : index ≠ []) :
    ∃ row < m_model.rowCount [], index = [⟨row, 0⟩] := by
  cases index with
  | nil => exact absurd rfl nonempty
  | cons first rest =>
    obtain ⟨row, column⟩ := first
    have top : row < m_model.rowCount [] ∧ column < 1 := by
      simpa [hasIndex, flat.columnCount] using path.1
    obtain rfl : column = 0 := by omega
    cases rest with
    | nil => exact ⟨row, top.1, rfl⟩
    | cons second rest =>
      have below := path.2.1
      rw [hasIndex, flat.rowCount _ (List.append_ne_nil_of_right_ne_nil _ (List.cons_ne_nil _ _))] at below
      simp at below

theorem mem_zip_map {α β : Type} {f : α → β} {l : List α} {a : α} {b : β} (there : (a, b) ∈ l.zip (l.map f)) : b = f a := by
  have paired := List.zip_map' (f := id) (g := f) (l := l)
  rw [List.map_id] at paired
  rw [paired] at there
  obtain ⟨_, _, same⟩ := List.mem_map.mp there
  cases same
  rfl

theorem inRange_list (first last row : Nat) :
    inRange [⟨first, 0⟩] [⟨last, 0⟩] [⟨row, 0⟩] = (decide (first ≤ row) && decide (row ≤ last)) := by
  simp [inRange]

theorem mem_filterRoles {roles availableRoles : List Role} {role : Role} :
    role ∈ filterRoles roles availableRoles ↔ role ∈ availableRoles ∧ (roles = [] ∨ role ∈ roles) := by
  rw [filterRoles]
  cases roles with
  | nil => simp
  | cons first rest =>
    simp [eq_comm]
    grind

/-- Each change of a list is told as it is. -/
theorem SourceModel.Flat.changes (flat : m_model.Flat) (allowed : m_model.allows change) (still : (m_model.apply change).Flat) :
    (∀ signal ∈ (Network.adapter config).emitted change,
        Table.Changes config (m_model.table config) signal ((m_model.apply change).table config)) ∧
      ((Network.adapter config).emitted change = [] → m_model.table config = (m_model.apply change).table config) := by
  cases change with
  | dataChanged start finish roles after =>
    simp only [allows, Bool.and_eq_true, decide_eq_true_eq] at allowed
    obtain ⟨⟨⟨⟨nonempty, _⟩, starts⟩, ends⟩, nonempty'⟩ := allowed
    obtain ⟨first, inside, rfl⟩ := flat.path starts nonempty
    obtain ⟨last, inside', rfl⟩ := flat.path ends nonempty'
    have value : ∀ row role, ((m_model.apply (.dataChanged [⟨first, 0⟩] [⟨last, 0⟩] roles after)).table config).value row role =
        (m_model.table config).value row role ∨
          first ≤ row ∧ row ≤ last ∧ role ∈ filterRoles roles config.availableRoles := by
      intro row role
      rw [mem_filterRoles]
      simp only [table, apply, changeData, inRange_list, Bool.and_eq_true, decide_eq_true_eq]
      grind
    rw [Adapter.emitted, Adapter.sourceDataChanged]
    split
    · rename_i none
      refine ⟨fun _ there => absurd there List.not_mem_nil, fun _ => ?_⟩
      have silent : filterRoles roles config.availableRoles = [] := List.isEmpty_iff.mp none
      rw [table, table, Table.mk.injEq]
      refine ⟨rfl, ?_⟩
      funext row role
      obtain same | ⟨_, _, there⟩ := value row role
      · exact same.symm
      · rw [silent] at there
        contradiction
    · rename_i some
      refine ⟨fun signal there => ?_, fun quiet => absurd quiet (List.cons_ne_nil _ _)⟩
      obtain rfl := List.mem_singleton.mp there
      exact ⟨first, last, rfl, rfl, inside, inside', rfl, fun none => some (List.isEmpty_iff.mpr none),
        fun role there => (mem_filterRoles.mp there).1, value⟩
  | rowsInserted parent start finish after =>
    simp only [allows, Bool.and_eq_true, decide_eq_true_eq] at allowed
    obtain ⟨⟨_, ordered⟩, inside⟩ := allowed
    have top : parent = [] := by
      by_contra nested
      have none := still.rowCount parent nested
      simp only [apply, insertRows, if_pos] at none
      omega
    subst top
    refine ⟨fun signal there => ?_, fun quiet => absurd quiet (List.cons_ne_nil _ _)⟩
    obtain rfl := List.mem_singleton.mp there
    refine ⟨rfl, ordered, inside, by simp [table, apply, insertRows], fun row above => ?_, fun row below => ?_⟩
    · funext role
      simp [table, apply, insertRows, beforeInsertion, above]
    · funext role
      have far : ¬ row + (finish + 1 - start) < start := by omega
      have far' : ¬ row + (finish + 1 - start) < start + (finish + 1 - start) := by omega
      simp [table, apply, insertRows, beforeInsertion, far, far']
  | rowsRemoved parent start finish after =>
    simp only [allows, Bool.and_eq_true, decide_eq_true_eq] at allowed
    obtain ⟨⟨_, ordered⟩, inside⟩ := allowed
    have top : parent = [] := by
      by_contra nested
      rw [flat.rowCount parent nested] at inside
      contradiction
    subst top
    refine ⟨fun signal there => ?_, fun quiet => absurd quiet (List.cons_ne_nil _ _)⟩
    obtain rfl := List.mem_singleton.mp there
    refine ⟨rfl, ordered, inside, by simp [table, apply, removeRows], fun row => ?_⟩
    funext role
    by_cases above : row < start <;> simp [table, apply, removeRows, beforeRemoval, above]

/-- A row reply is made from the list. -/
theorem SourceModel.Flat.serves (flat : m_model.Flat) {request : Request V} {watcher : Watcher} {reply : Reply V}
    (asks : Replica.Asks request watcher) (served : (Network.adapter config).serve m_model request = .ok (some reply)) :
    Table.Right config (m_model.table config) watcher reply := by
  cases watcher with
  | row start finish roles =>
    cases reply with
    | entries entries =>
      cases request with
      | row start' finish' roles' =>
        obtain ⟨rfl, rfl, rfl⟩ := asks
        obtain ⟨_, returned, same⟩ := bind_ok.mp served
        cases same
        intro pair there
        obtain ⟨cell, path, fits, rfl⟩ := replicaRowRequest_mem returned there
        have top : start.dropLast = [] := by
          by_contra nested
          rw [SourceModel.hasIndex, flat.rowCount _ nested] at fits
          simp at fits
        rw [top] at fits ⊢
        have inside : m_model.HasPath [] [cell] := ⟨fits, trivial⟩
        obtain ⟨row, _, here⟩ := flat.path inside (List.cons_ne_nil _ _)
        obtain rfl := (List.cons.inj here).1
        refine ⟨row, rfl, flat.hasChildren _ (List.cons_ne_nil _ _), fun _ role value listed available => ?_⟩
        cases roles with
        | nil => contradiction
        | cons first rest => exact (if_pos available).trans (congrArg some (mem_zip_map listed).symm)
      | size | header | cache | setData | setCurrentIndex => contradiction
    | size | header | cache => trivial
  | init | reset | size | header | layout => trivial

end Source

section Rows
variable {V : Type} {config : Config} {table after : Table V} {c d : CacheData V} {cell : ModelIndex} {nodesCacheSize : Nat}
open CacheData Replica

/-- What the item at a path has of a list. -/
def Table.Shows (table : Table V) : List Nat → ItemData V → Prop
  | [], item => item.rowCount = table.rows ∧ item.columnCount = 1
  | row :: rest, item => item.rowCount = 0 ∧ item.hasChildren = false ∧
      (rest = [] → ∀ role value, item.value? role = some value → table.value row role = some value)

theorem shows_empty (table : Table V) (path : List Nat) (nested : path ≠ []) : table.Shows path .empty := by
  cases path with
  | nil => exact absurd rfl nested
  | cons row rest => exact ⟨rfl, rfl, fun _ role value there => nomatch there⟩

theorem toQModelIndex_inside (fits : c.Fits cell) : c.toQModelIndex nodesCacheSize [cell] = .ok (true, c) := by
  have inside : cell.row < c.item.rowCount ∧ cell.column < c.item.columnCount := fits
  rw [CacheData.toQModelIndex, CacheData.resolve]
  refine bind_ok.mpr ⟨c, rfl, ?_⟩
  rw [if_pos inside]
  rfl

theorem toQModelIndex_outside (outside : ¬ c.Fits cell) : c.toQModelIndex nodesCacheSize [cell] = .ok (false, c) := by
  rw [CacheData.toQModelIndex, CacheData.resolve]
  refine bind_ok.mpr ⟨c, rfl, if_neg ?_⟩
  exact outside

theorem find?_foldl_remove (roles : List Role) (entry : CacheEntry V) (role : Role) :
    (roles.foldl CacheEntry.remove entry).find? role = if role ∈ roles then none else entry.find? role := by
  induction roles generalizing entry with
  | nil => rfl
  | cons first rest ih =>
    rw [List.foldl_cons, ih, CacheEntry.find?_remove]
    by_cases same : role = first <;> simp [same]

/-- What clearing the first column leaves of the values of an item. -/
theorem removeIndexFromRow_value? {roles : List Role} {item : ItemData V} {entries : List (CacheEntry V)} (nonempty : roles ≠ [])
    (removed : removeIndexFromRow 0 roles 1 item.cachedRowEntry = .ok entries) (role : Role) :
    ItemData.value? { item with cachedRowEntry := entries } role = if role ∈ roles then none else item.value? role := by
  have some : ¬ roles.isEmpty := by rwa [List.isEmpty_iff]
  rw [removeIndexFromRow, if_neg (by decide)] at removed
  cases removed
  rw [ItemData.value?, ItemData.value?, List.getElem?_modify_eq]
  simp only [if_neg some]
  cases item.cachedRowEntry[0]? with
  | none => simp
  | some entry => exact find?_foldl_remove roles entry role

theorem clearRows_item? {roles : List Role} {rows : List Nat} (nonempty : roles ≠ []) (columns : c.item.columnCount = 1)
    (cleared : clearRows 0 0 roles rows c = .ok d) {row : Nat} {rest : List Nat} {item : ItemData V}
    (there : d.item? (row :: rest) = some item) : ∃ before, c.item? (row :: rest) = some before ∧
      item.rowCount = before.rowCount ∧ item.hasChildren = before.hasChildren ∧
      ∀ role, item.value? role = if rest = [] ∧ row ∈ rows ∧ role ∈ roles then none else before.value? role := by
  induction rows generalizing c with
  | nil =>
    cases cleared
    exact ⟨item, there, rfl, rfl, fun role => by simp⟩
  | cons first rows ih =>
    rw [clearRows] at cleared
    split at cleared
    · split at cleared
      · rename_i missing
        obtain ⟨before, found, sizes⟩ := ih columns cleared
        refine ⟨before, found, sizes.1, sizes.2.1, fun role => ?_⟩
        have other : row ≠ first := by
          rintro rfl
          rw [item?_cons, missing] at found
          contradiction
        rw [sizes.2.2]
        simp [other]
      · rename_i child found
        obtain ⟨entries, removed, cleared⟩ := bind_ok.mp cleared
        obtain ⟨before, there, rowCount, hasChildren, values⟩ := ih (by exact columns) cleared
        rw [item?_cons, setChild_find?] at there
        by_cases same : row = first
        · subst same
          rw [if_pos rfl] at there
          cases rest with
          | nil =>
            cases there
            refine ⟨child.item, by rw [item?_cons, found]; rfl, rowCount, hasChildren, fun role => ?_⟩
            have single : removeIndexFromRow 0 roles c.item.columnCount child.item.cachedRowEntry = .ok entries := by
              obtain ⟨_, removed, same⟩ := bind_ok.mp removed
              cases same
              exact removed
            rw [columns] at single
            rw [values, removeIndexFromRow_value? nonempty single]
            by_cases asked : role ∈ roles <;> simp [asked]
          | cons key rest =>
            refine ⟨before, by rw [item?_cons, found]; exact there, rowCount, hasChildren, fun role => ?_⟩
            rw [values]
            simp
        · rw [if_neg same] at there
          refine ⟨before, by rw [item?_cons]; exact there, rowCount, hasChildren, fun role => ?_⟩
          rw [values]
          simp [same]
    · contradiction

theorem onDataChanged_shows {s t : Replica V} {start finish : IndexList} {roles : List Role}
    (shows : Everywhere table.Shows s.m_rootItem) (changes : Table.Changes config table (.dataChanged start finish roles) after)
    (handled : s.onDataChanged config start finish roles = .ok t) : Everywhere after.Shows t.m_rootItem := by
  obtain ⟨first, last, rfl, rfl, inside, inside', rows, nonempty, _, values⟩ := changes
  have top : table.Shows [] s.m_rootItem.item := shows [] _ rfl
  have fits : ∀ row < table.rows, s.m_rootItem.Fits ⟨row, 0⟩ := fun row inside => by
    rw [Fits, top.1, top.2]
    exact ⟨inside, Nat.one_pos⟩
  obtain ⟨cleared, middle, root, data, clears, refreshes, _, same⟩ := onDataChanged_ok handled
  have inner : clearRows 0 0 roles (List.range' first (last + 1 - first)) s.m_rootItem = .ok middle := by
    rw [clearCache, if_neg (by simp)] at clears
    obtain ⟨_, resolved, clears⟩ := bind_ok.mp clears
    cases (toQModelIndex_inside (fits first inside)).symm.trans resolved
    obtain ⟨_, resolved, clears⟩ := bind_ok.mp clears
    cases (toQModelIndex_inside (fits last inside')).symm.trans resolved
    obtain ⟨_, modified, same⟩ := bind_ok.mp clears
    cases same
    exact modified
  have shown : Everywhere after.Shows middle := by
    intro path item there
    cases path with
    | nil =>
      obtain rfl := Option.some.inj there
      rw [Table.Shows, clearRows_item inner, rows]
      exact top
    | cons row rest =>
      obtain ⟨before, found, rowCount, hasChildren, cached⟩ := clearRows_item? nonempty top.2 inner there
      obtain ⟨empty, leaf, right⟩ := shows _ before found
      refine ⟨rowCount.trans empty, hasChildren.trans leaf, fun last role value there => ?_⟩
      rw [cached] at there
      split at there
      · contradiction
      · rename_i kept
        obtain same | changed := values row role
        · rw [same]
          exact right last role value there
        · refine absurd ⟨last, ?_, changed.2.2⟩ kept
          rw [List.mem_range'_1]
          omega
  have all := shown.refreshes (shows_empty after) refreshes
  obtain rfl | rfl := same
  · exact all
  · exact all

theorem onRowsInserted_shows {s t : Replica V} {parent : IndexList} {start finish : Nat}
    (shows : Everywhere table.Shows s.m_rootItem) (changes : Table.Changes config table (.rowsInserted parent start finish) after)
    (handled : s.onRowsInserted config parent start finish = .ok t) : Everywhere after.Shows t.m_rootItem := by
  obtain ⟨rfl, ordered, inside, rows, above, below⟩ := changes
  have top : table.Shows [] s.m_rootItem.item := shows [] _ rfl
  obtain ⟨ok, middle, resolved, rest⟩ := onRowsInserted_ok handled
  cases resolved
  obtain ⟨impossible, _⟩ | ⟨_, root, modified, rfl⟩ := rest
  · contradiction
  · obtain ⟨_, inserted⟩ := insertChildren_spec modified
    intro path item there
    cases path with
    | nil =>
      obtain rfl := Option.some.inj there
      exact ⟨inserted.rowCount.trans (by rw [top.1, rows]), inserted.columnCount.trans top.2⟩
    | cons row rest =>
      obtain ⟨before, found⟩ | ⟨_, _, rfl, rfl⟩ | ⟨behind, found⟩ := inserted.below there
      · obtain ⟨empty, leaf, right⟩ := shows _ item found
        exact ⟨empty, leaf, fun last role value there => by rw [above row before]; exact right last role value there⟩
      · exact ⟨rfl, rfl, fun _ role value there => nomatch there⟩
      · obtain ⟨empty, leaf, right⟩ := shows _ item found
        refine ⟨empty, leaf, fun last role value there => ?_⟩
        have moved := below (row - (finish + 1 - start)) (by omega)
        rw [Nat.sub_add_cancel (by omega)] at moved
        rw [moved]
        exact right last role value there

theorem onRowsRemoved_shows {s t : Replica V} {parent : IndexList} {start finish : Nat}
    (shows : Everywhere table.Shows s.m_rootItem) (changes : Table.Changes config table (.rowsRemoved parent start finish) after)
    (handled : s.onRowsRemoved config parent start finish = .ok t) : Everywhere after.Shows t.m_rootItem := by
  obtain ⟨rfl, ordered, inside, rows, values⟩ := changes
  have top : table.Shows [] s.m_rootItem.item := shows [] _ rfl
  obtain ⟨ok, middle, resolved, rest⟩ := onRowsRemoved_ok handled
  cases resolved
  obtain ⟨impossible, _⟩ | ⟨_, root, modified, _, rfl⟩ := rest
  · contradiction
  · obtain ⟨_, removed⟩ := removeChildren_spec modified
    intro path item there
    cases path with
    | nil =>
      obtain rfl := Option.some.inj there
      rw [Replica.setHeader, Replica.setRoot, removed.item]
      exact ⟨by rw [top.1, rows], top.2⟩
    | cons row rest =>
      obtain ⟨empty, leaf, right⟩ := shows _ item ((removed.below row rest).symm.trans there)
      refine ⟨empty, leaf, fun last role value there => ?_⟩
      rw [values]
      exact right last role value there

/-- What `fillRow` leaves of the values of an item. -/
theorem fillItem_value? {pair : IndexValuePair V} {roles : List Role} {item next : ItemData V} {role : Role} {value : V}
    (filled : fillItem pair roles 0 item = .ok next) (there : next.value? role = some value) :
    (role, value) ∈ roles.zip pair.data ∨ item.value? role = some value := by
  obtain ⟨entry, made, rfl⟩ := fillItem_ok filled
  have first : entry.find? role = some value := by
    rw [ItemData.value?] at there
    dsimp only at there
    split at there
    · rename_i some
      rwa [List.getElem?_set_self some, Option.bind_some] at there
    · rename_i none
      rw [List.eq_nil_of_length_eq_zero (Nat.eq_zero_of_not_pos none)] at there
      exact there
  obtain ⟨_, _, ⟨other, listed, found⟩ | ⟨_, kept⟩⟩ := fillCacheEntry_ok made role
  · obtain rfl := Option.some.inj (found.symm.trans first)
    exact .inl listed
  · rw [kept] at first
    refine .inr ?_
    rw [ItemData.value?]
    cases cached : item.cachedRowEntry[0]? with
    | none =>
      rw [cached] at first
      contradiction
    | some old =>
      rw [cached] at first
      exact first

theorem fillRows_shows {start finish : IndexList} {roles : List Role} {pairs : List (IndexValuePair V)}
    (available : ∀ role ∈ roles, role ∈ config.availableRoles) (shows : Everywhere table.Shows c)
    (right : Table.Right config table (.row start finish roles) (.entries pairs))
    (filled : pairs.foldlM (fun c pair => c.fillWith nodesCacheSize pair roles id) c = .ok d) : Everywhere table.Shows d := by
  induction pairs generalizing c with
  | nil =>
    cases filled
    exact shows
  | cons pair pairs ih =>
    obtain ⟨⟨row, here, leaf, values⟩, others⟩ := List.forall_mem_cons.mp right
    obtain ⟨middle, first, rest⟩ := bind_ok.mp filled
    refine ih ?_ others rest
    by_cases inside : row < table.rows
    · apply shows.fillWith (shows_empty table) first
      intro item last next ends shown written
      rw [here] at ends shown ⊢
      obtain rfl := Option.some.inj ends
      obtain ⟨empty, _, cached⟩ := shown
      obtain ⟨_, _, same⟩ := fillItem_ok written
      refine ⟨by rw [id, same]; exact empty, by rw [id, same]; exact leaf, fun _ role value there => ?_⟩
      obtain new | old := fillItem_value? written there
      · exact values inside role value new (available role (List.of_mem_zip new).1)
      · exact cached rfl role value old
    · have outside : ¬ c.Fits ⟨row, 0⟩ := fun fits => inside (by rw [← (shows [] _ rfl).1]; exact fits.1)
      obtain ⟨⟨created, again⟩, made, first⟩ := bind_ok.mp first
      obtain ⟨_, resolved, made⟩ := bind_ok.mp made
      rw [here, toQModelIndex_outside outside] at resolved
      cases resolved
      cases made
      cases first
      exact shows

end Rows

section Runs
variable {V : Type} {config : Config} {table after : Table V} {s t : Replica V} {e : ReplicaEvent V}
open Replica

/-- The watchers of a replica of a list. -/
def Watcher.OfList (config : Config) : Watcher → Prop
  | .row _ _ roles => ∀ role ∈ roles, role ∈ config.availableRoles
  | .header .. => True
  | _ => False

/-- Roles that are not available are not asked for. -/
structure Available (config : Config) (s : Replica V) : Prop where
  watchers : ∀ watcher ∈ s.watchers, watcher.2.OfList config
  asked : ∀ data ∈ s.m_requestedData, ∀ role ∈ data.roles, role ∈ config.availableRoles

theorem available_step (available : Available config s) (shows : Everywhere table.Shows s.m_rootItem)
    (changes : ∀ signal, e = .receive (.signal signal) → Table.Changes config table signal after)
    (head : s.step config e = some t) : Available config t := by
  constructor
  · refine watchers_step (P := Watcher.OfList config) available.watchers ?_ ?_ ?_ (fun _ _ _ => trivial) head
    · exact ⟨fun same => changes _ same, fun _ same => changes _ same⟩
    · intro parent last item ends cached children
      cases rows : rowsOf parent with
      | nil =>
        rw [List.map_eq_nil_iff.mp rows] at ends
        contradiction
      | cons row rest =>
        rw [rows] at cached
        rw [(shows _ item cached).2.1] at children
        exact absurd children Bool.false_ne_true
    · intro start finish roles known role there
      obtain ⟨data, listed, within⟩ := known role there
      exact available.asked data listed role within
  · obtain ⟨u, queued, same⟩ := handle_queues (step_handle head)
    rw [same.m_requestedData]
    cases queued with
    | still | fetchHeader | dropped | left | size | fetchPendingHeaderData | finished => exact available.asked
    | fetch asked =>
      intro request there role within
      obtain old | new := List.mem_append.mp there
      · exact available.asked request old role within
      · have asks := asked request new
        cases e with
        | receive packet =>
          cases packet with
          | signal signal =>
            cases signal with
            | dataChanged start finish roles =>
              obtain ⟨_, _, _, _, _, _, _, _, known, _⟩ := changes _ rfl
              have same : request.roles = roles := asks
              exact known role (same ▸ within)
            | rowsInserted | rowsRemoved | columnsInserted | headerDataChanged | modelReset | layoutChanged => exact absurd asks id
          | reply => exact absurd asks id
        | multiData index roles => exact asks role within
        | processEvent | rowCount | headerData => exact absurd asks id
    | reset done => exact absurd (changes _ rfl) id
    | layout parents size indexes => exact absurd (changes _ rfl) id
    | reply number reply =>
      obtain same | ⟨_, same⟩ | ⟨_, _, same⟩ := s.notifyAboutReply_cases number reply
      all_goals
        rw [same]
        exact available.asked
    | fetchPendingData first =>
      exact fetchPendingData_keeps (P := fun t => ∀ data ∈ t.m_requestedData, ∀ role ∈ data.roles, role ∈ config.availableRoles)
        nofun (fun _ good => good) available.asked

theorem onFinished_shows {serial : Nat} {watcher : Watcher} {reply : Reply V} (shows : Everywhere table.Shows s.m_rootItem)
    (listed : watcher.OfList config) (right : Table.Right config table watcher reply)
    (handled : s.onFinished config serial watcher reply = .ok t) : Everywhere table.Shows t.m_rootItem := by
  cases watcher with
  | row start finish roles =>
    cases reply with
    | entries entries =>
      obtain ⟨middle, item, resolved, _, ⟨_, rfl⟩ | ⟨filled, root, fill, refreshes, rfl⟩⟩ := requestedData_ok handled
      · exact shows.refreshes (shows_empty table) ((Refreshes.validQModelIndex resolved).trans (.touch _ _))
      · have first := shows.refreshes (shows_empty table)
          ((Refreshes.validQModelIndex resolved).trans (.touch (rowsOf start.dropLast) middle))
        exact (fillRows_shows listed first right fill).refreshes (shows_empty table) refreshes
    | size | header | cache => contradiction
  | header orientations sections roles =>
    cases reply with
    | header data =>
      obtain ⟨_, rfl, _⟩ := requestedHeaderData_ok handled
      exact shows
    | size | entries | cache => contradiction
  | init | reset | size | layout => exact absurd listed id

theorem shows_signal {signal : Signal} (shows : Everywhere table.Shows s.m_rootItem) (changes : Table.Changes config table signal after)
    (handled : s.onSignal config signal = .ok t) : Everywhere after.Shows t.m_rootItem := by
  cases signal with
  | dataChanged => exact onDataChanged_shows shows changes handled
  | rowsInserted => exact onRowsInserted_shows shows changes handled
  | rowsRemoved => exact onRowsRemoved_shows shows changes handled
  | columnsInserted | headerDataChanged | modelReset | layoutChanged => exact absurd changes id

/-- What the replica does besides reading a signal keeps what it has of the list. -/
theorem shows_step (shows : Everywhere table.Shows s.m_rootItem) (available : Available config s)
    (right : ∀ serial reply watcher posted, s.Handles serial reply watcher posted → Table.Right config table watcher reply)
    (other : ∀ signal, e ≠ .receive (.signal signal)) (head : s.step config e = some t) : Everywhere table.Shows t.m_rootItem := by
  obtain ⟨refreshes, _⟩ | ⟨serial, reply, watcher, posted, _, handles, finished⟩ := step_root head other
  · exact shows.refreshes (shows_empty table) refreshes
  · refine onFinished_shows (s := { s with posted }) shows ?_ (right serial reply watcher posted handles) finished
    exact available.watchers _ (watcher?_mem handles.watcher)

/-- A reply that a signal spares is still right behind it. -/
theorem Table.Right.spares {signal : Signal} {watcher : Watcher} {reply : Reply V} (right : Table.Right config table watcher reply)
    (changes : Table.Changes config table signal after)
    (spares : ∀ entries start finish roles, reply = .entries entries → watcher = .row start finish roles → ∀ pair ∈ entries,
      ∀ row, pair.index = [⟨row, 0⟩] → signal.Spares table.rows row roles) : Table.Right config after watcher reply := by
  cases watcher with
  | row start finish roles =>
    cases reply with
    | entries entries =>
      intro pair there
      obtain ⟨row, here, leaf, values⟩ := right pair there
      refine ⟨row, here, leaf, fun inside role value listed available => ?_⟩
      have spared := spares entries start finish roles rfl rfl pair there row here
      cases signal with
      | dataChanged first last changed =>
        obtain ⟨first, last, rfl, rfl, _, _, rows, _, _, same⟩ := changes
        rw [rows] at inside
        obtain same | ⟨above, below, changes⟩ := same row role
        · rw [same]
          exact values inside role value listed available
        · refine absurd changes (spared ?_ role (List.of_mem_zip listed).1)
          simp [inRange_list, above, below]
      | rowsInserted parent first last =>
        obtain ⟨_, _, fits, rows, above, _⟩ := changes
        obtain before | none := spared
        · rw [above row before]
          exact values (by omega) role value listed available
        · omega
      | rowsRemoved parent first last =>
        obtain ⟨_, _, fits, rows, same⟩ := changes
        obtain before | none := spared
        · rw [same, if_pos before]
          exact values (by omega) role value listed available
        · omega
      | columnsInserted | headerDataChanged | modelReset | layoutChanged => exact absurd changes id
    | size | header | cache => trivial
  | init | reset | size | header | layout => trivial

end Runs

section Networks
variable {V : Type} {config : Config} {net next s t : Network V} {e : NetworkEvent V}
open Replica Network

/-- The replica has the list as it has read of it. -/
structure InStep (config : Config) (net : Network V) : Prop where
  wired : Wired (SourceModel.table config) (Table.Changes config) (Table.Right config) net
  flat : net.m_model.Flat
  shows : Everywhere (net.view.table config).Shows net.replica.m_rootItem
  available : Available config net.replica

theorem InStep.lawful (kept : InStep config net) (still : net.FlatChange e) (fresh : net.Fresh e) :
    Lawful (SourceModel.table config) (Table.Changes config) (Table.Right config) config net e where
  changes change same allowed := by
    subst same
    exact kept.flat.changes allowed still
  serves request watcher reply _ asks served := kept.flat.serves asks served
  timely signal view packets same first serial reply watcher posted waits right := by
    subst same
    have follows := kept.wired.follows
    rw [first] at follows
    apply right.spares follows.1
    rintro entries start finish roles rfl rfl pair there row here
    rw [← (kept.shows [] _ rfl).1]
    exact fresh signal view packets first serial entries start finish roles posted waits pair there row here

theorem InStep.right (kept : InStep config net) {serial : Nat} {reply : Reply V} {watcher : Watcher} {posted : List (Posted V)}
    (handles : net.replica.Handles serial reply watcher posted) : Table.Right config (net.view.table config) watcher reply := by
  refine (kept.wired.posted serial reply ?_).2 watcher handles.watcher
  rw [handles.first]
  exact List.mem_cons_self

theorem InStep.unchanged (kept : InStep config net) {e : ReplicaEvent V} {t : Replica V} (handled : net.replica.step config e = some t)
    (other : ∀ signal, e ≠ .receive (.signal signal)) :
    Everywhere (net.view.table config).Shows t.m_rootItem ∧ Available config t := by
  refine ⟨shows_step kept.shows kept.available (fun _ _ _ _ => kept.right) other handled, ?_⟩
  have none : ∀ signal, e = .receive (.signal signal) → Table.Changes config (net.view.table config) signal (net.view.table config) :=
    fun signal same => absurd same (other signal)
  exact available_step kept.available kept.shows none handled

theorem inStep_step (kept : InStep config net) (still : net.FlatChange e) (fresh : net.Fresh e)
    (head : net.step config e = some next) : InStep config next := by
  have wired := wired_step kept.wired (kept.lawful still fresh) head
  cases e with
  | change change =>
    rw [Network.step] at head
    split at head
    · cases head
      exact ⟨wired, still, kept.shows, kept.available⟩
    · contradiction
  | serve =>
    rw [Network.step] at head
    split at head
    · contradiction
    · obtain ⟨_, _, rfl⟩ := Option.map_eq_some_iff.mp head
      exact ⟨wired, kept.flat, kept.shows, kept.available.watchers, kept.available.asked⟩
  | receive =>
    rw [Network.step] at head
    split at head
    · contradiction
    · rename_i packet view packets first
      obtain ⟨t, handled, rfl⟩ := Option.map_eq_some_iff.mp head
      have follows := kept.wired.follows
      rw [first] at follows
      cases packet with
      | signal signal =>
        have changes : ∀ other, ReplicaEvent.receive (.signal signal : Packet V) = .receive (.signal other) →
            Table.Changes config (net.view.table config) other (view.table config) := by
          intro other same
          cases same
          exact follows.1
        exact ⟨wired, kept.flat, shows_signal kept.shows follows.1 (step_handle handled),
          available_step kept.available kept.shows changes handled⟩
      | reply serial reply =>
        have same : view.table config = net.view.table config := follows.1.1
        obtain ⟨shows, available⟩ := kept.unchanged handled (by rintro _ ⟨⟩)
        refine ⟨wired, kept.flat, ?_, available⟩
        show Everywhere (view.table config).Shows t.m_rootItem
        rw [same]
        exact shows
  | replica e =>
    obtain ⟨t, handled, rfl, inner⟩ := replica_step head
    obtain ⟨shows, available⟩ := kept.unchanged handled fun _ => inner _
    exact ⟨wired, kept.flat, shows, available⟩

theorem inStep_opening {m_model : SourceModel V} {rootCacheSize : Nat} (flat : m_model.Flat)
    (action : config.m_initialAction = .fetchRootSize)
    (run : exec (Network.step config) (initial config m_model rootCacheSize) opening = some s) : InStep config s := by
  obtain ⟨nodesCacheSize, initialAction, hint, availableRoles⟩ := config
  cases action
  cases run
  refine ⟨⟨⟨nofun, nofun⟩, rfl, nofun⟩, flat, ?_, nofun, nofun⟩
  intro path item there
  cases path with
  | nil =>
    obtain rfl := Option.some.inj there
    exact ⟨rfl, flat.columnCount⟩
  | cons row rest => contradiction

/-- A list is coherent where nothing is under way, if each row reply that is posted is handled before a signal about it is
read. -/
theorem list_coherent {m_model : SourceModel V} {rootCacheSize : Nat} {es : List (NetworkEvent V)} (flat : m_model.Flat)
    (action : config.m_initialAction = .fetchRootSize)
    (opened : exec (Network.step config) (initial config m_model rootCacheSize) opening = some s)
    (run : exec (Network.step config) s es = some t) (still : Admitted (Network.step config) FlatChange s es)
    (fresh : Admitted (Network.step config) Fresh s es) (quiet : t.packets = []) : t.Coherent := by
  have both : Admitted (Network.step config) (fun net e => net.FlatChange e ∧ net.Fresh e) s es := still.and fresh
  have kept := exec_invariant (fun kept lawful head => inStep_step kept lawful.1 lawful.2 head) run both
    (inStep_opening flat action opened)
  have same : t.view.table config = t.m_model.table config := by
    have follows := kept.wired.follows
    rw [quiet] at follows
    exact follows
  refine ⟨?_, fun row item role value there cached => ?_⟩
  · have top := (kept.shows [] _ rfl).1
    rw [same] at top
    exact top
  · have right := (kept.shows [row] item there).2.2 rfl role value cached
    rw [same, SourceModel.table] at right
    dsimp only at right
    split at right
    · exact (Option.some.inj right).symm
    · contradiction

end Networks

section Example
open Network

/-- One row. -/
def exampleList (value : Nat) : SourceModel Nat where
  rowCount index := if index = [] then 1 else 0
  columnCount _ := 1
  hasChildren index := index = []
  flags _ := 0
  data _ _ := value
  headerData _ _ _ := 0
  setData _ _ _ := true

theorem exampleList_flat (value : Nat) : (exampleList value).Flat where
  columnCount := rfl
  rowCount _ nested := if_neg nested
  hasChildren _ nested := decide_eq_false nested

def listOpened : Network Nat :=
  (exec (Network.step Replica.exampleListConfig) (initial Replica.exampleListConfig (exampleList 7) 1000) opening).get rfl

theorem listOpened_run : exec (Network.step Replica.exampleListConfig) (initial Replica.exampleListConfig (exampleList 7) 1000)
    opening = some listOpened := rfl

/-- The row is read, and its reply is posted. -/
def rowAsked : List (NetworkEvent Nat) :=
  [.replica (.multiData [⟨0, 0⟩] [0]), .replica .processEvent, .serve, .receive]

def rowChanged : NetworkEvent Nat := .change (.dataChanged [⟨0, 0⟩] [⟨0, 0⟩] [0] (exampleList 8))

/-- The reply is handled, and the row changes. -/
def rowFollowed : List (NetworkEvent Nat) := rowAsked ++ [.replica .processEvent, rowChanged, .receive]

/-- The row changes, and the reply is handled behind that. -/
def rowOverwritten : List (NetworkEvent Nat) := rowAsked ++ [rowChanged, .receive, .replica .processEvent]

theorem rowChanged_flat {net : Network Nat} (flat : net.m_model.Flat) : net.FlatChange rowChanged :=
  ⟨flat.columnCount, flat.rowCount, flat.hasChildren⟩

theorem list_coherent_example : ∃ t : Network Nat,
    exec (Network.step Replica.exampleListConfig) listOpened rowFollowed = some t ∧ t.packets = [] ∧ t.Coherent := by
  have run : exec (Network.step Replica.exampleListConfig) listOpened rowFollowed = some _ := rfl
  refine ⟨_, run, rfl, list_coherent (exampleList_flat 7) rfl listOpened_run run ?_ ?_ rfl⟩
  · refine .cons trivial rfl (.cons trivial rfl (.cons trivial rfl (.cons trivial rfl (.cons trivial rfl
      (.cons ?_ rfl (.cons trivial rfl trivial))))))
    exact rowChanged_flat (exampleList_flat 7)
  · refine .cons trivial rfl (.cons trivial rfl (.cons trivial rfl (.cons ?_ rfl (.cons trivial rfl
      (.cons trivial rfl (.cons ?_ rfl trivial))))))
    · intro signal view packets first
      cases first
    · intro signal view packets first serial entries start finish roles posted
      cases posted

/-- The reply of the row is posted when its change is read, and it is handled behind that. -/
theorem stale_reply_not_coherent : ¬ StaysCoherent Replica.exampleListConfig (exampleList 7) 1000 := by
  intro coherent
  have run : exec (Network.step Replica.exampleListConfig) listOpened rowOverwritten = some _ := rfl
  have still : Admitted (Network.step Replica.exampleListConfig) FlatChange listOpened rowOverwritten := by
    refine .cons trivial rfl (.cons trivial rfl (.cons trivial rfl (.cons trivial rfl (.cons ?_ rfl
      (.cons trivial rfl (.cons trivial rfl trivial))))))
    exact rowChanged_flat (exampleList_flat 7)
  have wrong := (coherent (exampleList_flat 7) rfl listOpened_run run still rfl rfl).values 0 _ 0 7 rfl rfl
  contradiction

end Example
end RemoteObjects.ItemModel
