import RemoteObjects.ItemModel.LayoutParents
import RemoteObjects.ItemModel.Pending

/-! The cells of a cached row, which are found by their positions in its list of entries. -/
namespace RemoteObjects.ItemModel
open Transition

section Model
variable {V : Type}

/-- What happens to the entries of a row. -/
inductive RowEntryEvent (V : Type)
  /-- It is inserted, or it comes back into the cache. -/
  | made (columnCount : Nat)
  /-- `clearCache` on a range of columns. -/
  | cleared (startColumn lastColumn : Nat) (roles : List Role) (parentColumns : Nat)
  /-- `fillRow`. -/
  | filled (pair : IndexValuePair V) (roles : List Role) (column : Nat)

namespace ItemData
variable (item : ItemData V)

def handle : RowEntryEvent V → Except Failure (ItemData V)
  | .made columnCount => .ok { ItemData.empty with columnCount }
  | .cleared startColumn lastColumn roles parentColumns => do
    let cachedRowEntry ← (List.range' startColumn (lastColumn + 1 - startColumn)).foldlM
      (fun entries column => removeIndexFromRow column roles parentColumns entries) item.cachedRowEntry
    pure { item with cachedRowEntry }
  | .filled pair roles column => CacheData.fillItem pair roles column item

def step (item : ItemData V) (e : RowEntryEvent V) : Option (ItemData V) := (item.handle e).toOption

def findData (column : Nat) (role : Role) : Option V := item.cachedRowEntry[column]?.bind fun entry => entry.find? role

end ItemData
end Model

section Statement
variable {V : Type}

/-- The value that an entry of a reply has for a role, which is the last one. -/
def IndexValuePair.value? (pair : IndexValuePair V) (roles : List Role) (role : Role) : Option V :=
  ((roles.zip pair.data).reverse.find? fun cell => cell.1 = role).map Prod.snd

namespace ItemData

/-- Where `fillRow` ends, its column has the values of the entry, and each other column has what it had. -/
def Placed (item : ItemData V) : RowEntryEvent V → Prop
  | .filled pair roles column => ∀ after, item.handle (.filled pair roles column) = .ok after →
      (∀ role ∈ roles, after.findData column role = pair.value? roles role) ∧
        ∀ other, other ≠ column → ∀ role, after.findData other role = item.findData other role
  | _ => True

/-- No column is left out before one that has values. -/
def Dense (item : ItemData V) : RowEntryEvent V → Prop
  | .filled pair roles column => roles.length = pair.data.length → roles ≠ [] → column ≤ item.cachedRowEntry.length
  | _ => True

end ItemData
end Statement

section Entry
variable {V : Type} {pair : IndexValuePair V} {roles : List Role} {entry after : CacheEntry V} {role : Role}
open CacheData

theorem find?_written (cells : List (Role × V)) (entry : CacheEntry V) (role : Role) :
    (cells.foldl (fun entry cell => entry.insert cell.1 cell.2) entry).find? role =
      ((cells.reverse.find? fun cell => cell.1 = role).map Prod.snd).or (entry.find? role) := by
  induction cells generalizing entry with
  | nil => rfl
  | cons cell cells ih =>
    rw [List.foldl_cons, ih, CacheEntry.find?_insert, List.reverse_cons, List.find?_append, List.find?_singleton]
    by_cases same : role = cell.1
    · cases later : cells.reverse.find? fun cell => cell.1 = role <;> simp [same]
    · simp [same, Ne.symm same]

/-- An entry that is written has the values of the reply, and its old ones for other roles. -/
theorem find?_filled (filled : fillCacheEntry pair roles entry = .ok after) (role : Role) :
    roles.length = pair.data.length ∧ after.find? role = (pair.value? roles role).or (entry.find? role) := by
  rw [fillCacheEntry] at filled
  split at filled
  · rename_i lengths
    cases filled
    exact ⟨lengths, find?_written _ _ role⟩
  · contradiction

theorem value?_isSome (lengths : roles.length = pair.data.length) (asked : role ∈ roles) : (pair.value? roles role).isSome := by
  rw [IndexValuePair.value?, Option.isSome_map, List.find?_isSome]
  rw [← List.map_fst_zip (Nat.le_of_eq lengths), List.mem_map] at asked
  obtain ⟨cell, there, rfl⟩ := asked
  exact ⟨cell, List.mem_reverse.mpr there, by simp⟩

theorem find?_filled_asked (filled : fillCacheEntry pair roles entry = .ok after) (asked : role ∈ roles) :
    after.find? role = pair.value? roles role := by
  obtain ⟨lengths, found⟩ := find?_filled filled role
  obtain ⟨value, there⟩ := Option.isSome_iff_exists.mp (value?_isSome lengths asked)
  rw [found, there]
  rfl

end Entry

section Main
variable {V : Type} {pair : IndexValuePair V} {roles : List Role} {item after : ItemData V} {column : Nat}
namespace ItemData
open CacheData

/-- A column at the end of the row or before it is written at its place. -/
theorem placed_of_le (inside : column ≤ item.cachedRowEntry.length) (filled : fillItem pair roles column item = .ok after) :
    (∀ role ∈ roles, after.findData column role = pair.value? roles role) ∧
      ∀ other, other ≠ column → ∀ role, after.findData other role = item.findData other role := by
  obtain ⟨entry, made, rfl⟩ := fillItem_ok filled
  have placed : ∀ other, (if column < item.cachedRowEntry.length then item.cachedRowEntry.set column entry
      else item.cachedRowEntry ++ [entry])[other]? = if other = column then some entry else item.cachedRowEntry[other]? := by
    intro other
    split
    · rename_i within
      rw [List.getElem?_set]
      by_cases same : other = column
      · subst same
        simp [within]
      · simp [same, Ne.symm same]
    · rename_i behind
      obtain rfl : column = item.cachedRowEntry.length := by omega
      rw [List.getElem?_append]
      grind
  constructor
  · intro role asked
    rw [findData, placed, if_pos rfl]
    exact find?_filled_asked made asked
  · intro other differs role
    rw [findData, findData, placed, if_neg differs]

/-- One behind the end is not found where it belongs. -/
theorem not_found_of_lt (behind : item.cachedRowEntry.length < column) (filled : fillItem pair roles column item = .ok after)
    (role : Role) : after.findData column role = none := by
  obtain ⟨entry, _, rfl⟩ := fillItem_ok filled
  rw [if_neg (Nat.not_lt.mpr (Nat.le_of_lt behind)), findData, List.getElem?_eq_none]
  · rfl
  · rw [List.length_append]
    exact behind

/-- An entry without roles is not found, wherever it is. -/
theorem kept_without_roles (behind : item.cachedRowEntry.length < column) (filled : fillItem pair [] column item = .ok after)
    (other : Nat) (role : Role) : after.findData other role = item.findData other role := by
  obtain ⟨entry, made, rfl⟩ := fillItem_ok filled
  have nothing : entry.find? role = none := by
    rw [(find?_filled made role).2, List.getElem?_eq_none (Nat.le_of_lt behind)]
    rfl
  rw [if_neg (Nat.not_lt.mpr (Nat.le_of_lt behind)), findData, findData]
  obtain inside | rfl | outside := Nat.lt_trichotomy other item.cachedRowEntry.length
  · rw [List.getElem?_append_left inside]
  · rw [List.getElem?_concat_length, List.getElem?_eq_none (Nat.le_refl _)]
    exact nothing
  · rw [List.getElem?_eq_none (by rw [List.length_append]; exact outside), List.getElem?_eq_none (Nat.le_of_lt outside)]

theorem placed_iff_dense (item : ItemData V) (e : RowEntryEvent V) : item.Placed e ↔ item.Dense e := by
  cases e with
  | made | cleared => exact Iff.rfl
  | filled pair roles column =>
    constructor
    · intro placed lengths asks
      obtain ⟨after, filled⟩ := fillItem_total lengths column item
      obtain ⟨role, asked⟩ := List.exists_mem_of_ne_nil roles asks
      by_contra behind
      have found := (placed after filled).1 role asked
      rw [not_found_of_lt (Nat.lt_of_not_le behind) filled] at found
      have there := value?_isSome lengths asked
      rw [← found] at there
      contradiction
    · intro dense after filled
      by_cases inside : column ≤ item.cachedRowEntry.length
      · exact placed_of_le inside filled
      · obtain ⟨entry, made, _⟩ := fillItem_ok filled
        obtain rfl : roles = [] := by
          by_contra asks
          exact inside (dense (find?_filled made 0).1 asks)
        exact ⟨nofun, fun other _ => kept_without_roles (Nat.lt_of_not_le inside) filled other⟩

/-- In a run of the entries of a row all of its fillings find their places if none of them leaves a column out. -/
theorem columns_placed_iff (item : ItemData V) (es : List (RowEntryEvent V)) :
    Admitted step Placed item es ↔ Admitted step Dense item es :=
  admitted_iff (P := fun _ => True) (fun _ _ => trivial) (fun _ => placed_iff_dense _ _) trivial

end ItemData
end Main

section Example
namespace ItemData

/-- A model of one row and two columns gets a second row, and the second cell of that a value. -/
def secondColumnChanged : List (ReplicaEvent Nat) :=
  [.receive (.reply 0 (.size ⟨2, 1⟩)), .processEvent, .receive (.signal (.rowsInserted [] 1 1)),
    .receive (.signal (.dataChanged [⟨1, 1⟩] [⟨1, 1⟩] [0])), .processEvent,
    .receive (.reply 1 (.entries [⟨[⟨1, 1⟩], [7], false, 0, [], ⟨0, 0⟩⟩])), .processEvent]

/-- The value comes into the first column. -/
theorem second_column_misplaced :
    ¬ Admitted step Placed (.empty : ItemData Nat) [.made 2, .filled ⟨[⟨1, 1⟩], [7], false, 0, [], ⟨0, 0⟩⟩ [0] 1] ∧
      ∃ s : Replica Nat, exec (Replica.step exampleReplicaConfig) ((Replica.initial 1000).init exampleReplicaConfig)
        secondColumnChanged = some s ∧
          (s.m_rootItem.item? [1]).map (fun item => (item.findData 0 0, item.findData 1 0)) = some (some 7, none) := by
  refine ⟨fun placed => ?_, _, rfl, by decide⟩
  have filled := (placed.2 _ rfl).1 _ rfl
  have found := filled.1 0 List.mem_cons_self
  revert found
  decide

end ItemData
end Example
end RemoteObjects.ItemModel
