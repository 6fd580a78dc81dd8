import Mathlib.Data.List.ModifyLast
import Mathlib.Data.List.Sort
import RemoteObjects.ItemModel.Handlers
import RemoteObjects.Loops

/-! The two scans with which `onDataChanged` looks for cached rows, on one cursor, and the runs of rows that they request. -/
namespace RemoteObjects.ItemModel
open Loops

section Model
variable {ρ : Type}

/-- `for (; startRow <= endRow; startRow++) if (exists(startRow)) break;` -/
def skipUncached (cached : Nat → Bool) (endRow tests startRow : Nat) : Control ρ Nat :=
  repeatWhile (fun row => row ≤ endRow && !cached row) (fun row => .next (row + 1)) tests startRow

/-- `while (startRow <= endRow && exists(startRow)) ++startRow;` -/
def passCached (cached : Nat → Bool) (endRow tests startRow : Nat) : Control ρ Nat :=
  repeatWhile (fun row => row ≤ endRow && cached row) (fun row => .next (row + 1)) tests startRow

/-- `index.last().row = row`. -/
def withLastRow (row : Nat) (index : IndexList) : IndexList := index.modifyLast fun last => { last with row }

def requestedRows (start finish : IndexList) (roles : List Role) (range : Nat × Nat) : RequestedData :=
  ⟨withLastRow range.1 start, withLastRow range.2 finish, roles⟩

/-- What the cursor has found: the first and the last row of each request so far. -/
structure RowScan where
  startRow : Nat
  ranges : List (Nat × Nat)
deriving DecidableEq

/-- One round of the outer loop. Behind the last row there is nothing to request. -/
def scanRound (cached : Nat → Bool) (endRow tests : Nat) (s : RowScan) : Control ρ RowScan :=
  (skipUncached cached endRow tests s.startRow).bind fun startRow =>
    if endRow < startRow then .next { s with startRow }
    else (passCached cached endRow tests startRow).bind fun next => .next ⟨next, s.ranges ++ [(startRow, next - 1)]⟩

def scanRows (cached : Nat → Bool) (startRow endRow tests : Nat) : Control ρ RowScan :=
  repeatWhile (fun s => s.startRow ≤ endRow) (scanRound cached endRow tests) tests ⟨startRow, []⟩

/-- `onDataChanged` up to the loops: whether both indexes are valid, and what is cached then. -/
def validIndexes {V : Type} (config : Config) (start finish : IndexList) (roles : List Role) (m_rootItem : CacheData V) :
    Except Failure (Bool × CacheData V) := do
  let (cleared, m_rootItem) ← Replica.clearCache config start finish roles m_rootItem
  if !cleared then return (false, m_rootItem)
  let (ok, m_rootItem) ← m_rootItem.toQModelIndex config.nodesCacheSize start
  if !ok then return (false, m_rootItem)
  m_rootItem.toQModelIndex config.nodesCacheSize finish

/-- The ranges are the longest ones of cached rows between two rows. -/
structure CachedRuns (cached : Nat → Bool) (startRow endRow : Nat) (ranges : List (Nat × Nat)) : Prop where
  within : ∀ range ∈ ranges, startRow ≤ range.1 ∧ range.1 ≤ range.2 ∧ range.2 ≤ endRow
  present : ∀ range ∈ ranges, ∀ row, range.1 ≤ row → row ≤ range.2 → cached row = true
  covers : ∀ row, startRow ≤ row → row ≤ endRow → cached row = true → ∃ range ∈ ranges, range.1 ≤ row ∧ row ≤ range.2
  inOrder : ranges.Pairwise fun before after => before.2 < after.1
  left : ∀ range ∈ ranges, startRow < range.1 → cached (range.1 - 1) = false
  right : ∀ range ∈ ranges, range.2 < endRow → cached (range.2 + 1) = false

/-- What holds at each test of the outer loop: the rows in front of the cursor are done. -/
structure Scanned (cached : Nat → Bool) (startRow endRow : Nat) (s : RowScan) : Prop where
  first : startRow ≤ s.startRow
  within : ∀ range ∈ s.ranges, startRow ≤ range.1 ∧ range.1 ≤ range.2 ∧ range.2 < s.startRow ∧ range.2 ≤ endRow
  present : ∀ range ∈ s.ranges, ∀ row, range.1 ≤ row → row ≤ range.2 → cached row = true
  covers : ∀ row, startRow ≤ row → row < s.startRow → cached row = true → ∃ range ∈ s.ranges, range.1 ≤ row ∧ row ≤ range.2
  inOrder : s.ranges.Pairwise fun before after => before.2 < after.1
  left : ∀ range ∈ s.ranges, startRow < range.1 → cached (range.1 - 1) = false
  right : ∀ range ∈ s.ranges, range.2 < endRow → cached (range.2 + 1) = false
  border : startRow < s.startRow → s.startRow ≤ endRow → cached s.startRow = true → cached (s.startRow - 1) = false

end Model

section Scans
variable {ρ : Type} {cached : Nat → Bool} {startRow endRow tests : Nat}

/-- A scan stops at the first row that it is not for. -/
theorem scan_ends (p : Nat → Bool) (first : startRow ≤ endRow + 1) (enough : endRow + 1 - startRow < tests) :
    (repeatWhile (fun row => row ≤ endRow && p row) (fun row => (.next (row + 1) : Control ρ Nat)) tests startRow).Ends
      (fun next => startRow ≤ next ∧ next ≤ endRow + 1 ∧ (∀ row, startRow ≤ row → row < next → p row = true) ∧
        (next ≤ endRow → p next = false)) (fun _ => False) := by
  refine Control.Ends.mono (repeatWhile_ends (fun next => startRow ≤ next ∧ next ≤ endRow + 1 ∧ ∀ row, startRow ≤ row → row < next → p row = true)
    (fun next => endRow + 1 - next) ?_ enough ⟨Nat.le_refl _, first, by omega⟩) ?_ fun _ => id
  · rintro next ⟨low, high, all⟩ tested
    simp only [Bool.and_eq_true, decide_eq_true_eq] at tested
    refine ⟨⟨by omega, by omega, fun row above below => ?_⟩, by omega⟩
    obtain same | earlier : row = next ∨ row < next := by omega
    · exact same ▸ tested.2
    · exact all row above earlier
  · rintro next ⟨⟨low, high, all⟩, tested⟩
    exact ⟨low, high, all, fun inside => by simpa [inside] using tested⟩

theorem scanned_initial : Scanned cached startRow endRow ⟨startRow, []⟩ where
  first := Nat.le_refl _
  within := by simp
  present := by simp
  covers row low high := absurd low (Nat.not_le.mpr high)
  inOrder := .nil
  left := by simp
  right := by simp
  border later := absurd later (Nat.lt_irrefl _)

/-- A round takes the cursor behind the next run. -/
theorem scanRound_scanned {s : RowScan} (scanned : Scanned cached startRow endRow s) (inside : s.startRow ≤ endRow)
    (enough : endRow + 1 - s.startRow < tests) :
    (scanRound cached endRow tests s : Control ρ RowScan).Ends
      (fun t => Scanned cached startRow endRow t ∧ endRow + 1 - t.startRow < endRow + 1 - s.startRow) (fun _ => False) := by
  refine (scan_ends (fun row => !cached row) (by omega) enough).bind fun start ⟨low, high, uncached, found⟩ => ?_
  simp only [Bool.not_eq_true', Bool.not_eq_false'] at uncached found
  have earlier : ∀ row, startRow ≤ row → row < start → cached row = true → ∃ range ∈ s.ranges, range.1 ≤ row ∧ row ≤ range.2 := by
    intro row above below there
    obtain before | behind : row < s.startRow ∨ s.startRow ≤ row := by omega
    · exact scanned.covers row above before there
    · simp [uncached row behind below] at there
  have first := scanned.first
  split
  · -- No row is left: what the scan has passed is not cached.
    exact ⟨{ scanned with
      first := by dsimp only; omega
      within := fun range there => by have := scanned.within range there; dsimp only; omega
      covers := earlier
      border := fun _ inside => by dsimp only at inside; omega }, by dsimp only; omega⟩
  · rename_i some
    have there := found (by omega)
    refine (scan_ends cached (by omega) (by omega)).bind fun next ⟨above, below, all, stopped⟩ => ?_
    have progress : start < next := by
      by_contra! still
      obtain rfl : next = start := by omega
      simp [stopped (by omega)] at there
    have apart : ∀ range ∈ s.ranges, range.2 < start := fun range member => by have := scanned.within range member; omega
    have borders : startRow < start → cached (start - 1) = false := by
      intro later
      obtain same | behind : start = s.startRow ∨ s.startRow < start := by omega
      · exact same ▸ scanned.border (same ▸ later) inside (same ▸ there)
      · exact uncached _ (by omega) (by omega)
    refine ⟨⟨by dsimp only; omega, ?_, ?_, ?_, ?_, ?_, ?_, ?_⟩, by dsimp only; omega⟩
    · simp only [List.forall_mem_append, List.forall_mem_singleton]
      exact ⟨fun range member => by have := scanned.within range member; omega, by omega⟩
    · simp only [List.forall_mem_append, List.forall_mem_singleton]
      exact ⟨scanned.present, fun row low high => all row low (by omega)⟩
    · intro row low high present
      obtain before | behind : row < start ∨ start ≤ row := by omega
      · obtain ⟨range, member, inside⟩ := earlier row low before present
        exact ⟨range, List.mem_append_left _ member, inside⟩
      · exact ⟨(start, next - 1), by simp, behind, by dsimp only at high ⊢; omega⟩
    · simpa [List.pairwise_append] using ⟨scanned.inOrder, fun a b member => apart (a, b) member⟩
    · simp only [List.forall_mem_append, List.forall_mem_singleton]
      exact ⟨scanned.left, borders⟩
    · simp only [List.forall_mem_append, List.forall_mem_singleton]
      refine ⟨scanned.right, fun inside => ?_⟩
      rw [Nat.sub_add_cancel (by omega)]
      exact stopped (by omega)
    · intro _ inside present
      simp [stopped inside] at present

/-- The loop ends, and the cursor has then found the runs. -/
theorem scanRows_runs (cached : Nat → Bool) (startRow endRow : Nat) (enough : endRow + 1 - startRow < tests) :
    (scanRows cached startRow endRow tests : Control ρ RowScan).Ends (fun s => CachedRuns cached startRow endRow s.ranges)
      (fun _ => False) := by
  refine Control.Ends.mono (repeatWhile_ends (fun s => Scanned cached startRow endRow s ∧ endRow + 1 - s.startRow < tests)
    (fun s => endRow + 1 - s.startRow) ?_ enough ⟨scanned_initial, enough⟩) ?_ fun _ => id
  · rintro s ⟨scanned, enough⟩ tested
    refine (scanRound_scanned scanned (by simpa using tested) enough).mono (fun t ⟨kept, smaller⟩ => ?_) fun _ => id
    exact ⟨⟨kept, by omega⟩, smaller⟩
  · rintro s ⟨⟨scanned, _⟩, tested⟩
    have behind : endRow < s.startRow := by simpa using tested
    exact ⟨fun range member => by have := scanned.within range member; omega, scanned.present,
      fun row low high => scanned.covers row low (by omega), scanned.inOrder, scanned.left, scanned.right⟩

end Scans

section Unique
variable {cached : Nat → Bool} {startRow endRow : Nat} {ranges others : List (Nat × Nat)}

theorem CachedRuns.mem_iff (runs : CachedRuns cached startRow endRow ranges) (range : Nat × Nat) :
    range ∈ ranges ↔ (startRow ≤ range.1 ∧ range.1 ≤ range.2 ∧ range.2 ≤ endRow) ∧
      (∀ row, range.1 ≤ row → row ≤ range.2 → cached row = true) ∧ (startRow < range.1 → cached (range.1 - 1) = false) ∧
      (range.2 < endRow → cached (range.2 + 1) = false) := by
  constructor
  · exact fun member => ⟨runs.within _ member, runs.present _ member, runs.left _ member, runs.right _ member⟩
  · rintro ⟨⟨low, ordered, high⟩, all, left, right⟩
    obtain ⟨run, member, above, below⟩ := runs.covers range.1 low (by omega) (all _ (Nat.le_refl _) ordered)
    have inside := runs.within run member
    have first : run.1 = range.1 := by
      by_contra differs
      have there := runs.present run member (range.1 - 1) (by omega) (by omega)
      simp [left (by omega)] at there
    have last : run.2 = range.2 := by
      obtain same | shorter | longer : run.2 = range.2 ∨ run.2 < range.2 ∨ range.2 < run.2 := by omega
      · exact same
      · have there := all (run.2 + 1) (by omega) (by omega)
        simp [runs.right run member (by omega)] at there
      · have there := runs.present run member (range.2 + 1) (by omega) (by omega)
        simp [right (by omega)] at there
    exact Prod.ext first last ▸ member

/-- Ranges that follow each other are known as a list by the ranges in it. -/
theorem CachedRuns.unique (runs : CachedRuns cached startRow endRow ranges) (runs' : CachedRuns cached startRow endRow others) :
    ranges = others := by
  have follows {l : List (Nat × Nat)} (runs : CachedRuns cached startRow endRow l) : l.Pairwise fun a b => a.1 < b.1 :=
    runs.inOrder.imp_of_mem fun member _ before => Nat.lt_of_le_of_lt (runs.within _ member).2.1 before
  have irreflexive : Std.Irrefl fun a b : Nat × Nat => a.1 < b.1 := ⟨fun _ => Nat.lt_irrefl _⟩
  have antisymmetric : Std.Antisymm fun a b : Nat × Nat => a.1 < b.1 := ⟨fun _ _ less more => absurd more (Nat.lt_asymm less)⟩
  exact (follows runs).eq_of_mem_iff (follows runs') fun range => by rw [runs.mem_iff, runs'.mem_iff]

/-- The first row is behind the last one then. -/
theorem CachedRuns.nil (behind : endRow < startRow) : CachedRuns cached startRow endRow [] where
  within := by simp
  present := by simp
  covers row low high := by omega
  inOrder := .nil
  left := by simp
  right := by simp

theorem CachedRuns.uncached (runs : CachedRuns cached (startRow + 1) endRow ranges) (absent : cached startRow = false) :
    CachedRuns cached startRow endRow ranges where
  within range member := by have := runs.within range member; omega
  present := runs.present
  covers row low high there := by
    obtain rfl | later : row = startRow ∨ startRow + 1 ≤ row := by omega
    · simp [absent] at there
    · exact runs.covers row later high there
  inOrder := runs.inOrder
  left range member _ := by
    obtain same | later : range.1 = startRow + 1 ∨ startRow + 1 < range.1 := by have := runs.within range member; omega
    · simpa [same] using absent
    · exact runs.left range member later
  right := runs.right

/-- A cached row with an uncached one behind it. -/
theorem CachedRuns.single (runs : CachedRuns cached (startRow + 1) endRow ranges) (there : cached startRow = true)
    (inside : startRow ≤ endRow) (apart : ∀ range ∈ ranges, range.1 ≠ startRow + 1) :
    CachedRuns cached startRow endRow ((startRow, startRow) :: ranges) where
  within := by
    simp only [List.forall_mem_cons]
    exact ⟨by omega, fun range member => by have := runs.within range member; omega⟩
  present := by
    simp only [List.forall_mem_cons]
    refine ⟨fun row low high => ?_, runs.present⟩
    obtain rfl : row = startRow := by omega
    exact there
  covers row low high there := by
    obtain rfl | later : row = startRow ∨ startRow + 1 ≤ row := by omega
    · exact ⟨_, List.mem_cons_self, low, low⟩
    · obtain ⟨range, member, inside⟩ := runs.covers row later high there
      exact ⟨range, List.mem_cons_of_mem _ member, inside⟩
  inOrder := List.pairwise_cons.mpr ⟨fun range member => (runs.within range member).1, runs.inOrder⟩
  left := by
    simp only [List.forall_mem_cons]
    exact ⟨fun less => absurd less (Nat.lt_irrefl _), fun range member _ =>
      runs.left range member (by have := runs.within range member; have := apart range member; omega)⟩
  right := by
    simp only [List.forall_mem_cons]
    refine ⟨fun more => ?_, runs.right⟩
    by_contra present
    obtain ⟨range, member, low, _⟩ := runs.covers (startRow + 1) (Nat.le_refl _) more (by simpa using present)
    exact apart range member (by have := runs.within range member; omega)

/-- A cached row in front of a run. -/
theorem CachedRuns.longer {last : Nat} (runs : CachedRuns cached (startRow + 1) endRow ((startRow + 1, last) :: ranges))
    (there : cached startRow = true) : CachedRuns cached startRow endRow ((startRow, last) :: ranges) := by
  obtain ⟨within, present, covers, inOrder, left, right⟩ := runs
  simp only [List.forall_mem_cons, List.pairwise_cons] at within present inOrder left right
  refine ⟨?_, ?_, fun row low high cachedRow => ?_, ?_, ?_, ?_⟩
  · simp only [List.forall_mem_cons]
    exact ⟨by omega, fun range member => by have := within.2 range member; omega⟩
  · simp only [List.forall_mem_cons]
    refine ⟨fun row low high => ?_, present.2⟩
    obtain rfl | later : row = startRow ∨ startRow + 1 ≤ row := by omega
    · exact there
    · exact present.1 row later high
  · obtain rfl | later : row = startRow ∨ startRow + 1 ≤ row := by omega
    · exact ⟨_, List.mem_cons_self, low, by dsimp only; omega⟩
    · obtain ⟨range, member, low, high⟩ := covers row later high cachedRow
      obtain rfl | old := List.mem_cons.mp member
      · exact ⟨_, List.mem_cons_self, by dsimp only at low ⊢; omega, high⟩
      · exact ⟨range, List.mem_cons_of_mem _ old, low, high⟩
  · exact List.pairwise_cons.mpr inOrder
  · simp only [List.forall_mem_cons]
    refine ⟨fun less => absurd less (Nat.lt_irrefl _), fun range member _ => left.2 range member ?_⟩
    have := inOrder.1 range member
    omega
  · simpa only [List.forall_mem_cons] using right

theorem cachedRanges_runs (cached : Nat → Bool) (startRow endRow : Nat) :
    CachedRuns cached startRow endRow (Replica.cachedRanges cached (List.range' startRow (endRow + 1 - startRow))) := by
  induction count : endRow + 1 - startRow generalizing startRow with
  | zero => exact .nil (by omega)
  | succ count ih =>
    have tail := ih (startRow + 1) (by omega)
    rw [List.range'_succ, Replica.cachedRanges]
    split
    · rename_i there
      split
      · rename_i first last ranges same
        rw [same] at tail
        split
        · rename_i joins
          exact (joins ▸ tail).longer there
        · rename_i apart
          refine tail.single there (by omega) fun range member => ?_
          obtain rfl | later := List.mem_cons.mp member
          · exact apart
          · have := (List.pairwise_cons.mp tail.inOrder).1 range later
            have := tail.within _ List.mem_cons_self
            dsimp only at *
            omega
      · rename_i same
        rw [same] at tail
        exact tail.single there (by omega) (by simp)
    · rename_i absent
      exact tail.uncached (by simpa using absent)

end Unique

section Main
variable {ρ V : Type} {config : Config} {s t : Replica V} {start finish : IndexList} {roles : List Role}

/-- The loop finds what the ranges of cached rows are. -/
theorem scanRows_eq (cached : Nat → Bool) (startRow endRow : Nat) {tests : Nat} (enough : endRow + 1 - startRow < tests) :
    ∃ cursor, (scanRows cached startRow endRow tests : Control ρ RowScan) =
      .next ⟨cursor, Replica.cachedRanges cached (List.range' startRow (endRow + 1 - startRow))⟩ := by
  have ends := scanRows_runs (ρ := ρ) cached startRow endRow enough
  cases found : (scanRows cached startRow endRow tests : Control ρ RowScan) with
  | next s =>
    rw [found] at ends
    exact ⟨s.startRow, by rw [← CachedRuns.unique ends (cachedRanges_runs cached startRow endRow)]⟩
  | exit r => simp [found, Control.Ends] at ends
  | unfinished => simp [found, Control.Ends] at ends

theorem withLastRow_eq {index : IndexList} {last : ModelIndex} (ends : index.getLast? = some last) (row : Nat) :
    withLastRow row index = index.dropLast ++ [⟨row, last.column⟩] := by
  obtain ⟨above, rfl⟩ := List.getLast?_eq_some_iff.mp ends
  simp [withLastRow, List.modifyLast_concat]

/-- The requests for the data behind a change are for the runs of cached rows, which the loop finds in any number of tests
that is large enough. Without valid indexes there are none. -/
theorem onDataChanged_requests_cached_runs (handled : s.onDataChanged config start finish roles = .ok t) :
    ∃ valid root, validIndexes config start finish roles s.m_rootItem = .ok (valid, root) ∧ t.m_rootItem = root ∧
      (valid = false → t.m_requestedData = s.m_requestedData) ∧
      (valid = true → ∃ first last parentItem found, start.getLast? = some first ∧ finish.getLast? = some last ∧
        root.find? (rowsOf start.dropLast) = some parentItem ∧
        (∀ tests, last.row + 1 - first.row < tests → ∃ cursor,
          (scanRows parentItem.children.contains first.row last.row tests : Control Empty RowScan) = .next ⟨cursor, found⟩) ∧
        CachedRuns parentItem.children.contains first.row last.row found ∧
        t.m_requestedData = s.m_requestedData ++ found.map (requestedRows start finish roles)) := by
  obtain ⟨⟨cleared, middle⟩, clears, rest⟩ := bind_ok.mp handled
  dsimp only at rest
  split at rest
  · rename_i missing
    cases rest
    exact ⟨false, middle, bind_ok.mpr ⟨_, clears, if_pos missing⟩, rfl, fun _ => rfl, nofun⟩
  · rename_i some
    obtain ⟨⟨startOk, first⟩, resolves, rest⟩ := bind_ok.mp rest
    dsimp only at rest
    split at rest
    · rename_i missing
      cases rest
      exact ⟨false, first, bind_ok.mpr ⟨_, clears, (if_neg some).trans (bind_ok.mpr ⟨_, resolves, if_pos missing⟩)⟩, rfl,
        fun _ => rfl, nofun⟩
    · rename_i startValid
      obtain ⟨⟨endOk, root⟩, resolves', rest⟩ := bind_ok.mp rest
      have valid : validIndexes config start finish roles s.m_rootItem = .ok (endOk, root) :=
        bind_ok.mpr ⟨_, clears, (if_neg some).trans (bind_ok.mpr ⟨_, resolves, (if_neg startValid).trans resolves'⟩)⟩
      refine ⟨endOk, root, valid, ?_⟩
      dsimp only at rest
      split at rest
      · rename_i missing
        cases rest
        exact ⟨rfl, fun _ => rfl, fun ok => by simp [ok] at missing⟩
      · rename_i present
        split at rest
        · rename_i firstIndex lastIndex parentItem starts ends found
          have runs := cachedRanges_runs parentItem.children.contains firstIndex.row lastIndex.row
          have requests (ranges : List (Nat × Nat)) : ranges.map (requestedRows start finish roles) = ranges.map fun range =>
              ⟨start.dropLast ++ [⟨range.1, firstIndex.column⟩], finish.dropLast ++ [⟨range.2, lastIndex.column⟩], roles⟩ := by
            simp [requestedRows, withLastRow_eq starts, withLastRow_eq ends]
          have same := Except.ok.inj rest
          refine ⟨by rw [← same]; split <;> rfl, fun absent => by simp [absent] at present, fun _ => ⟨firstIndex, lastIndex,
            parentItem, _, starts, ends, found, fun tests enough => scanRows_eq _ _ _ enough, runs, ?_⟩⟩
          rw [← same, requests]
          split <;> rfl
        · contradiction

/-- The rows 0, 1 and 3 of five are cached. -/
def threeCachedRows : Replica Nat :=
  let child : CacheData Nat := ⟨.empty, .empty 1000⟩
  (Replica.initial 1000).setRoot ⟨⟨[], true, 1, 5⟩, ⟨[(3, child), (0, child), (1, child)], 1000⟩⟩

theorem onDataChanged_requests_two_runs :
    ∃ t root, threeCachedRows.onDataChanged ⟨1000, .fetchRootSize, [], []⟩ [⟨0, 0⟩] [⟨4, 0⟩] [7] = .ok t ∧
      t.m_requestedData = [⟨[⟨0, 0⟩], [⟨1, 0⟩], [7]⟩, ⟨[⟨3, 0⟩], [⟨3, 0⟩], [7]⟩] ∧
      validIndexes ⟨1000, .fetchRootSize, [], []⟩ [⟨0, 0⟩] [⟨4, 0⟩] [7] threeCachedRows.m_rootItem = .ok (true, root) ∧
      t.m_rootItem = root := by
  have handled : ∃ t, threeCachedRows.onDataChanged ⟨1000, .fetchRootSize, [], []⟩ [⟨0, 0⟩] [⟨4, 0⟩] [7] = .ok t ∧
      t.m_requestedData = [⟨[⟨0, 0⟩], [⟨1, 0⟩], [7]⟩, ⟨[⟨3, 0⟩], [⟨3, 0⟩], [7]⟩] := ⟨_, rfl, by decide⟩
  obtain ⟨t, handled, requested⟩ := handled
  obtain ⟨valid, root, checked, same, -, -⟩ := onDataChanged_requests_cached_runs handled
  obtain rfl : valid = true := congrArg Prod.fst (Except.ok.inj checked).symm
  exact ⟨t, root, handled, requested, checked, same⟩

end Main
end RemoteObjects.ItemModel
