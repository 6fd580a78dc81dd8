import RemoteObjects.ItemModel.ColumnInsertion

/-! The headers of the rows of a table over insertions and removals of rows. -/
namespace RemoteObjects.ItemModel
open Transition Agreement

section Model
variable {V : Type}

/-- A replica, and for each row that the table has at a time what was fetched as its header. -/
structure HeaderRows (V : Type) where
  replica : Replica V
  fetched : List (CacheEntry V)

inductive RowChange
  | inserted (start finish : Nat)
  | removed (start finish : Nat)

namespace HeaderRows

/-- Before the first change each row has what is cached for it. -/
def initial (s : Replica V) : HeaderRows V := ⟨s, s.m_headerData .vertical⟩

def step (config : Config) (x : HeaderRows V) : RowChange → Option (HeaderRows V)
  | .inserted start finish => (x.replica.onSignal config (.rowsInserted [] start finish)).toOption.map fun replica =>
    ⟨replica, x.fetched.take start ++ List.replicate (finish + 1 - start) .empty ++ x.fetched.drop start⟩
  | .removed start finish => (x.replica.onSignal config (.rowsRemoved [] start finish)).toOption.map fun replica =>
    ⟨replica, x.fetched.take start ++ x.fetched.drop (finish + 1)⟩

def fetched? (x : HeaderRows V) (place : Nat × Role) : Option V := x.fetched[place.1]?.bind fun entry => entry.find? place.2

end HeaderRows
end Model

section Statement
variable {V : Type}
namespace HeaderRows

/-- What is served as the header of a row was fetched for that row. -/
def Follows (x : HeaderRows V) : Prop :=
  ∀ place v, x.replica.headerData? .vertical place = some v → x.fetched? place = some v

/-- Rows are inserted behind all of those that have a cached header. -/
def AtEnd (x : HeaderRows V) : RowChange → Prop
  | .inserted start _ => ∀ position role, start ≤ position → x.replica.headerData? .vertical (position, role) = none
  | .removed _ _ => True

end HeaderRows
end Statement

section Lists
variable {α β : Type} {l : List α} {start finish : Nat} {a : α} {f : α → Option β}

/-- Where the elements of a list were before others were inserted that have nothing. -/
theorem bind_insertion (empty : f a = none) (k n : Nat) :
    (l.take start ++ List.replicate n a ++ l.drop start)[k]?.bind f = (placeBefore start n k).bind fun i => l[i]?.bind f := by
  by_cases inside : start ≤ l.length
  · have front : (l.take start).length = start := List.length_take_of_le inside
    rw [List.append_assoc, List.getElem?_append, front, placeBefore]
    split
    · rename_i above
      rw [List.getElem?_take_of_lt above]
      rfl
    · rw [List.getElem?_append, List.length_replicate]
      split
      · rw [if_pos (by omega), List.getElem?_replicate, if_pos (by omega)]
        exact empty
      · rw [if_neg (by omega), List.getElem?_drop]
        congr 2
        omega
  · rw [List.take_of_length_le (by omega), List.drop_eq_nil_of_le (by omega), List.append_nil, bind_append_replicate empty, placeBefore]
    split
    · rfl
    · rw [List.getElem?_eq_none (by omega)]
      split
      · rfl
      · rw [Option.bind_some, List.getElem?_eq_none (by omega)]

/-- And before some of them were removed. -/
theorem getElem?_removal (inside : finish < l.length) (ordered : start ≤ finish) (k : Nat) :
    (l.take start ++ l.drop (finish + 1))[k]? = l[if k < start then k else k - start + (finish + 1)]? := by
  rw [List.getElem?_append, List.length_take_of_le (by omega)]
  split
  · rename_i above
    exact List.getElem?_take_of_lt above
  · rw [List.getElem?_drop, Nat.add_comm]

end Lists

section Invariant
variable {V : Type} {config : Config} {x y : HeaderRows V} {start finish : Nat}
namespace HeaderRows

/-- What is cached for the rows is what was fetched for them. -/
structure Same (x : HeaderRows V) : Prop where
  length : x.fetched.length = (x.replica.m_headerData .vertical).length
  places : ∀ place, x.replica.headerData? .vertical place = x.fetched? place

theorem same_initial (s : Replica V) : (initial s).Same := ⟨rfl, fun _ => rfl⟩

theorem Same.follows (same : x.Same) : x.Follows := fun place _ there => (same.places place).symm.trans there

/-- Empty entries come to the end of the one list, and to the place of the rows in the other. -/
theorem inserted_spec (head : x.step config (.inserted start finish) = some y) : start ≤ finish ∧
    (y.replica.m_headerData .vertical).length = (x.replica.m_headerData .vertical).length + (finish + 1 - start) ∧
    y.fetched.length = x.fetched.length + (finish + 1 - start) ∧
    (∀ place, y.replica.headerData? .vertical place = x.replica.headerData? .vertical place) ∧
    ∀ place, y.fetched? place = (placeBefore start (finish + 1 - start) place.1).bind fun i => x.fetched? (i, place.2) := by
  obtain ⟨t, handled, rfl⟩ := Option.map_eq_some_iff.mp head
  cases handles : x.replica.onSignal config (.rowsInserted [] start finish) with
  | error failure =>
    rw [handles] at handled
    contradiction
  | ok u =>
    rw [handles] at handled
    obtain rfl : u = t := Option.some.inj handled
    obtain ⟨ok, middle, resolved, ⟨rfl, _⟩ | ⟨rfl, root, inserted, rfl⟩⟩ := Replica.onRowsInserted_ok handles
    · cases resolved
    · refine ⟨(insertChildren_spec inserted).1, ?_, ?_, fun place => ?_, fun place => ?_⟩
      · simp [Replica.setHeader]
      · simp
        omega
      · exact Replica.headerData?_append _ _ _ place
      · exact bind_insertion rfl _ _

/-- The same entries go from both lists. -/
theorem Same.removed (same : x.Same) (head : x.step config (.removed start finish) = some y) : y.Same := by
  obtain ⟨t, handled, rfl⟩ := Option.map_eq_some_iff.mp head
  cases handles : x.replica.onSignal config (.rowsRemoved [] start finish) with
  | error failure =>
    rw [handles] at handled
    contradiction
  | ok u =>
    rw [handles] at handled
    obtain rfl : u = t := Option.some.inj handled
    obtain ⟨ok, middle, resolved, ⟨rfl, _⟩ | ⟨rfl, root, removed, inside, rfl⟩⟩ := Replica.onRowsRemoved_ok handles
    · cases resolved
    · replace removed : middle.removeChildren start finish = .ok root := removed
      have ordered := (removeChildren_spec removed).1.1
      refine ⟨?_, fun place => ?_⟩
      · simp [Replica.setHeader, same.length]
      · simp only [Replica.headerData?, Replica.setHeader, Function.update_self, fetched?]
        rw [getElem?_removal inside ordered, getElem?_removal (same.length ▸ inside) ordered]
        exact same.places (_, place.2)

/-- Behind an insertion the headers are those of their rows if there were none from the new rows on. -/
theorem Same.inserted_iff (same : x.Same) (head : x.step config (.inserted start finish) = some y) :
    y.Follows ↔ x.AtEnd (.inserted start finish) := by
  obtain ⟨ordered, _, _, served, fetched⟩ := inserted_spec head
  have row (role : Role) := @known_before_iff V (fun position => x.replica.headerData? .vertical (position, role))
    (fun position => x.replica.headerData? .vertical (position, role)) start (finish + 1 - start) (by omega) (fun _ _ => rfl)
    fun _ _ nothing => nothing
  simp only [Follows, served, fetched, ← same.places, Option.bind_eq_some_iff, Prod.forall, AtEnd]
  constructor
  · intro known position role behind
    exact (row role).mp (fun position v there => known position role v there) position behind
  · intro nothing position role v there
    exact (row role).mpr (fun position behind => nothing position role behind) position v there

theorem Same.inserted (same : x.Same) (head : x.step config (.inserted start finish) = some y)
    (last : x.AtEnd (.inserted start finish)) : y.Same := by
  obtain ⟨ordered, length, length', served, fetched⟩ := inserted_spec head
  refine ⟨by rw [length, length', same.length], fun place => ?_⟩
  rw [served, fetched, placeBefore]
  split
  · exact same.places place
  · rename_i behind
    rw [last place.1 place.2 (Nat.not_lt.mp behind)]
    split
    · rfl
    · rename_i further
      rw [Option.bind_some, ← same.places, last _ _ (by omega)]

end HeaderRows
end Invariant

section Main
variable {V : Type} {config : Config} {x y : HeaderRows V} {es : List RowChange}
namespace HeaderRows

theorem step_follows_iff {e : RowChange} (same : x.Same) (head : x.step config e = some y) :
    (y.Follows ↔ x.AtEnd e) ∧ (x.AtEnd e → y.Same) := by
  cases e with
  | inserted start finish => exact ⟨same.inserted_iff head, same.inserted head⟩
  | removed start finish =>
    have after := same.removed head
    exact ⟨iff_of_true after.follows trivial, fun _ => after⟩

theorem run_follows_iff (same : x.Same) (run : exec (step config) x es = some y) :
    Admitted (step config) (fun x e => ∀ y, x.step config e = some y → y.Follows) x es ↔ Admitted (step config) AtEnd x es := by
  induction es generalizing x with
  | nil => exact Iff.rfl
  | cons e es ih =>
    obtain ⟨middle, head, tail⟩ := exec_cons.mp run
    obtain ⟨follows, kept⟩ := step_follows_iff same head
    simp only [Admitted, head, Option.some.injEq, forall_eq', follows]
    exact and_congr_right fun last => ih (kept last) tail

/-- Over a run of insertions and removals each header that is served was fetched for its row, in every state, if rows are
inserted only behind those whose headers are cached. -/
theorem vertical_headers_follow_iff {s : Replica V} (run : exec (step config) (initial s) es = some y) :
    Admitted (step config) (fun x e => ∀ y, x.step config e = some y → y.Follows) (initial s) es ↔
      Admitted (step config) AtEnd (initial s) es := run_follows_iff (same_initial s) run

end HeaderRows
end Main

section Example
namespace HeaderRows

/-- A table of one row, whose header is cached. -/
def cachedHeader : Replica Nat :=
  { Replica.initial 1000 with
    m_rootItem := ⟨⟨[], true, 1, 1⟩, .empty 1000⟩
    m_headerData := fun orientation => match orientation with
      | .horizontal => [.empty]
      | .vertical => [⟨[(0, 7)], 0⟩] }

theorem row_appended_removed : ∃ y, exec (step Replica.tableConfig) (initial cachedHeader) [.inserted 1 1, .removed 0 0] = some y ∧
    Admitted (step Replica.tableConfig) (fun x e => ∀ y, x.step Replica.tableConfig e = some y → y.Follows) (initial cachedHeader)
      [.inserted 1 1, .removed 0 0] := by
  refine ⟨_, rfl, (vertical_headers_follow_iff rfl).mpr (.cons ?_ rfl (.cons trivial rfl trivial))⟩
  intro position role behind
  obtain ⟨position, rfl⟩ := Nat.exists_eq_add_of_le' behind
  rfl

/-- The new first row has the header of the one that stepped back. -/
theorem first_row_inserted : ∃ y, exec (step Replica.tableConfig) (initial cachedHeader) [.inserted 0 0] = some y ∧ ¬ y.Follows := by
  refine ⟨_, rfl, fun follows => ?_⟩
  have fetched := follows (0, 0) 7 rfl
  revert fetched
  decide

end HeaderRows
end Example
end RemoteObjects.ItemModel
