import Mathlib.Data.Int.ConditionallyCompleteOrder
import Mathlib.Data.Set.Lattice
import Mathlib.Order.ConditionallyCompleteLattice.Basic
import RemoteObjects.ItemModel.HeaderReplies

/-! The ranges of sections for which a reply for headers reports changes, against the sections in the reply. -/
namespace RemoteObjects.ItemModel

section Model
variable {V : Type}

/-- A result of an operation on `int`, none where that overflows. -/
def int? (n : Int) : Option Int := if -2147483648 ≤ n ∧ n ≤ 2147483647 then some n else none

/-- The ranges that are closed, and the running one. -/
structure RangeScan where
  result : List (Int × Int)
  currentElem : Int × Int

/-- `result.push_back(currentElem)`. -/
def RangeScan.pushed (s : RangeScan) : List (Int × Int) := s.result ++ [s.currentElem]

/-- One round of the loop. The second sum is only built where the first is not the front of the range. -/
def extendRange (s : RangeScan) (it : Int) : Option RangeScan :=
  (int? (it + 1)).bind fun behind =>
    if s.currentElem.1 = behind then some { s with currentElem := (it, s.currentElem.2) }
    else (int? (it - 1)).bind fun before =>
      if s.currentElem.2 = before then some { s with currentElem := (s.currentElem.1, it) }
      else if s.currentElem.1 ≤ it ∧ s.currentElem.2 ≥ it then some s
      else some ⟨s.pushed, (it, it)⟩

def listRanges : List Int → Option (List (Int × Int))
  | [] => some []
  | first :: list => (list.foldlM extendRange ⟨[], (first, first)⟩).map RangeScan.pushed

structure HeaderDataChanged where
  orientation : Orientation
  first : Int
  last : Int
deriving DecidableEq

/-- What the loop over a reply has gone through. -/
structure Delivery (V : Type) where
  horizontalSections : List Int
  verticalSections : List Int
  replica : Replica V

def Delivery.append (t : Delivery V) (sectionIndex : Int) : Orientation → Delivery V
  | .horizontal => { t with horizontalSections := t.horizontalSections ++ [sectionIndex] }
  | .vertical => { t with verticalSections := t.verticalSections ++ [sectionIndex] }

def deliver : List (Orientation × Nat × Role × V) → Delivery V → Except Failure (Delivery V)
  | [], t => .ok t
  | (orientation, position, role, value) :: cells, t =>
    let s := t.replica
    match (s.m_headerData orientation)[position]? with
    | none => .error .outOfRange
    | some entry =>
      deliver cells { t.append position orientation with
        replica := s.setHeader orientation ((s.m_headerData orientation).set position (entry.insert role value)) }

def emitRanges (orientation : Orientation) (ranges : List (Int × Int)) : List HeaderDataChanged :=
  ranges.map fun range => ⟨orientation, range.1, range.2⟩

/-- Both lists of ranges are there before the first signal. -/
def Delivery.emitted (t : Delivery V) : Option (List HeaderDataChanged) :=
  (listRanges t.horizontalSections).bind fun horRanges => (listRanges t.verticalSections).map fun verRanges =>
    emitRanges .horizontal horRanges ++ emitRanges .vertical verRanges

/-- `requestedHeaderData` with the signals that it emits, if no `int` overflows. -/
def Replica.reportHeaderData (s : Replica V) (serial : Nat) (orientations : List Orientation) (sections : List Nat)
    (roles : List Role) (data : List V) : Except Failure (Option (List HeaderDataChanged) × Replica V) :=
  if orientations.length = data.length ∧ sections.length = data.length ∧ roles.length = data.length then do
    let t ← deliver (orientations.zip (sections.zip (roles.zip data))) ⟨[], [], s⟩
    pure (t.emitted, t.replica.release serial)
  else .error .assertion

end Model

section Statement

/-- The union of closed ranges. -/
def covered (ranges : List (Int × Int)) : Set Int := ⋃ range ∈ ranges, Set.Icc range.1 range.2

/-- The sections of one orientation that signals report. -/
def reported (changes : List HeaderDataChanged) (orientation : Orientation) : Set Int :=
  {x | ∃ change ∈ changes, change.orientation = orientation ∧ change.first ≤ x ∧ x ≤ change.last}

end Statement

section Ranges
variable {ranges : List (Int × Int)} {list : List Int} {s t : RangeScan} {it x : Int}

theorem mem_covered : x ∈ covered ranges ↔ ∃ range ∈ ranges, range.1 ≤ x ∧ x ≤ range.2 := by
  simp only [covered, Set.mem_iUnion, Set.mem_Icc, exists_prop]

@[simp] theorem covered_append (before after : List (Int × Int)) : covered (before ++ after) = covered before ∪ covered after := by
  ext x
  simp only [mem_covered, List.mem_append, Set.mem_union, or_and_right, exists_or]

@[simp] theorem covered_singleton (range : Int × Int) : covered [range] = Set.Icc range.1 range.2 := by simp [covered]

theorem int?_eq_some {n m : Int} : int? n = some m ↔ (-2147483648 ≤ n ∧ n ≤ 2147483647) ∧ n = m := by
  rw [int?]
  split
  · next inside => simp [inside]
  · next outside => simp [outside]

/-- The running range is never empty. -/
def RangeScan.Ordered (s : RangeScan) : Prop := s.currentElem.1 ≤ s.currentElem.2

/-- A round adds its own element. -/
theorem extendRange_covers (ordered : s.Ordered) (step : extendRange s it = some t) :
    t.Ordered ∧ covered t.pushed = covered s.pushed ∪ {it} := by
  obtain ⟨result, first, second⟩ := s
  change first ≤ second at ordered
  simp only [extendRange, Option.bind_eq_some_iff, int?_eq_some] at step
  obtain ⟨behind, ⟨-, rfl⟩, step⟩ := step
  have running (range : Int × Int) (extended : Set.Icc range.1 range.2 = Set.Icc first second ∪ {it}) :
      covered (RangeScan.mk result range).pushed = covered (RangeScan.mk result (first, second)).pushed ∪ {it} := by
    simp only [RangeScan.pushed, covered_append, covered_singleton, extended, Set.union_assoc]
  split at step
  · next front =>
    obtain rfl := Option.some_injective _ step
    refine ⟨show it ≤ second by omega, running (it, second) ?_⟩
    ext x
    simp only [Set.mem_Icc, Set.mem_union, Set.mem_singleton_iff]
    omega
  · obtain ⟨before, difference, step⟩ := Option.bind_eq_some_iff.mp step
    obtain ⟨-, rfl⟩ := int?_eq_some.mp difference
    split at step
    · next back =>
      obtain rfl := Option.some_injective _ step
      refine ⟨show first ≤ it by omega, running (first, it) ?_⟩
      ext x
      simp only [Set.mem_Icc, Set.mem_union, Set.mem_singleton_iff]
      omega
    · split at step
      · next inside =>
        obtain rfl := Option.some_injective _ step
        have present : it ∈ covered (RangeScan.mk result (first, second)).pushed := by
          rw [mem_covered]
          exact ⟨(first, second), List.mem_append_right _ List.mem_cons_self, inside⟩
        exact ⟨ordered, by rw [Set.union_eq_self_of_subset_right (Set.singleton_subset_iff.mpr present)]⟩
      · obtain rfl := Option.some_injective _ step
        refine ⟨le_refl it, ?_⟩
        simp only [RangeScan.pushed, covered_append, covered_singleton, Set.Icc_self]

theorem extendRanges_covers (ordered : s.Ordered) (run : list.foldlM extendRange s = some t) :
    covered t.pushed = covered s.pushed ∪ {x | x ∈ list} := by
  induction list generalizing s with
  | nil =>
    obtain rfl := Option.some_injective _ run
    simp
  | cons it list ih =>
    rw [List.foldlM_cons] at run
    obtain ⟨next, step, rest⟩ := Option.bind_eq_some_iff.mp run
    obtain ⟨ordered, own⟩ := extendRange_covers ordered step
    rw [ih ordered rest, own, Set.union_assoc]
    congr 1
    ext x
    simp

theorem listRanges_covers (returned : listRanges list = some ranges) : covered ranges = {x | x ∈ list} := by
  cases list with
  | nil =>
    obtain rfl := Option.some_injective _ returned
    simp [covered]
  | cons first list =>
    obtain ⟨s, run, rfl⟩ := Option.map_eq_some_iff.mp returned
    have ordered : RangeScan.Ordered ⟨[], (first, first)⟩ := le_refl first
    rw [extendRanges_covers ordered run]
    ext x
    simp [RangeScan.pushed]

theorem extendRange_isSome (s : RangeScan) (low : -2147483648 < it) (high : it < 2147483647) : ∃ t, extendRange s it = some t := by
  have behind : int? (it + 1) = some (it + 1) := int?_eq_some.mpr ⟨by omega, rfl⟩
  have before : int? (it - 1) = some (it - 1) := int?_eq_some.mpr ⟨by omega, rfl⟩
  simp only [extendRange, behind, before, Option.bind_some]
  split
  · exact ⟨_, rfl⟩
  · split
    · exact ⟨_, rfl⟩
    · split
      · exact ⟨_, rfl⟩
      · exact ⟨_, rfl⟩

/-- Where no sum overflows there are ranges. -/
theorem listRanges_isSome (inside : ∀ it ∈ list, -2147483648 < it ∧ it < 2147483647) : ∃ ranges, listRanges list = some ranges := by
  have loop (list : List Int) (s : RangeScan) (inside : ∀ it ∈ list, -2147483648 < it ∧ it < 2147483647) :
      ∃ t, list.foldlM extendRange s = some t := by
    induction list generalizing s with
    | nil => exact ⟨s, rfl⟩
    | cons it list ih =>
      rw [List.forall_mem_cons] at inside
      obtain ⟨next, step⟩ := extendRange_isSome s inside.1.1 inside.1.2
      obtain ⟨t, rest⟩ := ih next inside.2
      exact ⟨t, by rw [List.foldlM_cons, step]; exact rest⟩
  cases list with
  | nil => exact ⟨[], rfl⟩
  | cons first list =>
    obtain ⟨t, run⟩ := loop list ⟨[], (first, first)⟩ (List.forall_mem_cons.mp inside).2
    exact ⟨t.pushed, by rw [listRanges, run, Option.map_some]⟩

end Ranges

section Replies
variable {V : Type} {s u : Replica V} {t : Delivery V} {orientation : Orientation} {changes : List HeaderDataChanged}
  {cells : List (Orientation × Nat × Role × V)}

/-- The sections of one orientation in the order of the cells. -/
def sectionsOf (orientation : Orientation) (cells : List (Orientation × Nat × Role × V)) : List Int :=
  (cells.filter fun cell => cell.1 = orientation).map fun cell => (cell.2.1 : Int)

theorem deliver_eq (cells : List (Orientation × Nat × Role × V)) (t : Delivery V) :
    deliver cells t = (Replica.fillHeader cells t.replica).map fun s =>
      ⟨t.horizontalSections ++ sectionsOf .horizontal cells, t.verticalSections ++ sectionsOf .vertical cells, s⟩ := by
  induction cells generalizing t with
  | nil => simp [deliver, Replica.fillHeader, sectionsOf, Except.map]
  | cons cell cells ih =>
    obtain ⟨orientation, position, role, value⟩ := cell
    rw [deliver, Replica.fillHeader]
    cases found : (t.replica.m_headerData orientation)[position]? with
    | none => rfl
    | some entry =>
      dsimp only
      rw [ih]
      cases orientation with
      | horizontal => simp [Delivery.append, sectionsOf]
      | vertical => simp [Delivery.append, sectionsOf]

theorem mem_sectionsOf {x : Int} :
    x ∈ sectionsOf orientation cells ↔ ∃ position : Nat, (orientation, position) ∈ cells.map (Prod.map id Prod.fst) ∧ x = position := by
  simp only [sectionsOf, List.mem_map, List.mem_filter, decide_eq_true_eq]
  constructor
  · rintro ⟨cell, ⟨mem, rfl⟩, rfl⟩
    exact ⟨cell.2.1, ⟨cell, mem, rfl⟩, rfl⟩
  · rintro ⟨position, ⟨cell, mem, same⟩, rfl⟩
    obtain ⟨rfl, rfl⟩ := Prod.mk.inj same
    exact ⟨cell, ⟨mem, rfl⟩, rfl⟩

@[simp] theorem reported_append (before after : List HeaderDataChanged) (orientation : Orientation) :
    reported (before ++ after) orientation = reported before orientation ∪ reported after orientation := by
  ext x
  simp only [reported, List.mem_append, Set.mem_ofPred_eq, Set.mem_union, or_and_right, exists_or]

@[simp] theorem reported_emitRanges (ranges : List (Int × Int)) : reported (emitRanges orientation ranges) orientation = covered ranges := by
  ext x
  simp only [reported, emitRanges, Set.mem_ofPred_eq, List.mem_map, mem_covered]
  constructor
  · rintro ⟨_, ⟨range, mem, rfl⟩, -, inside⟩
    exact ⟨range, mem, inside⟩
  · rintro ⟨range, mem, inside⟩
    exact ⟨_, ⟨range, mem, rfl⟩, rfl, inside⟩

theorem reported_other {other : Orientation} (differ : orientation ≠ other) (ranges : List (Int × Int)) :
    reported (emitRanges orientation ranges) other = ∅ := by
  refine Set.eq_empty_of_forall_notMem ?_
  rintro x ⟨change, mem, same, -⟩
  obtain ⟨range, -, rfl⟩ := List.mem_map.mp mem
  exact differ same

theorem deliver_sections (delivered : deliver cells ⟨[], [], s⟩ = .ok t) :
    t.horizontalSections = sectionsOf .horizontal cells ∧ t.verticalSections = sectionsOf .vertical cells := by
  rw [deliver_eq] at delivered
  cases filled : Replica.fillHeader cells s with
  | error failure =>
    rw [filled] at delivered
    cases delivered
  | ok u =>
    rw [filled] at delivered
    obtain rfl := Except.ok.inj delivered
    exact ⟨rfl, rfl⟩

theorem reported_deliver (delivered : deliver cells ⟨[], [], s⟩ = .ok t) (emitted : t.emitted = some changes) :
    reported changes orientation = {x | x ∈ sectionsOf orientation cells} := by
  obtain ⟨horizontalSections, verticalSections⟩ := deliver_sections delivered
  obtain ⟨horRanges, horizontal, rest⟩ := Option.bind_eq_some_iff.mp emitted
  obtain ⟨verRanges, vertical, rfl⟩ := Option.map_eq_some_iff.mp rest
  rw [horizontalSections] at horizontal
  rw [verticalSections] at vertical
  cases orientation with
  | horizontal => rw [reported_append, reported_emitRanges, reported_other (by decide), Set.union_empty, listRanges_covers horizontal]
  | vertical => rw [reported_append, reported_emitRanges, reported_other (by decide), Set.empty_union, listRanges_covers vertical]

theorem emitted_isSome (delivered : deliver cells ⟨[], [], s⟩ = .ok t) (inside : ∀ cell ∈ cells, cell.2.1 < 2147483647) :
    ∃ changes, t.emitted = some changes := by
  obtain ⟨horizontalSections, verticalSections⟩ := deliver_sections delivered
  have bounded (orientation : Orientation) : ∀ it ∈ sectionsOf orientation cells, -2147483648 < it ∧ it < 2147483647 := by
    intro it mem
    obtain ⟨cell, among, rfl⟩ := List.mem_map.mp mem
    have small := inside cell (List.mem_filter.mp among).1
    omega
  obtain ⟨horRanges, horizontal⟩ := listRanges_isSome (bounded .horizontal)
  obtain ⟨verRanges, vertical⟩ := listRanges_isSome (bounded .vertical)
  exact ⟨_, by rw [Delivery.emitted, horizontalSections, verticalSections, horizontal, vertical, Option.bind_some, Option.map_some]⟩

/-- The ranges of any list are its elements, so that `headerDataChanged` is emitted for the sections in a reply and no others. -/
theorem headerDataChanged_exact (V : Type) :
    (∀ list, (∀ ranges, listRanges list = some ranges → covered ranges = {x | x ∈ list}) ∧
      ((∀ it ∈ list, -2147483648 < it ∧ it < 2147483647) → ∃ ranges, listRanges list = some ranges)) ∧
    ∀ (s : Replica V) serial orientations sections roles data emitted u,
      s.reportHeaderData serial orientations sections roles data = .ok (emitted, u) →
      (∀ changes, emitted = some changes → ∀ orientation,
        reported changes orientation = {x : Int | ∃ position : Nat, (orientation, position) ∈ orientations.zip sections ∧ x = position}) ∧
      ((∀ position ∈ sections, position < 2147483647) → ∃ changes, emitted = some changes) := by
  refine ⟨fun list => ⟨fun ranges => listRanges_covers, listRanges_isSome⟩, ?_⟩
  intro s serial orientations sections roles data emitted u reply
  rw [Replica.reportHeaderData] at reply
  split at reply
  · next lengths =>
    obtain ⟨t, delivered, result⟩ := bind_ok.mp reply
    obtain ⟨rfl, rfl⟩ := Prod.mk.inj (Except.ok.inj result)
    have cells : (orientations.zip (sections.zip (roles.zip data))).map (Prod.map id Prod.fst) = orientations.zip sections := by
      rw [← List.zip_map_right, List.map_fst_zip]
      rw [List.length_zip]
      omega
    constructor
    · intro changes emitted orientation
      rw [reported_deliver delivered emitted]
      ext x
      rw [Set.mem_ofPred_eq, mem_sectionsOf, cells]
      rfl
    · intro inside
      refine emitted_isSome delivered fun cell mem => inside _ ?_
      exact (List.of_mem_zip (List.of_mem_zip mem).2).1
  · cases reply

/-- A replica with ten sections in each header, without texts. -/
def tenSections : Replica Nat := { Replica.initial 0 with m_headerData := fun _ => List.replicate 10 .empty }

theorem tenSections_reported :
    covered [(5, 5), (0, 2), (7, 7)] = {x | x ∈ [5, 1, 2, 2, 0, 7]} ∧
      ∀ orientation, reported [⟨.horizontal, 0, 1⟩, ⟨.vertical, 3, 3⟩] orientation =
        {x : Int | ∃ position : Nat, (orientation, position) ∈ [(.horizontal, 1), (.vertical, 3), (.horizontal, 0)] ∧ x = position} := by
  obtain ⟨lists, replies⟩ := headerDataChanged_exact Nat
  refine ⟨(lists [5, 1, 2, 2, 0, 7]).1 _ (by decide), ?_⟩
  exact (replies tenSections 0 [.horizontal, .vertical, .horizontal] [1, 3, 0] [0, 0, 0] [10, 11, 12] _ _ rfl).1 _ rfl

end Replies
end RemoteObjects.ItemModel
