import RemoteObjects.Transition
import RemoteObjects.ItemModel.Adapter

/-! Requests that reach the adapter when its model has changed since they were sent. -/
namespace RemoteObjects.ItemModel
open Transition

section Paths
variable {V : Type} {m_model : SourceModel V}

/-- Behind the parent each index of the list has its row and column below the one before it. -/
def SourceModel.HasPath (m_model : SourceModel V) : IndexList → IndexList → Prop
  | _, [] => True
  | parent, index :: rest => m_model.hasIndex index parent ∧ HasPath m_model (parent ++ [index]) rest

instance SourceModel.hasPathDecidable : ∀ parent list, Decidable (m_model.HasPath parent list)
  | _, [] => .isTrue trivial
  | parent, index :: rest =>
    have := hasPathDecidable (parent ++ [index]) rest
    inferInstanceAs (Decidable (m_model.hasIndex index parent ∧ _))

theorem resolve_ok {parent list result : IndexList} :
    m_model.resolve parent list = .ok result ↔ m_model.HasPath parent list ∧ result = parent ++ list := by
  induction list generalizing parent with
  | nil => simp [SourceModel.resolve, SourceModel.HasPath, eq_comm]
  | cons index rest ih =>
    rw [SourceModel.resolve, SourceModel.HasPath]
    split
    · rename_i valid
      rw [ih, List.append_assoc, List.singleton_append, and_iff_right valid]
    · rename_i invalid
      simp [invalid]

theorem toQModelIndex_ok {list result : IndexList} :
    m_model.toQModelIndex list = .ok result ↔ m_model.HasPath [] list ∧ result = list := resolve_ok

theorem mem_cells {rows columns : List Nat} {cell : ModelIndex} :
    cell ∈ SourceModel.cells rows columns ↔ cell.row ∈ rows ∧ cell.column ∈ columns := by
  cases cell
  simp [SourceModel.cells]

/-- Rows are returned unless there are some without columns. -/
theorem rowEntries_ok {parent : IndexList} {start finish : ModelIndex} {roles : List Role} :
    (∃ entries, Adapter.rowEntries m_model parent start finish roles = .ok entries) ↔
      m_model.rowCount parent = 0 ∨ 0 < m_model.columnCount parent := by
  rw [Adapter.rowEntries]
  dsimp only
  split
  · rename_i empty
    simp [empty]
  · rename_i rows
    split
    · rename_i bounds
      have valid : (SourceModel.cells
          (List.range' start.row ((min (finish.row : Int) (m_model.rowCount parent - 1)).toNat + 1 - start.row))
          (List.range' start.column ((min (finish.column : Int) (m_model.columnCount parent - 1)).toNat + 1 - start.column))).all
            (fun cell => m_model.hasIndex cell parent) = true := by
        rw [List.all_eq_true]
        intro cell there
        obtain ⟨row, column⟩ := mem_cells.mp there
        rw [List.mem_range'_1] at row column
        simp only [SourceModel.hasIndex, Bool.and_eq_true, decide_eq_true_eq]
        omega
      rw [if_pos valid]
      simp only [Except.ok.injEq, exists_eq', true_iff]
      omega
    · simp only [reduceCtorEq, exists_false, false_iff]
      omega

end Paths

section Model
variable (V : Type)

/-- The model of the source, and the requests that are on their way to it. -/
structure SourceSide where
  m_model : SourceModel V
  requests : List (Request V)

inductive SourceEvent
  /-- Rows are removed or moved, the model is reset, or anything else happens to it. -/
  | change (m_model : SourceModel V)
  /-- A replica that sees the model as it was at some time sends a request. -/
  | send (seen : SourceModel V) (request : Request V)
  | serve

variable {V}

/-- The request is made of indexes that are valid in the model as the replica sees it. -/
def Request.BuiltFrom (seen : SourceModel V) : Request V → Prop
  | .size parentList => seen.HasPath [] parentList
  | .row start finish _ => start ≠ [] ∧ start.dropLast = finish.dropLast ∧ start.length = finish.length ∧
      seen.HasPath [] start ∧ seen.HasPath [] finish
  | .header orientations sections roles => roles.length = sections.length ∧ roles.length = orientations.length
  | .cache .. => True
  | .setData index .. => index ≠ [] ∧ seen.HasPath [] index
  | .setCurrentIndex index => seen.HasPath [] index

instance (seen : SourceModel V) : ∀ request : Request V, Decidable (request.BuiltFrom seen)
  | .size _ => inferInstanceAs (Decidable (seen.HasPath _ _))
  | .row .. => inferInstanceAs (Decidable (_ ∧ _))
  | .header .. => inferInstanceAs (Decidable (_ ∧ _))
  | .cache .. => .isTrue trivial
  | .setData .. => inferInstanceAs (Decidable (_ ∧ _))
  | .setCurrentIndex _ => inferInstanceAs (Decidable (seen.HasPath _ _))

/-- A request that fails ends the process of the source. -/
def SourceSide.step (adapter : Adapter) (s : SourceSide V) : SourceEvent V → Option (SourceSide V)
  | .change m_model => some { s with m_model }
  | .send seen request => if request.BuiltFrom seen then some { s with requests := s.requests ++ [request] } else none
  | .serve =>
    match s.requests with
    | [] => none
    | request :: requests =>
      match adapter.serve s.m_model request with
      | .ok _ => some { s with requests }
      | .error _ => none

end Model

section Statement
variable {V : Type} (adapter : Adapter)

/-- The next request is answered, without `qFatal` or an assertion that fails. -/
def SourceSide.Survives (s : SourceSide V) : SourceEvent V → Prop
  | .serve => ∀ request ∈ s.requests.head?, ∃ reply, adapter.serve s.m_model request = .ok reply
  | _ => True

/-- The claim: whatever has happened to the model, no request in flight harms the source. -/
def SurvivesStaleRequests (m_model : SourceModel V) : Prop :=
  ∀ {events}, Admitted (SourceSide.step adapter) (SourceSide.Survives adapter) ⟨m_model, []⟩ events

/-- The path of a request is still there, rows are requested where there are columns, and a value that is set is one
that the model takes. -/
def Request.Fits (m_model : SourceModel V) : Request V → Prop
  | .size parentList => m_model.HasPath [] parentList
  | .row start _ _ => m_model.HasPath [] start.dropLast ∧
      (m_model.rowCount start.dropLast = 0 ∨ 0 < m_model.columnCount start.dropLast)
  | .header .. => True
  | .cache .. => True
  | .setData index value role => m_model.HasPath [] index ∧ m_model.setData index value role
  | .setCurrentIndex index => adapter.m_selectionModel → m_model.HasPath [] index

def SourceSide.Fits (s : SourceSide V) : SourceEvent V → Prop
  | .serve => ∀ request ∈ s.requests.head?, request.Fits adapter s.m_model
  | _ => True

end Statement

section Serving
variable {V : Type} {adapter : Adapter} {m_model seen : SourceModel V}

theorem replicaSizeRequest_ok {parentList : IndexList} :
    (∃ size, Adapter.replicaSizeRequest m_model parentList = .ok size) ↔ m_model.HasPath [] parentList := by
  simp [Adapter.replicaSizeRequest, bind_ok, toQModelIndex_ok, pure, Except.pure]

theorem replicaSetData_ok {index : IndexList} {value : V} {role : Role} (valid : index ≠ []) :
    (∃ done, Adapter.replicaSetData m_model index value role = .ok done) ↔
      m_model.HasPath [] index ∧ m_model.setData index value role := by
  simp [Adapter.replicaSetData, bind_ok, toQModelIndex_ok, pure, Except.pure, valid]

theorem replicaSetCurrentIndex_ok {index : IndexList} :
    (∃ done, adapter.replicaSetCurrentIndex m_model index = .ok done) ↔ (adapter.m_selectionModel → m_model.HasPath [] index) := by
  rw [Adapter.replicaSetCurrentIndex]
  split
  · rename_i selection
    simp [bind_ok, toQModelIndex_ok, pure, Except.pure, selection]
  · rename_i none
    simp [none]

theorem replicaRowRequest_ok {start finish : IndexList} {roles : List Role} (nonempty : start ≠ [])
    (same : start.length = finish.length) :
    (∃ entries, adapter.replicaRowRequest m_model start finish roles = .ok entries) ↔
      m_model.HasPath [] start.dropLast ∧
        (m_model.rowCount start.dropLast = 0 ∨ 0 < m_model.columnCount start.dropLast) := by
  have finishes : finish ≠ [] := by
    rintro rfl
    exact nonempty (List.length_eq_zero_iff.mp same)
  rw [Adapter.replicaRowRequest, if_neg (not_not.mpr same), List.getLast?_eq_some_getLast nonempty,
    List.getLast?_eq_some_getLast finishes]
  simp only [bind_ok, toQModelIndex_ok]
  constructor
  · rintro ⟨entries, _, ⟨path, rfl⟩, returned⟩
    exact ⟨path, rowEntries_ok.mp ⟨entries, returned⟩⟩
  · rintro ⟨path, columns⟩
    obtain ⟨entries, returned⟩ := rowEntries_ok.mpr columns
    exact ⟨entries, _, ⟨path, rfl⟩, returned⟩

theorem rowEntries_mem {parent : IndexList} {start finish : ModelIndex} {roles : List Role} {entries : List (IndexValuePair V)}
    {pair : IndexValuePair V} (made : Adapter.rowEntries m_model parent start finish roles = .ok entries) (there : pair ∈ entries) :
    ∃ cell, m_model.hasIndex cell parent ∧ pair = ⟨parent ++ [cell], m_model.collectData roles (parent ++ [cell]),
      m_model.hasChildren (parent ++ [cell]), m_model.flags (parent ++ [cell]), [], ⟨0, 0⟩⟩ := by
  rw [Adapter.rowEntries] at made
  dsimp only at made
  split at made
  · cases made
    contradiction
  · split at made
    · split at made
      · rename_i valid
        cases made
        obtain ⟨cell, listed, rfl⟩ := List.mem_map.mp there
        exact ⟨cell, List.all_eq_true.mp valid cell listed, rfl⟩
      · contradiction
    · contradiction

/-- Each entry of a row reply is a cell of the parent. -/
theorem replicaRowRequest_mem {start finish : IndexList} {roles : List Role} {entries : List (IndexValuePair V)}
    {pair : IndexValuePair V} (served : adapter.replicaRowRequest m_model start finish roles = .ok entries) (there : pair ∈ entries) :
    ∃ cell, m_model.HasPath [] start.dropLast ∧ m_model.hasIndex cell start.dropLast ∧ pair = ⟨start.dropLast ++ [cell],
      m_model.collectData (if roles.isEmpty then adapter.m_availableRoles else roles) (start.dropLast ++ [cell]),
      m_model.hasChildren (start.dropLast ++ [cell]), m_model.flags (start.dropLast ++ [cell]), [], ⟨0, 0⟩⟩ := by
  rw [Adapter.replicaRowRequest] at served
  split at served
  · contradiction
  · split at served
    · obtain ⟨parent, resolved, made⟩ := bind_ok.mp served
      obtain ⟨path, rfl⟩ := toQModelIndex_ok.mp resolved
      obtain ⟨cell, fits, same⟩ := rowEntries_mem made there
      exact ⟨cell, path, fits, same⟩
    · contradiction

theorem serve_ok {request : Request V} (built : request.BuiltFrom seen) :
    (∃ reply, adapter.serve m_model request = .ok reply) ↔ request.Fits adapter m_model := by
  cases request with
  | size parentList =>
    rw [Request.Fits, ← replicaSizeRequest_ok]
    simp [Adapter.serve, bind_ok, pure, Except.pure]
  | row start finish roles =>
    have returned : (∃ entries, adapter.replicaRowRequest m_model start finish roles = .ok entries) ↔ _ :=
      replicaRowRequest_ok built.1 built.2.2.1
    rw [Request.Fits, ← returned]
    simp [Adapter.serve, bind_ok, pure, Except.pure]
  | header orientations sections roles =>
    rw [Request.BuiltFrom] at built
    rw [Request.Fits, iff_true, Adapter.serve, Adapter.replicaHeaderRequest, if_pos built]
    exact ⟨_, rfl⟩
  | cache size roles => exact iff_of_true ⟨_, rfl⟩ trivial
  | setData index value role =>
    rw [Request.Fits, ← replicaSetData_ok built.1]
    simp [Adapter.serve, bind_ok, pure, Except.pure]
  | setCurrentIndex index =>
    rw [Request.Fits, ← replicaSetCurrentIndex_ok]
    simp [Adapter.serve, bind_ok, pure, Except.pure]

/-- Every request in flight was built from indexes that were valid once. -/
def SourceSide.Built (s : SourceSide V) : Prop := ∀ request ∈ s.requests, ∃ seen, request.BuiltFrom seen

theorem built_step {s t : SourceSide V} {e : SourceEvent V} (built : s.Built) (head : s.step adapter e = some t) : t.Built := by
  cases e with
  | change m_model =>
    obtain rfl := Option.some.inj head
    exact built
  | send seen request =>
    rw [SourceSide.step] at head
    split at head
    · rename_i valid
      obtain rfl := Option.some.inj head
      intro other there
      obtain before | here := List.mem_append.mp there
      · exact built other before
      · obtain rfl := List.mem_singleton.mp here
        exact ⟨seen, valid⟩
    · contradiction
  | serve =>
    rw [SourceSide.step] at head
    split at head
    · contradiction
    · rename_i request requests queued
      split at head
      · obtain rfl := Option.some.inj head
        intro other there
        exact built other (queued ▸ List.mem_cons_of_mem _ there)
      · contradiction

theorem survives_iff {s : SourceSide V} {e : SourceEvent V} (built : s.Built) :
    s.Survives adapter e ↔ s.Fits adapter e := by
  cases e with
  | serve =>
    apply forall₂_congr
    intro request first
    obtain ⟨seen, valid⟩ := built request (List.mem_of_head? first)
    exact serve_ok valid
  | change => exact Iff.rfl
  | send => exact Iff.rfl

/-- The source survives exactly the runs in which every request still fits the model when it is served. -/
theorem survives_requests_iff {m_model : SourceModel V} {events : List (SourceEvent V)} :
    Admitted (SourceSide.step adapter) (SourceSide.Survives adapter) ⟨m_model, []⟩ events ↔
      Admitted (SourceSide.step adapter) (SourceSide.Fits adapter) ⟨m_model, []⟩ events :=
  admitted_iff built_step survives_iff (fun _ there => nomatch there)

end Serving

section Example

/-- One column of items below the root, and the first of them with one item below it, while it is there. -/
def exampleModel (rows : Nat) : SourceModel Nat where
  rowCount
    | [] => rows
    | [⟨0, 0⟩] => 1
    | _ => 0
  columnCount _ := 1
  hasChildren index := index = [⟨0, 0⟩]
  flags _ := 0
  data _ _ := 0
  headerData _ _ _ := 0
  setData _ _ _ := true

/-- The size of an item is requested, and the item is removed before the request arrives. -/
def itemRemoved : List (SourceEvent Nat) := [.send (exampleModel 1) (.size [⟨0, 0⟩]), .change (exampleModel 0), .serve]

theorem itemRemoved_not_survived : ¬ SurvivesStaleRequests ⟨[], false⟩ (exampleModel 1) := by
  intro survives
  have admitted : Admitted _ _ _ itemRemoved := survives
  obtain ⟨reply, served⟩ := admitted.last rfl rfl _ rfl
  contradiction

end Example
end RemoteObjects.ItemModel
