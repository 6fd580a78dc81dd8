import RemoteObjects.ItemModel.Pending

/-! The sections of the headers that a replica asks for, against the lists in which the replies are written. -/
namespace RemoteObjects.ItemModel
open Transition

section Model
variable {V : Type}

/-- The events of a replica, with `headerData` for any section. -/
inductive HeaderEvent (V : Type)
  | replica (e : ReplicaEvent V)
  | headerData (sectionIndex : Int) (orientation : Orientation) (role : Role)

namespace Replica
variable (config : Config) (s : Replica V)

/-- The lower bound of the section is not tested. -/
def headerDataAt (sectionIndex : Int) (orientation : Orientation) (role : Role) : Except Failure (Replica V) :=
  if (s.m_headerData orientation).length ≤ sectionIndex then .ok s
  else if sectionIndex < 0 then .error .outOfRange
  else .ok (s.headerData sectionIndex.toNat orientation role)

def handleHeader : HeaderEvent V → Except Failure (Replica V)
  | .replica e => s.handle config e
  | .headerData sectionIndex orientation role => s.headerDataAt sectionIndex orientation role

def stepHeader (s : Replica V) (e : HeaderEvent V) : Option (Replica V) := (s.handleHeader config e).toOption

end Replica
end Model

section Statement
variable {V : Type}

def Watcher.AsksHeader : Watcher → Orientation → Nat → Prop
  | .header orientations sections _, orientation, position => (orientation, position) ∈ orientations.zip sections
  | _, _, _ => False

/-- The size of the model in a reply for all of it. -/
def Reply.modelSize : Reply V → Option Size
  | .size whole => some whole
  | .cache whole => some whole.size
  | _ => none

def Size.headers (size : Size) : Orientation → Nat
  | .horizontal => size.width
  | .vertical => size.height

namespace Replica
variable (config : Config) (s : Replica V)

/-- A section is asked for, or waits for that. -/
def AwaitsHeader (orientation : Orientation) (position : Nat) : Prop :=
  (∃ data ∈ s.m_requestedHeaderData, (data.orientation, data.sectionIndex) = (orientation, position)) ∨
    ∃ watcher ∈ s.watchers, watcher.2.AsksHeader orientation position

/-- Neither `headerData` nor the handler of a reply for headers leaves its list. -/
def HeaderInBounds : HeaderEvent V → Prop
  | .headerData sectionIndex orientation role => s.headerDataAt sectionIndex orientation role ≠ .error .outOfRange
  | .replica .processEvent => ∀ serial data orientations sections roles posted,
      s.Handles serial (.header data) (.header orientations sections roles) posted →
        requestedHeaderData { s with posted } serial orientations sections roles data ≠ .error .outOfRange
  | _ => True

/-- A section is not negative, and those of a reply are shorter than their lists when it is handled. -/
def HeaderFits : HeaderEvent V → Prop
  | .headerData sectionIndex _ _ => 0 ≤ sectionIndex
  | .replica .processEvent => ∀ serial data orientations sections roles posted,
      s.Handles serial (.header data) (.header orientations sections roles) posted →
        orientations.length = data.length ∧ sections.length = data.length ∧ roles.length = data.length →
          ∀ asked ∈ orientations.zip sections, asked.2 < (s.m_headerData asked.1).length
  | _ => True

/-- No list becomes shorter than a section for which it has still to get a reply. -/
def SparesAwaited : HeaderEvent V → Prop
  | .headerData sectionIndex _ _ => 0 ≤ sectionIndex
  | .replica (.receive (.signal (.rowsRemoved _ start finish))) => ∀ position, s.AwaitsHeader .vertical position →
      position + (finish + 1 - start) < (s.m_headerData .vertical).length
  | .replica .processEvent => ∀ serial reply watcher posted size, s.Handles serial reply watcher posted →
      watcher = .init ∨ watcher = .reset → reply.modelSize = some size →
        ∀ orientation position, s.AwaitsHeader orientation position → position < size.headers orientation
  | _ => True

end Replica
end Statement

section Fill
variable {V : Type} {s : Replica V}
namespace Replica

@[simp] theorem setHeader_length {entries : List (CacheEntry V)} {orientation : Orientation} (other : Orientation)
    (same : entries.length = (s.m_headerData orientation).length) :
    ((s.setHeader orientation entries).m_headerData other).length = (s.m_headerData other).length := by
  simp only [setHeader, Function.update_apply]
  split
  · rename_i here
    rw [here, same]
  · rfl

/-- The cells of a reply are written if their sections are in their lists. -/
theorem fillHeader_inside {cells : List (Orientation × Nat × Role × V)} :
    fillHeader cells s ≠ .error .outOfRange ↔ ∀ cell ∈ cells, cell.2.1 < (s.m_headerData cell.1).length := by
  induction cells generalizing s with
  | nil => exact iff_of_true nofun nofun
  | cons cell cells ih =>
    obtain ⟨orientation, position, role, value⟩ := cell
    rw [fillHeader, List.forall_mem_cons]
    cases found : (s.m_headerData orientation)[position]? with
    | none => exact iff_of_false (fun inside => inside rfl) fun inside => Nat.not_lt.mpr (List.getElem?_eq_none_iff.mp found) inside.1
    | some entry =>
      obtain ⟨inside, _⟩ := List.getElem?_eq_some_iff.mp found
      dsimp only
      rw [ih]
      simp only [setHeader_length _ List.length_set]
      exact ⟨fun later => ⟨inside, later⟩, And.right⟩

theorem requestedHeaderData_inside {serial : Nat} {orientations : List Orientation} {sections : List Nat} {roles : List Role}
    {data : List V} : s.requestedHeaderData serial orientations sections roles data ≠ .error .outOfRange ↔
      (orientations.length = data.length ∧ sections.length = data.length ∧ roles.length = data.length →
        ∀ asked ∈ orientations.zip sections, asked.2 < (s.m_headerData asked.1).length) := by
  rw [requestedHeaderData]
  split
  · rename_i lengths
    have cells : (orientations.zip (sections.zip (roles.zip data))).map (Prod.map id Prod.fst) = orientations.zip sections := by
      rw [← List.zip_map_right, List.map_fst_zip]
      rw [List.length_zip]
      omega
    have filled : (do let s ← fillHeader (orientations.zip (sections.zip (roles.zip data))) s; pure (s.release serial) :
        Except Failure (Replica V)) ≠ .error .outOfRange ↔
          fillHeader (orientations.zip (sections.zip (roles.zip data))) s ≠ .error .outOfRange := by
      refine not_congr ⟨fun failed => ?_, fun failed => bind_error.mpr (.inl failed)⟩
      obtain failed | ⟨_, _, impossible⟩ := bind_error.mp failed
      · exact failed
      · contradiction
    rw [filled, fillHeader_inside, ← cells, List.forall_mem_map]
    exact ⟨fun inside _ => inside, fun inside => inside lengths⟩
  · rename_i differ
    refine iff_of_true ?_ fun lengths => absurd lengths differ
    rintro ⟨⟩

theorem headerDataAt_inside {sectionIndex : Int} {orientation : Orientation} {role : Role} :
    s.headerDataAt sectionIndex orientation role ≠ .error .outOfRange ↔ 0 ≤ sectionIndex := by
  rw [headerDataAt]
  split
  · exact iff_of_true nofun (by omega)
  · split
    · exact iff_of_false (fun inside => inside rfl) (by omega)
    · exact iff_of_true nofun (by omega)

theorem headerInBounds_iff (e : HeaderEvent V) : s.HeaderInBounds e ↔ s.HeaderFits e := by
  cases e with
  | headerData => exact headerDataAt_inside
  | replica e =>
    cases e with
    | processEvent =>
      simp only [HeaderInBounds, HeaderFits, requestedHeaderData_inside]
    | receive | multiData | rowCount | headerData => exact Iff.rfl

end Replica
end Fill

section Invariant
variable {V : Type} {config : Config} {s t : Replica V} {e : ReplicaEvent V} {orientation : Orientation} {position : Nat}
namespace Replica

/-- Each section for which a reply has still to come is in its list. -/
def AwaitedInside (s : Replica V) : Prop :=
  ∀ orientation position, s.AwaitsHeader orientation position → position < (s.m_headerData orientation).length

/-- Sections are asked for by `headerData` alone. -/
theorem requestedHeader_step (other : ∀ position orientation role, e ≠ .headerData position orientation role)
    (head : s.step config e = some t) :
    t.m_requestedHeaderData = s.m_requestedHeaderData ∨ t.m_requestedHeaderData = [] := by
  have handled := step_handle head
  cases e with
  | headerData position orientation role => exact absurd rfl (other _ _ _)
  | multiData index roles =>
    obtain ⟨root, data, _, _, rfl | rfl⟩ := multiData_ok handled
    all_goals exact .inl rfl
  | rowCount parent =>
    obtain ⟨root, _, rfl | ⟨_, rfl⟩⟩ := rowCount_ok handled
    all_goals exact .inl rfl
  | processEvent =>
    replace handled : s.processEvent config = .ok t := handled
    rw [processEvent] at handled
    split at handled
    · cases handled
      exact .inl rfl
    · dsimp only at handled
      split at handled
      · cases handled
        exact .inl (fetchPendingData_keeps (P := fun t => t.m_requestedHeaderData = s.m_requestedHeaderData) rfl
          (fun _ good => good) rfl)
      · cases handled
        exact .inr rfl
      · split at handled
        · cases handled
          exact .inl rfl
        · obtain ⟨u, same, rfl⟩ | ⟨_, _, _, _, same, _⟩ := onFinished_queues handled
          all_goals exact .inl same.m_requestedHeaderData
  | receive packet =>
    cases packet with
    | reply serial reply =>
      cases handled
      obtain same | ⟨_, same⟩ | ⟨_, _, same⟩ := s.notifyAboutReply_cases serial reply
      all_goals
        rw [same]
        exact .inl rfl
    | signal signal =>
      cases signal with
      | dataChanged start finish roles =>
        obtain ⟨_, _, root, data, _, _, _, rfl | rfl⟩ := onDataChanged_ok handled
        all_goals exact .inl rfl
      | rowsInserted parent start finish =>
        obtain ⟨_, _, _, ⟨_, rfl⟩ | ⟨_, _, _, rfl⟩⟩ := onRowsInserted_ok handled
        all_goals exact .inl rfl
      | rowsRemoved parent start finish =>
        obtain ⟨_, _, _, ⟨_, rfl⟩ | ⟨_, _, _, _, rfl⟩⟩ := onRowsRemoved_ok handled
        all_goals exact .inl rfl
      | columnsInserted parent start finish =>
        obtain ⟨_, _, _, ⟨_, rfl⟩ | ⟨_, _, _, ⟨_, _, rfl⟩ | ⟨_, _, _, rfl⟩⟩⟩ := onColumnsInserted_ok handled
        all_goals exact .inl rfl
      | headerDataChanged orientation first last =>
        cases handled
        exact .inl rfl
      | modelReset =>
        cases handled
        rw [onModelReset]
        split
        · left
          rw [doModelReset, deleteWatchers_eq]
          rfl
        · exact .inl rfl
      | layoutChanged parents =>
        obtain ⟨_, _, _, rfl⟩ := onLayoutChanged_ok handled
        exact .inl rfl

/-- A watcher for headers is an old one, or has the sections that were asked for. -/
theorem headerWatchers_step (head : s.step config e = some t) {watcher : Nat × Watcher} (there : watcher ∈ t.watchers)
    (asks : watcher.2.AsksHeader orientation position) :
    watcher ∈ s.watchers ∨ ∃ data ∈ s.m_requestedHeaderData, (data.orientation, data.sectionIndex) = (orientation, position) := by
  obtain ⟨u, queued, same⟩ := handle_queues (step_handle head)
  rw [same.watchers] at there
  have added : ∀ {watchers : List (Nat × Watcher)} {serial call}, watcher ∈ watchers ++ [(serial, call)] →
      (∀ old ∈ watchers, old ∈ s.watchers) → ¬ call.AsksHeader orientation position → watcher ∈ s.watchers := by
    intro watchers serial call there old plain
    obtain there | new := List.mem_append.mp there
    · exact old watcher there
    · rw [List.mem_singleton.mp new] at asks
      exact absurd asks plain
  cases queued with
  | still | fetch | fetchHeader | dropped | left => exact .inl there
  | reset done =>
    rw [doModelReset, deleteWatchers_eq] at there
    exact .inl (added there (fun old kept => List.mem_of_mem_filter kept) (by rintro ⟨⟩))
  | layout parents size indexes => exact .inl (added there (fun _ => id) (by rintro ⟨⟩))
  | reply number reply =>
    obtain same | ⟨_, same⟩ | ⟨_, _, same⟩ := s.notifyAboutReply_cases number reply
    all_goals
      rw [same] at there
      exact .inl there
  | size ends cached unknown => exact .inl (added there (fun _ => id) (by rintro ⟨⟩))
  | fetchPendingData first =>
    left
    revert there
    refine fetchPendingData_keeps (P := fun t => watcher ∈ t.watchers → watcher ∈ s.watchers) id (fun _ good there => ?_) id
    obtain there | new := List.mem_append.mp there
    · exact good there
    · rw [List.mem_singleton.mp new] at asks
      cases asks
  | fetchPendingHeaderData first =>
    obtain there | new := List.mem_append.mp there
    · exact .inl there
    · rw [List.mem_singleton.mp new] at asks
      right
      replace asks : (orientation, position) ∈ (s.m_requestedHeaderData.map RequestedHeaderData.orientation).zip
        (s.m_requestedHeaderData.map RequestedHeaderData.sectionIndex) := asks
      rw [List.zip_map'] at asks
      exact List.mem_map.mp asks
  | finished handles => exact .inl (List.mem_of_mem_filter there)

theorem awaitsHeader_step (head : s.step config e = some t) (awaits : t.AwaitsHeader orientation position) :
    s.AwaitsHeader orientation position ∨
      (∃ role, e = .headerData position orientation role) ∧ position < (s.m_headerData orientation).length := by
  obtain ⟨data, asked, same⟩ | ⟨watcher, there, asks⟩ := awaits
  · by_cases other : ∀ position orientation role, e ≠ .headerData position orientation role
    · left; left
      obtain kept | none := requestedHeader_step other head
      · exact ⟨data, kept ▸ asked, same⟩
      · rw [none] at asked
        contradiction
    · simp only [not_forall, not_not] at other
      obtain ⟨position', orientation', role, rfl⟩ := other
      obtain rfl : s.headerData position' orientation' role = t := Except.ok.inj (step_handle head)
      rw [headerData] at asked
      split at asked
      · exact .inl (.inl ⟨data, asked, same⟩)
      · rename_i entry found
        split at asked
        · exact .inl (.inl ⟨data, asked, same⟩)
        · obtain old | new := List.mem_append.mp asked
          · exact .inl (.inl ⟨data, old, same⟩)
          · rw [List.mem_singleton.mp new] at same
            cases same
            exact .inr ⟨⟨role, rfl⟩, (List.getElem?_eq_some_iff.mp found).1⟩
  · left
    obtain old | ⟨data, asked, same⟩ := headerWatchers_step head there asks
    · exact .inr ⟨watcher, old, asks⟩
    · exact .inl ⟨data, asked, same⟩

/-- The lists become shorter where rows are removed or all of the model is read again. -/
inductive HeaderLengths (s : Replica V) : ReplicaEvent V → (Orientation → Nat) → Prop
  | kept (e : ReplicaEvent V) {lengths : Orientation → Nat} (longer : ∀ other, (s.m_headerData other).length ≤ lengths other) :
    HeaderLengths s e lengths
  | removed (parent : IndexList) (start finish : Nat) {lengths : Orientation → Nat}
    (rows : (s.m_headerData .vertical).length ≤ lengths .vertical + (finish + 1 - start))
    (columns : (s.m_headerData .horizontal).length = lengths .horizontal) :
    HeaderLengths s (.receive (.signal (.rowsRemoved parent start finish))) lengths
  | reset {serial : Nat} {reply : Reply V} {watcher : Watcher} {posted : List (Posted V)} {size : Size}
    (handles : s.Handles serial reply watcher posted) (whole : watcher = .init ∨ watcher = .reset)
    (read : reply.modelSize = some size) : HeaderLengths s .processEvent size.headers

theorem headerLengths_finished {serial : Nat} {watcher : Watcher} {reply : Reply V} (handled : s.onFinished config serial watcher reply = .ok t) :
    (∀ other, (t.m_headerData other).length = (s.m_headerData other).length) ∨ (watcher = .init ∨ watcher = .reset) ∧
      ∃ size, reply.modelSize = some size ∧ (fun other => (t.m_headerData other).length) = size.headers := by
  have reset : ∀ {u}, s.handleModelResetDone config serial reply = .ok u →
      ∃ size, reply.modelSize = some size ∧ (fun other => (u.m_headerData other).length) = size.headers := by
    intro u done
    obtain ⟨size, root, fetched, rfl⟩ := handleModelResetDone_ok done
    refine ⟨size, by cases fetched <;> rfl, funext fun other => ?_⟩
    cases other with
    | horizontal =>
      exact resizeHeader_length (s.m_headerData .horizontal) size.width
    | vertical =>
      exact resizeHeader_length (s.m_headerData .vertical) size.height
  cases watcher with
  | init =>
    obtain ⟨u, done, rfl⟩ := handleInitDone_ok handled
    obtain ⟨size, read, lengths⟩ := reset done
    exact .inr ⟨.inl rfl, size, read, lengths⟩
  | reset => exact .inr ⟨.inr rfl, reset handled⟩
  | size parentList =>
    cases reply with
    | size size =>
      obtain ⟨_, root, _, _, rfl⟩ := handleSizeDone_ok handled
      exact .inl fun _ => rfl
    | entries | header | cache => contradiction
  | row start finish roles =>
    cases reply with
    | entries entries =>
      obtain ⟨_, _, _, _, ⟨_, rfl⟩ | ⟨_, _, _, _, rfl⟩⟩ := requestedData_ok handled
      all_goals exact .inl fun _ => rfl
    | size | header | cache => contradiction
  | header orientations sections roles =>
    cases reply with
    | header data =>
      obtain ⟨m_headerData, rfl, lengths⟩ := requestedHeaderData_ok handled
      exact .inl lengths
    | size | entries | cache => contradiction
  | layout indexes =>
    cases reply with
    | cache entries =>
      obtain ⟨root, _, rfl⟩ := layoutDone_ok handled
      exact .inl fun _ => rfl
    | size | entries | header => contradiction

theorem headerLengths_step (head : s.step config e = some t) : HeaderLengths s e fun other => (t.m_headerData other).length := by
  have inner : (∀ signal, e ≠ .receive (.signal signal)) → HeaderLengths s e fun other => (t.m_headerData other).length := by
    intro other
    obtain ⟨_, headers, _⟩ | ⟨serial, reply, watcher, posted, rfl, handles, finished⟩ := step_root head other
    · exact .kept e fun other => Nat.le_of_eq (congrArg (fun h => (h other).length) headers.symm)
    · obtain same | ⟨whole, size, read, lengths⟩ := headerLengths_finished finished
      · exact .kept _ fun other => Nat.le_of_eq (same other).symm
      · rw [lengths]
        exact .reset handles whole read
  have handled := step_handle head
  cases e with
  | processEvent | multiData | rowCount | headerData => exact inner nofun
  | receive packet =>
    cases packet with
    | reply serial reply => exact inner nofun
    | signal signal =>
      cases signal with
      | dataChanged start finish roles =>
        obtain ⟨_, _, root, data, _, _, _, rfl | rfl⟩ := onDataChanged_ok handled
        all_goals exact .kept _ fun _ => Nat.le_refl _
      | rowsInserted parent start finish =>
        obtain ⟨_, _, _, ⟨_, rfl⟩ | ⟨_, _, _, rfl⟩⟩ := onRowsInserted_ok handled
        · exact .kept _ fun _ => Nat.le_refl _
        · refine .kept _ fun other => ?_
          cases other <;> simp [setHeader, setRoot]
      | rowsRemoved parent start finish =>
        obtain ⟨_, _, _, ⟨_, rfl⟩ | ⟨_, _, _, inside, rfl⟩⟩ := onRowsRemoved_ok handled
        · exact .kept _ fun _ => Nat.le_refl _
        · refine .removed parent start finish ?_ rfl
          simp [setHeader]
          omega
      | columnsInserted parent start finish =>
        obtain ⟨_, _, _, ⟨_, rfl⟩ | ⟨_, _, _, ⟨_, _, rfl⟩ | ⟨_, _, _, rfl⟩⟩⟩ := onColumnsInserted_ok handled
        · exact .kept _ fun _ => Nat.le_refl _
        · exact .kept _ fun _ => Nat.le_refl _
        · refine .kept _ fun other => ?_
          cases other <;> simp [setHeader, setRoot]
      | headerDataChanged orientation first last =>
        cases handled
        refine .kept _ fun other => Nat.le_of_eq ?_
        exact (setHeader_length other (by simp)).symm
      | modelReset =>
        cases handled
        rw [onModelReset]
        split
        · obtain ⟨_, headers, _⟩ := doModelReset_cache config s .reset
          exact .kept _ fun other => Nat.le_of_eq (congrArg (fun h => (h other).length) headers.symm)
        · exact .kept _ fun _ => Nat.le_refl _
      | layoutChanged parents =>
        obtain ⟨_, _, _, rfl⟩ := onLayoutChanged_ok handled
        exact .kept _ fun _ => Nat.le_refl _

theorem AwaitedInside.step (inside : s.AwaitedInside) (spares : s.SparesAwaited (.replica e)) (head : s.step config e = some t) :
    t.AwaitedInside := by
  intro orientation position awaits
  -- What is awaited is in the list of before, and that does not become shorter than it.
  have within : position < (s.m_headerData orientation).length := by
    obtain awaited | ⟨_, within⟩ := awaitsHeader_step head awaits
    · exact inside orientation position awaited
    · exact within
  have lengths := headerLengths_step head
  generalize same : (fun other => (t.m_headerData other).length) = after at lengths
  rw [show (t.m_headerData orientation).length = after orientation from congrFun same orientation]
  cases lengths with
  | kept e longer => exact Nat.lt_of_lt_of_le within (longer orientation)
  | removed parent start finish rows columns =>
    cases orientation with
    | horizontal => exact columns ▸ within
    | vertical =>
      obtain awaited | ⟨⟨_, impossible⟩, _⟩ := awaitsHeader_step head awaits
      · have spared : position + (finish + 1 - start) < (s.m_headerData .vertical).length := spares position awaited
        omega
      · contradiction
  | reset handles whole read =>
    obtain awaited | ⟨⟨_, impossible⟩, _⟩ := awaitsHeader_step head awaits
    · exact spares _ _ _ _ _ handles whole read orientation position awaited
    · contradiction

theorem awaitedInside_step {e : HeaderEvent V} (inside : s.AwaitedInside) (spares : s.SparesAwaited e)
    (head : s.stepHeader config e = some t) : t.AwaitedInside := by
  cases e with
  | replica e => exact inside.step spares head
  | headerData sectionIndex orientation role =>
    replace head : (s.headerDataAt sectionIndex orientation role).toOption = some t := head
    rw [headerDataAt] at head
    split at head
    · cases head
      exact inside
    · split at head
      · contradiction
      · exact @AwaitedInside.step V config s t (.headerData sectionIndex.toNat orientation role) inside trivial head

theorem awaitedInside_fits {e : HeaderEvent V} (inside : s.AwaitedInside) (spares : s.SparesAwaited e) : s.HeaderFits e := by
  cases e with
  | headerData => exact spares
  | replica e =>
    cases e with
    | processEvent =>
      intro serial data orientations sections roles posted handles _ asked there
      exact inside asked.1 asked.2 (.inr ⟨_, watcher?_mem handles.watcher, there⟩)
    | receive | multiData | rowCount | headerData => trivial

theorem awaitedInside_init (config : Config) (rootCacheSize : Nat) : ((initial rootCacheSize : Replica V).init config).AwaitedInside := by
  rintro orientation position (⟨_, asked, _⟩ | ⟨watcher, there, asks⟩)
  · exact absurd asked List.not_mem_nil
  · rw [List.mem_singleton.mp there] at asks
    exact absurd asks nofun

end Replica
end Invariant

section Main
variable {V : Type}
namespace Replica

/-- The header lists are used inside their bounds if no section is negative and each fits when its reply comes. So it is
where neither removals of rows nor resets make a list shorter than a section that is awaited. -/
theorem header_replies_in_bounds (config : Config) (rootCacheSize : Nat) (es : List (HeaderEvent V)) :
    (Admitted (stepHeader config) HeaderInBounds ((initial rootCacheSize).init config) es ↔
      Admitted (stepHeader config) HeaderFits ((initial rootCacheSize).init config) es) ∧
    (Admitted (stepHeader config) SparesAwaited ((initial rootCacheSize).init config) es →
      Admitted (stepHeader config) HeaderInBounds ((initial rootCacheSize).init config) es) := by
  have exact_steps : Admitted (stepHeader config) HeaderInBounds ((initial rootCacheSize).init config) es ↔
      Admitted (stepHeader config) HeaderFits ((initial rootCacheSize).init config) es :=
    admitted_iff (P := fun _ => True) (fun _ _ => trivial) (fun _ => headerInBounds_iff _) trivial
  exact ⟨exact_steps, fun spares => exact_steps.mpr
    (admitted_of_invariant awaitedInside_step awaitedInside_fits spares (awaitedInside_init config rootCacheSize))⟩

end Replica
end Main

section Example
namespace Replica

/-- The header of the only row is asked for, and the row goes before the reply comes. -/
def rowGone : List (HeaderEvent Nat) :=
  [.replica (.receive (.reply 0 (.size ⟨1, 1⟩))), .replica .processEvent, .headerData 0 .vertical 0, .replica .processEvent,
    .replica (.receive (.signal (.rowsRemoved [] 0 0))), .replica (.receive (.reply 1 (.header [7]))), .replica .processEvent]

theorem header_reply_late :
    ¬ Admitted (stepHeader exampleListConfig) HeaderInBounds ((initial 1000).init exampleListConfig) rowGone ∧
      ¬ Admitted (stepHeader exampleListConfig) HeaderInBounds ((initial 1000 : Replica Nat).init exampleListConfig)
        [.replica (.receive (.reply 0 (.size ⟨1, 1⟩))), .replica .processEvent, .headerData (-1) .vertical 0] := by
  constructor
  · intro inside
    have last := (((((((inside.2 _ rfl).2 _ rfl).2 _ rfl).2 _ rfl).2 _ rfl).2 _ rfl)).1
    exact last _ _ _ _ _ _ ⟨rfl, rfl⟩ rfl
  · intro inside
    exact ((inside.2 _ rfl).2 _ rfl).1 rfl

end Replica
end Example
end RemoteObjects.ItemModel
