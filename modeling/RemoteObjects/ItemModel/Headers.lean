import RemoteObjects.ItemModel.Pending
import RemoteObjects.ItemModel.LayoutParents

/-! The sizes of the header lists of a replica against those of its root item. -/
namespace RemoteObjects.ItemModel
open Transition
namespace Replica

section Statement
variable {V : Type} (config : Config)

structure HeaderSizes (s : Replica V) : Prop where
  rows : (s.m_headerData .vertical).length = s.m_rootItem.item.rowCount
  columns : (s.m_headerData .horizontal).length = s.m_rootItem.item.columnCount

/-- The erase in `onRowsRemoved` stays inside the list. -/
def ErasesInside (s : Replica V) (parent : IndexList) : Prop :=
  ∀ start finish, s.handle config (.receive (.signal (.rowsRemoved parent start finish))) ≠ .error .outOfRange

def KeepsHeaderSizes (V : Type) (rootCacheSize : Nat) : Prop :=
  ∀ es (s : Replica V), exec (step config) ((initial rootCacheSize).init config) es = some s →
    s.HeaderSizes ∧ ∀ parent, s.ErasesInside config parent

/-- Rows or columns of the root alone reach the lists of the header, and a layout change leaves the size of the root. -/
def Aligned (s : Replica V) : ReplicaEvent V → Prop
  | .receive (.signal (.rowsInserted parent _ _)) =>
    parent ≠ [] → ∀ root, s.m_rootItem.resolve config.nodesCacheSize true true parent ≠ .ok (true, root)
  | .receive (.signal (.rowsRemoved parent _ _)) => parent ≠ [] → ¬ s.m_rootItem.HasPath config parent
  | .receive (.signal (.columnsInserted parent _ _)) => parent ≠ [] → ∀ root item,
      s.m_rootItem.toQModelIndex config.nodesCacheSize parent = .ok (true, root) → root.item? (rowsOf parent) = some item →
      (root.item? (rowsOf parent.dropLast)).map ItemData.columnCount = some item.columnCount
  | .processEvent => ∀ serial entries indexes posted, s.Handles serial (.cache entries) (.layout indexes) posted →
      entries.size = ⟨s.m_rootItem.item.columnCount, s.m_rootItem.item.rowCount⟩
  | _ => True

end Statement

section Invariant
variable {V : Type} {config : Config} {s t : Replica V} {e : ReplicaEvent V}

theorem toModelIndexList_ne_nil {parent : IndexList} {last : ModelIndex} (ends : parent.getLast? = some last) :
    toModelIndexList parent ≠ [] := by
  rw [toModelIndexList, ends]
  exact List.append_ne_nil_of_right_ne_nil _ (List.cons_ne_nil _ _)

/-- Sizes are asked for below the root. -/
def SizesNested (s : Replica V) : Prop := ∀ serial parentList, (serial, .size parentList) ∈ s.watchers → parentList ≠ []

theorem SizesNested.request (nested : SizesNested s) (call : Request V) (watcher : Watcher)
    (other : ∀ parentList, watcher = .size parentList → parentList ≠ []) : SizesNested (s.request call watcher) := by
  intro serial parentList there
  obtain old | new := List.mem_append.mp there
  · exact nested serial parentList old
  · obtain ⟨_, same⟩ := Prod.mk.inj (List.mem_singleton.mp new)
    exact other parentList same.symm

theorem SizesNested.pendingRequest (nested : SizesNested s) (call : Request V) (watcher : Watcher)
    (other : ∀ parentList, watcher = .size parentList → parentList ≠ []) : SizesNested (s.pendingRequest call watcher) :=
  nested.request call watcher other

theorem sizesNested_step (nested : SizesNested s) (head : s.step config e = some t) : SizesNested t := by
  obtain ⟨u, queued, same⟩ := handle_queues (step_handle head)
  unfold SizesNested
  rw [same.watchers]
  have filtered : ∀ {s' : Replica V} {keep}, s'.watchers = s.watchers.filter keep → SizesNested s' := by
    intro s' keep kept serial parentList there
    rw [kept] at there
    exact nested serial parentList (List.mem_of_mem_filter there)
  cases queued with
  | still | fetch | fetchHeader | dropped | left => exact nested
  | reset done => 
    refine SizesNested.pendingRequest ?_ _ _ ?_
    · exact filtered (congrArg watchers (deleteWatchers_eq _ _))
    · exact nofun
  | layout => exact nested.pendingRequest _ _ nofun
  | reply serial reply =>
    obtain same | ⟨_, same⟩ | ⟨_, _, same⟩ := s.notifyAboutReply_cases serial reply
    all_goals
      rw [same]
      exact nested
  | size ends =>
    exact nested.request _ _ fun parentList same => Watcher.size.inj same ▸ toModelIndexList_ne_nil ends
  | fetchPendingData =>
    exact fetchPendingData_keeps (P := SizesNested) nested (fun _ good => good.pendingRequest _ _ nofun) nested
  | fetchPendingHeaderData =>
    refine SizesNested.pendingRequest ?_ _ _ nofun
    exact nested
  | finished => exact filtered rfl

theorem HeaderSizes.same (sizes : HeaderSizes s) (item : t.m_rootItem.item = s.m_rootItem.item)
    (lengths : ∀ orientation, (t.m_headerData orientation).length = (s.m_headerData orientation).length) : HeaderSizes t where
  rows := by rw [lengths, item, sizes.rows]
  columns := by rw [lengths, item, sizes.columns]

theorem fillCaches_top {nodesCacheSize : Nat} {roles : List Role} {pairs : List (IndexValuePair V)} {c d : CacheData V}
    (filled : CacheData.fillCaches nodesCacheSize roles pairs c = .ok d) : d.item = c.item := by
  have top : Everywhere (fun path item => path = [] → item = c.item) d := by
    refine Everywhere.fillCaches (Q := fun _ => True) (fun _ nested none => absurd none nested) ?_ ?_ ?_ filled
    · intro pair item last after _ ends _ _ none
      rw [rowsOf, List.map_eq_nil_iff] at none
      rw [none] at ends
      contradiction
    · rintro _ item there rfl
      exact (Option.some.inj there).symm
    · exact AllOf.of_forall (fun _ => trivial) pairs
  exact top [] d.item rfl rfl

theorem fillRows_top {nodesCacheSize : Nat} {roles : List Role} {pairs : List (IndexValuePair V)} {c d : CacheData V}
    (filled : pairs.foldlM (fun c pair => CacheData.fillWith nodesCacheSize pair roles id c) c = .ok d) : d.item = c.item := by
  have top : Everywhere (fun path item => path = [] → item = c.item) d := by
    refine Everywhere.fillRows ?_ (fun _ nested none => absurd none nested) ?_ filled
    · rintro _ item there rfl
      exact (Option.some.inj there).symm
    · intro pair _ item last after ends _ _ none
      rw [rowsOf, List.map_eq_nil_iff] at none
      rw [none] at ends
      contradiction
  exact top [] d.item rfl rfl

theorem headerSizes_signal {signal : Signal} (sizes : HeaderSizes s) (aligned : s.Aligned config (.receive (.signal signal)))
    (handled : s.onSignal config signal = .ok t) : HeaderSizes t := by
  cases signal with
  | dataChanged start finish roles =>
    obtain ⟨cleared, middle, root, data, clears, refreshed, _, made⟩ := onDataChanged_ok handled
    have item : root.item = s.m_rootItem.item := by
      obtain ⟨first, before, ⟨_, rfl⟩ | ⟨_, _, _, _, modified⟩⟩ := clearCache_ok clears
      · exact refreshed.top.trans before.top
      · exact refreshed.top.trans ((modify_item modified clearRows_item).trans before.top)
    obtain rfl | rfl := made
    · exact sizes.same item fun _ => rfl
    · exact sizes.same item fun _ => rfl
  | rowsInserted parent start finish =>
    obtain ⟨ok, middle, resolved, ⟨_, rfl⟩ | ⟨rfl, root, inserted, rfl⟩⟩ := onRowsInserted_ok handled
    · exact sizes.same (Refreshes.resolve resolved).top fun _ => rfl
    · obtain rfl : parent = [] := by
        by_contra nested
        exact aligned nested middle resolved
      obtain ⟨ordered, rows⟩ := insertChildren_spec inserted
      have top := (Refreshes.resolve resolved).top
      refine ⟨?_, ?_⟩
      · show (s.m_headerData .vertical ++ List.replicate _ _).length = root.item.rowCount
        rw [List.length_append, List.length_replicate, sizes.rows, rows.rowCount, top]
      · exact sizes.columns.trans (by rw [← top]; exact rows.columnCount.symm)
  | rowsRemoved parent start finish =>
    obtain ⟨ok, middle, resolved, ⟨_, rfl⟩ | ⟨rfl, root, removed, inside, rfl⟩⟩ := onRowsRemoved_ok handled
    · exact sizes.same (Refreshes.toQModelIndex resolved).top fun _ => rfl
    · obtain rfl : parent = [] := by
        by_contra nested
        exact aligned nested ⟨middle, resolved⟩
      obtain ⟨bounds, rows⟩ := removeChildren_spec removed
      have top := (Refreshes.toQModelIndex resolved).top
      refine ⟨?_, ?_⟩
      · show ((s.m_headerData .vertical).take start ++ (s.m_headerData .vertical).drop (finish + 1)).length = root.item.rowCount
        rw [List.length_append, List.length_take, List.length_drop, sizes.rows, rows.item, top]
        rw [top] at bounds
        dsimp only
        omega
      · exact sizes.columns.trans (by rw [← top]; exact (congrArg ItemData.columnCount rows.item).symm)
  | columnsInserted parent start finish =>
    obtain ⟨ok, middle, resolved, ⟨_, rfl⟩ | ⟨rfl, item, cached, ⟨_, _, rfl⟩ | ⟨differs, root, modified, rfl⟩⟩⟩ :=
      onColumnsInserted_ok handled
    · exact sizes.same (Refreshes.toQModelIndex resolved).top fun _ => rfl
    · exact sizes.same ((Refreshes.touch _ _).top.trans (Refreshes.toQModelIndex resolved).top) fun _ => rfl
    · obtain rfl : parent = [] := by
        by_contra nested
        exact differs nested (aligned nested middle item resolved cached)
      cases modified
      have top := (Refreshes.toQModelIndex resolved).top
      refine ⟨sizes.rows.trans (by rw [← top]; rfl), ?_⟩
      show (s.m_headerData .horizontal ++ List.replicate _ _).length = middle.item.columnCount + _
      rw [List.length_append, List.length_replicate, sizes.columns, top]
  | headerDataChanged orientation first last =>
    cases handled
    refine sizes.same rfl fun other => ?_
    by_cases here : other = orientation
    · subst here
      simp [onHeaderDataChanged, setHeader]
    · simp [onHeaderDataChanged, setHeader, here]
  | modelReset =>
    cases handled
    rw [onModelReset]
    split
    · obtain ⟨root, headers, _⟩ := doModelReset_cache config s .reset
      exact sizes.same (congrArg CacheData.item root) fun orientation => congrArg (fun h => (h orientation).length) headers
    · exact sizes
  | layoutChanged parents =>
    obtain ⟨indexes, root, read, rfl⟩ := onLayoutChanged_ok handled
    exact sizes.same (layoutParents_refreshes read).top fun _ => rfl

theorem headerSizes_finished {serial : Nat} {watcher : Watcher} {reply : Reply V} (sizes : HeaderSizes s)
    (nested : ∀ parentList, watcher = .size parentList → parentList ≠ [])
    (aligned : ∀ entries indexes, watcher = .layout indexes → reply = .cache entries →
      entries.size = ⟨s.m_rootItem.item.columnCount, s.m_rootItem.item.rowCount⟩)
    (handled : s.onFinished config serial watcher reply = .ok t) : HeaderSizes t := by
  have reset : ∀ {u}, s.handleModelResetDone config serial reply = .ok u → HeaderSizes u := by
    intro u done
    obtain ⟨size, root, fetched, rfl⟩ := handleModelResetDone_ok done
    have item : root.item = ⟨[], size.height ≠ 0, size.width, size.height⟩ := by
      cases fetched with
      | rootSize => rfl
      | prefetch action filled => exact fillCaches_top filled
    refine ⟨?_, ?_⟩
    · show (resizeHeader (s.m_headerData .vertical) size.height).length = root.item.rowCount
      rw [resizeHeader_length, item]
    · show (resizeHeader (s.m_headerData .horizontal) size.width).length = root.item.columnCount
      rw [resizeHeader_length, item]
  cases watcher with
  | init =>
    obtain ⟨u, done, rfl⟩ := handleInitDone_ok handled
    exact ⟨(reset done).rows, (reset done).columns⟩
  | reset => exact reset handled
  | size parentList =>
    cases reply with
    | size size =>
      obtain ⟨middle, root, refreshed, modified, rfl⟩ := handleSizeDone_ok handled
      obtain ⟨_, _, _, _, _, outside⟩ := modify_spec modified
      have top := outside [] (by simpa [rowsOf] using nested parentList rfl)
      exact sizes.same ((Option.some.inj top).trans refreshed.top) fun _ => rfl
    | entries | header | cache => contradiction
  | row start finish roles =>
    cases reply with
    | entries entries =>
      obtain ⟨middle, item, resolved, found, ⟨_, rfl⟩ | ⟨filled, root, fill, refreshed, rfl⟩⟩ := requestedData_ok handled
      · exact sizes.same ((Refreshes.touch _ _).top.trans (Refreshes.validQModelIndex resolved).top) fun _ => rfl
      · refine sizes.same ?_ fun _ => rfl
        exact refreshed.top.trans ((fillRows_top fill).trans
          ((Refreshes.touch _ _).top.trans (Refreshes.validQModelIndex resolved).top))
    | size | header | cache => contradiction
  | header orientations sections roles =>
    cases reply with
    | header data =>
      obtain ⟨m_headerData, rfl, lengths⟩ := requestedHeaderData_ok handled
      exact sizes.same rfl lengths
    | size | entries | cache => contradiction
  | layout indexes =>
    cases reply with
    | cache entries =>
      obtain ⟨root, filled, rfl⟩ := layoutDone_ok handled
      have item : root.item = ⟨[], entries.size.height ≠ 0, entries.size.width, entries.size.height⟩ := by
        unfold prefetched at filled
        split at filled
        · cases filled
          rfl
        · exact fillCaches_top filled
      have size := aligned entries indexes rfl rfl
      refine ⟨?_, ?_⟩
      · show (s.m_headerData .vertical).length = root.item.rowCount
        rw [sizes.rows, item, size]
      · show (s.m_headerData .horizontal).length = root.item.columnCount
        rw [sizes.columns, item, size]
    | size | entries | header => contradiction

theorem headerSizes_step (sizes : HeaderSizes s) (nested : SizesNested s) (aligned : s.Aligned config e)
    (head : s.step config e = some t) : HeaderSizes t := by
  have inner : (∀ signal, e ≠ .receive (.signal signal)) → HeaderSizes t := by
    intro other
    obtain ⟨refreshed, headers, _⟩ | ⟨serial, reply, watcher, posted, rfl, handles, finished⟩ := step_root head other
    · exact sizes.same refreshed.top fun orientation => congrArg (fun h => (h orientation).length) headers
    · refine headerSizes_finished (s := { s with posted }) ⟨sizes.rows, sizes.columns⟩ ?_ ?_ finished
      · rintro parentList rfl
        exact nested serial parentList (watcher?_mem handles.watcher)
      · rintro entries indexes rfl rfl
        exact aligned serial entries indexes posted handles
  cases e with
  | receive packet =>
    cases packet with
    | signal signal => exact headerSizes_signal sizes aligned (step_handle head)
    | reply => exact inner nofun
  | processEvent | multiData | rowCount | headerData => exact inner nofun

/-- With the sizes of the root the erase stays inside, and so it does where the parent is unknown. -/
theorem HeaderSizes.erases (sizes : HeaderSizes s) {parent : IndexList}
    (aligned : parent ≠ [] → ¬ s.m_rootItem.HasPath config parent) : s.ErasesInside config parent := by
  intro start finish failed
  replace failed : s.onRowsRemoved config parent start finish = .error .outOfRange := failed
  rw [onRowsRemoved] at failed
  obtain failed | ⟨⟨ok, middle⟩, resolved, failed⟩ := bind_error.mp failed
  · obtain impossible | impossible := resolve_error failed
    all_goals contradiction
  · dsimp only at failed
    split at failed
    · contradiction
    · rename_i present
      obtain rfl : ok = true := by simpa using present
      obtain rfl : parent = [] := by
        by_contra nested
        exact aligned nested ⟨middle, resolved⟩
      cases resolved
      obtain failed | ⟨root, removed, failed⟩ := bind_error.mp failed
      · replace failed : s.m_rootItem.removeChildren start finish = .error .outOfRange := failed
        rw [CacheData.removeChildren] at failed
        split at failed
        · contradiction
        · cases failed
      · obtain ⟨bounds, _⟩ := removeChildren_spec removed
        split at failed
        · contradiction
        · rename_i outside
          rw [sizes.rows] at outside
          omega

/-- The lists have the sizes of the root in every state of a run whose steps are aligned. -/
theorem header_sizes_kept {rootCacheSize : Nat} {es : List (ReplicaEvent V)}
    (run : exec (step config) ((initial rootCacheSize).init config) es = some s)
    (aligned : Admitted (step config) (Aligned config) ((initial rootCacheSize).init config) es) :
    s.HeaderSizes ∧ ∀ parent, (parent ≠ [] → ¬ s.m_rootItem.HasPath config parent) → s.ErasesInside config parent := by
  have start : HeaderSizes ((initial rootCacheSize : Replica V).init config) ∧
      SizesNested ((initial rootCacheSize : Replica V).init config) := by
    refine ⟨⟨rfl, rfl⟩, fun serial parentList there => ?_⟩
    cases List.mem_singleton.mp there
  have sizes := exec_invariant (P := fun s => HeaderSizes s ∧ SizesNested s)
    (fun good aligned head => ⟨headerSizes_step good.1 good.2 aligned head, sizesNested_step good.2 head⟩) run aligned start
  exact ⟨sizes.1, fun parent unknown => sizes.1.erases unknown⟩

end Invariant

section Example

/-- A model with one row and one column has been read. -/
def sizeRead : List (ReplicaEvent Nat) := [.receive (.reply 0 (.size ⟨1, 1⟩)), .processEvent]

/-- A second row comes, and the first one goes. -/
def rootRows : List (ReplicaEvent Nat) :=
  sizeRead ++ [.receive (.signal (.rowsInserted [] 1 1)), .receive (.signal (.rowsRemoved [] 0 0))]

theorem header_sizes_kept_example : ∃ s : Replica Nat,
    exec (step exampleReplicaConfig) ((initial 1000).init exampleReplicaConfig) rootRows = some s ∧
      s.HeaderSizes ∧ s.ErasesInside exampleReplicaConfig [] := by
  obtain ⟨s, run⟩ := Option.isSome_iff_exists.mp
    (show (exec (step exampleReplicaConfig) ((initial 1000).init exampleReplicaConfig) rootRows).isSome by decide)
  have kept := header_sizes_kept run (by
    refine .cons trivial rfl (.cons ?_ rfl (.cons ?_ rfl (.cons ?_ rfl trivial)))
    · intro serial entries indexes posted handles
      cases handles.first
    · exact fun nested => absurd rfl nested
    · exact fun nested => absurd rfl nested)
  exact ⟨s, run, kept.1, kept.2 [] fun nested => absurd rfl nested⟩

/-- Rows below the first row grow the list of the rows of the root. -/
theorem nested_rows_grow_header : ¬ KeepsHeaderSizes exampleReplicaConfig Nat 1000 := by
  intro keeps
  obtain ⟨s, run⟩ := Option.isSome_iff_exists.mp
    (show (exec (step exampleReplicaConfig) ((initial 1000).init exampleReplicaConfig)
      (sizeRead ++ [.receive (.signal (.rowsInserted [⟨0, 0⟩] 0 0))])).isSome by decide)
  have sizes : ((s.m_headerData .vertical).length, s.m_rootItem.item.rowCount) = (2, 1) :=
    Option.some.inj ((congrArg (Option.map fun s : Replica Nat =>
      ((s.m_headerData .vertical).length, s.m_rootItem.item.rowCount)) run).symm.trans (by decide))
  obtain ⟨entries, rows⟩ := Prod.mk.inj sizes
  have same := (keeps _ s run).1.rows
  rw [entries, rows] at same
  contradiction

end Example
end Replica
end RemoteObjects.ItemModel
