import Mathlib.Data.List.TakeDrop
import RemoteObjects.ItemModel.Merging
import RemoteObjects.ItemModel.CacheLemmas

/-! What each handler of the replica does to its requests, watchers and posted events. -/
namespace RemoteObjects.ItemModel
namespace Replica

section Model
variable {V : Type}

/-- They differ in what is cached and in `m_initDone` at most. -/
structure SameQueues (s t : Replica V) : Prop where
  m_requestedData : t.m_requestedData = s.m_requestedData
  m_requestedHeaderData : t.m_requestedHeaderData = s.m_requestedHeaderData
  m_pendingRequests : t.m_pendingRequests = s.m_pendingRequests
  watchers : t.watchers = s.watchers
  posted : t.posted = s.posted
  sent : t.sent = s.sent
  m_pendingCalls : t.m_pendingCalls = s.m_pendingCalls
  serial : t.serial = s.serial

/-- The head of the event queue is the reply for a watcher that there is. -/
structure Handles (s : Replica V) (serial : Nat) (reply : Reply V) (watcher : Watcher) (posted : List (Posted V)) : Prop where
  first : s.posted = .finished serial reply :: posted
  watcher : s.watcher? serial = some watcher

/-- The roles of the data that an event asks for. -/
def Asked (config : Config) (data : RequestedData) : ReplicaEvent V → Prop
  | .receive (.signal (.dataChanged _ _ roles)) => data.roles = roles
  | .multiData _ _ => ∀ role ∈ data.roles, role ∈ config.availableRoles
  | _ => False

/-- What one event makes of the queues. -/
inductive QueueStep (config : Config) (s : Replica V) : ReplicaEvent V → Replica V → Prop
  | still (e : ReplicaEvent V) : QueueStep config s e s
  | fetch {e : ReplicaEvent V} {data : List RequestedData} (asked : ∀ request ∈ data, Asked config request e) :
    QueueStep config s e (post { s with m_requestedData := s.m_requestedData ++ data } .fetchPendingData)
  | fetchHeader (e : ReplicaEvent V) (data : RequestedHeaderData) :
    QueueStep config s e (post { s with m_requestedHeaderData := s.m_requestedHeaderData ++ [data] } .fetchPendingHeaderData)
  | reset (done : s.m_initDone) : QueueStep config s (.receive (.signal .modelReset)) (s.doModelReset config .reset)
  | layout (parents : IndexList) (size : Nat) (indexes : List IndexList) :
    QueueStep config s (.receive (.signal (.layoutChanged parents)))
      (s.pendingRequest (.cache size config.m_initialFetchRolesHint) (.layout indexes))
  | reply (serial : Nat) (reply : Reply V) :
    QueueStep config s (.receive (.reply serial reply)) (s.notifyAboutReply serial reply)
  | size {parent : IndexList} {last : ModelIndex} {item : ItemData V} (ends : parent.getLast? = some last)
    (cached : s.m_rootItem.item? (rowsOf parent) = some item)
    (unknown : item.hasChildren ∧ item.rowCount = 0 ∧ last.column = 0) :
    QueueStep config s (.rowCount parent) (s.request (.size (toModelIndexList parent)) (.size (toModelIndexList parent)))
  | fetchPendingData {posted : List (Posted V)} (first : s.posted = .fetchPendingData :: posted) :
    QueueStep config s .processEvent (fetchPendingData { s with posted })
  | fetchPendingHeaderData {posted : List (Posted V)} (first : s.posted = .fetchPendingHeaderData :: posted) :
    QueueStep config s .processEvent (fetchPendingHeaderData { s with posted })
  | dropped {posted : List (Posted V)} {serial : Nat} {reply : Reply V} (first : s.posted = .finished serial reply :: posted)
    (gone : s.watcher? serial = none) : QueueStep config s .processEvent { s with posted }
  | finished {posted : List (Posted V)} {serial : Nat} {reply : Reply V} {watcher : Watcher}
    (handles : s.Handles serial reply watcher posted) : QueueStep config s .processEvent (release { s with posted } serial)
  | left {posted : List (Posted V)} {serial : Nat} {reply : Reply V} {start finish : IndexList} {roles : List Role}
    (handles : s.Handles serial reply (.row start finish roles) posted)
    (without : ∀ item, s.m_rootItem.item? (rowsOf start.dropLast) = some item → item.rowCount < 1 ∨ item.columnCount < 1) :
    QueueStep config s .processEvent { s with posted }

end Model

section Signals
variable {V : Type} {config : Config} {s t : Replica V}

theorem SameQueues.refl (s : Replica V) : SameQueues s s := ⟨rfl, rfl, rfl, rfl, rfl, rfl, rfl, rfl⟩

theorem clearRows_item {startColumn lastColumn : Nat} {roles : List Role} {rows : List Nat} {c d : CacheData V}
    (cleared : clearRows startColumn lastColumn roles rows c = .ok d) : d.item = c.item := by
  induction rows generalizing c with
  | nil =>
    cases cleared
    rfl
  | cons row rows ih =>
    rw [clearRows] at cleared
    split at cleared
    · split at cleared
      · exact ih cleared
      · obtain ⟨_, _, rest⟩ := bind_ok.mp cleared
        exact (ih rest).trans rfl
    · contradiction

theorem clearCache_ok {start finish : IndexList} {roles : List Role} {c d : CacheData V} {cleared : Bool}
    (clears : clearCache config start finish roles c = .ok (cleared, d)) :
    ∃ middle, Refreshes c middle ∧ (cleared = false ∧ d = middle ∨
      ∃ first last, start.getLast? = some first ∧ finish.getLast? = some last ∧
        middle.modify (clearRows first.column last.column roles (List.range' first.row (last.row + 1 - first.row)))
          (rowsOf start.dropLast) = .ok d) := by
  rw [clearCache] at clears
  split at clears
  · contradiction
  · obtain ⟨⟨startOk, first⟩, resolved, rest⟩ := bind_ok.mp clears
    have refreshed := Refreshes.toQModelIndex resolved
    dsimp only at rest
    split at rest
    · cases rest
      exact ⟨_, refreshed, .inl ⟨rfl, rfl⟩⟩
    · obtain ⟨⟨endOk, second⟩, resolved, rest⟩ := bind_ok.mp rest
      have refreshed := refreshed.trans (.toQModelIndex resolved)
      dsimp only at rest
      split at rest
      · cases rest
        exact ⟨_, refreshed, .inl ⟨rfl, rfl⟩⟩
      · split at rest
        · rename_i firstIndex lastIndex starts ends
          split at rest
          · obtain ⟨root, modified, same⟩ := bind_ok.mp rest
            cases same
            exact ⟨second, refreshed, .inr ⟨firstIndex, lastIndex, starts, ends, modified⟩⟩
          · contradiction
        · contradiction

theorem onDataChanged_ok {start finish : IndexList} {roles : List Role}
    (handled : s.onDataChanged config start finish roles = .ok t) :
    ∃ cleared middle root data, clearCache config start finish roles s.m_rootItem = .ok (cleared, middle) ∧ Refreshes middle root ∧
      (∀ request ∈ data, request.roles = roles) ∧ (t = s.setRoot root ∨
        t = post { s.setRoot root with m_requestedData := s.m_requestedData ++ data } .fetchPendingData) := by
  obtain ⟨⟨cleared, middle⟩, clears, rest⟩ := bind_ok.mp handled
  refine ⟨cleared, middle, ?_⟩
  dsimp only at rest
  split at rest
  · cases rest
    exact ⟨middle, [], clears, .refl _, nofun, .inl rfl⟩
  · obtain ⟨⟨startOk, first⟩, resolved, rest⟩ := bind_ok.mp rest
    have refreshed := Refreshes.toQModelIndex resolved
    dsimp only at rest
    split at rest
    · cases rest
      exact ⟨first, [], clears, refreshed, nofun, .inl rfl⟩
    · obtain ⟨⟨endOk, root⟩, resolved, rest⟩ := bind_ok.mp rest
      have refreshed := refreshed.trans (.toQModelIndex resolved)
      dsimp only at rest
      split at rest
      · cases rest
        exact ⟨root, [], clears, refreshed, nofun, .inl rfl⟩
      · split at rest
        · rename_i firstIndex lastIndex parentItem _ _ _
          have same := Except.ok.inj rest
          obtain none | some := Bool.eq_false_or_eq_true (cachedRanges parentItem.children.contains
            (List.range' firstIndex.row (lastIndex.row + 1 - firstIndex.row))).isEmpty
          · rw [if_pos none, List.isEmpty_iff.mp none, List.map_nil, List.append_nil] at same
            exact ⟨root, [], clears, refreshed, nofun, .inl same.symm⟩
          · rw [if_neg (ne_true_of_eq_false some)] at same
            refine ⟨root, _, clears, refreshed, fun request there => ?_, .inr same.symm⟩
            obtain ⟨_, _, rfl⟩ := List.mem_map.mp there
            rfl
        · contradiction

theorem onRowsInserted_ok {parent : IndexList} {start finish : Nat} (handled : s.onRowsInserted config parent start finish = .ok t) :
    ∃ ok middle, s.m_rootItem.resolve config.nodesCacheSize true true parent = .ok (ok, middle) ∧
      (ok = false ∧ t = s.setRoot middle ∨
        ok = true ∧ ∃ root, middle.modify (CacheData.insertChildren config.nodesCacheSize start finish) (rowsOf parent) = .ok root ∧
          t = (s.setRoot root).setHeader .vertical
            (s.m_headerData .vertical ++ List.replicate (finish + 1 - start) .empty)) := by
  obtain ⟨⟨ok, middle⟩, resolved, rest⟩ := bind_ok.mp handled
  refine ⟨ok, middle, resolved, ?_⟩
  dsimp only at rest
  split at rest
  · rename_i missing
    cases rest
    exact .inl ⟨by simpa using missing, rfl⟩
  · rename_i present
    obtain ⟨root, modified, same⟩ := bind_ok.mp rest
    cases same
    exact .inr ⟨by simpa using present, root, modified, rfl⟩

theorem onColumnsInserted_ok {parent : IndexList} {start finish : Nat}
    (handled : s.onColumnsInserted config parent start finish = .ok t) :
    ∃ ok middle, s.m_rootItem.toQModelIndex config.nodesCacheSize parent = .ok (ok, middle) ∧
      (ok = false ∧ t = s.setRoot middle ∨ ok = true ∧ ∃ item, middle.item? (rowsOf parent) = some item ∧
        (parent ≠ [] ∧ (middle.item? (rowsOf parent.dropLast)).map ItemData.columnCount = some item.columnCount ∧
            t = s.setRoot (middle.touch (rowsOf parent)) ∨
          (parent ≠ [] → (middle.item? (rowsOf parent.dropLast)).map ItemData.columnCount ≠ some item.columnCount) ∧
            ∃ root, (middle.touch (rowsOf parent)).modify (fun c => .ok { c with item := { c.item with
            columnCount := c.item.columnCount + (finish + 1 - start)
            hasChildren := c.item.hasChildren || c.children.cachedItems.length ≠ 0 } }) (rowsOf parent) = .ok root ∧
            t = (s.setRoot root).setHeader .horizontal
              (s.m_headerData .horizontal ++ List.replicate (finish + 1 - start) .empty))) := by
  obtain ⟨⟨ok, middle⟩, resolved, rest⟩ := bind_ok.mp handled
  refine ⟨ok, middle, resolved, ?_⟩
  dsimp only at rest
  split at rest
  · rename_i missing
    cases rest
    exact .inl ⟨by simpa using missing, rfl⟩
  · rename_i present
    split at rest
    · contradiction
    · rename_i parentItem found
      have cached : middle.item? (rowsOf parent) = some parentItem.item := by
        rw [← touch_item? (rowsOf parent), CacheData.item?, found]
        rfl
      refine .inr ⟨by simpa using present, parentItem.item, cached, ?_⟩
      rw [touch_item?] at rest
      split at rest
      · rename_i same
        cases rest
        exact .inl ⟨same.1, same.2, rfl⟩
      · rename_i differs
        obtain ⟨root, modified, same⟩ := bind_ok.mp rest
        cases same
        exact .inr ⟨fun nested equal => differs ⟨nested, equal⟩, root, modified, rfl⟩

theorem onRowsRemoved_ok {parent : IndexList} {start finish : Nat} (handled : s.onRowsRemoved config parent start finish = .ok t) :
    ∃ ok middle, s.m_rootItem.toQModelIndex config.nodesCacheSize parent = .ok (ok, middle) ∧
      (ok = false ∧ t = s.setRoot middle ∨
        ok = true ∧ ∃ root, middle.modifyCached (CacheData.removeChildren start finish) (rowsOf parent) = .ok root ∧
          finish < (s.m_headerData .vertical).length ∧
          t = (s.setRoot root).setHeader .vertical
            ((s.m_headerData .vertical).take start ++ (s.m_headerData .vertical).drop (finish + 1))) := by
  obtain ⟨⟨ok, middle⟩, resolved, rest⟩ := bind_ok.mp handled
  refine ⟨ok, middle, resolved, ?_⟩
  dsimp only at rest
  split at rest
  · rename_i missing
    cases rest
    exact .inl ⟨by simpa using missing, rfl⟩
  · rename_i present
    obtain ⟨root, removed, same⟩ := bind_ok.mp rest
    split at same
    · rename_i inside
      cases same
      exact .inr ⟨by simpa using present, root, removed, inside.2, rfl⟩
    · contradiction

theorem layoutParents_refreshes {list : IndexList} {indexes : List IndexList} {c d : CacheData V}
    (read : layoutParents config c list = .ok (indexes, d)) : Refreshes c d := by
  induction list generalizing c indexes with
  | nil =>
    cases read
    exact .refl _
  | cons index list ih =>
    obtain ⟨middle, valid, rest⟩ := bind_ok.mp read
    obtain ⟨⟨others, last⟩, later, same⟩ := bind_ok.mp rest
    cases same
    exact (Refreshes.validQModelIndex valid).trans (ih later)

theorem onLayoutChanged_ok {parents : IndexList} (handled : s.onLayoutChanged config parents = .ok t) :
    ∃ indexes root, layoutParents config s.m_rootItem parents = .ok (indexes, root) ∧
      t = (s.setRoot root).pendingRequest (.cache root.children.cacheSize config.m_initialFetchRolesHint) (.layout indexes) := by
  obtain ⟨⟨indexes, root⟩, read, same⟩ := bind_ok.mp handled
  cases same
  exact ⟨indexes, root, read, rfl⟩

theorem onSignal_queues {signal : Signal} (handled : s.onSignal config signal = .ok t) :
    ∃ u, QueueStep config s (.receive (.signal signal)) u ∧ SameQueues u t := by
  cases signal with
  | dataChanged start finish roles =>
    obtain ⟨_, _, root, data, _, _, asked, rfl | rfl⟩ := onDataChanged_ok handled
    · exact ⟨s, .still _, ⟨rfl, rfl, rfl, rfl, rfl, rfl, rfl, rfl⟩⟩
    · exact ⟨_, .fetch asked, ⟨rfl, rfl, rfl, rfl, rfl, rfl, rfl, rfl⟩⟩
  | rowsInserted parent start finish =>
    obtain ⟨_, _, _, ⟨_, rfl⟩ | ⟨_, _, _, rfl⟩⟩ := onRowsInserted_ok handled
    all_goals exact ⟨s, .still _, ⟨rfl, rfl, rfl, rfl, rfl, rfl, rfl, rfl⟩⟩
  | rowsRemoved parent start finish =>
    obtain ⟨_, _, _, ⟨_, rfl⟩ | ⟨_, _, _, _, rfl⟩⟩ := onRowsRemoved_ok handled
    all_goals exact ⟨s, .still _, ⟨rfl, rfl, rfl, rfl, rfl, rfl, rfl, rfl⟩⟩
  | columnsInserted parent start finish =>
    obtain ⟨_, _, _, ⟨_, rfl⟩ | ⟨_, _, _, ⟨_, _, rfl⟩ | ⟨_, _, _, rfl⟩⟩⟩ := onColumnsInserted_ok handled
    all_goals exact ⟨s, .still _, ⟨rfl, rfl, rfl, rfl, rfl, rfl, rfl, rfl⟩⟩
  | headerDataChanged orientation first last =>
    cases handled
    exact ⟨s, .still _, ⟨rfl, rfl, rfl, rfl, rfl, rfl, rfl, rfl⟩⟩
  | modelReset =>
    cases handled
    rw [onModelReset]
    split
    · rename_i done
      exact ⟨_, .reset done, .refl _⟩
    · exact ⟨s, .still _, .refl _⟩
  | layoutChanged parents =>
    obtain ⟨indexes, root, _, rfl⟩ := onLayoutChanged_ok handled
    exact ⟨_, .layout parents _ indexes, ⟨rfl, rfl, rfl, rfl, rfl, rfl, rfl, rfl⟩⟩

end Signals

section Replies
variable {V : Type} {config : Config} {s t : Replica V} {serial : Nat}

/-- The size in the reply for all of the model, and what is cached behind it. -/
inductive Fetched (config : Config) (m_rootItem : CacheData V) : Reply V → Size → CacheData V → Prop
  | rootSize (size : Size) (action : config.m_initialAction = .fetchRootSize) :
    Fetched config m_rootItem (.size size) size (resetRoot size m_rootItem)
  | prefetch {entries : MetaAndDataEntries V} {root : CacheData V} (action : config.m_initialAction = .prefetchData)
    (filled : CacheData.fillCaches config.nodesCacheSize entries.roles entries.data (resetRoot entries.size m_rootItem) = .ok root) :
    Fetched config m_rootItem (.cache entries) entries.size root

@[simp] theorem resizeHeader_length (entries : List (CacheEntry V)) (size : Nat) : (resizeHeader entries size).length = size := by
  rw [resizeHeader, List.length_map, List.takeD_length]

theorem handleModelResetDone_ok {reply : Reply V} (handled : s.handleModelResetDone config serial reply = .ok t) :
    ∃ size root, Fetched config s.m_rootItem reply size root ∧
      t = (((s.setRoot root).setHeader .horizontal (resizeHeader (s.m_headerData .horizontal) size.width)).setHeader
        .vertical (resizeHeader (s.m_headerData .vertical) size.height)).release serial := by
  unfold handleModelResetDone at handled
  cases action : config.m_initialAction with
  | fetchRootSize =>
    cases reply with
    | size size =>
      simp only [action] at handled
      cases handled
      exact ⟨size, _, .rootSize size action, rfl⟩
    | entries | header | cache =>
      simp only [action] at handled
      contradiction
  | prefetchData =>
    cases reply with
    | cache entries =>
      simp only [action] at handled
      obtain ⟨root, filled, same⟩ := bind_ok.mp handled
      cases same
      unfold prefetched at filled
      simp only [action] at filled
      exact ⟨_, root, .prefetch action filled, rfl⟩
    | size | entries | header =>
      simp only [action] at handled
      contradiction

theorem handleInitDone_ok {reply : Reply V} (handled : s.handleInitDone config serial reply = .ok t) :
    ∃ u, s.handleModelResetDone config serial reply = .ok u ∧ t = { u with m_initDone := true } := by
  obtain ⟨u, done, same⟩ := bind_ok.mp handled
  cases same
  exact ⟨u, done, rfl⟩

theorem handleSizeDone_ok {parentList : IndexList} {size : Size} (handled : s.handleSizeDone config serial parentList size = .ok t) :
    ∃ middle root, Refreshes s.m_rootItem middle ∧
      middle.modify (CacheData.mapItem (sizeDone size)) (rowsOf parentList) = .ok root ∧ t = (s.setRoot root).release serial := by
  obtain ⟨first, resolved, rest⟩ := bind_ok.mp handled
  obtain ⟨second, again, rest⟩ := bind_ok.mp rest
  split at rest
  · contradiction
  · obtain ⟨root, modified, same⟩ := bind_ok.mp rest
    cases same
    exact ⟨second, root, (Refreshes.validQModelIndex resolved).trans ((Refreshes.touch _ _).trans (.validQModelIndex again)),
      modified, rfl⟩

theorem requestedData_ok {start finish : IndexList} {roles : List Role} {entries : List (IndexValuePair V)}
    (handled : s.requestedData config serial start finish roles entries = .ok t) :
    ∃ middle item, s.m_rootItem.validQModelIndex config.nodesCacheSize start.dropLast = .ok middle ∧
      middle.item? (rowsOf start.dropLast) = some item ∧
      ((item.rowCount < 1 ∨ item.columnCount < 1) ∧ t = s.setRoot (middle.touch (rowsOf start.dropLast)) ∨
        ∃ filled root, entries.foldlM (fun m_rootItem pair => m_rootItem.fillWith config.nodesCacheSize pair roles id)
            (middle.touch (rowsOf start.dropLast)) = .ok filled ∧ Refreshes filled root ∧ t = (s.setRoot root).release serial) := by
  rw [requestedData] at handled
  split at handled
  · contradiction
  · split at handled
    · obtain ⟨middle, resolved, rest⟩ := bind_ok.mp handled
      dsimp only at rest
      rw [touch_item?] at rest
      split at rest
      · contradiction
      · rename_i item found
        refine ⟨middle, item, resolved, found, ?_⟩
        split at rest
        · rename_i without
          cases rest
          exact .inl ⟨without, rfl⟩
        · obtain ⟨filled, fill, rest⟩ := bind_ok.mp rest
          obtain ⟨first, valid, rest⟩ := bind_ok.mp rest
          obtain ⟨⟨startValid, second⟩, started, rest⟩ := bind_ok.mp rest
          obtain ⟨⟨endValid, last⟩, ended, rest⟩ := bind_ok.mp rest
          dsimp only at rest
          split at rest
          · cases rest
            exact .inr ⟨filled, last, fill,
              (Refreshes.validQModelIndex valid).trans ((Refreshes.toQModelIndex started).trans (.toQModelIndex ended)), rfl⟩
          · contradiction
    · contradiction

theorem fillHeader_ok {cells : List (Orientation × Nat × Role × V)} (filled : fillHeader cells s = .ok t) :
    ∃ m_headerData, t = { s with m_headerData } ∧
      ∀ orientation, (m_headerData orientation).length = (s.m_headerData orientation).length := by
  induction cells generalizing s with
  | nil =>
    cases filled
    exact ⟨_, rfl, fun _ => rfl⟩
  | cons cell cells ih =>
    obtain ⟨orientation, position, role, value⟩ := cell
    rw [fillHeader] at filled
    split at filled
    · contradiction
    · obtain ⟨m_headerData, same, lengths⟩ := ih filled
      refine ⟨m_headerData, same, fun other => (lengths other).trans ?_⟩
      by_cases here : other = orientation
      · subst here
        simp [setHeader]
      · simp [setHeader, here]

theorem requestedHeaderData_ok {orientations : List Orientation} {sections : List Nat} {roles : List Role} {data : List V}
    (handled : s.requestedHeaderData serial orientations sections roles data = .ok t) :
    ∃ m_headerData, t = release { s with m_headerData } serial ∧
      ∀ orientation, (m_headerData orientation).length = (s.m_headerData orientation).length := by
  rw [requestedHeaderData] at handled
  split at handled
  · obtain ⟨u, filled, same⟩ := bind_ok.mp handled
    cases same
    obtain ⟨m_headerData, rfl, lengths⟩ := fillHeader_ok filled
    exact ⟨m_headerData, rfl, lengths⟩
  · contradiction

theorem layoutDone_ok {entries : MetaAndDataEntries V} (handled : s.layoutDone config serial entries = .ok t) :
    ∃ root, prefetched config entries (resetRoot entries.size s.m_rootItem) = .ok root ∧ t = (s.setRoot root).release serial := by
  obtain ⟨root, filled, same⟩ := bind_ok.mp handled
  cases same
  exact ⟨root, filled, rfl⟩

/-- The watcher is released, but for a row reply that comes without rows or columns. -/
theorem onFinished_queues {watcher : Watcher} {reply : Reply V} (handled : s.onFinished config serial watcher reply = .ok t) :
    (∃ u, SameQueues s u ∧ t = u.release serial) ∨
      ∃ start finish roles, watcher = .row start finish roles ∧ SameQueues s t ∧
        ∀ item, s.m_rootItem.item? (rowsOf start.dropLast) = some item → item.rowCount < 1 ∨ item.columnCount < 1 := by
  have reset : ∀ {u}, s.handleModelResetDone config serial reply = .ok u → ∃ middle, SameQueues s middle ∧ u = middle.release serial := by
    intro u done
    obtain ⟨_, _, _, rfl⟩ := handleModelResetDone_ok done
    refine ⟨_, ?_, rfl⟩
    exact ⟨rfl, rfl, rfl, rfl, rfl, rfl, rfl, rfl⟩
  cases watcher with
  | init =>
    obtain ⟨u, done, rfl⟩ := handleInitDone_ok handled
    obtain ⟨middle, same, rfl⟩ := reset done
    exact .inl ⟨{ middle with m_initDone := true }, ⟨same.1, same.2, same.3, same.4, same.5, same.6, same.7, same.8⟩, rfl⟩
  | reset => exact .inl (reset handled)
  | size parentList =>
    cases reply with
    | size size =>
      obtain ⟨_, root, _, _, rfl⟩ := handleSizeDone_ok handled
      exact .inl ⟨s.setRoot root, ⟨rfl, rfl, rfl, rfl, rfl, rfl, rfl, rfl⟩, rfl⟩
    | entries | header | cache => contradiction
  | row start finish roles =>
    cases reply with
    | entries entries =>
      obtain ⟨middle, item, resolved, found, ⟨without, rfl⟩ | ⟨_, root, _, _, rfl⟩⟩ := requestedData_ok handled
      · refine .inr ⟨start, finish, roles, rfl, ⟨rfl, rfl, rfl, rfl, rfl, rfl, rfl, rfl⟩, fun other cached => ?_⟩
        have kept := resolve_keeps (validQModelIndex_ok.mp resolved) cached
        obtain rfl := Option.some.inj (found.symm.trans kept)
        exact without
      · exact .inl ⟨s.setRoot root, ⟨rfl, rfl, rfl, rfl, rfl, rfl, rfl, rfl⟩, rfl⟩
    | size | header | cache => contradiction
  | header orientations sections roles =>
    cases reply with
    | header data =>
      obtain ⟨m_headerData, rfl, _⟩ := requestedHeaderData_ok handled
      exact .inl ⟨{ s with m_headerData }, ⟨rfl, rfl, rfl, rfl, rfl, rfl, rfl, rfl⟩, rfl⟩
    | size | entries | cache => contradiction
  | layout indexes =>
    cases reply with
    | cache entries =>
      obtain ⟨root, _, rfl⟩ := layoutDone_ok handled
      exact .inl ⟨s.setRoot root, ⟨rfl, rfl, rfl, rfl, rfl, rfl, rfl, rfl⟩, rfl⟩
    | size | entries | header => contradiction

theorem Handles.unique {number : Nat} {reply other : Reply V} {watcher found : Watcher} {posted rest : List (Posted V)}
    (handles : s.Handles serial reply watcher posted) (again : s.Handles number other found rest) :
    other = reply ∧ found = watcher := by
  have same := handles.first.symm.trans again.first
  rw [List.cons.injEq, Posted.finished.injEq] at same
  obtain ⟨⟨rfl, rfl⟩, _⟩ := same
  exact ⟨rfl, Option.some.inj (again.watcher.symm.trans handles.watcher)⟩

theorem processEvent_handles {reply : Reply V} {watcher : Watcher} {posted : List (Posted V)}
    (handles : s.Handles serial reply watcher posted) :
    s.processEvent config = onFinished config { s with posted } serial watcher reply := by
  have here : watcher? { s with posted } serial = some watcher := handles.watcher
  rw [processEvent, handles.first]
  dsimp only
  rw [here]

theorem processEvent_queues (handled : s.processEvent config = .ok t) :
    ∃ u, QueueStep config s .processEvent u ∧ SameQueues u t := by
  rw [processEvent] at handled
  split at handled
  · cases handled
    exact ⟨s, .still _, .refl _⟩
  · rename_i event posted first
    dsimp only at handled
    split at handled
    · cases handled
      exact ⟨_, .fetchPendingData first, .refl _⟩
    · cases handled
      exact ⟨_, .fetchPendingHeaderData first, .refl _⟩
    · split at handled
      · rename_i gone
        cases handled
        exact ⟨_, .dropped first gone, .refl _⟩
      · rename_i watcher here
        obtain ⟨u, same, rfl⟩ | ⟨start, finish, roles, rfl, same, without⟩ := onFinished_queues handled
        · refine ⟨_, .finished ⟨first, here⟩, ?_⟩
          obtain ⟨data, headerData, pending, watchers, posted, sent, calls, serial⟩ := same
          constructor <;> simp only [release, deleteWatcher, *]
        · exact ⟨_, .left ⟨first, here⟩ without, same⟩

end Replies

section Steps
variable {V : Type} {config : Config} {s t : Replica V}

theorem multiData_ok {index : IndexList} {roles : List Role} (handled : s.multiData config index roles = .ok t) :
    ∃ root data, Refreshes s.m_rootItem root ∧ (∀ role ∈ data.roles, role ∈ config.availableRoles) ∧
      (t = s.setRoot root ∨ t = post { s.setRoot root with m_requestedData := s.m_requestedData ++ [data] } .fetchPendingData) := by
  obtain ⟨⟨ok, middle⟩, resolved, rest⟩ := bind_ok.mp handled
  have refreshed := Refreshes.toQModelIndex resolved
  dsimp only at rest
  split at rest
  · rename_i last _ _
    split at rest
    · cases rest
      exact ⟨_, ⟨[], [], []⟩, refreshed.trans (.touch _ _), nofun, .inl rfl⟩
    · split at rest
      · contradiction
      · obtain ⟨root, valid, same⟩ := bind_ok.mp rest
        cases same
        refine ⟨root, _, refreshed.trans ((Refreshes.touch _ _).trans (.validQModelIndex valid)), fun role there => ?_, .inr rfl⟩
        have available := (List.mem_filter.mp there).2
        rw [Bool.and_eq_true, List.contains_iff_mem] at available
        exact available.1
  · cases rest
    exact ⟨middle, ⟨[], [], []⟩, refreshed, nofun, .inl rfl⟩

theorem rowCount_ok {parent : IndexList} (handled : s.rowCount config parent = .ok t) :
    ∃ root, Refreshes s.m_rootItem root ∧ (t = s.setRoot root ∨
      (∃ last item, parent.getLast? = some last ∧ s.m_rootItem.item? (rowsOf parent) = some item ∧
          item.hasChildren ∧ item.rowCount = 0 ∧ last.column = 0) ∧
        t = (s.setRoot root).request (.size (toModelIndexList parent)) (.size (toModelIndexList parent))) := by
  obtain ⟨⟨ok, middle⟩, resolved, rest⟩ := bind_ok.mp handled
  have refreshed := Refreshes.toQModelIndex resolved
  refine ⟨_, refreshed.trans (.touch (rowsOf parent) middle), ?_⟩
  dsimp only at rest
  split at rest
  · rename_i last item ends found
    split at rest
    · rename_i unknown
      cases rest
      refine .inr ⟨⟨last, item, ends, ?_, unknown⟩, rfl⟩
      obtain before | ⟨_, rfl⟩ := refreshed.below found
      · exact before
      · exact absurd unknown.1 (by simp [ItemData.empty])
    · cases rest
      exact .inl rfl
  · cases rest
    exact .inl rfl

theorem headerData_ok (s : Replica V) (position : Nat) (orientation : Orientation) (role : Role) :
    s.headerData position orientation role = s ∨ ∃ data, s.headerData position orientation role =
      post { s with m_requestedHeaderData := s.m_requestedHeaderData ++ [data] } .fetchPendingHeaderData := by
  rw [headerData]
  split
  · exact .inl rfl
  · split
    · exact .inl rfl
    · exact .inr ⟨_, rfl⟩

/-- What an event makes of the queues, whatever it does to the caches. -/
theorem handle_queues {e : ReplicaEvent V} (handled : s.handle config e = .ok t) :
    ∃ u, QueueStep config s e u ∧ SameQueues u t := by
  cases e with
  | receive packet =>
    cases packet with
    | signal signal => exact onSignal_queues handled
    | reply serial reply =>
      cases handled
      exact ⟨_, .reply serial reply, .refl _⟩
  | processEvent => exact processEvent_queues handled
  | multiData index roles =>
    obtain ⟨root, data, _, available, rfl | rfl⟩ := multiData_ok handled
    · exact ⟨s, .still _, ⟨rfl, rfl, rfl, rfl, rfl, rfl, rfl, rfl⟩⟩
    · exact ⟨_, .fetch (List.forall_mem_singleton.mpr available), ⟨rfl, rfl, rfl, rfl, rfl, rfl, rfl, rfl⟩⟩
  | rowCount parent =>
    obtain ⟨root, _, rfl | ⟨⟨last, item, ends, cached, unknown⟩, rfl⟩⟩ := rowCount_ok handled
    · exact ⟨s, .still _, ⟨rfl, rfl, rfl, rfl, rfl, rfl, rfl, rfl⟩⟩
    · exact ⟨_, .size ends cached unknown, ⟨rfl, rfl, rfl, rfl, rfl, rfl, rfl, rfl⟩⟩
  | headerData position orientation role =>
    cases handled
    obtain same | ⟨data, same⟩ := headerData_ok s position orientation role
    · rw [same]
      exact ⟨s, .still _, .refl _⟩
    · rw [same]
      exact ⟨_, .fetchHeader _ data, .refl _⟩

end Steps

section Queues
variable {V : Type} {s : Replica V}

theorem notifyAboutReply_cases (s : Replica V) (serial : Nat) (reply : Reply V) :
    s.notifyAboutReply serial reply = s ∨
      s.watcher? serial = none ∧
        s.notifyAboutReply serial reply = { s with m_pendingCalls := s.m_pendingCalls.filter (· ≠ serial) } ∨
      (s.watcher? serial).isSome ∧ serial ∈ s.m_pendingCalls ∧ s.notifyAboutReply serial reply =
        post { s with m_pendingCalls := s.m_pendingCalls.filter (· ≠ serial) } (.finished serial reply) := by
  rw [notifyAboutReply]
  split
  · rename_i called
    right
    cases found : s.watcher? serial with
    | none =>
      left
      refine ⟨rfl, if_neg ?_⟩
      show ¬ (s.watcher? serial).isSome
      simp [found]
    | some watcher =>
      right
      refine ⟨rfl, called, if_pos ?_⟩
      show (s.watcher? serial).isSome
      simp [found]
  · exact .inl rfl

/-- Watchers are deleted one after the other. -/
theorem deleteWatchers_eq (serials : List Nat) (s : Replica V) : serials.foldl deleteWatcher s =
    { s with
      watchers := s.watchers.filter fun watcher => watcher.1 ∉ serials
      posted := s.posted.filter fun event => serials.all fun serial => !event.of serial } := by
  induction serials generalizing s with
  | nil => simp
  | cons serial serials ih =>
    rw [List.foldl_cons, ih, deleteWatcher]
    simp only [List.filter_filter, List.mem_cons, not_or, Bool.decide_and, List.all_cons, Bool.and_comm]

theorem doModelReset_cache (config : Config) (s : Replica V) (watcher : Watcher) :
    (s.doModelReset config watcher).m_rootItem = s.m_rootItem ∧ (s.doModelReset config watcher).m_headerData = s.m_headerData ∧
      (s.doModelReset config watcher).m_initDone = s.m_initDone := by
  rw [doModelReset, deleteWatchers_eq]
  exact ⟨rfl, rfl, rfl⟩

/-- What each request keeps, the requests of a fetch keep. -/
theorem fetchPendingData_keeps {P : Replica V → Prop} (cleared : P { s with m_requestedData := [] })
    (each : ∀ {t : Replica V} {start finish roles}, (∀ role ∈ roles, ∃ data ∈ s.m_requestedData, role ∈ data.roles) → P t →
      P (t.pendingRequest (.row start finish roles) (.row start finish roles)))
    (good : P s) : P s.fetchPendingData := by
  by_cases queued : s.m_requestedData = []
  · rw [fetchPendingData, queued]
    exact good
  · rw [fetchPendingData_final s queued]
    have roles : ∀ data ∈ (finalRequests s.m_requestedData).reverse, ∀ role ∈ data.roles,
        ∃ data ∈ s.m_requestedData, role ∈ data.roles :=
      fun data there role asked => finalRequests_roles (List.mem_reverse.mp there) asked
    generalize (finalRequests s.m_requestedData).reverse = requests at roles
    generalize 0 = rows
    generalize { s with m_requestedData := [] } = t at cleared
    induction requests generalizing t rows with
    | nil => exact cleared
    | cons data requests ih =>
      obtain ⟨here, later⟩ := List.forall_mem_cons.mp roles
      rw [sendRequests]
      split
      · exact ih later _ _ (each here cleared)
      · exact cleared

end Queues
end Replica
end RemoteObjects.ItemModel
