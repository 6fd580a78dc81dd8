import RemoteObjects.Transition
import RemoteObjects.ItemModel.Handlers

/-! The list of pending requests over a run of the replica, and replies from before a reset. -/
namespace RemoteObjects.ItemModel
open Transition
namespace Replica

section Statement
variable {V : Type} (config : Config)

/-- A watcher waits for the reply, which is under way or posted. -/
def Outstanding (s : Replica V) (serial : Nat) : Prop :=
  (s.watcher? serial).isSome ∧ (serial ∈ s.m_pendingCalls ∨ ∃ reply, .finished serial reply ∈ s.posted)

def PendingExact (s : Replica V) : Prop := ∀ serial, serial ∈ s.m_pendingRequests ↔ s.Outstanding serial

/-- The next event of the queue is a reply that is applied. -/
def AppliesNext (s : Replica V) (serial : Nat) : Prop :=
  ∃ reply watcher posted, s.Handles serial reply watcher posted

/-- Behind a reset, the replies that are applied are those of requests sent by it or later. -/
def ResetCancels (s : Replica V) : Prop :=
  s.m_initDone → ∀ later t, exec (step config) s (.receive (.signal .modelReset) :: later) = some t →
    ∀ serial, t.AppliesNext serial → s.serial ≤ serial

def TracksPendingRequests (V : Type) (rootCacheSize : Nat) : Prop :=
  ∀ es (s : Replica V), exec (step config) ((initial rootCacheSize).init config) es = some s →
    s.PendingExact ∧ s.ResetCancels config

/-- No size is asked for by `rowCount`, and the parent of a row reply has rows and columns. -/
def Counted (s : Replica V) : ReplicaEvent V → Prop
  | .rowCount parent => ∀ last item, parent.getLast? = some last → s.m_rootItem.item? (rowsOf parent) = some item →
      ¬ (item.hasChildren ∧ item.rowCount = 0 ∧ last.column = 0)
  | .processEvent => ∀ serial reply start finish roles posted, s.Handles serial reply (.row start finish roles) posted →
      ∃ item, s.m_rootItem.item? (rowsOf start.dropLast) = some item ∧ 1 ≤ item.rowCount ∧ 1 ≤ item.columnCount
  | _ => True

end Statement

section Invariant
variable {V : Type} {config : Config} {s t : Replica V} {e : ReplicaEvent V}

theorem step_handle (head : s.step config e = some t) : s.handle config e = .ok t := by
  rw [step] at head
  cases handled : s.handle config e with
  | ok u => rw [handled] at head; exact congrArg _ (Option.some.inj head)
  | error failure => rw [handled] at head; contradiction

theorem watcher?_isSome {serial : Nat} : (s.watcher? serial).isSome ↔ serial ∈ s.watchers.map Prod.fst := by
  rw [watcher?, Option.isSome_map, List.find?_isSome, List.mem_map]
  simp only [decide_eq_true_eq]

theorem watcher?_mem {serial : Nat} {watcher : Watcher} (found : s.watcher? serial = some watcher) : (serial, watcher) ∈ s.watchers := by
  obtain ⟨entry, there, rfl⟩ := Option.map_eq_some_iff.mp found
  have same := List.find?_some there
  rw [decide_eq_true_eq] at same
  rw [← same]
  exact List.mem_of_find?_eq_some there

/-- But for the slots of signals and the handlers of replies, a step only refreshes what is cached. -/
theorem step_root (head : s.step config e = some t) (other : ∀ signal, e ≠ .receive (.signal signal)) :
    (Refreshes s.m_rootItem t.m_rootItem ∧ t.m_headerData = s.m_headerData ∧ t.m_initDone = s.m_initDone) ∨
      ∃ serial reply watcher posted, e = .processEvent ∧ s.Handles serial reply watcher posted ∧
        onFinished config { s with posted } serial watcher reply = .ok t := by
  have handled := step_handle head
  cases e with
  | receive packet =>
    cases packet with
    | signal signal => exact absurd rfl (other signal)
    | reply serial reply =>
      cases handled
      left
      obtain same | ⟨_, same⟩ | ⟨_, _, same⟩ := s.notifyAboutReply_cases serial reply
      all_goals
        rw [same]
        exact ⟨.refl _, rfl, rfl⟩
  | processEvent =>
    replace handled : s.processEvent config = .ok t := handled
    rw [processEvent] at handled
    split at handled
    · cases handled
      exact .inl ⟨.refl _, rfl, rfl⟩
    · rename_i event posted first
      dsimp only at handled
      split at handled
      · cases handled
        refine .inl (fetchPendingData_keeps (P := fun t => Refreshes s.m_rootItem t.m_rootItem ∧
          t.m_headerData = s.m_headerData ∧ t.m_initDone = s.m_initDone) ?_ (fun _ good => good) ?_)
        all_goals exact ⟨.refl _, rfl, rfl⟩
      · cases handled
        exact .inl ⟨.refl _, rfl, rfl⟩
      · split at handled
        · cases handled
          exact .inl ⟨.refl _, rfl, rfl⟩
        · rename_i watcher here
          exact .inr ⟨_, _, watcher, posted, rfl, ⟨first, here⟩, handled⟩
  | multiData index roles =>
    obtain ⟨root, data, refreshed, _, rfl | rfl⟩ := multiData_ok handled
    all_goals exact .inl ⟨refreshed, rfl, rfl⟩
  | rowCount parent =>
    obtain ⟨root, refreshed, rfl | ⟨_, rfl⟩⟩ := rowCount_ok handled
    all_goals exact .inl ⟨refreshed, rfl, rfl⟩
  | headerData position orientation role =>
    cases handled
    left
    obtain same | ⟨data, same⟩ := headerData_ok s position orientation role
    all_goals
      rw [same]
      exact ⟨.refl _, rfl, rfl⟩

/-- The watchers are those of pending requests, and these are outstanding. -/
structure Tracked (s : Replica V) : Prop where
  pending : s.m_pendingRequests = s.watchers.map Prod.fst
  awaited : ∀ serial ∈ s.m_pendingRequests, serial ∈ s.m_pendingCalls ∨ ∃ reply, .finished serial reply ∈ s.posted

theorem Tracked.same (tracked : Tracked s) (same : SameQueues s t) : Tracked t where
  pending := by rw [same.m_pendingRequests, same.watchers, tracked.pending]
  awaited := by rw [same.m_pendingRequests, same.m_pendingCalls, same.posted]; exact tracked.awaited

theorem Tracked.exact (tracked : Tracked s) : s.PendingExact := by
  intro serial
  rw [Outstanding, watcher?_isSome, ← tracked.pending]
  exact ⟨fun there => ⟨there, tracked.awaited serial there⟩, And.left⟩

theorem Tracked.post (tracked : Tracked s) (event : Posted V) : Tracked (s.post event) where
  pending := tracked.pending
  awaited serial there := by
    obtain called | ⟨reply, posted⟩ := tracked.awaited serial there
    · exact .inl called
    · exact .inr ⟨reply, List.mem_append_left _ posted⟩

theorem Tracked.pendingRequest (tracked : Tracked s) (call : Request V) (watcher : Watcher) :
    Tracked (s.pendingRequest call watcher) where
  pending := by
    show s.m_pendingRequests ++ [s.serial] = (s.watchers ++ [(s.serial, watcher)]).map Prod.fst
    rw [tracked.pending, List.map_append]
    rfl
  awaited serial there := by
    obtain old | new := List.mem_append.mp there
    · exact (tracked.awaited serial old).imp_left fun called => List.mem_append_left _ called
    · exact .inl (List.mem_append_right _ new)

/-- The events posted besides replies are of no interest. -/
theorem Tracked.behind {event : Posted V} {posted : List (Posted V)} (tracked : Tracked s) (first : s.posted = event :: posted)
    (other : ∀ serial reply, event = .finished serial reply → serial ∉ s.m_pendingRequests) : Tracked { s with posted } where
  pending := tracked.pending
  awaited serial there := by
    obtain called | ⟨reply, within⟩ := tracked.awaited serial there
    · exact .inl called
    · rw [first] at within
      obtain rfl | later := List.mem_cons.mp within
      · exact absurd there (other serial reply rfl)
      · exact .inr ⟨reply, later⟩

/-- The reply of a watcher is taken from the queue, and the watcher is released. -/
theorem Tracked.release {serial : Nat} {reply : Reply V} {posted : List (Posted V)} (tracked : Tracked s)
    (first : s.posted = .finished serial reply :: posted) : Tracked (release { s with posted } serial) where
  pending := by
    show s.m_pendingRequests.filter (· ≠ serial) = (s.watchers.filter fun watcher => watcher.1 ≠ serial).map Prod.fst
    rw [tracked.pending, List.filter_map]
    rfl
  awaited other there := by
    obtain ⟨listed, differs⟩ := List.mem_filter.mp there
    have differs : other ≠ serial := of_decide_eq_true differs
    obtain called | ⟨reply, within⟩ := tracked.awaited other listed
    · exact .inl called
    · rw [first] at within
      obtain same | later := List.mem_cons.mp within
      · exact absurd (Posted.finished.inj same).1 differs
      · exact .inr ⟨reply, List.mem_filter.mpr ⟨later, by simp [Posted.of, differs]⟩⟩

/-- What a reset leaves of tracked watchers: none. -/
theorem Tracked.cancelled (tracked : Tracked s) :
    { s.m_pendingRequests.foldl deleteWatcher s with m_pendingRequests := [] }.watchers = [] := by
  rw [deleteWatchers_eq]
  show s.watchers.filter _ = []
  rw [List.filter_eq_nil_iff]
  intro watcher there
  rw [tracked.pending, decide_eq_true_eq, not_not]
  exact List.mem_map_of_mem there

theorem Tracked.doModelReset (tracked : Tracked s) (watcher : Watcher) : Tracked (s.doModelReset config watcher) := by
  apply Tracked.pendingRequest
  exact ⟨by rw [tracked.cancelled]; rfl, nofun⟩

theorem Tracked.notify (tracked : Tracked s) (serial : Nat) (reply : Reply V) : Tracked (s.notifyAboutReply serial reply) := by
  obtain same | ⟨gone, same⟩ | ⟨_, _, same⟩ := s.notifyAboutReply_cases serial reply
  · rw [same]
    exact tracked
  · rw [same]
    refine ⟨tracked.pending, fun other there => (tracked.awaited other there).imp_left fun called => ?_⟩
    refine List.mem_filter.mpr ⟨called, decide_eq_true fun equal => ?_⟩
    rw [tracked.pending, ← watcher?_isSome, equal, gone] at there
    contradiction
  · rw [same]
    refine ⟨tracked.pending, fun other there => ?_⟩
    by_cases equal : other = serial
    · exact .inr ⟨reply, List.mem_append_right _ (List.mem_singleton.mpr (congrArg (Posted.finished · reply) equal))⟩
    · refine (tracked.awaited other there).imp (fun called => ?_) fun ⟨reply, posted⟩ => ⟨reply, List.mem_append_left _ posted⟩
      exact List.mem_filter.mpr ⟨called, decide_eq_true equal⟩

theorem tracked_step (tracked : Tracked s) (counted : s.Counted e) (head : s.step config e = some t) : Tracked t := by
  obtain ⟨u, queued, same⟩ := handle_queues (step_handle head)
  refine Tracked.same ?_ same
  have taken : ∀ {posted event}, s.posted = event :: posted → (∀ serial reply, event ≠ .finished serial reply) →
      Tracked { s with posted } :=
    fun first other => tracked.behind first fun serial reply equal => absurd equal (other serial reply)
  cases queued with
  | still => exact tracked
  | fetch | fetchHeader =>
    apply Tracked.post
    exact ⟨tracked.pending, tracked.awaited⟩
  | reset done => exact tracked.doModelReset _
  | layout parents size indexes => exact tracked.pendingRequest _ _
  | reply serial reply => exact tracked.notify serial reply
  | size ends cached unknown => exact absurd unknown (counted _ _ ends cached)
  | fetchPendingData first =>
    have rest := taken first nofun
    exact fetchPendingData_keeps ⟨rest.pending, rest.awaited⟩ (fun _ good => good.pendingRequest _ _) rest
  | fetchPendingHeaderData first =>
    have rest := taken first nofun
    apply Tracked.pendingRequest
    exact ⟨rest.pending, rest.awaited⟩
  | dropped first gone =>
    refine tracked.behind first fun serial reply equal there => ?_
    rw [tracked.pending, ← watcher?_isSome, ← (Posted.finished.inj equal).1, gone] at there
    contradiction
  | finished handles => exact tracked.release handles.first
  | left handles without =>
    obtain ⟨item, cached, rows, columns⟩ := counted _ _ _ _ _ _ handles
    have := without item cached
    omega

/-- The watchers are those of requests from a number on. -/
structure Later (serial : Nat) (s : Replica V) : Prop where
  next : serial ≤ s.serial
  watchers : ∀ watcher ∈ s.watchers, serial ≤ watcher.1

theorem Later.same {serial : Nat} (later : Later serial s) (same : SameQueues s t) : Later serial t where
  next := by rw [same.serial]; exact later.next
  watchers := by rw [same.watchers]; exact later.watchers

theorem Later.request {serial : Nat} (later : Later serial s) (call : Request V) (watcher : Watcher) :
    Later serial (s.request call watcher) where
  next := Nat.le_succ_of_le later.next
  watchers other there := by
    obtain old | new := List.mem_append.mp there
    · exact later.watchers other old
    · rw [List.mem_singleton.mp new]
      exact later.next

theorem Later.pendingRequest {serial : Nat} (later : Later serial s) (call : Request V) (watcher : Watcher) :
    Later serial (s.pendingRequest call watcher) := ⟨(later.request call watcher).next, (later.request call watcher).watchers⟩

theorem later_step {serial : Nat} (later : Later serial s) (head : s.step config e = some t) : Later serial t := by
  obtain ⟨u, queued, same⟩ := handle_queues (step_handle head)
  refine Later.same ?_ same
  cases queued with
  | still | fetch | fetchHeader | dropped | left => exact ⟨later.next, later.watchers⟩
  | reset done =>
    apply Later.pendingRequest
    rw [deleteWatchers_eq]
    exact ⟨later.next, fun watcher there => later.watchers watcher (List.mem_of_mem_filter there)⟩
  | layout parents size indexes => exact later.pendingRequest _ _
  | reply number reply =>
    obtain same | ⟨_, same⟩ | ⟨_, _, same⟩ := s.notifyAboutReply_cases number reply
    all_goals
      rw [same]
      exact ⟨later.next, later.watchers⟩
  | size ends cached unknown => exact later.request _ _
  | fetchPendingData first =>
    exact fetchPendingData_keeps ⟨later.next, later.watchers⟩ (fun _ good => good.pendingRequest _ _)
      ⟨later.next, later.watchers⟩
  | fetchPendingHeaderData first =>
    apply Later.pendingRequest
    exact ⟨later.next, later.watchers⟩
  | finished handles => exact ⟨later.next, fun watcher there => later.watchers watcher (List.mem_of_mem_filter there)⟩

theorem Tracked.later_reset (tracked : Tracked s) (done : s.m_initDone) (head : s.step config (.receive (.signal .modelReset)) = some t) :
    Later s.serial t := by
  have reset : t = s.doModelReset config .reset := by
    have handled := Except.ok.inj (step_handle head)
    rw [onModelReset, if_pos done] at handled
    exact handled.symm
  rw [reset]
  apply Later.pendingRequest
  refine ⟨?_, ?_⟩
  · simp only [deleteWatchers_eq, Nat.le_refl]
  · rw [tracked.cancelled]
    exact fun watcher there => absurd there List.not_mem_nil

theorem tracked_init (rootCacheSize : Nat) : Tracked ((initial rootCacheSize : Replica V).init config) :=
  Tracked.doModelReset ⟨rfl, fun _ there => absurd there List.not_mem_nil⟩ _

/-- The list is exact in every state of a run whose steps are counted. -/
theorem pending_requests_exact {rootCacheSize : Nat} {es : List (ReplicaEvent V)}
    (run : exec (step config) ((initial rootCacheSize).init config) es = some s)
    (counted : Admitted (step config) Counted ((initial rootCacheSize).init config) es) :
    s.PendingExact ∧ s.ResetCancels config := by
  have tracked := exec_invariant (fun good counts head => tracked_step good counts head) run counted (tracked_init rootCacheSize)
  refine ⟨tracked.exact, ?_⟩
  intro done later t after serial applies
  obtain ⟨middle, head, tail⟩ := exec_cons.mp after
  have bound := exec_always later_step tail (tracked.later_reset done head)
  obtain ⟨reply, watcher, posted, handles⟩ := applies
  have listed : serial ∈ t.watchers.map Prod.fst := by
    rw [← watcher?_isSome, handles.watcher]
    rfl
  obtain ⟨entry, there, rfl⟩ := List.mem_map.mp listed
  exact bound.watchers entry there

end Invariant

section Example

def exampleListConfig : Config := ⟨1000, .fetchRootSize, [], [0]⟩

/-- The model has one row, which has children. The view reads its data. -/
def rowRead : List (ReplicaEvent Nat) :=
  [.receive (.reply 0 (.size ⟨1, 1⟩)), .processEvent, .multiData [⟨0, 0⟩] [0], .processEvent,
    .receive (.reply 1 (.entries [⟨[⟨0, 0⟩], [7], true, 0, [], ⟨0, 0⟩⟩])), .processEvent]

theorem pending_requests_exact_example : ∃ s : Replica Nat,
    exec (step exampleListConfig) ((initial 1000).init exampleListConfig) rowRead = some s ∧
      s.PendingExact ∧ s.ResetCancels exampleListConfig := by
  obtain ⟨s, run⟩ := Option.isSome_iff_exists.mp
    (show (exec (step exampleListConfig) ((initial 1000).init exampleListConfig) rowRead).isSome by decide)
  refine ⟨s, run, pending_requests_exact run ?_⟩
  refine .cons trivial rfl (.cons ?_ rfl (.cons trivial rfl (.cons ?_ rfl (.cons trivial rfl (.cons ?_ rfl trivial)))))
  · intro serial reply start finish roles posted handles
    cases handles.first
    cases handles.watcher
  · intro serial reply start finish roles posted handles
    cases handles.first
  · intro serial reply start finish roles posted handles
    cases handles.first
    cases handles.watcher
    exact ⟨_, rfl, by decide, by decide⟩

/-- A size request of `rowCount` is not in the list, and its reply is applied behind a reset. -/
theorem size_request_outlives_reset : ¬ TracksPendingRequests exampleListConfig Nat 1000 ∧
    ∃ s t : Replica Nat,
      exec (step exampleListConfig) ((initial 1000).init exampleListConfig) (rowRead ++ [.rowCount [⟨0, 0⟩]]) = some s ∧
      exec (step exampleListConfig) s [.receive (.signal .modelReset), .receive (.reply 2 (.size ⟨1, 1⟩))] = some t ∧
      s.m_initDone ∧ t.AppliesNext 2 ∧ ¬ s.serial ≤ 2 := by
  obtain ⟨s, run⟩ := Option.isSome_iff_exists.mp
    (show (exec (step exampleListConfig) ((initial 1000).init exampleListConfig) (rowRead ++ [.rowCount [⟨0, 0⟩]])).isSome
      by decide)
  have asked : (s.m_initDone, s.serial, s.m_pendingRequests, s.m_pendingCalls, s.watcher? 2) =
      (true, 3, [], [2], some (.size [⟨0, 0⟩])) :=
    Option.some.inj ((congrArg (Option.map fun s : Replica Nat =>
      (s.m_initDone, s.serial, s.m_pendingRequests, s.m_pendingCalls, s.watcher? 2)) run).symm.trans (by decide))
  simp only [Prod.mk.injEq] at asked
  obtain ⟨done, serial, pending, calls, waits⟩ := asked
  refine ⟨fun tracks => ?_, s, ?_⟩
  · have listed := ((tracks _ s run).1 2).mpr ⟨by rw [waits]; rfl, .inl (by rw [calls]; exact List.mem_singleton_self 2)⟩
    rw [pending] at listed
    contradiction
  · obtain ⟨t, both⟩ := Option.isSome_iff_exists.mp
      (show (exec (step exampleListConfig) ((initial 1000).init exampleListConfig)
        ((rowRead ++ [.rowCount [⟨0, 0⟩]]) ++ [.receive (.signal .modelReset), .receive (.reply 2 (.size ⟨1, 1⟩))])).isSome
        by decide)
    obtain ⟨middle, first, last⟩ := exec_append.mp both
    obtain rfl := Option.some.inj (run.symm.trans first)
    have next : (t.posted.head?.map (Posted.of 2), (t.watcher? 2)) = (some true, some (.size [⟨0, 0⟩])) :=
      Option.some.inj ((congrArg (Option.map fun t : Replica Nat =>
        (t.posted.head?.map (Posted.of 2), t.watcher? 2)) both).symm.trans (by decide))
    obtain ⟨head, waits⟩ := Prod.mk.inj next
    refine ⟨t, run, last, done, ?_, by rw [serial]; decide⟩
    obtain ⟨event, first, finishes⟩ := Option.map_eq_some_iff.mp head
    obtain ⟨posted, queue⟩ := List.head?_eq_some_iff.mp first
    cases event with
    | finished number reply =>
      obtain rfl : number = 2 := of_decide_eq_true finishes
      exact ⟨reply, _, posted, queue, waits⟩
    | fetchPendingData | fetchPendingHeaderData => contradiction

end Example
end Replica
end RemoteObjects.ItemModel
