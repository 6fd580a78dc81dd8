import RemoteObjects.Feed
import RemoteObjects.ItemModel.Changes
import RemoteObjects.ItemModel.Pending

/-! A source and a replica of its item model, with the requests and the packets between them in their order. -/
namespace RemoteObjects.ItemModel
open Transition

section Model
variable {V : Type}

/-- The requests under way are in the replica, as those it has sent. `view` is the model up to where the replica has read; a
packet comes with the model behind it. Both are for what is said about runs. -/
structure Network (V : Type) where
  m_model : SourceModel V
  view : SourceModel V
  packets : List (Packet V × SourceModel V)
  replica : Replica V

inductive NetworkEvent (V : Type)
  | change (change : SourceChange V)
  | serve
  | receive
  | replica (e : ReplicaEvent V)

namespace Network
variable (config : Config) (net : Network V)

def initial (m_model : SourceModel V) (rootCacheSize : Nat) : Network V :=
  ⟨m_model, m_model, [], (Replica.initial rootCacheSize).init config⟩

/-- The roles of the adapter are a property of the replica. -/
def adapter : Adapter := ⟨config.availableRoles, false⟩

/-- A run ends where the source or the replica fails. -/
def step (net : Network V) : NetworkEvent V → Option (Network V)
  | .change change =>
    if net.m_model.allows change then
      let after := net.m_model.apply change
      some { net with
        m_model := after
        packets := net.packets ++ ((adapter config).emitted change).map fun signal => (.signal signal, after) }
    else none
  | .serve =>
    match net.replica.sent with
    | [] => none
    | (serial, request) :: sent =>
      ((adapter config).serve net.m_model request).toOption.map fun reply =>
        { net with
          packets := net.packets ++ (reply.map fun reply => (.reply serial reply, net.m_model)).toList
          replica := { net.replica with sent } }
  | .receive =>
    match net.packets with
    | [] => none
    | (packet, view) :: packets =>
      (net.replica.step config (.receive packet)).map fun replica => { net with view, packets, replica }
  | .replica (.receive _) => none
  | .replica e => (net.replica.step config e).map fun replica => { net with replica }

/-- The initial reply is handled. -/
def opening : List (NetworkEvent V) := [.serve, .receive, .replica .processEvent]

end Network
end Model

namespace Replica

section Watchers
variable {V : Type} {config : Config} {s t u : Replica V} {e : ReplicaEvent V} {serial : Nat}

/-- The watcher is one for the reply to the request. -/
def Asks : Request V → Watcher → Prop
  | .size parentList, .size other => other = parentList ∧ ∀ index ∈ parentList, index.column = 0
  | .size parentList, .init => parentList = []
  | .size parentList, .reset => parentList = []
  | .row start finish roles, .row start' finish' roles' => start' = start ∧ finish' = finish ∧ roles' = roles
  | .header _ _ _, .header _ _ _ => True
  | .cache _ _, .init => True
  | .cache _ _, .reset => True
  | .cache _ _, .layout _ => True
  | _, _ => False

/-- Watchers and requests have numbers below the next one, and a watcher is one for the request of its number. -/
structure Numbered (s : Replica V) : Prop where
  watchers : ∀ watcher ∈ s.watchers, watcher.1 < s.serial
  sent : ∀ call ∈ s.sent, call.1 < s.serial ∧ ∀ watcher, s.watcher? call.1 = some watcher → Asks call.2 watcher

/-- Old numbers have the watchers that they had, or none. -/
structure Continues (s t : Replica V) : Prop where
  serial : s.serial ≤ t.serial
  watcher : ∀ number < s.serial, ∀ watcher, t.watcher? number = some watcher → s.watcher? number = some watcher

theorem Continues.refl (s : Replica V) : Continues s s := ⟨Nat.le_refl _, fun _ _ _ => id⟩

theorem Continues.trans (first : Continues s t) (second : Continues t u) : Continues s u where
  serial := Nat.le_trans first.serial second.serial
  watcher number old watcher there :=
    first.watcher number old watcher (second.watcher number (Nat.lt_of_lt_of_le old first.serial) watcher there)

theorem Numbered.same (numbered : Numbered s) (watchers : t.watchers = s.watchers) (sent : t.sent = s.sent)
    (serial : t.serial = s.serial) : Numbered t ∧ Continues s t := by
  have found : ∀ number, t.watcher? number = s.watcher? number := by
    intro number
    rw [watcher?, watchers, watcher?]
  refine ⟨⟨?_, ?_⟩, ?_, ?_⟩
  · rw [watchers, serial]
    exact numbered.watchers
  · rw [sent, serial]
    intro call there
    rw [found]
    exact numbered.sent call there
  · exact Nat.le_of_eq serial.symm
  · exact fun number _ watcher there => found number ▸ there

theorem Numbered.fresh (numbered : Numbered s) : s.watcher? s.serial = none := by
  rw [Option.eq_none_iff_forall_ne_some]
  intro watcher found
  exact absurd (numbered.watchers _ (watcher?_mem found)) (Nat.lt_irrefl _)

theorem Numbered.request {call : Request V} {watcher : Watcher} (numbered : Numbered s) (asks : Asks call watcher) :
    Numbered (s.request call watcher) ∧ Continues s (s.request call watcher) := by
  have found : ∀ number, (s.request call watcher).watcher? number =
      (s.watcher? number).or (if s.serial = number then some watcher else none) := by
    intro number
    rw [watcher?, Replica.request, List.find?_append, Option.map_or, watcher?]
    congr 1
    rw [List.find?_singleton]
    by_cases here : s.serial = number <;> simp [here]
  have continues : Continues s (s.request call watcher) := by
    refine ⟨Nat.le_succ _, fun number old other there => ?_⟩
    rw [found, if_neg (Nat.ne_of_gt old), Option.or_none] at there
    exact there
  refine ⟨⟨?_, ?_⟩, continues⟩
  · intro other there
    obtain old | new := List.mem_append.mp there
    · exact Nat.lt_succ_of_lt (numbered.watchers other old)
    · rw [List.mem_singleton.mp new]
      exact Nat.lt_succ_self _
  · intro sent there
    obtain old | new := List.mem_append.mp there
    · obtain ⟨below, fits⟩ := numbered.sent sent old
      exact ⟨Nat.lt_succ_of_lt below, fun other there => fits other (continues.watcher _ below other there)⟩
    · rw [List.mem_singleton.mp new]
      refine ⟨Nat.lt_succ_self _, fun other there => ?_⟩
      rw [found, numbered.fresh, if_pos rfl] at there
      obtain rfl := Option.some.inj there
      exact asks

theorem Numbered.pendingRequest {call : Request V} {watcher : Watcher} (numbered : Numbered s) (asks : Asks call watcher) :
    Numbered (s.pendingRequest call watcher) ∧ Continues s (s.pendingRequest call watcher) := by
  obtain ⟨⟨watchers, sent⟩, serial, kept⟩ := numbered.request asks
  exact ⟨⟨watchers, sent⟩, serial, kept⟩

/-- Watchers are deleted by their numbers. -/
theorem Numbered.filter (numbered : Numbered s) (keep : Nat → Bool) (watchers : t.watchers = s.watchers.filter fun w => keep w.1)
    (sent : t.sent = s.sent) (serial : t.serial = s.serial) : Numbered t ∧ Continues s t := by
  have found : ∀ {number watcher}, t.watcher? number = some watcher → s.watcher? number = some watcher := by
    intro number watcher there
    rw [watcher?, watchers, List.find?_filter] at there
    rw [watcher?]
    cases kept : keep number with
    | true =>
      rw [← there]
      congr 2
      funext entry
      by_cases same : entry.1 = number
      · simp [same, kept]
      · simp [same]
    | false =>
      obtain ⟨entry, found, _⟩ := Option.map_eq_some_iff.mp there
      have both := List.find?_some found
      simp only [decide_eq_true_eq] at both
      rw [both.2, kept] at both
      exact absurd both.1 Bool.false_ne_true
  refine ⟨⟨?_, ?_⟩, Nat.le_of_eq serial.symm, fun number _ watcher there => found there⟩
  · rw [watchers, serial]
    exact fun watcher there => numbered.watchers watcher (List.mem_of_mem_filter there)
  · rw [sent, serial]
    exact fun call there => ⟨(numbered.sent call there).1, fun watcher here => (numbered.sent call there).2 watcher (found here)⟩

theorem toModelIndexList_column {parent : IndexList} {last : ModelIndex} (ends : parent.getLast? = some last)
    (first : last.column = 0) : ∀ index ∈ toModelIndexList parent, index.column = 0 := by
  rw [toModelIndexList, ends]
  intro index there
  obtain above | here := List.mem_append.mp there
  · obtain ⟨_, _, rfl⟩ := List.mem_map.mp above
    rfl
  · rw [List.mem_singleton.mp here]
    exact first

theorem Numbered.doModelReset {watcher : Watcher} (numbered : Numbered s) (whole : watcher = .init ∨ watcher = .reset) :
    Numbered (s.doModelReset config watcher) ∧ Continues s (s.doModelReset config watcher) := by
  obtain ⟨first, kept⟩ := numbered.filter (t := { s.m_pendingRequests.foldl deleteWatcher s with m_pendingRequests := [] })
    (fun number => number ∉ s.m_pendingRequests) (by rw [deleteWatchers_eq]) (by rw [deleteWatchers_eq]) (by rw [deleteWatchers_eq])
  refine And.imp_right kept.trans (first.pendingRequest ?_)
  obtain rfl | rfl := whole
  all_goals cases config.m_initialAction <;> trivial

theorem numbered_step (numbered : Numbered s) (head : s.step config e = some t) : Numbered t ∧ Continues s t := by
  obtain ⟨u, queued, same⟩ := handle_queues (step_handle head)
  suffices first : Numbered u ∧ Continues s u by
    obtain ⟨last, kept⟩ := first.1.same same.watchers same.sent same.serial
    exact ⟨last, first.2.trans kept⟩
  cases queued with
  | still => exact ⟨numbered, .refl s⟩
  | fetch | fetchHeader | dropped | left => exact numbered.same rfl rfl rfl
  | reset done => exact numbered.doModelReset (.inr rfl)
  | layout parents size indexes => exact numbered.pendingRequest trivial
  | reply number reply =>
    obtain same | ⟨_, same⟩ | ⟨_, _, same⟩ := s.notifyAboutReply_cases number reply
    all_goals
      rw [same]
      exact numbered.same rfl rfl rfl
  | size ends cached unknown => exact numbered.request ⟨rfl, toModelIndexList_column ends unknown.2.2⟩
  | fetchPendingData first =>
    refine fetchPendingData_keeps (P := fun t => Numbered t ∧ Continues s t) (numbered.same rfl rfl rfl) (fun {_ start finish roles}
      _ good => ?_) (numbered.same rfl rfl rfl)
    have asks : Asks (.row start finish roles : Request V) (.row start finish roles) := ⟨rfl, rfl, rfl⟩
    exact (good.1.pendingRequest asks).imp_right good.2.trans
  | fetchPendingHeaderData first =>
    obtain ⟨next, kept⟩ := numbered.same (t := { s with posted := _, m_requestedHeaderData := [] }) rfl rfl rfl
    refine And.imp_right kept.trans (next.pendingRequest ?_)
    trivial
  | finished handles => exact numbered.filter (fun number => number ≠ _) rfl rfl rfl

/-- What holds of the watchers that there are, and of those that are made, holds of all. -/
theorem watchers_step {P : Watcher → Prop} (all : ∀ watcher ∈ s.watchers, P watcher.2)
    (plain : e ≠ .receive (.signal .modelReset) ∧ ∀ parents, e ≠ .receive (.signal (.layoutChanged parents)))
    (sizes : ∀ {parent last item}, parent.getLast? = some last → s.m_rootItem.item? (rowsOf parent) = some item →
      item.hasChildren → P (.size (toModelIndexList parent)))
    (rows : ∀ {start finish roles}, (∀ role ∈ roles, ∃ data ∈ s.m_requestedData, role ∈ data.roles) → P (.row start finish roles))
    (headers : ∀ orientations sections roles, P (.header orientations sections roles)) (head : s.step config e = some t) :
    ∀ watcher ∈ t.watchers, P watcher.2 := by
  obtain ⟨u, queued, same⟩ := handle_queues (step_handle head)
  rw [same.watchers]
  have added : ∀ {s' : Replica V} {serial watcher}, (∀ watcher ∈ s'.watchers, P watcher.2) → P watcher →
      ∀ other ∈ s'.watchers ++ [(serial, watcher)], P other.2 := by
    intro s' serial watcher old new other there
    obtain there | there := List.mem_append.mp there
    · exact old other there
    · rw [List.mem_singleton.mp there]
      exact new
  cases queued with
  | still | fetch | fetchHeader | dropped | left => exact all
  | reset done => exact absurd rfl plain.1
  | layout parents size indexes => exact absurd rfl (plain.2 parents)
  | reply number reply =>
    obtain same | ⟨_, same⟩ | ⟨_, _, same⟩ := s.notifyAboutReply_cases number reply
    all_goals
      rw [same]
      exact all
  | size ends cached unknown => exact added all (sizes ends cached unknown.1)
  | fetchPendingData first =>
    exact fetchPendingData_keeps (P := fun t => ∀ watcher ∈ t.watchers, P watcher.2) all
      (fun known good => added good (rows known)) all
  | fetchPendingHeaderData first => exact added all (headers _ _ _)
  | finished handles => exact fun watcher there => all watcher (List.mem_of_mem_filter there)

/-- A reply that is posted was read from a packet. -/
theorem posted_step {reply : Reply V} (head : s.step config e = some t) (posted : .finished serial reply ∈ t.posted) :
    .finished serial reply ∈ s.posted ∨ e = .receive (.reply serial reply) ∧ (s.watcher? serial).isSome := by
  obtain ⟨u, queued, same⟩ := handle_queues (step_handle head)
  rw [same.posted] at posted
  have later : ∀ {event : Posted V} {posted}, s.posted = event :: posted → .finished serial reply ∈ posted →
      .finished serial reply ∈ s.posted := fun first there => first ▸ List.mem_cons_of_mem _ there
  cases queued with
  | still => exact .inl posted
  | fetch | fetchHeader =>
    obtain old | new := List.mem_append.mp posted
    · exact .inl old
    · cases List.mem_singleton.mp new
  | reset done =>
    rw [doModelReset, deleteWatchers_eq] at posted
    exact .inl (List.mem_of_mem_filter posted)
  | layout parents size indexes => exact .inl posted
  | reply number other =>
    obtain same | ⟨_, same⟩ | ⟨waits, _, same⟩ := s.notifyAboutReply_cases number other
    · rw [same] at posted
      exact .inl posted
    · rw [same] at posted
      exact .inl posted
    · rw [same] at posted
      obtain old | new := List.mem_append.mp posted
      · exact .inl old
      · obtain ⟨rfl, rfl⟩ := Posted.finished.inj (List.mem_singleton.mp new)
        exact .inr ⟨rfl, waits⟩
  | size ends cached unknown => exact .inl posted
  | @fetchPendingData rest first =>
    have kept : (fetchPendingData { s with posted := rest }).posted = rest :=
      fetchPendingData_keeps (P := fun t => t.posted = rest) rfl (fun _ good => good) rfl
    rw [kept] at posted
    exact .inl (later first posted)
  | fetchPendingHeaderData first => exact .inl (later first posted)
  | dropped first gone => exact .inl (later first posted)
  | finished handles => exact .inl (later handles.first (List.mem_of_mem_filter posted))
  | left handles without => exact .inl (later handles.first posted)

end Watchers
end Replica

section Wired
variable {V : Type} {A : Type*} {config : Config} {net next : Network V} {e : NetworkEvent V}
variable (see : SourceModel V → A) (Changes : A → Signal → A → Prop) (Right : A → Watcher → Reply V → Prop)
open Replica

/-- What a packet says of the model before and behind it. -/
def Carries (s : Replica V) : A → Packet V → A → Prop
  | before, .signal signal, after => Changes before signal after
  | before, .reply serial reply, after => after = before ∧ serial < s.serial ∧
    ∀ watcher, s.watcher? serial = some watcher → Right before watcher reply

/-- The signals under way lead from what the replica has read to the model, and all replies are right where they are. -/
structure Wired (net : Network V) : Prop where
  numbered : Numbered net.replica
  follows : Feed.Follows see (Carries Changes Right net.replica) net.view net.packets net.m_model
  posted : ∀ serial reply, .finished serial reply ∈ net.replica.posted → serial < net.replica.serial ∧
    ∀ watcher, net.replica.watcher? serial = some watcher → Right (see net.view) watcher reply

/-- What is needed of a step for that. -/
structure Lawful (config : Config) (net : Network V) (e : NetworkEvent V) : Prop where
  changes : ∀ change, e = .change change → net.m_model.allows change →
    (∀ signal ∈ (Network.adapter config).emitted change, Changes (see net.m_model) signal (see (net.m_model.apply change))) ∧
      ((Network.adapter config).emitted change = [] → see net.m_model = see (net.m_model.apply change))
  serves : ∀ request watcher reply, e = .serve → Asks request watcher →
    (Network.adapter config).serve net.m_model request = .ok (some reply) → Right (see net.m_model) watcher reply
  timely : ∀ signal view packets, e = .receive → net.packets = (.signal signal, view) :: packets → ∀ serial reply watcher,
    .finished serial reply ∈ net.replica.posted → net.replica.watcher? serial = some watcher →
    Right (see net.view) watcher reply → Right (see view) watcher reply

variable {see : SourceModel V → A} {Changes : A → Signal → A → Prop} {Right : A → Watcher → Reply V → Prop}
variable {s t : Replica V} {packets : List (Packet V × SourceModel V)} {view m_model : SourceModel V}

theorem Carries.continues {before after : A} {packet : Packet V} (carries : Carries Changes Right s before packet after)
    (continues : Continues s t) : Carries Changes Right t before packet after := by
  cases packet with
  | signal signal => exact carries
  | reply serial reply =>
    obtain ⟨same, below, right⟩ := carries
    exact ⟨same, Nat.lt_of_lt_of_le below continues.serial,
      fun watcher there => right watcher (continues.watcher serial below watcher there)⟩

theorem follows_continues (follows : Feed.Follows see (Carries Changes Right s) view packets m_model)
    (continues : Continues s t) : Feed.Follows see (Carries Changes Right t) view packets m_model :=
  follows.mono fun _ _ => fun carries => carries.continues continues

theorem emitted_cases (adapter : Adapter) (change : SourceChange V) :
    adapter.emitted change = [] ∨ ∃ signal, adapter.emitted change = [signal] := by
  cases change with
  | dataChanged start finish roles after =>
    rw [Adapter.emitted, Adapter.sourceDataChanged]
    split
    · exact .inl rfl
    · exact .inr ⟨_, rfl⟩
  | rowsInserted | rowsRemoved => exact .inr ⟨_, rfl⟩

theorem Wired.replica (wired : Wired see Changes Right net) {e : ReplicaEvent V} (head : net.replica.step config e = some t)
    (inner : ∀ packet, e ≠ .receive packet) : Wired see Changes Right { net with replica := t } := by
  obtain ⟨numbered, continues⟩ := numbered_step wired.numbered head
  refine ⟨numbered, follows_continues wired.follows continues, fun serial reply there => ?_⟩
  obtain old | ⟨same, _⟩ := posted_step head there
  · obtain ⟨below, right⟩ := wired.posted serial reply old
    exact ⟨Nat.lt_of_lt_of_le below continues.serial,
      fun watcher here => right watcher (continues.watcher serial below watcher here)⟩
  · exact absurd same (inner _)

theorem replica_step {e : ReplicaEvent V} (head : net.step config (.replica e) = some next) :
    ∃ t, net.replica.step config e = some t ∧ next = { net with replica := t } ∧ ∀ packet, e ≠ .receive packet := by
  cases e with
  | receive packet => contradiction
  | processEvent | multiData | rowCount | headerData =>
    rw [Network.step] at head
    · obtain ⟨t, handled, same⟩ := Option.map_eq_some_iff.mp head
      exact ⟨t, handled, same.symm, nofun⟩
    · exact nofun

theorem wired_step (wired : Wired see Changes Right net) (lawful : Lawful see Changes Right config net e)
    (head : net.step config e = some next) : Wired see Changes Right next := by
  cases e with
  | change change =>
    rw [Network.step] at head
    split at head
    · rename_i allowed
      cases head
      obtain ⟨announced, silent⟩ := lawful.changes change rfl allowed
      refine ⟨wired.numbered, ?_, wired.posted⟩
      obtain none | ⟨signal, one⟩ := emitted_cases (Network.adapter config) change
      · rw [none, List.map_nil, List.append_nil]
        exact wired.follows.unseen (silent none)
      · rw [one]
        exact wired.follows.send (announced signal (one ▸ List.mem_cons_self))
    · contradiction
  | serve =>
    rw [Network.step] at head
    split at head
    · contradiction
    · rename_i serial request sent waiting
      obtain ⟨reply, served, rfl⟩ := Option.map_eq_some_iff.mp head
      have first : (serial, request) ∈ net.replica.sent := waiting ▸ List.mem_cons_self
      obtain ⟨below, asks⟩ := wired.numbered.sent _ first
      have follows : Feed.Follows see (Carries Changes Right { net.replica with sent }) net.view net.packets net.m_model :=
        follows_continues wired.follows ⟨Nat.le_refl _, fun _ _ _ => id⟩
      refine ⟨⟨wired.numbered.watchers, fun call there => wired.numbered.sent call (waiting ▸ List.mem_cons_of_mem _ there)⟩,
        ?_, wired.posted⟩
      cases reply with
      | none =>
        rw [Option.map_none, Option.toList_none, List.append_nil]
        exact follows
      | some reply =>
        have made : (Network.adapter config).serve net.m_model request = .ok (some reply) := by
          cases result : (Network.adapter config).serve net.m_model request with
          | ok value => rw [result] at served; exact congrArg _ (Option.some.inj served)
          | error failure => rw [result] at served; contradiction
        refine follows.send ⟨rfl, below, fun watcher waits => ?_⟩
        exact lawful.serves request watcher reply rfl (asks watcher waits) made
  | receive =>
    rw [Network.step] at head
    split at head
    · contradiction
    · rename_i packet view packets first
      obtain ⟨t, handled, rfl⟩ := Option.map_eq_some_iff.mp head
      obtain ⟨numbered, continues⟩ := numbered_step wired.numbered handled
      have follows := wired.follows
      rw [first] at follows
      refine ⟨numbered, follows_continues follows.2 continues, fun serial reply there => ?_⟩
      obtain old | ⟨same, waits⟩ := posted_step handled there
      · obtain ⟨below, right⟩ := wired.posted serial reply old
        refine ⟨Nat.lt_of_lt_of_le below continues.serial, fun watcher here => ?_⟩
        have before := continues.watcher serial below watcher here
        cases packet with
        | signal signal => exact lawful.timely signal view packets rfl first serial reply watcher old before (right watcher before)
        | reply number other =>
          have same : see view = see net.view := follows.1.1
          rw [same]
          exact right watcher before
      · cases same
        obtain ⟨same, below, right⟩ := follows.1
        refine ⟨Nat.lt_of_lt_of_le below continues.serial, fun watcher here => ?_⟩
        rw [same]
        exact right watcher (continues.watcher serial below watcher here)
  | replica e =>
    obtain ⟨t, handled, rfl, inner⟩ := replica_step head
    exact wired.replica handled inner

end Wired
end RemoteObjects.ItemModel
