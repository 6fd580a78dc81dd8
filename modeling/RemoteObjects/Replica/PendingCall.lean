import Mathlib.Data.List.Count
import Mathlib.Data.List.Nodup
import Mathlib.Logic.Function.Iterate
import RemoteObjects.Transition

/-! A pending call with the watchers on it. They are told by a helper that is made when it is needed
first, over events that are posted to the event queue. -/
namespace RemoteObjects.Replica.PendingCall
open Transition

section Model

inductive Error
  | NoError | InvalidMessage
deriving DecidableEq

variable (W V : Type)

/-- A call of the signal `finished` of the helper, or of the slot that emits that of a watcher. -/
inductive Posted
  | helper
  | watcher (watcher : W)
deriving DecidableEq

/-- `QRemoteObjectPendingCallData`, where `awaited` tells that the call is in `m_pendingCalls`, with
the watchers connected to the helper, the event queue, and how often each watcher has emitted. -/
structure CallData where
  replica : Bool
  awaited : Bool
  returnValue : Option V
  error : Error
  watcherHelper : Option (List W)
  queue : List (Posted W)
  emitted : W → Nat

/-- A call that was sent, one that is completed from the start, and one without data. -/
inductive Origin
  | sent
  | fromCompletedCall (returnValue : V)
  | invalid

/-- `waitForFinished` on a watcher is `waitForFinished` on the call, and `sendPostedEvents` when that
returns; between the two its event loop runs. -/
inductive Event
  | create (watcher : W)
  | delete (watcher : W)
  | waitForFinished
  | sendPostedEvents (watcher : W)
  | notifyAboutReply (value : V)
  | processEvent

end Model

variable {W V : Type} [DecidableEq W]

namespace CallData
variable (s : CallData W V)

def start : Origin V → CallData W V
  | .sent => ⟨true, true, none, .InvalidMessage, none, [], fun _ => 0⟩
  | .fromCompletedCall returnValue => ⟨false, false, some returnValue, .NoError, none, [], fun _ => 0⟩
  | .invalid => ⟨false, false, none, .InvalidMessage, none, [], fun _ => 0⟩

def watchers : List W := s.watcherHelper.getD []

/-- The watchers are connected to `finished` by queued connections. -/
def emitSignals : CallData W V := { s with queue := s.queue ++ s.watchers.map .watcher }

/-- The constructor of a watcher. -/
def create (watcher : W) : CallData W V :=
  let s := { s with emitted := Function.update s.emitted watcher 0 }
  match s.watcherHelper with
  | some watchers => { s with watcherHelper := some (watchers ++ [watcher]) }
  | none =>
    if s.error ≠ .InvalidMessage then { s with watcherHelper := some [watcher], queue := s.queue ++ [.helper] }
    else { s with watcherHelper := some [watcher] }

/-- A watcher goes with its connection and with what is posted to it. -/
def delete (watcher : W) : CallData W V :=
  { s with
    watcherHelper := s.watcherHelper.map fun watchers => watchers.filter (· ≠ watcher)
    queue := s.queue.filter (· ≠ .watcher watcher) }

/-- Up to the event loop. -/
def waitForFinished : CallData W V :=
  if s.error ≠ .InvalidMessage ∨ !s.replica then s
  else { s with watcherHelper := some s.watchers }

def notifyAboutReply (value : V) : CallData W V :=
  let s := { s with awaited := false, error := .NoError, returnValue := some value }
  if s.watcherHelper.isSome then s.emitSignals else s

/-- One posted event is delivered. -/
def deliver (e : Posted W) : CallData W V :=
  let s := { s with queue := s.queue.erase e }
  match e with
  | .helper => s.emitSignals
  | .watcher watcher => { s with emitted := Function.update s.emitted watcher (s.emitted watcher + 1) }

/-- Everything that is posted to one receiver. -/
def sendPostedEvents (e : Posted W) : CallData W V := (deliver · e)^[s.queue.count e] s

end CallData

def step (s : CallData W V) : Event W V → Option (CallData W V)
  | .create watcher => if watcher ∈ s.watchers then none else some (s.create watcher)
  | .delete watcher => if watcher ∈ s.watchers then some (s.delete watcher) else none
  | .waitForFinished => some s.waitForFinished
  | .sendPostedEvents watcher =>
    if watcher ∈ s.watchers then some ((s.sendPostedEvents .helper).sendPostedEvents (.watcher watcher)) else none
  | .notifyAboutReply value => if s.awaited then some (s.notifyAboutReply value) else none
  | .processEvent => s.queue.head?.map s.deliver

section Statement
variable (s : CallData W V)

/-- Where the call is complete, every watcher has emitted once as soon as the event queue has drained. -/
def ToldOnce (e : Event W V) : Prop :=
  ∀ t, step s e = some t → t.error ≠ .InvalidMessage → ∀ n u, exec step t (List.replicate n .processEvent) = some u →
    u.queue = [] → ∀ watcher ∈ u.watchers, u.emitted watcher = 1

/-- A watcher on a complete call is created while there is no helper, or while the helper's signal is
posted. -/
def CreatedInTime : Event W V → Prop
  | .create watcher => watcher ∉ s.watchers → s.error ≠ .InvalidMessage → s.watcherHelper = none ∨ .helper ∈ s.queue
  | _ => True

end Statement

section Invariant
variable {s t : CallData W V} {watcher : W} {e : Posted W}

/-- A watcher is told when the signal of the helper, which is emitted once, has come. -/
structure Orderly (s : CallData W V) : Prop where
  nodup : s.watchers.Nodup
  posted : ∀ watcher, .watcher watcher ∈ s.queue → watcher ∈ s.watchers
  helper : .helper ∈ s.queue → s.error ≠ .InvalidMessage ∧ s.watcherHelper ≠ none
  single : s.queue.count .helper ≤ 1
  awaited : s.awaited → s.error = .InvalidMessage
  told : ∀ watcher ∈ s.watchers, s.emitted watcher + s.queue.count (.watcher watcher) =
    if s.error = .InvalidMessage ∨ .helper ∈ s.queue then 0 else 1

omit [DecidableEq W] in
theorem watchers_of_unwatched (unwatched : s.watcherHelper = none) : s.watchers = [] := by
  rw [CallData.watchers, unwatched, Option.getD_none]

theorem Orderly.start (origin : Origin V) : Orderly (CallData.start origin : CallData W V) := by
  cases origin <;> constructor <;> simp [CallData.start, CallData.watchers]

theorem Orderly.create (orderly : Orderly s) (new : watcher ∉ s.watchers)
    (inTime : s.error ≠ .InvalidMessage → s.watcherHelper = none ∨ .helper ∈ s.queue) : Orderly (s.create watcher) := by
  have unposted : s.queue.count (.watcher watcher) = 0 := List.count_eq_zero.mpr fun member => new (orderly.posted watcher member)
  unfold CallData.create
  dsimp only
  split
  · rename_i watchers helped
    have same : s.watchers = watchers := by rw [CallData.watchers, helped, Option.getD_some]
    rw [same] at new
    constructor
    · exact List.nodup_append.mpr ⟨same ▸ orderly.nodup, List.nodup_singleton _, by simpa using fun a member => ne_of_mem_of_not_mem member new⟩
    · exact fun other member => List.mem_append_left _ (same ▸ orderly.posted other member)
    · exact fun member => ⟨(orderly.helper member).1, Option.some_ne_none _⟩
    · exact orderly.single
    · exact orderly.awaited
    · intro other member
      by_cases created : other = watcher
      · subst created
        have pending : s.error = .InvalidMessage ∨ .helper ∈ s.queue := by
          by_cases complete : s.error = .InvalidMessage
          · exact .inl complete
          · refine .inr ((inTime complete).resolve_left ?_)
            rw [helped]
            exact Option.some_ne_none _
        simp only [Function.update_self, unposted, if_pos pending]
      · have before : other ∈ s.watchers := by
          rw [same]
          simpa [CallData.watchers, created] using member
        simpa only [Function.update_of_ne created] using orderly.told other before
  · rename_i unhelped
    have none := watchers_of_unwatched unhelped
    have quiet : .helper ∉ s.queue := fun member => (orderly.helper member).2 unhelped
    have nobody (other : W) : .watcher other ∉ s.queue := fun member => by
      have := orderly.posted other member
      rw [none] at this
      contradiction
    split
    · rename_i complete
      constructor
      · exact List.nodup_singleton _
      · intro other member
        simp [nobody] at member
      · exact fun _ => ⟨complete, Option.some_ne_none _⟩
      · simp [List.count_append, List.count_eq_zero.mpr quiet]
      · exact orderly.awaited
      · intro other member
        obtain rfl := List.mem_singleton.mp member
        simp [unposted, List.count_append]
    · rename_i incomplete
      constructor
      · exact List.nodup_singleton _
      · exact fun other member => absurd member (nobody other)
      · exact fun member => absurd member quiet
      · exact orderly.single
      · exact orderly.awaited
      · intro other member
        obtain rfl := List.mem_singleton.mp member
        simp [unposted, not_not.mp incomplete]

theorem Orderly.delete (orderly : Orderly s) : Orderly (s.delete watcher) := by
  have left : (s.delete watcher).watchers = s.watchers.filter (· ≠ watcher) := by
    unfold CallData.watchers CallData.delete
    cases s.watcherHelper <;> rfl
  have helper : Posted.helper ∈ (s.delete watcher).queue ↔ .helper ∈ s.queue := by simp [CallData.delete]
  constructor
  · rw [left]
    exact orderly.nodup.filter _
  · intro other member
    rw [left]
    obtain ⟨before, apart⟩ := List.mem_filter.mp member
    exact List.mem_filter.mpr ⟨orderly.posted other before, by simpa using apart⟩
  · intro member
    obtain ⟨complete, helped⟩ := orderly.helper (helper.mp member)
    exact ⟨complete, by simpa [CallData.delete] using helped⟩
  · exact Nat.le_trans (List.Sublist.count_le _ List.filter_sublist) orderly.single
  · exact orderly.awaited
  · intro other member
    rw [left] at member
    obtain ⟨before, apart⟩ := List.mem_filter.mp member
    have same : (s.delete watcher).queue.count (.watcher other) = s.queue.count (.watcher other) :=
      List.count_filter (by simpa using apart)
    simp only [same, helper]
    exact orderly.told other before

omit [DecidableEq W] in
theorem watchers_waitForFinished : s.waitForFinished.watchers = s.watchers := by
  unfold CallData.waitForFinished
  split <;> rfl

theorem Orderly.waitForFinished (orderly : Orderly s) : Orderly s.waitForFinished := by
  have same := watchers_waitForFinished (s := s)
  unfold CallData.waitForFinished at same ⊢
  split
  · exact orderly
  · rename_i waits
    rw [if_neg waits] at same
    constructor
    · rw [same]
      exact orderly.nodup
    · rw [same]
      exact orderly.posted
    · exact fun member => ⟨(orderly.helper member).1, Option.some_ne_none _⟩
    · exact orderly.single
    · exact orderly.awaited
    · rw [same]
      exact orderly.told

omit [DecidableEq W] in
@[simp] theorem error_emitSignals : s.emitSignals.error = s.error := rfl

omit [DecidableEq W] in
@[simp] theorem awaited_emitSignals : s.emitSignals.awaited = s.awaited := rfl

omit [DecidableEq W] in
@[simp] theorem emitted_emitSignals : s.emitSignals.emitted = s.emitted := rfl

omit [DecidableEq W] in
theorem mem_emitSignals : e ∈ s.emitSignals.queue ↔ e ∈ s.queue ∨ ∃ watcher ∈ s.watchers, .watcher watcher = e := by
  rw [CallData.emitSignals, List.mem_append, List.mem_map]

theorem count_emitSignals (nodup : s.watchers.Nodup) (member : watcher ∈ s.watchers) :
    s.emitSignals.queue.count (.watcher watcher) = s.queue.count (.watcher watcher) + 1 := by
  have injective : Function.Injective (Posted.watcher (W := W)) := fun _ _ => Posted.watcher.inj
  rw [CallData.emitSignals, List.count_append, List.count_map_of_injective _ _ injective, List.count_eq_one_of_mem nodup member]

theorem count_helper_emitSignals : s.emitSignals.queue.count .helper = s.queue.count .helper := by
  have none : (s.watchers.map Posted.watcher).count .helper = 0 := List.count_eq_zero.mpr (by simp)
  rw [CallData.emitSignals, List.count_append, none, Nat.add_zero]

/-- The signal of the helper, when nobody has been told and it is not posted any more. -/
theorem Orderly.emitSignals {t : CallData W V} (nodup : t.watchers.Nodup)
    (posted : ∀ watcher, .watcher watcher ∈ t.queue → watcher ∈ t.watchers) (quiet : .helper ∉ t.queue)
    (complete : t.error ≠ .InvalidMessage) (awaited : t.awaited = false)
    (untold : ∀ watcher ∈ t.watchers, t.emitted watcher + t.queue.count (.watcher watcher) = 0) : Orderly t.emitSignals := by
  have silent : .helper ∉ t.emitSignals.queue := by
    rw [← List.count_eq_zero, count_helper_emitSignals]
    exact List.count_eq_zero.mpr quiet
  constructor
  · exact nodup
  · intro watcher member
    rcases mem_emitSignals.mp member with before | ⟨other, inside, same⟩
    · exact posted watcher before
    · exact Posted.watcher.inj same ▸ inside
  · exact fun member => absurd member silent
  · rw [List.count_eq_zero.mpr silent]
    exact Nat.zero_le _
  · simp [awaited]
  · intro watcher member
    have before := untold watcher member
    rw [count_emitSignals nodup member, error_emitSignals, emitted_emitSignals, if_neg (not_or.mpr ⟨complete, silent⟩)]
    omega

theorem Orderly.deliver (orderly : Orderly s) (member : e ∈ s.queue) : Orderly (s.deliver e) := by
  cases e with
  | helper =>
    obtain ⟨complete, _⟩ := orderly.helper member
    apply Orderly.emitSignals
    · exact orderly.nodup
    · exact fun watcher inside => orderly.posted watcher (List.mem_of_mem_erase inside)
    · rw [← List.count_eq_zero, List.count_erase_self]
      exact Nat.sub_eq_zero_of_le orderly.single
    · exact complete
    · exact Bool.eq_false_iff.mpr fun waits => complete (orderly.awaited waits)
    · intro watcher inside
      have untold := orderly.told watcher inside
      rw [if_pos (.inr member)] at untold
      rw [List.count_erase_of_ne (by simp)]
      exact untold
  | watcher watcher =>
    have helper : Posted.helper ∈ s.queue.erase (.watcher watcher) ↔ .helper ∈ s.queue := List.mem_erase_of_ne (by simp)
    constructor
    · exact orderly.nodup
    · exact fun other inside => orderly.posted other (List.mem_of_mem_erase inside)
    · exact fun inside => orderly.helper (helper.mp inside)
    · exact Nat.le_trans (List.Sublist.count_le _ List.erase_sublist) orderly.single
    · exact orderly.awaited
    · intro other inside
      have told := orderly.told other inside
      have positive := List.count_pos_iff.mpr member
      unfold CallData.deliver
      dsimp only
      rw [if_congr (or_congr_right helper) rfl rfl, ← told]
      by_cases same : other = watcher
      · subst same
        rw [Function.update_self, List.count_erase_self]
        omega
      · rw [Function.update_of_ne same, List.count_erase_of_ne (by simpa using same)]

theorem count_deliver : (s.deliver e).queue.count e = s.queue.count e - 1 := by
  cases e with
  | helper => exact count_helper_emitSignals.trans List.count_erase_self
  | watcher watcher => exact List.count_erase_self

theorem Orderly.sendPostedEvents (orderly : Orderly s) : Orderly (s.sendPostedEvents e) := by
  unfold CallData.sendPostedEvents
  generalize counted : s.queue.count e = n
  induction n generalizing s with
  | zero => exact orderly
  | succ n ih =>
    rw [Function.iterate_succ_apply]
    have member : e ∈ s.queue := List.count_pos_iff.mp (by omega)
    exact ih (orderly.deliver member) (by rw [count_deliver, counted, Nat.add_sub_cancel])

theorem Orderly.notifyAboutReply (orderly : Orderly s) (waits : s.awaited) (value : V) : Orderly (s.notifyAboutReply value) := by
  have incomplete := orderly.awaited waits
  have quiet : .helper ∉ s.queue := fun member => (orderly.helper member).1 incomplete
  have untold : ∀ watcher ∈ s.watchers, s.emitted watcher + s.queue.count (.watcher watcher) = 0 := by
    intro watcher member
    have told := orderly.told watcher member
    rwa [if_pos (.inl incomplete)] at told
  unfold CallData.notifyAboutReply
  dsimp only
  split
  · exact .emitSignals orderly.nodup orderly.posted quiet nofun rfl untold
  · rename_i unhelped
    have none := watchers_of_unwatched (Option.not_isSome_iff_eq_none.mp unhelped)
    constructor
    · exact orderly.nodup
    · exact orderly.posted
    · exact fun member => absurd member quiet
    · exact orderly.single
    · exact nofun
    · intro watcher member
      have inside : watcher ∈ s.watchers := member
      rw [none] at inside
      contradiction

theorem orderly_step {e : Event W V} (orderly : Orderly s) (inTime : CreatedInTime s e) (head : step s e = some t) : Orderly t := by
  cases e with
  | create watcher =>
    rw [step] at head
    split at head
    · contradiction
    · rename_i new
      obtain rfl := Option.some.inj head
      exact orderly.create new (inTime new)
  | delete watcher =>
    rw [step] at head
    split at head
    · obtain rfl := Option.some.inj head
      exact orderly.delete
    · contradiction
  | waitForFinished =>
    obtain rfl := Option.some.inj head
    exact orderly.waitForFinished
  | sendPostedEvents watcher =>
    rw [step] at head
    split at head
    · obtain rfl := Option.some.inj head
      exact orderly.sendPostedEvents.sendPostedEvents
    · contradiction
  | notifyAboutReply value =>
    rw [step] at head
    split at head
    · rename_i waits
      obtain rfl := Option.some.inj head
      exact orderly.notifyAboutReply waits value
    · contradiction
  | processEvent =>
    obtain ⟨e, first, rfl⟩ := Option.map_eq_some_iff.mp head
    exact orderly.deliver (List.mem_of_mem_head? first)

/-- A late watcher: nothing that is posted will tell it. -/
structure Late (s : CallData W V) (watcher : W) : Prop where
  complete : s.error ≠ .InvalidMessage
  watches : watcher ∈ s.watchers
  untold : s.emitted watcher = 0
  unposted : .watcher watcher ∉ s.queue
  quiet : .helper ∉ s.queue

theorem Late.drained (late : Late s watcher) :
    ∃ u, exec step s (List.replicate s.queue.length .processEvent) = some u ∧ u.queue = [] ∧ watcher ∈ u.watchers ∧
      u.emitted watcher = 0 := by
  generalize posted : s.queue = queue
  induction queue generalizing s with
  | nil => exact ⟨s, rfl, posted, late.watches, late.untold⟩
  | cons e queue ih =>
    have quiet := late.quiet
    have unposted := late.unposted
    rw [posted, List.mem_cons, not_or] at quiet unposted
    cases e with
    | helper => exact absurd rfl quiet.1
    | watcher other =>
      have apart : watcher ≠ other := fun same => unposted.1 (same ▸ rfl)
      have rest : (s.deliver (.watcher other)).queue = queue := by
        rw [CallData.deliver, posted, List.erase_cons_head]
      have still : Late (s.deliver (.watcher other)) watcher := by
        refine ⟨late.complete, late.watches, ?_, ?_, ?_⟩
        · exact (Function.update_of_ne apart _ _).trans late.untold
        · rw [rest]
          exact unposted.2
        · rw [rest]
          exact quiet.2
      obtain ⟨u, run, drained⟩ := ih still rest
      refine ⟨u, exec_cons.mpr ⟨_, ?_, run⟩, drained⟩
      rw [step, posted]
      rfl

theorem late_create (orderly : Orderly s) (new : watcher ∉ s.watchers) (complete : s.error ≠ .InvalidMessage)
    (helped : s.watcherHelper ≠ none) (quiet : .helper ∉ s.queue) : Late (s.create watcher) watcher := by
  obtain ⟨watchers, helper⟩ := Option.ne_none_iff_exists'.mp helped
  unfold CallData.create
  rw [helper]
  refine ⟨complete, ?_, Function.update_self _ _ _, fun posted => new (orderly.posted watcher posted), quiet⟩
  exact List.mem_append_right _ (List.mem_singleton_self watcher)

end Invariant

section Main
variable {s t : CallData W V}

/-- While the event queue drains nothing else happens. -/
theorem orderly_drain (orderly : Orderly s) (complete : s.error ≠ .InvalidMessage) (n : Nat)
    (run : exec step s (List.replicate n .processEvent) = some t) : Orderly t ∧ t.error ≠ .InvalidMessage := by
  induction n generalizing s with
  | zero =>
    obtain rfl := Option.some.inj run
    exact ⟨orderly, complete⟩
  | succ n ih =>
    obtain ⟨middle, head, tail⟩ := exec_cons.mp run
    have after := orderly_step orderly (by trivial) head
    obtain ⟨e, _, rfl⟩ := Option.map_eq_some_iff.mp head
    refine ih after ?_ tail
    cases e <;> exact complete

theorem toldOnce_iff (orderly : Orderly s) (e : Event W V) : ToldOnce s e ↔ CreatedInTime s e := by
  constructor
  · intro told
    cases e with
    | create watcher =>
      intro new complete
      by_contra inTime
      obtain ⟨helped, quiet⟩ := not_or.mp inTime
      have late := late_create orderly new complete helped quiet
      obtain ⟨u, run, drained, watches, untold⟩ := late.drained
      have once := told _ (if_neg new) late.complete _ u run drained watcher watches
      rw [untold] at once
      contradiction
    | _ => trivial
  · intro inTime t head complete n u run drained watcher watches
    obtain ⟨after, completed⟩ := orderly_drain (orderly_step orderly inTime head) complete n run
    have told := after.told watcher watches
    rwa [drained, List.count_nil, if_neg (not_or.mpr ⟨completed, List.not_mem_nil⟩)] at told

/-- Every watcher is told once in a run exactly if each is created before the helper's signal. -/
theorem toldOnce_run_iff (origin : Origin V) (es : List (Event W V)) :
    Admitted step ToldOnce (CallData.start origin) es ↔ Admitted step CreatedInTime (CallData.start origin) es := by
  refine admitted_iff_of_kept (fun orderly told head => ?_) (fun orderly => toldOnce_iff orderly _) (Orderly.start origin)
  exact orderly_step orderly ((toldOnce_iff orderly _).mp told) head

/-- Two watchers, of which the second is created when the reply has come and the first was told. -/
theorem lateWatcher_untold : ¬ Admitted step ToldOnce (CallData.start .sent : CallData Nat Nat)
    [.create 0, .notifyAboutReply 7, .processEvent, .create 1] := by
  intro admitted
  have last := (((admitted.2 _ rfl).2 _ rfl).2 _ rfl).1
  have told := last _ rfl (by decide) 0 _ rfl rfl 1 (by decide)
  contradiction

end Main
end RemoteObjects.Replica.PendingCall
