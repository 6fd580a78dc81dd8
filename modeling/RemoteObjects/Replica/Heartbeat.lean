import RemoteObjects.Replica.SerialIds

/-! Which ping makes the heartbeat give up a connection. Entry 0 of the pending calls
outlives the connection, so a ping of an earlier session can be held against a later one. -/
namespace RemoteObjects.Replica
open Transition Implementation

section Spec
variable {P : Type} (s : Implementation P) (p : P)

/-- A call with reply leaves the heartbeat's entry and the connection alone. -/
theorem sendWithReply_heartbeat (positive : 1 ≤ s.takeSerialId.1) :
    (s.sendWithReply p).2.connected = s.connected ∧
      (s.sendWithReply p).2.pendingCalls.lookup 0 = s.pendingCalls.lookup 0 := by
  unfold sendWithReply
  split
  · have other : (0 : Int) ≠ s.takeSerialId.1 := by omega
    rw [sendCommandWithReply_connected, sendCommandWithReply_lookup _ _ _ 0 other,
      takeSerialId_connected, takeSerialId_pendingCalls]
    exact ⟨rfl, rfl⟩
  · exact ⟨rfl, rfl⟩

theorem heartbeat_unresponsive :
    (s.heartbeat p).1 = .unresponsive ↔ 0 ∈ s.pendingCalls ∧ s.connected := by
  unfold heartbeat
  simp only
  constructor
  · intro given
    split at given
    · rename_i pending
      split at given
      · rename_i connected
        exact ⟨pending, connected⟩
      · contradiction
    · split at given
      · split at given <;> contradiction
      · contradiction
  · rintro ⟨pending, connected⟩
    simp only [pending, connected, if_true]

/-- What the handler leaves pending for the heartbeat is the ping it has sent. -/
theorem heartbeat_pending :
    ∀ q, (s.heartbeat p).2.pendingCalls.lookup 0 = some q →
      q = p ∧ (s.heartbeat p).1 = .pinged := by
  intro q
  have erased : (s.pendingCalls.erase 0).lookup 0 = none := AList.lookup_erase 0 s.pendingCalls
  unfold heartbeat
  simp only
  split
  · split
    · simp only [disconnect_pendingCalls, erased, reduceCtorEq, false_implies]
    · simp only [erased, reduceCtorEq, false_implies]
  · rename_i free
    split
    · obtain ⟨t, same, _, _, pending⟩ | ⟨t, same, _, _, pending⟩ :=
        sendCommandWithReply_cases { s with timerActive := false } p 0
      · simp only [same, pending, AList.lookup_insert, Option.some.injEq, and_true]
        exact Eq.symm
      · simp only [same, disconnect_pendingCalls, pending, AList.lookup_eq_none.mpr free,
          reduceCtorEq, false_implies]
    · simp only [AList.lookup_eq_none.mpr free, reduceCtorEq, false_implies]

end Spec

/-- The ping for want of whose pong the connection is given up was sent when the timer
expired before, on the session that is on. -/
def OwnPing (s : State) (e : Event) : Prop :=
  e = .timeout → s.impl.timerActive → (s.impl.heartbeat s.expired.now).1 = .unresponsive →
    s.impl.pendingCalls.lookup 0 = some s.now

/-- A replica is attached with no ping pending but one of the session it is attached to. -/
def AttachedClean (s : State) (e : Event) : Prop :=
  e = .setConnection → ¬ s.impl.connected → ∀ ping ∈ s.impl.pendingCalls.lookup 0,
    ping.device = s.device ∧ ping.session = s.sessions s.device

instance (s : State) (e : Event) : Decidable (AttachedClean s e) := by
  unfold AttachedClean
  infer_instance

/-- A pending ping is the last one, and of this session while there is a connection. -/
structure PingKept (s : State) : Prop where
  counted : Counted s.impl
  last : ∀ ping, s.impl.pendingCalls.lookup 0 = some ping → ping.expiries = s.expiries
  own : s.impl.connected → ∀ ping, s.impl.pendingCalls.lookup 0 = some ping →
    ping.device = s.device ∧ ping.session = s.sessions s.device

section Invariant
variable {s t : State}

theorem PingKept.initial (isClientIo : Bool) (interval : Nat) :
    PingKept (.initial isClientIo interval) where
  counted := .initial isClientIo interval
  last ping pending := by cases pending
  own connected := by cases connected

/-- A step that neither attaches the replica nor adds a ping. -/
theorem PingKept.withImpl {impl : Implementation Stamp} (kept : PingKept s) (counted : Counted impl)
    (connected : impl.connected = s.impl.connected)
    (fewer : ∀ ping, impl.pendingCalls.lookup 0 = some ping →
      s.impl.pendingCalls.lookup 0 = some ping) : PingKept { s with impl } where
  counted := counted
  last ping pending := kept.last ping (fewer ping pending)
  own attached ping pending := kept.own (connected ▸ attached) ping (fewer ping pending)

theorem PingKept.timeout (kept : PingKept s) (stepped : step s .timeout = some t) : PingKept t := by
  have counted := counted_step kept.counted stepped
  have pending := heartbeat_pending s.impl s.expired.now
  simp only [step] at stepped
  split at stepped
  · split at stepped <;> rename_i same <;> rw [same] at pending <;> cases stepped
    · exact ⟨counted, fun ping left => (by cases (pending ping left).2),
        fun _ ping left => (by cases (pending ping left).2)⟩
    · exact ⟨counted, fun ping left => (by cases (pending ping left).2),
        fun _ ping left => (by cases (pending ping left).2)⟩
    · constructor
      · exact counted
      · intro ping left
        rw [(pending ping left).1]
        rfl
      · intro _ ping left
        rw [(pending ping left).1]
        exact ⟨rfl, rfl⟩
  · contradiction

theorem pingKept_step {e : Event} (kept : PingKept s) (clean : AttachedClean s e)
    (stepped : step s e = some t) : PingKept t := by
  have counted := counted_step kept.counted stepped
  cases e with
  | callWithReply =>
    cases stepped
    obtain ⟨connected, entry⟩ :=
      sendWithReply_heartbeat s.impl s.now kept.counted.takeSerialId.2.1
    exact kept.withImpl counted connected fun _ pending => entry ▸ pending
  | send =>
    cases stepped
    apply kept.withImpl counted
    · exact send_connected s.impl
    · intro ping pending
      rwa [send_pendingCalls] at pending
  | reply id =>
    cases stepped
    apply kept.withImpl counted
    · exact notifyAboutReply_connected s.impl id
    · intro ping pending
      rw [notifyAboutReply_pendingCalls] at pending
      exact lookup_of_erase ping pending
  | timeout => exact kept.timeout stepped
  | setInterval interval =>
    cases stepped
    apply kept.withImpl counted
    · exact startTimer_connected _
    · intro ping pending
      rwa [startTimer_pendingCalls] at pending
  | initialized =>
    cases stepped
    apply kept.withImpl counted
    · exact startTimer_connected _
    · intro ping pending
      rwa [startTimer_pendingCalls] at pending
  | setConnection =>
    cases stepped
    have same := setConnection_pendingCalls s.impl
    -- The one step that connects: the condition is about the ping it finds pending.
    constructor
    · exact counted
    · exact fun ping pending => kept.last ping (same ▸ pending)
    · intro _ ping pending
      have before : s.impl.pendingCalls.lookup 0 = some ping := same ▸ pending
      by_cases attached : s.impl.connected
      · exact kept.own attached ping before
      · exact clean rfl attached ping before
  | removeObject =>
    cases stepped
    exact ⟨counted, kept.last, fun attached => absurd attached Bool.false_ne_true⟩
  | opened =>
    cases stepped
    exact ⟨counted, kept.last, kept.own⟩
  | switched device isClientIo isOpen =>
    simp only [step] at stepped
    split at stepped <;> cases stepped
    rename_i detached
    exact ⟨counted, kept.last, fun attached => absurd attached detached⟩
  | lost device =>
    simp only [step] at stepped
    split at stepped <;> cases stepped
    · exact ⟨counted, kept.last, fun attached => absurd attached Bool.false_ne_true⟩
    · rename_i other
      have same : (s.ended device).sessions s.device = s.sessions s.device :=
        Function.update_of_ne (Ne.symm other) _ _
      refine ⟨counted, kept.last, fun attached ping pending => ?_⟩
      obtain ⟨device, session⟩ := kept.own attached ping pending
      exact ⟨device, session.trans same.symm⟩

end Invariant

/-- In every run that attaches the replica with no ping of another session pending,
a connection is only given up for a ping of its own. -/
theorem ownPing_of_attachedClean (isClientIo : Bool) (interval : Nat) (es : List Event)
    (clean : Admitted step AttachedClean (.initial isClientIo interval) es) :
    Admitted step OwnPing (.initial isClientIo interval) es := by
  refine admitted_of_invariant pingKept_step (fun {s e} kept _ => ?_) clean
    (.initial isClientIo interval)
  rintro rfl active given
  obtain ⟨pending, connected⟩ := (heartbeat_unresponsive s.impl s.expired.now).mp given
  obtain ⟨ping, found⟩ := Option.isSome_iff_exists.mp (AList.lookup_isSome.mpr pending)
  obtain ⟨device, session⟩ := kept.own connected ping found
  have expiries := kept.last ping found
  rw [found]
  cases ping
  simp only [State.now, Option.some.injEq, Stamp.mk.injEq]
  exact ⟨device, session, expiries⟩

/-- The replica is attached again while the ping of the lost session is pending. -/
def reattached : List Event :=
  [.opened, .setConnection, .initialized, .timeout, .lost 0, .opened, .setConnection, .initialized,
    .timeout]

/-- The first expiry after the reconnect gives up a session on which no ping was sent. -/
theorem lostPing_ends_next_session : ¬ Admitted step OwnPing (.initial true 5) reattached := by
  intro own
  have ping := own.last (e := .timeout) rfl rfl rfl (by decide) (by decide)
  exact absurd ping (by decide)

/-- A session whose ping is answered is lost, and the next one given up for its own ping. -/
theorem ownPing_two_sessions : Admitted step OwnPing (.initial true 5)
    [.opened, .setConnection, .timeout, .reply 0, .lost 0, .opened, .setConnection, .timeout,
      .timeout] := by
  apply ownPing_of_attachedClean
  decide

end RemoteObjects.Replica
