import RemoteObjects.Replica.Implementation

/-! Serial ids of calls over runs of any length, with the counter at its end too:
there it stays, and every further call gets id 1. -/
namespace RemoteObjects.Replica
open Transition Implementation

/-- How many calls wait for a reply, the heartbeat not counted. -/
def pendingCount (s : State) : Nat := (s.impl.pendingCalls.keys.filter (· ≠ 0)).length

/-- A call that is sent gets an id of at least 1 that no pending call has. -/
def FreshSerialId (s : State) (e : Event) : Prop :=
  e = .callWithReply → s.impl.connected → s.impl.isOpen → pendingCount s < 2 ^ 31 - 2 →
    1 ≤ s.impl.takeSerialId.1 ∧ s.impl.takeSerialId.1 ∉ s.impl.pendingCalls

/-- With the counter at its maximum, call 1 is not pending. -/
def FirstIsFree (s : State) (e : Event) : Prop :=
  e = .callWithReply → s.impl.connected → s.impl.isOpen → pendingCount s < 2 ^ 31 - 2 →
    s.impl.curSerialId = intMax → 1 ∉ s.impl.pendingCalls

/-- The ids of all pending calls have been counted. -/
structure Counted (s : Implementation Stamp) : Prop where
  positive : 1 ≤ s.curSerialId
  bounded : s.curSerialId ≤ intMax
  pending : ∀ k ∈ s.pendingCalls, 0 ≤ k ∧ k < s.curSerialId

section Invariant
variable {s : Implementation Stamp} {p : Stamp}

theorem Counted.initial (isClientIo : Bool) (interval : Nat) :
    Counted (.new isClientIo interval) where
  positive := Int.le_refl 1
  bounded := show (1 : Int) ≤ intMax by decide
  pending k member := absurd member (AList.notMem_empty k)

/-- Whatever keeps the counter and adds no pending call keeps the invariant. -/
theorem Counted.of_subset {t : Implementation Stamp} (counted : Counted s)
    (counter : t.curSerialId = s.curSerialId)
    (fewer : ∀ k ∈ t.pendingCalls, k ∈ s.pendingCalls) : Counted t where
  positive := counter ▸ counted.positive
  bounded := counter ▸ counted.bounded
  pending k member := counter ▸ counted.pending k (fewer k member)

theorem Counted.erase (counted : Counted s) (id : Int) :
    Counted { s with pendingCalls := s.pendingCalls.erase id } :=
  counted.of_subset rfl fun _ member => (AList.mem_erase.mp member).2

theorem Counted.startTimer (counted : Counted s) : Counted s.startTimer :=
  counted.of_subset (by simp) fun _ member => by simpa using member

theorem Counted.sendCommand (counted : Counted s) : Counted s.sendCommand.2 :=
  counted.of_subset (by simp) fun _ member => by simpa using member

theorem Counted.disconnect (counted : Counted s) : Counted s.disconnect :=
  counted.of_subset (by simp) fun _ member => by simpa using member

/-- An id below the counter may become pending. -/
theorem Counted.sendCommandWithReply {serialId : Int} (counted : Counted s)
    (nonneg : 0 ≤ serialId) (below : serialId < s.curSerialId) :
    Counted (s.sendCommandWithReply p serialId).2 where
  positive := by rw [sendCommandWithReply_curSerialId]; exact counted.positive
  bounded := by rw [sendCommandWithReply_curSerialId]; exact counted.bounded
  pending k member := by
    rw [sendCommandWithReply_curSerialId]
    rcases sendCommandWithReply_pending s p serialId k member with rfl | before
    · exact ⟨nonneg, below⟩
    · exact counted.pending k before

/-- The id that is taken is positive and has been counted, at the maximum too. -/
theorem Counted.takeSerialId (counted : Counted s) :
    Counted s.takeSerialId.2 ∧ 1 ≤ s.takeSerialId.1 ∧
      s.takeSerialId.1 < s.takeSerialId.2.curSerialId := by
  obtain ⟨positive, bounded, pending⟩ := counted
  unfold Implementation.takeSerialId
  split
  · rename_i full
    refine ⟨⟨positive, bounded, pending⟩, Int.le_refl 1, ?_⟩
    simp only [full, intMax]
    omega
  · rename_i more
    refine ⟨⟨?_, ?_, fun k member => ?_⟩, positive, Int.lt_succ _⟩
    · simp only; omega
    · simp only; omega
    · have below := pending k member
      simp only
      omega

theorem Counted.sendWithReply (counted : Counted s) : Counted (s.sendWithReply p).2 := by
  unfold Implementation.sendWithReply
  split
  · obtain ⟨taken, positive, below⟩ := counted.takeSerialId
    exact taken.sendCommandWithReply (by omega) below
  · exact counted

theorem Counted.notifyAboutReply (counted : Counted s) (id : Int) :
    Counted (s.notifyAboutReply id).2 := by
  unfold Implementation.notifyAboutReply
  simp only
  split
  · exact Counted.startTimer ((counted.erase id).of_subset rfl fun _ member => member)
  · exact counted.erase id

theorem Counted.heartbeat (counted : Counted s) : Counted (s.heartbeat p).2 := by
  have stopped : Counted { s with timerActive := false } :=
    counted.of_subset rfl fun _ member => member
  unfold Implementation.heartbeat
  simp only
  split
  · split
    · exact (stopped.erase 0).disconnect
    · exact stopped.erase 0
  · split
    · have positive : 0 < s.curSerialId := counted.positive
      have pinged := stopped.sendCommandWithReply (p := p) (Int.le_refl 0) positive
      split <;> rename_i same <;> rw [same] at pinged
      · exact pinged
      · exact Counted.disconnect (pinged.of_subset rfl fun _ member => member)
    · exact stopped

theorem counted_step {s t : State} {e : Event} (counted : Counted s.impl)
    (stepped : step s e = some t) : Counted t.impl := by
  cases e with
  | callWithReply => cases stepped; exact counted.sendWithReply
  | send =>
    cases stepped
    unfold Implementation.send
    split
    · exact counted.sendCommand
    · exact counted
  | reply id => cases stepped; exact counted.notifyAboutReply id
  | timeout =>
    simp only [step] at stepped
    split at stepped
    · have beaten := counted.heartbeat (p := s.expired.now)
      split at stepped <;> rename_i same <;> rw [same] at beaten <;> cases stepped <;> exact beaten
    · cases stepped
  | setInterval interval =>
    cases stepped
    exact Counted.startTimer (counted.of_subset rfl fun _ member => member)
  | initialized => cases stepped; exact counted.startTimer
  | setConnection =>
    cases stepped
    exact Counted.sendCommand (counted.of_subset rfl fun _ member => member)
  | removeObject | opened => cases stepped; exact counted.of_subset rfl fun _ member => member
  | switched device isClientIo isOpen =>
    simp only [step] at stepped
    split at stepped <;> cases stepped
    exact counted.of_subset rfl fun _ member => member
  | lost device =>
    simp only [step] at stepped
    split at stepped <;> cases stepped
    · exact counted.of_subset rfl fun _ member => member
    · exact counted

end Invariant

/-- In every run, all serial ids are fresh exactly when call 1 is not pending
whenever a call finds the counter at its maximum. -/
theorem freshSerialIds_iff (isClientIo : Bool) (interval : Nat) (es : List Event) :
    Admitted step FreshSerialId (.initial isClientIo interval) es ↔
      Admitted step FirstIsFree (.initial isClientIo interval) es := by
  refine admitted_iff (P := fun s => Counted s.impl) counted_step (fun {s e} counted => ?_)
    (.initial isClientIo interval)
  simp only [FreshSerialId, FirstIsFree, takeSerialId]
  refine forall₄_congr fun _ _ _ _ => ?_
  by_cases full : s.impl.curSerialId = intMax
  · simp only [full, if_true, Int.le_refl, true_and, forall_const]
  · have fresh : s.impl.curSerialId ∉ s.impl.pendingCalls := fun member =>
      Int.lt_irrefl _ (counted.pending _ member).2
    simp only [full, if_false, counted.positive, fresh, not_false_eq_true, and_self,
      false_implies]

section Wrap

/-- `n` calls, each answered before the next one, from id `k` on. -/
def answered : Int → Nat → List Event
  | _, 0 => []
  | k, n + 1 => .callWithReply :: .reply k :: answered (k + 1) n

/-- Connected and without heartbeat, the given calls pending. -/
def ready (k : Int) (pending : AList fun _ : Int => Stamp) : State where
  impl := ⟨true, true, true, k, pending, 0, false⟩
  device := 0
  sessions _ := 0
  expiries := 0

theorem step_call (k : Int) (notFull : k ≠ intMax) (pending : AList fun _ : Int => Stamp) :
    step (ready k pending) .callWithReply = some (ready (k + 1) (pending.insert k ⟨0, 0, 0⟩)) := by
  have taken : (ready k pending).impl.takeSerialId = (k, (ready (k + 1) pending).impl) :=
    if_neg notFull
  have connected : (ready k pending).impl.connected = true := rfl
  simp only [step, Implementation.sendWithReply, connected, if_true, taken]
  rfl

theorem step_reply (k : Int) (counted : k ≠ 0) (j : Int) :
    step (ready j (AList.insert k ⟨0, 0, 0⟩ ∅)) (.reply k) = some (ready j ∅) := by
  have empty : (AList.insert k (⟨0, 0, 0⟩ : Stamp) ∅).erase k = (∅ : AList fun _ : Int => Stamp) := by
    apply AList.ext
    change List.kerase k (AList.insert k (⟨0, 0, 0⟩ : Stamp) (∅ : AList fun _ : Int => Stamp)).entries = []
    rw [AList.entries_insert, AList.empty_entries, List.kerase_nil]
    exact List.kerase_cons_eq rfl
  simp only [step, ready, Implementation.notifyAboutReply, if_neg counted, empty]

theorem exec_answered (k : Int) (n : Nat) (positive : 1 ≤ k) (below : k + n ≤ intMax) :
    exec step (ready k ∅) (answered k n) = some (ready (k + n) ∅) := by
  induction n generalizing k with
  | zero => simp only [answered, exec_nil, Int.natCast_zero, Int.add_zero]
  | succ n ih =>
    push_cast at below ⊢
    rw [answered, exec, step_call k (by omega), Option.bind_some, exec, step_reply k (by omega),
      Option.bind_some, ih (k + 1) (by omega) (by omega)]
    congr 2
    omega

/-- 2^31 - 2 answered calls, then two more without a reply. -/
def wrapped : List Event :=
  [.opened, .setConnection] ++ (answered 1 (2 ^ 31 - 2) ++ [.callWithReply, .callWithReply])

/-- Both calls behind the maximum get id 1, the second one while the first waits. -/
theorem wrapped_reuses_id : ¬ Admitted step FreshSerialId (.initial true 0) wrapped := by
  intro fresh
  have connected : exec step (.initial true 0) [.opened, .setConnection] = some (ready 1 ∅) := rfl
  have full : exec step (ready 1 ∅) (answered 1 (2 ^ 31 - 2)) = some (ready intMax ∅) :=
    exec_answered 1 (2 ^ 31 - 2) (Int.le_refl 1) (by decide)
  have calls := (fresh.behind connected).behind full
  have second := calls.2 _ rfl
  exact (second.1 rfl rfl rfl (by decide)).2 (by decide)

end Wrap
end RemoteObjects.Replica
