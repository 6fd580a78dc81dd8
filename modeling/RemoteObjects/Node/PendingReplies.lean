import RemoteObjects.Replica.Heartbeat

/-! Calls and their replies over one connection. A reply finds its call by object name
and serial id alone, and the serial ids of a new implementation start at 1 again. -/
namespace RemoteObjects.Node
open Transition Replica Implementation

/-- An invoke packet that asks for a reply. `call` numbers the calls of all replicas. -/
structure Request (S : Type) where
  name : S
  serialId : Int
  call : Nat
deriving DecidableEq

/-- An invoke reply packet carries the name and the serial id of its request, and a value. -/
structure Answer (S V : Type) where
  request : Request S
  value : V
deriving DecidableEq

/-- `up` and `down` are the two directions of the connection, `working` the requests the
host has accepted and not yet answered, and `returned` what it returned for which call.
The pending calls of an implementation are its call numbers. -/
structure Calls (S V : Type) where
  replicas : S → Option (Implementation Nat)
  up : List (Request S)
  working : List (Request S)
  down : List (Answer S V)
  issued : Nat
  returned : List (Nat × V)

/-- The host may have no source of that name when it reads a request (`known`), and may
answer requests in any order. -/
inductive CallEvent (S V : Type)
  | acquire (name : S) (interval : Nat)
  | delete (name : S)
  | setConnection (name : S)
  | removeObject (name : S)
  | callWithReply (name : S)
  | serverRead (known : Bool)
  | answer (request : Nat) (value : V)
  | clientRead
deriving DecidableEq

namespace Calls
variable {S V : Type}

def initial : Calls S V := ⟨fun _ => none, [], [], [], 0, []⟩

/-- Requests and replies that are on their way or being worked on. -/
def inFlight (s : Calls S V) : List (Request S) := s.up ++ s.working ++ s.down.map Answer.request

variable [DecidableEq S] (s : Calls S V)

def setReplica (name : S) (impl : Option (Implementation Nat)) : Calls S V :=
  { s with replicas := Function.update s.replicas name impl }

/-- A new implementation, unless there is one that is still in use. -/
def acquire (name : S) (interval : Nat) : Calls S V :=
  match s.replicas name with
  | some _ => s
  | none => s.setReplica name (some { Implementation.new true interval with isOpen := true })

def callWithReply (name : S) (impl : Implementation Nat) : Calls S V :=
  match impl.sendWithReply s.issued with
  | (some serialId, impl) =>
    { s.setReplica name (some impl) with
      up := s.up ++ [⟨name, serialId, s.issued⟩]
      issued := s.issued + 1 }
  | (none, impl) => s.setReplica name (some impl)

/-- `InvokeReplyPacket` in `onClientRead`. -/
def notify (reply : Answer S V) : Calls S V :=
  match s.replicas reply.request.name with
  | none => s
  | some impl =>
    s.setReplica reply.request.name (some (impl.notifyAboutReply reply.request.serialId).2)

end Calls

section Runs
variable {S V : Type}

def callStep [DecidableEq S] (s : Calls S V) : CallEvent S V → Option (Calls S V)
  | .acquire name interval => some (s.acquire name interval)
  | .delete name => some (s.setReplica name none)
  | .setConnection name =>
    (s.replicas name).map fun impl => s.setReplica name (some impl.setConnection)
  | .removeObject name =>
    (s.replicas name).map fun impl => s.setReplica name (some impl.clearConnection)
  | .callWithReply name => (s.replicas name).map fun impl => s.callWithReply name impl
  | .serverRead known =>
    match s.up with
    | [] => none
    | request :: up =>
      some { s with up, working := if known then s.working ++ [request] else s.working }
  | .answer i value =>
    (s.working[i]?).map fun request =>
      { s with
        working := s.working.eraseIdx i
        down := s.down ++ [⟨request, value⟩]
        returned := s.returned ++ [(request.call, value)] }
  | .clientRead =>
    match s.down with
    | [] => none
    | reply :: down => some ({ s with down }.notify reply)

/-- The call that the event completes, and with what value. -/
def completion (s : Calls S V) : CallEvent S V → Option (Nat × V)
  | .clientRead => do
    let reply ← s.down.head?
    let impl ← s.replicas reply.request.name
    let call ← (impl.notifyAboutReply reply.request.serialId).1
    return (call, reply.value)
  | _ => none

/-- A call is completed with a value the host returned for that call. -/
def CompletesOwn (s : Calls S V) (e : CallEvent S V) : Prop :=
  ∀ done ∈ completion s e, done ∈ s.returned

/-- No request or reply in flight has the name and serial id that a call is to get. -/
def SerialFree (s : Calls S V) : CallEvent S V → Prop
  | .callWithReply name => ∀ impl ∈ s.replicas name, impl.connected →
      ∀ request ∈ s.inFlight, request.name = name → request.serialId ≠ impl.takeSerialId.1
  | _ => True

instance [DecidableEq S] (s : Calls S V) (e : CallEvent S V) : Decidable (SerialFree s e) := by
  unfold SerialFree
  split <;> infer_instance

/-- Whatever is in flight under a pending serial id belongs to the call that is pending. -/
structure Matched (s : Calls S V) : Prop where
  own : ∀ name, ∀ impl ∈ s.replicas name, ∀ request ∈ s.inFlight, request.name = name →
    ∀ call ∈ impl.pendingCalls.lookup request.serialId, request.call = call
  returned : ∀ reply ∈ s.down, (reply.request.call, reply.value) ∈ s.returned

end Runs

section Invariant
variable {S V : Type} {s t : Calls S V}

theorem Matched.initial : Matched (.initial : Calls S V) where
  own _ _ replica := nomatch replica
  returned _ member := nomatch member

/-- The channels stay, and the replica of one name gets no further pending call. -/
theorem Matched.setReplica [DecidableEq S] (matched : Matched s) (name : S)
    {impl : Option (Implementation Nat)} (fewer : ∀ new ∈ impl, ∀ id, ∀ call ∈ new.pendingCalls.lookup id,
      ∃ old ∈ s.replicas name, call ∈ old.pendingCalls.lookup id) : Matched (s.setReplica name impl) where
  own other replica found request member same call pending := by
    by_cases here : other = name
    · subst here
      have new : replica ∈ impl := by
        simpa only [Calls.setReplica, Function.update_self] using found
      obtain ⟨old, before, waits⟩ := fewer replica new request.serialId call pending
      exact matched.own _ old before request member same call waits
    · have before : replica ∈ s.replicas other := by
        simpa only [Calls.setReplica, Function.update_of_ne here] using found
      exact matched.own other replica before request member same call pending
  returned := matched.returned

/-- The host and the channels pass on what is in flight. -/
theorem Matched.of_subset (matched : Matched s) (replicas : t.replicas = s.replicas)
    (fewer : ∀ request ∈ t.inFlight, request ∈ s.inFlight)
    (returned : ∀ reply ∈ t.down, (reply.request.call, reply.value) ∈ t.returned) : Matched t where
  own name impl found request member :=
    matched.own name impl (replicas ▸ found) request (fewer request member)
  returned := returned

/-- What a call with reply adds: its packet, and its entry under the same serial id. -/
theorem Matched.callWithReply [DecidableEq S] {name : S} {impl : Implementation Nat} (matched : Matched s)
    (found : impl ∈ s.replicas name) (free : SerialFree s (.callWithReply name)) :
    Matched (s.callWithReply name impl) := by
  have unsent : ∀ t : Implementation Nat, t.pendingCalls = impl.pendingCalls →
      Matched (s.setReplica name (some t)) := by
    intro t same
    apply matched.setReplica
    rintro new ⟨⟩ id call pending
    exact ⟨impl, found, same ▸ pending⟩
  by_cases connected : impl.connected
  · have spec := sendCommandWithReply_cases impl.takeSerialId.2 s.issued impl.takeSerialId.1
    simp only [Calls.callWithReply, Implementation.sendWithReply, connected, if_true]
    obtain ⟨t, same, _, _, pending⟩ | ⟨t, same, _, _, pending⟩ := spec
    · rw [same]
      rw [takeSerialId_pendingCalls] at pending
      constructor
      · intro other replica holds request member name_eq call waits
        have older : request = ⟨name, impl.takeSerialId.1, s.issued⟩ ∨ request ∈ s.inFlight := by
          simp only [Calls.inFlight, Calls.setReplica, List.mem_append, List.mem_singleton] at member ⊢
          tauto
        by_cases here : other = name
        · subst here
          simp only [Calls.setReplica, Function.update_self, Option.mem_some_iff] at holds
          subst holds
          rw [pending] at waits
          rcases older with rfl | before
          · rw [AList.lookup_insert] at waits
            exact Option.some.inj waits
          · have unlike := free impl found connected request before name_eq
            rw [AList.lookup_insert_ne unlike] at waits
            exact matched.own other impl found request before name_eq call waits
        · simp only [Calls.setReplica, Function.update_of_ne here] at holds
          rcases older with rfl | before
          · exact absurd name_eq.symm here
          · exact matched.own other replica holds request before name_eq call waits
      · exact matched.returned
    · rw [same]
      exact unsent t (pending.trans (takeSerialId_pendingCalls impl))
  · simp only [Calls.callWithReply, Implementation.sendWithReply, connected]
    exact unsent impl rfl

theorem Matched.notify [DecidableEq S] (matched : Matched s) (reply : Answer S V) :
    Matched (s.notify reply) := by
  unfold Calls.notify
  split
  · exact matched
  · rename_i impl found
    apply matched.setReplica
    rintro new ⟨⟩ id call pending
    rw [notifyAboutReply_pendingCalls] at pending
    exact ⟨impl, found, lookup_of_erase call pending⟩

theorem matched_step [DecidableEq S] {e : CallEvent S V} (matched : Matched s) (free : SerialFree s e)
    (stepped : callStep s e = some t) : Matched t := by
  cases e with
  | acquire name interval =>
    cases stepped
    unfold Calls.acquire
    split
    · exact matched
    · apply matched.setReplica
      rintro new ⟨⟩ id call pending
      cases pending
  | delete name =>
    cases stepped
    exact matched.setReplica name fun _ found => nomatch found
  | setConnection name =>
    obtain ⟨impl, found, rfl⟩ := Option.map_eq_some_iff.mp stepped
    apply matched.setReplica
    rintro new ⟨⟩ id call pending
    exact ⟨impl, found, setConnection_pendingCalls impl ▸ pending⟩
  | removeObject name =>
    obtain ⟨impl, found, rfl⟩ := Option.map_eq_some_iff.mp stepped
    apply matched.setReplica
    rintro new ⟨⟩ id call pending
    exact ⟨impl, found, pending⟩
  | callWithReply name =>
    obtain ⟨impl, found, rfl⟩ := Option.map_eq_some_iff.mp stepped
    exact matched.callWithReply found free
  | serverRead known =>
    simp only [callStep] at stepped
    split at stepped
    · contradiction
    · rename_i request up waiting
      cases stepped
      apply matched.of_subset
      · rfl
      · intro member inside
        cases known <;>
          simp only [Calls.inFlight, waiting, List.mem_append, List.mem_cons, if_true,
            Bool.false_eq_true, if_false] at inside ⊢ <;>
          tauto
      · exact matched.returned
  | answer i value =>
    obtain ⟨request, found, rfl⟩ := Option.map_eq_some_iff.mp stepped
    have working := List.mem_of_getElem? found
    apply matched.of_subset
    · rfl
    · intro member inside
      have erased := fun accepted => List.mem_of_mem_eraseIdx (a := member) (i := i) (l := s.working) accepted
      simp only [Calls.inFlight, List.map_append, List.map_cons, List.map_nil, List.mem_append,
        List.mem_singleton] at inside ⊢
      rcases inside with (waiting | accepted) | answered | rfl
      · exact .inl (.inl waiting)
      · exact .inl (.inr (erased accepted))
      · exact .inr answered
      · exact .inl (.inr working)
    · intro reply member
      rcases List.mem_append.mp member with before | new
      · exact List.mem_append_left _ (matched.returned reply before)
      · obtain rfl := List.mem_singleton.mp new
        exact List.mem_append_right _ (List.mem_singleton_self _)
  | clientRead =>
    simp only [callStep] at stepped
    split at stepped
    · contradiction
    · rename_i reply down arriving
      cases stepped
      apply Matched.notify
      apply matched.of_subset
      · rfl
      · intro member inside
        simp only [Calls.inFlight, arriving, List.map_cons, List.mem_append, List.mem_cons] at inside ⊢
        tauto
      · exact fun later member => matched.returned later (arriving ▸ List.mem_cons_of_mem _ member)

end Invariant
/-- In every run in which no call gets the serial id of a request or reply of its object
that is in flight, calls are completed with their own values only. -/
theorem completesOwn_of_serialFree {S V : Type} [DecidableEq S] (es : List (CallEvent S V))
    (free : Admitted callStep SerialFree .initial es) : Admitted callStep CompletesOwn .initial es := by
  refine admitted_of_invariant matched_step (fun {s e} matched _ => ?_) free .initial
  intro done completed
  cases e with
  | clientRead =>
    simp only [completion, Option.bind_eq_bind, Option.mem_def, Option.bind_eq_some_iff, Option.pure_def,
      Option.some.injEq] at completed
    obtain ⟨reply, arriving, impl, found, call, taken, rfl⟩ := completed
    have member : reply ∈ s.down := List.mem_of_head? arriving
    have waits : impl.pendingCalls.lookup reply.request.serialId = some call := by
      unfold notifyAboutReply at taken
      simp only at taken
      split at taken
      · contradiction
      · exact taken
    have flying : reply.request ∈ s.inFlight :=
      List.mem_append_right _ (List.mem_map_of_mem member)
    have own := matched.own _ impl found reply.request flying rfl call waits
    exact own ▸ matched.returned reply member
  | _ => contradiction

/-- The replica is deleted and acquired again while the reply to its call is on the way. -/
def reacquired : List (CallEvent String Nat) :=
  [.acquire "lamp" 0, .setConnection "lamp", .callWithReply "lamp", .delete "lamp", .acquire "lamp" 0,
    .setConnection "lamp", .callWithReply "lamp", .serverRead true, .answer 0 10, .clientRead]

/-- The reply to the first call completes the second one, which the host has not read. -/
theorem reacquired_completes_other : ¬ Admitted callStep CompletesOwn .initial reacquired := by
  intro own
  have returned := own.last (e := .clientRead) rfl rfl (1, 10) rfl
  exact absurd returned (by decide)

/-- Two calls that are answered in the other order, and a replica that is acquired anew
behind them. -/
theorem completesOwn_reordered : Admitted callStep CompletesOwn .initial
    ([.acquire "lamp" 0, .setConnection "lamp", .callWithReply "lamp", .callWithReply "lamp",
      .serverRead true, .serverRead true, .answer 1 20, .answer 0 10, .clientRead, .clientRead,
      .delete "lamp", .acquire "lamp" 0, .setConnection "lamp", .callWithReply "lamp",
      .serverRead true, .answer 0 30, .clientRead] : List (CallEvent String Nat)) := by
  apply completesOwn_of_serialFree
  decide

end RemoteObjects.Node
