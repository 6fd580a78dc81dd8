import Mathlib.Logic.Function.Basic
import RemoteObjects.Transition

/-! `QRemoteObjectSourceIo` from the invoke packet to its reply. Between the two, other
packets may be read: while a slot runs an event loop of its own, and while the call that
a proxied source returns is pending. -/
namespace RemoteObjects.Source
open Transition

/-- `QMetaObject::InvokeMetaMethod`; any other call of an invoke packet writes a property. -/
def invokeMetaMethod : Int := 0

structure Invoke (S V : Type) where
  name : S
  call : Int
  index : Int
  args : List V
  serialId : Int
deriving DecidableEq

/-- A packet as `read` delivers it. Neither an unknown type nor an object list comes
with a name. -/
inductive Incoming (S V : Type)
  | unnamed
  | named (name : S)
  | invoke (packet : Invoke S V)
deriving DecidableEq

def Incoming.name : Incoming S V → Option S
  | .unnamed => none
  | .named name => some name
  | .invoke packet => some packet.name

/-- The index function of the `SourceApiMap`, negative where the index is invalid. -/
structure SourceObject where
  sourceMethodIndex : Int → Int

inductive Return (V : Type)
  | value (v : V)
  | pendingCall
deriving DecidableEq

/-- What the handler keeps of an invoke packet until its reply: a local variable while
the slot runs, a capture of the lambda afterwards. `packet` is the position of the invoke
packet among all that were read. -/
structure Captured where
  connection : Nat
  serialId : Int
  packet : Nat
deriving DecidableEq

/-- `invoking` holds the slots that have not returned, the innermost first. -/
structure SourceIo (S V : Type) where
  rxName : S
  sourceObjects : S → Option SourceObject
  connections : List Nat
  invoking : List Captured
  watchers : List Captured
  received : List (Incoming S V)

structure Reply (S V : Type) where
  connection : Nat
  name : S
  ackedSerialId : Int
  value : V
  packet : Nat
deriving DecidableEq

/-- `finished` is the signal of a watcher, with a value unless the call has failed. -/
inductive Event (S V : Type)
  | connected (connection : Nat)
  | disconnected (connection : Nat)
  | enableRemoting (name : S) (source : SourceObject)
  | disableRemoting (name : S)
  | read (connection : Nat) (packet : Incoming S V)
  | returned (result : Return V)
  | finished (watcher : Nat) (result : Option V)

namespace SourceIo
variable {S V : Type} (s : SourceIo S V)

def new (rxName : S) : SourceIo S V := ⟨rxName, fun _ => none, [], [], [], []⟩

/-- `QtROIoDeviceBase::read` on the connection. -/
def read (packet : Incoming S V) : SourceIo S V :=
  { s with rxName := packet.name.getD s.rxName, received := s.received ++ [packet] }

/-- The slot is started for a valid method of a known object. A property write has no
reply. -/
def invoke (connection : Nat) (packet : Invoke S V) : SourceIo S V :=
  match s.sourceObjects s.rxName with
  | none => s
  | some source =>
    if packet.call = invokeMetaMethod then
      if source.sourceMethodIndex packet.index < 0 then s
      else { s with invoking := ⟨connection, packet.serialId, s.received.length - 1⟩ :: s.invoking }
    else s

def onServerRead (connection : Nat) (packet : Incoming S V) : SourceIo S V :=
  match packet with
  | .invoke invoked => (s.read packet).invoke connection invoked
  | _ => s.read packet

/-- The reply to a call that is over, under the name that was read last. -/
def reply (call : Captured) (value : V) : Reply S V :=
  ⟨call.connection, s.rxName, call.serialId, value, call.packet⟩

end SourceIo

section Runs
variable {S V : Type}

def step [DecidableEq S] (s : SourceIo S V) : Event S V → Option (SourceIo S V)
  | .connected connection => some { s with connections := connection :: s.connections }
  | .disconnected connection =>
    -- The watchers are children of the connection.
    some { s with
      connections := s.connections.filter (· ≠ connection)
      watchers := s.watchers.filter (·.connection ≠ connection) }
  | .enableRemoting name source =>
    some { s with sourceObjects := Function.update s.sourceObjects name (some source) }
  | .disableRemoting name =>
    some { s with sourceObjects := Function.update s.sourceObjects name none }
  | .read connection packet =>
    if connection ∈ s.connections then some (s.onServerRead connection packet) else none
  | .returned result =>
    match s.invoking with
    | [] => none
    | call :: outer =>
      let s := { s with invoking := outer }
      match result with
      | .pendingCall =>
        if call.serialId ≥ 0 then some { s with watchers := s.watchers ++ [call] } else some s
      | .value _ => some s
  | .finished watcher _ =>
    if watcher < s.watchers.length then some { s with watchers := s.watchers.eraseIdx watcher }
    else none

/-- The call that the event completes with a value. -/
def completed (s : SourceIo S V) : Event S V → Option (Captured × V)
  | .returned (.value v) => (s.invoking.head?.filter (·.serialId ≥ 0)).map (·, v)
  | .finished watcher (some v) => s.watchers[watcher]?.map (·, v)
  | _ => none

/-- The reply packet that the event makes the host write. -/
def written (s : SourceIo S V) (e : Event S V) : Option (Reply S V) :=
  (completed s e).map fun (call, v) => s.reply call v

/-- The name in the last packet that has one, on whatever connection it was read. -/
def lastName (received : List (Incoming S V)) : Option S :=
  (received.filterMap Incoming.name).getLast?

/-- A reply that is written carries the name and the serial id of the packet it answers. -/
def RepliesAddressed (s : SourceIo S V) (e : Event S V) : Prop :=
  ∀ reply ∈ written s e, ∃ invoked, s.received[reply.packet]? = some (.invoke invoked) ∧
    reply.name = invoked.name ∧ reply.ackedSerialId = invoked.serialId

/-- A call that asks for a reply is completed while the last name read is that of its
own packet. -/
def NoneBetween (s : SourceIo S V) (e : Event S V) : Prop :=
  ∀ call ∈ completed s e, lastName s.received = s.received[call.1.packet]?.bind Incoming.name

/-- What was captured is the serial id of the packet at that position. -/
def Origin (received : List (Incoming S V)) (call : Captured) : Prop :=
  ∃ invoked, received[call.packet]? = some (.invoke invoked) ∧ call.serialId = invoked.serialId

structure Captures (s : SourceIo S V) : Prop where
  name : ∀ name, lastName s.received = some name → s.rxName = name
  invoking : ∀ call ∈ s.invoking, Origin s.received call
  watchers : ∀ call ∈ s.watchers, Origin s.received call

end Runs

section Invariant
variable {S V : Type} {s t : SourceIo S V}

theorem lastName_append (received : List (Incoming S V)) (packet : Incoming S V) :
    lastName (received ++ [packet]) = packet.name.or (lastName received) := by
  unfold lastName
  cases named : packet.name <;>
    simp only [List.filterMap_append, List.filterMap_cons, List.filterMap_nil, named,
      List.append_nil, List.getLast?_append, List.getLast?_singleton, Option.none_or,
      Option.some_or]

theorem Origin.append {call : Captured} {received : List (Incoming S V)} (origin : Origin received call)
    (packet : Incoming S V) : Origin (received ++ [packet]) call := by
  obtain ⟨invoked, found, serialId⟩ := origin
  refine ⟨invoked, ?_, serialId⟩
  obtain ⟨inside, _⟩ := List.getElem?_eq_some_iff.mp found
  rwa [List.getElem?_append_left inside]

theorem Captures.initial (rxName : S) : Captures (.new rxName : SourceIo S V) where
  name _ found := nomatch found
  invoking _ member := nomatch member
  watchers _ member := nomatch member

theorem Captures.read (kept : Captures s) (packet : Incoming S V) : Captures (s.read packet) where
  name last found := by
    rw [SourceIo.read, lastName_append] at found
    cases named : packet.name with
    | none =>
      rw [named, Option.none_or] at found
      simp only [SourceIo.read, named, Option.getD_none]
      exact kept.name last found
    | some name =>
      rw [named, Option.some_or] at found
      simp only [SourceIo.read, named, Option.getD_some]
      exact Option.some.inj found
  invoking call member := (kept.invoking call member).append packet
  watchers call member := (kept.watchers call member).append packet

theorem Captures.onServerRead (kept : Captures s) (connection : Nat) (packet : Incoming S V) :
    Captures (s.onServerRead connection packet) := by
  have received := kept.read packet
  cases packet with
  | unnamed => exact received
  | named name => exact received
  | invoke invoked =>
    simp only [SourceIo.onServerRead, SourceIo.invoke]
    split
    · exact received
    · split
      · split
        · exact received
        · refine ⟨received.name, ?_, received.watchers⟩
          intro call member
          rcases List.mem_cons.mp member with rfl | before
          · refine ⟨invoked, ?_, rfl⟩
            simp only [SourceIo.read, List.length_append, List.length_singleton,
              Nat.add_sub_cancel, List.getElem?_concat_length]
          · exact received.invoking call before
      · exact received

theorem captures_step [DecidableEq S] {e : Event S V} (kept : Captures s) (stepped : step s e = some t) :
    Captures t := by
  obtain ⟨name, invoking, watchers⟩ := kept
  cases e with
  | connected | enableRemoting | disableRemoting =>
    cases stepped
    exact ⟨name, invoking, watchers⟩
  | disconnected connection =>
    cases stepped
    exact ⟨name, invoking, fun call member => watchers call (List.mem_filter.mp member).1⟩
  | read connection packet =>
    simp only [step] at stepped
    split at stepped <;> cases stepped
    exact Captures.onServerRead ⟨name, invoking, watchers⟩ connection packet
  | returned result =>
    simp only [step] at stepped
    split at stepped
    · contradiction
    · rename_i call outer running
      have origins := List.forall_mem_cons.mp (running ▸ invoking)
      cases result with
      | pendingCall =>
        simp only at stepped
        split at stepped <;> cases stepped
        · refine ⟨name, origins.2, ?_⟩
          intro watcher member
          rcases List.mem_append.mp member with before | added
          · exact watchers watcher before
          · obtain rfl := List.mem_singleton.mp added
            exact origins.1
        · exact ⟨name, origins.2, watchers⟩
      | value v =>
        cases stepped
        exact ⟨name, origins.2, watchers⟩
  | finished watcher result =>
    simp only [step] at stepped
    split at stepped <;> cases stepped
    exact ⟨name, invoking, fun call member => watchers call (List.mem_of_mem_eraseIdx member)⟩

/-- A completed call was captured from an invoke packet. -/
theorem completed_origin {e : Event S V} (kept : Captures s) :
    ∀ call ∈ completed s e, Origin s.received call.1 := by
  intro call done
  unfold completed at done
  split at done
  · obtain ⟨captured, found, rfl⟩ := Option.map_eq_some_iff.mp done
    have head := (Option.filter_eq_some_iff.mp found).1
    exact kept.invoking captured (List.mem_of_head? head)
  · obtain ⟨captured, found, rfl⟩ := Option.map_eq_some_iff.mp done
    exact kept.watchers captured (List.mem_of_getElem? found)
  · contradiction

theorem Origin.lastName_isSome {call : Captured} {received : List (Incoming S V)}
    (origin : Origin received call) : ∃ last, lastName received = some last := by
  obtain ⟨invoked, found, _⟩ := origin
  have named : invoked.name ∈ received.filterMap Incoming.name :=
    List.mem_filterMap.mpr ⟨_, List.mem_of_getElem? found, rfl⟩
  exact ⟨_, List.getLast?_eq_some_getLast (List.ne_nil_of_mem named)⟩

end Invariant

/-- The reply to a call carries its name if no other name was read behind its packet. -/
theorem repliesAddressed_step {S V : Type} {s : SourceIo S V} {e : Event S V} (kept : Captures s) :
    RepliesAddressed s e ↔ NoneBetween s e := by
  simp only [RepliesAddressed, NoneBetween, written, Option.mem_def, Option.map_eq_some_iff,
    forall_exists_index, and_imp, forall_apply_eq_imp_iff₂]
  refine forall₂_congr fun call done => ?_
  have origin := completed_origin kept call done
  obtain ⟨last, read⟩ := origin.lastName_isSome
  obtain ⟨invoked, found, serialId⟩ := origin
  simp only [SourceIo.reply, found, read, kept.name last read, serialId, Option.some.injEq,
    Incoming.invoke.injEq, exists_eq_left', and_true, Option.bind_some, Incoming.name]

/-- In every run, all replies go to the call whose result they carry exactly when no call
is completed behind a packet for another object. -/
theorem repliesAddressed_iff {S V : Type} [DecidableEq S] (rxName : S) (es : List (Event S V)) :
    Admitted step RepliesAddressed (.new rxName) es ↔ Admitted step NoneBetween (.new rxName) es :=
  admitted_iff (P := Captures) captures_step repliesAddressed_step (.initial rxName)

section Overtaken

/-- A source with one method. -/
def single : SourceObject where
  sourceMethodIndex index := if index = 0 then 5 else -1

/-- Two proxied objects are called on one connection, the first call ends first. -/
def overtaken : List (Event String Nat) :=
  [.connected 1, .enableRemoting "thermostat" single, .enableRemoting "lamp" single,
    .read 1 (.invoke ⟨"thermostat", invokeMetaMethod, 0, [], 1⟩), .returned .pendingCall,
    .read 1 (.invoke ⟨"lamp", invokeMetaMethod, 0, [], 1⟩), .returned .pendingCall,
    .finished 0 (some 21)]

/-- The value of the first object is sent as the reply of call 1 of the second one. -/
theorem overtaken_misaddressed : ¬ Admitted step RepliesAddressed (.new "") overtaken := by
  intro addressed
  obtain ⟨invoked, found, name, _⟩ := addressed.last (e := .finished 0 (some 21)) rfl rfl _ rfl
  cases found
  exact absurd name (by decide)

end Overtaken
end RemoteObjects.Source
