import Mathlib.Algebra.Group.Int.Defs
import Mathlib.Algebra.Group.Nat.Defs
import Mathlib.Data.List.Basic
import RemoteObjects.Transition

/-! The QNX backend from the server to the client: a pulse announces a length, and a request of the client's thread fetches
the bytes. -/
namespace RemoteObjects.Device.Qnx
open Transition

section Model

/-- What `writeData` appends at once, and `QRingBuffer::read` takes at once. -/
abbrev Block := List UInt8

/-- The thread of the client waits for a pulse, or in `MsgSendv` for the reply to what it has sent. -/
inductive ClientThread
  | pulse
  | sourceTxResp (len : Int)
  | sourceTxRespRepeat (bytesLeft : Int)
deriving DecidableEq, Repr

/-- `buffer` has all that was ever appended. Of what has happened, `writes` are the blocks, `handled` counts the pulses and
`fetched` the blocks that were read. -/
structure Connection where
  obuffer : List Block
  announcing : Option Int
  pulses : List Int
  thread : ClientThread
  nTxRequestToIgnore : Int
  buffer : Block
  writes : List Block
  handled : Nat
  fetched : Nat
deriving DecidableEq

inductive Event
  /-- `writeData` up to the unlocking of `obLock`. -/
  | append (data : Block)
  /-- Its `MsgDeliverEvent`. -/
  | deliverEvent
  | receivePulse
  /-- The server's thread handles what the client has sent, and the client goes on with the reply. -/
  | serve

/-- The conversion to `int`. -/
def toInt (n : Int) : Int := n.bmod (2 ^ 32)

/-- The loop of `SOURCE_TX_RESP_REPEAT`: the blocks that are taken with their length, and what stays. -/
def takeBlocks (to_send : Int) : Int → List Block → List Block × Int × List Block
  | len_taken, [] => ([], len_taken, [])
  | len_taken, data :: obuffer =>
    if len_taken = to_send then ([], len_taken, data :: obuffer)
    else
      let (qba_array, taken, rest) := takeBlocks to_send (toInt (len_taken + data.length)) obuffer
      (data :: qba_array, taken, rest)

namespace Connection

def initial : Connection := ⟨[], none, [], .pulse, 0, [], [], 0, 0⟩

/-- `SOURCE_TX_RESP`. -/
def sourceTxResp (len : Int) (net : Connection) : Option Connection :=
  match net.obuffer with
  | data :: rest =>
    if (data.length : Int) = len then
      let bytesLeft := toInt rest.flatten.length
      some { net with
        obuffer := rest
        buffer := net.buffer ++ data
        fetched := net.fetched + 1
        thread := if bytesLeft = 0 then .pulse else .sourceTxRespRepeat bytesLeft }
    else none
  | [] => none

/-- `SOURCE_TX_RESP_REPEAT`, with the place for the reply that the client has reserved. -/
def sourceTxRespRepeat (bytesLeft : Int) (net : Connection) : Option Connection :=
  let (qba_array, len_taken, rest) := takeBlocks bytesLeft 0 net.obuffer
  if 0 < bytesLeft ∧ len_taken = bytesLeft then
    some { net with
      obuffer := rest
      buffer := net.buffer ++ qba_array.flatten.take bytesLeft.toNat
      fetched := net.fetched + qba_array.length
      nTxRequestToIgnore := toInt qba_array.length
      thread := .pulse }
  else none

/-- Writes are not empty. There is no step where an assertion fails. -/
def step (net : Connection) : Event → Option Connection
  | .append data =>
    if data ≠ [] ∧ net.announcing = none then
      if data.length < 2 ^ 31 then
        some { net with
          obuffer := net.obuffer ++ [data]
          announcing := some data.length
          writes := net.writes ++ [data] }
      else some net
    else none
  | .deliverEvent => net.announcing.map fun isize => { net with announcing := none, pulses := net.pulses ++ [isize] }
  | .receivePulse =>
    match net.thread, net.pulses with
    | .pulse, len :: pulses =>
      if net.nTxRequestToIgnore ≠ 0 then
        some { net with pulses, handled := net.handled + 1, nTxRequestToIgnore := net.nTxRequestToIgnore - 1 }
      else some { net with pulses, handled := net.handled + 1, thread := .sourceTxResp len }
    | _, _ => none
  | .serve =>
    match net.thread with
    | .pulse => none
    | .sourceTxResp len => net.sourceTxResp len
    | .sourceTxRespRepeat bytesLeft => net.sourceTxRespRepeat bytesLeft

end Connection
end Model

section Statement
namespace Connection

/-- A pulse is ignored if its block was fetched. The assertions on lengths hold, and each request is served. -/
def Right (net : Connection) : Event → Prop
  | .receivePulse => net.nTxRequestToIgnore ≠ 0 ↔ net.handled < net.fetched
  | .serve => match net.thread with
    | .pulse => True
    | .sourceTxResp len => (net.obuffer.head?.map List.length).map Int.ofNat = some len ∧ (net.sourceTxResp len).isSome
    | .sourceTxRespRepeat bytesLeft =>
        (takeBlocks bytesLeft 0 net.obuffer).2.1 = bytesLeft ∧ (net.sourceTxRespRepeat bytesLeft).isSome
  | _ => True

/-- All pulses are sent and handled. -/
def Handled (net : Connection) : Prop := net.announcing = none ∧ net.pulses = [] ∧ net.thread = .pulse

def Delivered (net : Connection) : Prop :=
  net.buffer <+: net.writes.flatten ∧ (net.Handled → net.buffer = net.writes.flatten)

/-- The protocol for all writes and all interleavings. -/
def PulsesDeliver : Prop :=
  ∀ es, Admitted step Right initial es ∧ ∀ t, exec step initial es = some t → t.Delivered

/-- What is left behind the first block fits an `int` when that block is read. -/
def FewLeft (net : Connection) : Event → Prop
  | .serve => match net.thread with
    | .sourceTxResp _ => net.obuffer.tail.flatten.length < 2 ^ 31
    | _ => True
  | _ => True

end Connection
end Statement

section Lengths
variable {n : Int} {front back : List Block}

theorem toInt_of_lt (positive : 0 ≤ n) (few : n < 2 ^ 31) : toInt n = n := by
  rw [toInt, Int.bmod_def]
  omega

theorem length_le_flatten (full : ∀ data ∈ front, data ≠ []) : front.length ≤ front.flatten.length := by
  induction front with
  | nil => exact Nat.le_refl 0
  | cons data front ih =>
    obtain ⟨here, later⟩ := List.forall_mem_cons.mp full
    have more := List.length_pos_of_ne_nil here
    have rest := ih later
    rw [List.length_cons, List.flatten_cons, List.length_append]
    omega

/-- The loop takes the blocks whose length was announced, and no part of another. -/
theorem takeBlocks_eq {len_taken to_send : Int} (positive : 0 ≤ len_taken) (few : to_send < 2 ^ 31)
    (full : ∀ data ∈ front, data ≠ []) (length : len_taken + front.flatten.length = to_send) :
    takeBlocks to_send len_taken (front ++ back) = (front, to_send, back) := by
  induction front generalizing len_taken with
  | nil =>
    obtain rfl : len_taken = to_send := by simpa using length
    cases back with
    | nil => rfl
    | cons data back => rw [List.nil_append, takeBlocks, if_pos rfl]
  | cons data front ih =>
    obtain ⟨here, later⟩ := List.forall_mem_cons.mp full
    have more := List.length_pos_of_ne_nil here
    rw [List.flatten_cons, List.length_append] at length
    have next : toInt (len_taken + data.length) = len_taken + data.length := toInt_of_lt (by omega) (by omega)
    rw [List.cons_append, takeBlocks, if_neg (by omega), next, ih (by omega) later (by omega)]

end Lengths

section Invariant
variable {net next : Connection} {e : Event}
namespace Connection

/-- What the client's thread knows of the blocks that were read and of the pulses that are still to come. -/
def ThreadKnows (net : Connection) : Prop :=
  match net.thread with
  | .pulse => net.handled ≤ net.fetched ∧ net.nTxRequestToIgnore = net.fetched - net.handled
  | .sourceTxResp len => net.handled = net.fetched + 1 ∧ net.nTxRequestToIgnore = 0 ∧
      ∃ data rest, net.obuffer = data :: rest ∧ (data.length : Int) = len
  | .sourceTxRespRepeat bytesLeft => net.handled = net.fetched ∧ net.nTxRequestToIgnore = 0 ∧
      0 < bytesLeft ∧ bytesLeft < 2 ^ 31 ∧
      ∃ front back, net.obuffer = front ++ back ∧ (front.flatten.length : Int) = bytesLeft

/-- The blocks that were read are in the buffer, the others in `obuffer`. Each pulse that is to come announces its own
block. -/
structure Consistent (net : Connection) : Prop where
  full : ∀ data ∈ net.writes, data ≠ []
  small : ∀ data ∈ net.writes, data.length < 2 ^ 31
  unread : ∃ taken, net.writes = taken ++ net.obuffer ∧ taken.length = net.fetched ∧ net.buffer = taken.flatten
  announced : ∃ past, (net.writes.map fun data => (data.length : Int)) = past ++ (net.pulses ++ net.announcing.toList) ∧
    past.length = net.handled
  knows : net.ThreadKnows

theorem Consistent.initial : initial.Consistent :=
  ⟨nofun, nofun, ⟨[], rfl, rfl, rfl⟩, ⟨[], rfl, rfl⟩, Nat.le_refl _, rfl⟩

theorem Consistent.append {data : Block} (consistent : net.Consistent) (stepped : net.step (.append data) = some next) :
    next.Consistent := by
  rw [step] at stepped
  split at stepped
  · rename_i allowed
    split at stepped
    · rename_i small
      cases stepped
      obtain ⟨taken, blocks, count, bytes⟩ := consistent.unread
      obtain ⟨past, lengths, past'⟩ := consistent.announced
      rw [allowed.2, Option.toList_none, List.append_nil] at lengths
      refine ⟨List.forall_mem_append.mpr ⟨consistent.full, List.forall_mem_singleton.mpr allowed.1⟩,
        List.forall_mem_append.mpr ⟨consistent.small, List.forall_mem_singleton.mpr small⟩,
        ⟨taken, by rw [blocks, List.append_assoc], count, bytes⟩,
        ⟨past, by rw [List.map_append, lengths, List.append_assoc]; rfl, past'⟩, ?_⟩
      have knows := consistent.knows
      rw [ThreadKnows] at knows ⊢
      dsimp only
      cases thread : net.thread with
      | pulse =>
        rw [thread] at knows
        exact knows
      | sourceTxResp len =>
        rw [thread] at knows
        obtain ⟨handled, ignore, first, rest, obuffer, length⟩ := knows
        exact ⟨handled, ignore, first, rest ++ [data], by rw [obuffer]; rfl, length⟩
      | sourceTxRespRepeat bytesLeft =>
        rw [thread] at knows
        obtain ⟨handled, ignore, some', few, front, back, obuffer, length⟩ := knows
        exact ⟨handled, ignore, some', few, front, back ++ [data], by rw [obuffer, List.append_assoc], length⟩
    · cases stepped
      exact consistent
  · contradiction

theorem Consistent.deliverEvent (consistent : net.Consistent) (stepped : net.step .deliverEvent = some next) :
    next.Consistent := by
  rw [step] at stepped
  obtain ⟨isize, announcing, rfl⟩ := Option.map_eq_some_iff.mp stepped
  obtain ⟨past, lengths, past'⟩ := consistent.announced
  rw [announcing] at lengths
  exact ⟨consistent.full, consistent.small, consistent.unread, ⟨past, by rw [lengths]; simp, past'⟩, consistent.knows⟩

/-- The first pulse announces the block of its number. -/
theorem Consistent.first (consistent : net.Consistent) {len : Int} {pulses : List Int} (first : net.pulses = len :: pulses)
    (none : net.handled = net.fetched) : ∃ data rest, net.obuffer = data :: rest ∧ (data.length : Int) = len := by
  obtain ⟨taken, blocks, count, _⟩ := consistent.unread
  obtain ⟨past, lengths, past'⟩ := consistent.announced
  rw [blocks, List.map_append, first] at lengths
  obtain ⟨_, rest⟩ := List.append_inj lengths (by rw [List.length_map, count, past', none])
  obtain ⟨data, obuffer, here, length, _⟩ := List.map_eq_cons_iff.mp rest
  exact ⟨data, obuffer, here, length⟩

theorem Consistent.receivePulse (consistent : net.Consistent) (stepped : net.step .receivePulse = some next) :
    next.Consistent := by
  have knows := consistent.knows
  obtain ⟨past, lengths, past'⟩ := consistent.announced
  rw [step] at stepped
  split at stepped
  · rename_i len pulses thread first
    rw [ThreadKnows, thread] at knows
    obtain ⟨least, ignore⟩ := knows
    have announced : ∃ past, (net.writes.map fun data => (data.length : Int)) = past ++ (pulses ++ net.announcing.toList) ∧
        past.length = net.handled + 1 :=
      ⟨past ++ [len], by rw [lengths, first]; simp, by rw [List.length_append, past']; rfl⟩
    split at stepped
    · cases stepped
      refine ⟨consistent.full, consistent.small, consistent.unread, announced, ?_⟩
      rw [ThreadKnows]
      dsimp only
      rw [thread]
      dsimp only
      omega
    · rename_i none
      cases stepped
      have same : net.handled = net.fetched := by omega
      exact ⟨consistent.full, consistent.small, consistent.unread, announced, by rw [same],
        Decidable.not_not.mp none, consistent.first first same⟩
  · contradiction

theorem Consistent.serve (consistent : net.Consistent) (few : net.FewLeft .serve) (stepped : net.step .serve = some next) :
    next.Consistent := by
  have knows := consistent.knows
  obtain ⟨taken, blocks, count, bytes⟩ := consistent.unread
  have full : ∀ data ∈ net.obuffer, data ≠ [] := fun data there =>
    consistent.full data (blocks ▸ List.mem_append_right taken there)
  rw [step] at stepped
  rw [FewLeft] at few
  cases thread : net.thread with
  | pulse => simp [thread] at stepped
  | sourceTxResp len =>
    simp only [thread, ThreadKnows, sourceTxResp] at stepped few knows
    obtain ⟨handled, ignore, data, rest, obuffer, length⟩ := knows
    rw [obuffer, List.tail_cons] at few
    simp only [obuffer, length, ↓reduceIte, Option.some.injEq] at stepped
    have left : toInt rest.flatten.length = rest.flatten.length := toInt_of_lt (by omega) (by omega)
    rw [left] at stepped
    have unread : ∃ taken, net.writes = taken ++ rest ∧ taken.length = net.fetched + 1 ∧ net.buffer ++ data = taken.flatten :=
      ⟨taken ++ [data], by rw [blocks, obuffer]; simp, by simp [count], by simp [bytes]⟩
    by_cases none : (rest.flatten.length : Int) = 0
    · rw [if_pos none] at stepped
      subst stepped
      refine ⟨consistent.full, consistent.small, unread, consistent.announced, ?_⟩
      rw [ThreadKnows]
      dsimp only
      omega
    · rw [if_neg none] at stepped
      subst stepped
      refine ⟨consistent.full, consistent.small, unread, consistent.announced, ?_⟩
      exact ⟨handled, ignore, by omega, by omega, rest, [], (List.append_nil rest).symm, rfl⟩
  | sourceTxRespRepeat bytesLeft =>
    simp only [thread, ThreadKnows, sourceTxRespRepeat] at stepped knows
    obtain ⟨handled, ignore, some', few, front, back, obuffer, length⟩ := knows
    have all : takeBlocks bytesLeft 0 (front ++ back) = (front, bytesLeft, back) :=
      takeBlocks_eq (Int.le_refl 0) few (fun data there => full data (obuffer ▸ List.mem_append_left back there)) (by omega)
    rw [obuffer] at stepped
    simp only [all, some', and_self, ↓reduceIte, Option.some.injEq] at stepped
    have whole : front.flatten.take bytesLeft.toNat = front.flatten := List.take_of_length_le (by omega)
    have fewBlocks := length_le_flatten fun data there => full data (obuffer ▸ List.mem_append_left back there)
    have ignored : toInt front.length = front.length := toInt_of_lt (by omega) (by omega)
    rw [whole, ignored] at stepped
    subst stepped
    refine ⟨consistent.full, consistent.small, ⟨taken ++ front, by rw [blocks, obuffer]; simp, by simp [count], by simp [bytes]⟩,
      consistent.announced, ?_⟩
    rw [ThreadKnows]
    dsimp only
    omega

theorem Consistent.step (consistent : net.Consistent) (few : net.FewLeft e) (stepped : net.step e = some next) :
    next.Consistent := by
  cases e with
  | append data => exact consistent.append stepped
  | deliverEvent => exact consistent.deliverEvent stepped
  | receivePulse => exact consistent.receivePulse stepped
  | serve => exact consistent.serve few stepped

theorem Consistent.right (consistent : net.Consistent) : net.Right e := by
  have knows := consistent.knows
  rw [ThreadKnows] at knows
  cases e with
  | append | deliverEvent => trivial
  | receivePulse =>
    rw [Right]
    split at knows
    · omega
    · omega
    · omega
  | serve =>
    rw [Right]
    split at knows
    · trivial
    · obtain ⟨_, _, data, rest, obuffer, length⟩ := knows
      exact ⟨by rw [obuffer, ← length]; rfl, by simp [sourceTxResp, obuffer, length]⟩
    · obtain ⟨_, _, some', few, front, back, obuffer, length⟩ := knows
      obtain ⟨taken, blocks, _, _⟩ := consistent.unread
      have full : ∀ data ∈ front, data ≠ [] := fun data there =>
        consistent.full data (blocks ▸ List.mem_append_right taken (obuffer ▸ List.mem_append_left back there))
      have all : takeBlocks _ 0 (front ++ back) = (front, _, back) := takeBlocks_eq (Int.le_refl 0) few full (by omega)
      exact ⟨by rw [obuffer, all], by simp [sourceTxRespRepeat, obuffer, all, some']⟩

/-- All that was fetched has arrived, and nothing else. -/
theorem Consistent.delivered (consistent : net.Consistent) : net.Delivered := by
  obtain ⟨taken, blocks, count, bytes⟩ := consistent.unread
  refine ⟨⟨net.obuffer.flatten, by rw [blocks, List.flatten_append, bytes]⟩, ?_⟩
  rintro ⟨sent, read, idle⟩
  obtain ⟨past, lengths, past'⟩ := consistent.announced
  have knows := consistent.knows
  rw [ThreadKnows, idle] at knows
  rw [read, sent, Option.toList_none, List.append_nil, List.append_nil] at lengths
  have all : net.writes.length = net.handled := by rw [← past', ← lengths, List.length_map]
  have whole : net.obuffer = [] := by
    rw [blocks, List.length_append] at all
    exact List.eq_nil_of_length_eq_zero (by omega)
  rw [blocks, whole, List.append_nil, bytes]

/-- Nothing is lost, duplicated or reordered in the runs in which what is left always fits an `int`. -/
theorem pulses_deliver {es : List Event} (few : Admitted step FewLeft initial es) :
    Admitted step Right initial es ∧ ∀ t, exec step initial es = some t → t.Delivered :=
  ⟨admitted_of_invariant Consistent.step (fun consistent _ => consistent.right) few .initial,
    fun _ run => (exec_invariant Consistent.step run few .initial).delivered⟩

end Connection
end Invariant

section Example
namespace Connection

/-- Four blocks are written before the first pulse is handled, which fetches what it can; then come the other pulses. -/
def fourWrites (first second third fourth : Block) : List Event :=
  [.append first, .deliverEvent, .append second, .deliverEvent, .append third, .deliverEvent, .append fourth, .deliverEvent,
    .receivePulse, .serve, .serve, .receivePulse, .receivePulse, .receivePulse]

theorem pulses_deliver_example : ∃ t : Connection,
    exec step initial (fourWrites [1] [2, 3] [4] [5]) = some t ∧ t.Handled ∧ t.buffer = t.writes.flatten := by
  have run : exec step initial (fourWrites [1] [2, 3] [4] [5]) = some _ := rfl
  have few : Admitted step FewLeft initial (fourWrites [1] [2, 3] [4] [5]) :=
    .cons trivial rfl (.cons trivial rfl (.cons trivial rfl (.cons trivial rfl (.cons trivial rfl (.cons trivial rfl
      (.cons trivial rfl (.cons trivial rfl (.cons trivial rfl (.cons (show [[2, 3], [4], [5]].flatten.length < 2 ^ 31 by decide) rfl
        (.cons trivial rfl (.cons trivial rfl
        (.cons trivial rfl (.cons trivial rfl trivial)))))))))))))
  exact ⟨_, run, ⟨rfl, rfl, rfl⟩, ((pulses_deliver few).2 _ run).2 ⟨rfl, rfl, rfl⟩⟩

/-- A whole `writeData`. -/
theorem exec_write {net : Connection} {data : Block} {es : List Event} (full : data ≠ []) (small : data.length < 2 ^ 31)
    (idle : net.announcing = none) :
    exec step net (.append data :: .deliverEvent :: es) =
      exec step { net with
        obuffer := net.obuffer ++ [data]
        announcing := none
        pulses := net.pulses ++ [(data.length : Int)]
        writes := net.writes ++ [data] } es := by
  rw [exec, step, if_pos ⟨full, idle⟩, if_pos small, Option.bind_some, exec, step, Option.map_some, Option.bind_some]

theorem serve_sourceTxResp {net : Connection} {data : Block} {rest : List Block} {bytesLeft : Int}
    (thread : net.thread = .sourceTxResp data.length) (obuffer : net.obuffer = data :: rest)
    (left : toInt rest.flatten.length = bytesLeft) (more : bytesLeft ≠ 0) :
    net.step .serve = some { net with
      obuffer := rest
      buffer := net.buffer ++ data
      fetched := net.fetched + 1
      thread := .sourceTxRespRepeat bytesLeft } := by
  simp only [step, thread, sourceTxResp, obuffer, ↓reduceIte, left, more]

theorem serve_sourceTxRespRepeat {net : Connection} {blocks qba_array rest : List Block} {bytesLeft buffers_taken : Int}
    (taken : takeBlocks bytesLeft 0 blocks = (qba_array, bytesLeft, rest)) (thread : net.thread = .sourceTxRespRepeat bytesLeft)
    (obuffer : net.obuffer = blocks) (positive : 0 < bytesLeft) (count : toInt qba_array.length = buffers_taken) :
    net.step .serve = some { net with
      obuffer := rest
      buffer := net.buffer ++ qba_array.flatten.take bytesLeft.toNat
      fetched := net.fetched + qba_array.length
      nTxRequestToIgnore := buffers_taken
      thread := .pulse } := by
  simp only [step, thread, sourceTxRespRepeat, obuffer, taken, positive, and_self, ↓reduceIte, count]

/-- Behind the first block there are 5 bytes more than an `int` can count. -/
theorem fourWrites_exec {first second third fourth : Block} (one : first.length = 1) (large : second.length = 2147483647)
    (large' : third.length = 2147483647) (seven : fourth.length = 7) :
    exec step initial (fourWrites first second third fourth) =
      some ⟨[], none, [], .pulse, 0, first ++ (second ++ third ++ fourth).take 5, [first, second, third, fourth], 4, 4⟩ := by
  have full {data : Block} (some' : 0 < data.length) : data ≠ [] := List.ne_nil_of_length_pos some'
  have full₁ : first ≠ [] := full (by omega)
  have full₂ : second ≠ [] := full (by omega)
  have full₃ : third ≠ [] := full (by omega)
  have full₄ : fourth ≠ [] := full (by omega)
  have small₁ : first.length < 2 ^ 31 := by omega
  have small₂ : second.length < 2 ^ 31 := by omega
  have small₃ : third.length < 2 ^ 31 := by omega
  have small₄ : fourth.length < 2 ^ 31 := by omega
  have left : toInt [second, third, fourth].flatten.length = 5 := by
    have length : ([second, third, fourth].flatten.length : Int) = 4294967301 := by
      simp only [List.flatten_cons, List.flatten_nil, List.length_append, List.length_nil]
      omega
    rw [length]
    decide
  have taken : takeBlocks 5 0 [second, third, fourth] = ([second, third, fourth], 5, []) := by
    have length₂ : (second.length : Int) = 2147483647 := by omega
    have length₃ : (third.length : Int) = 2147483647 := by omega
    have length₄ : (fourth.length : Int) = 7 := by omega
    have once : toInt (0 + second.length) = 2147483647 := by
      rw [length₂]
      decide
    have twice : toInt (2147483647 + third.length) = -2 := by
      rw [length₃]
      decide
    have five : toInt (-2 + fourth.length) = 5 := by
      rw [length₄]
      decide
    rw [takeBlocks, if_neg (by decide), once, takeBlocks, if_neg (by decide), twice, takeBlocks, if_neg (by decide), five,
      takeBlocks]
  have served : (second ++ third ++ fourth).take 5 = [second, third, fourth].flatten.take 5 := by simp
  have three : toInt [second, third, fourth].length = 3 := by
    change toInt 3 = 3
    decide
  rw [served, fourWrites, exec_write full₁ small₁ rfl, exec_write full₂ small₂ rfl, exec_write full₃ small₃ rfl,
    exec_write full₄ small₄ rfl]
  change (exec step ⟨[first, second, third, fourth], none, [(second.length : Int), third.length, fourth.length],
    .sourceTxResp first.length, 0, [], [first, second, third, fourth], 1, 0⟩
      [.serve, .serve, .receivePulse, .receivePulse, .receivePulse]) = _
  rw [exec, serve_sourceTxResp rfl rfl left (by decide), Option.bind_some, exec,
    serve_sourceTxRespRepeat taken rfl rfl (by decide) three, Option.bind_some]
  rfl

/-- 2^32 bytes are lost. -/
theorem wrapped_length_loses : ¬ PulsesDeliver := by
  intro delivers
  have filled (n : Nat) : ∃ data : Block, data.length = n := ⟨List.replicate n 0, List.length_replicate⟩
  obtain ⟨first, one⟩ := filled 1
  obtain ⟨second, large⟩ := filled 2147483647
  obtain ⟨fourth, seven⟩ := filled 7
  have run := fourWrites_exec one large large seven
  have same := congrArg List.length (((delivers _).2 _ run).2 ⟨rfl, rfl, rfl⟩)
  simp only [List.length_append, List.length_take, List.flatten_cons, List.flatten_nil, List.length_nil] at same
  omega

end Connection
end Example
end RemoteObjects.Device.Qnx
