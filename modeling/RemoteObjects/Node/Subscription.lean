import Mathlib.Data.List.Forall2
import RemoteObjects.Node.Storage

/-! How far a replica has got with the signals of one root source: from its request to
attach, over the init packet that answers it, to the signals that are sent after that. -/
namespace RemoteObjects.Node

section Packets
variable {T C : Type}

/-- The replica that a packet asks for or answers. -/
def Up.attach : Up → Option Nat
  | .addObject _ attach => some attach
  | .removeObject => none

def Down.attach : Down T C → Option Nat
  | .init stamp _ | .initDynamic stamp _ => some stamp.attach
  | _ => none

/-- The init packet that was processed last, if it is the one the replica has asked for. -/
def ConnectedReplica.ownInit (replica : ConnectedReplica T C) : Option Initialised :=
  replica.init.filter (·.stamp.attach = replica.number)

def Link.attached (link : Link T C) : Bool := link.replica.any (·.connected)

/-- Requests to attach and to detach take turns, from whether the connection is listed
now to whether its replica is attached. -/
def Alternates : Nat → List Up → Bool → Prop
  | listed, [], attached => listed = attached.toNat
  | listed, .addObject _ _ :: up, attached => listed = 0 ∧ Alternates 1 up attached
  | listed, .removeObject :: up, attached => listed = 1 ∧ Alternates 0 up attached

theorem Alternates.add {listed : Nat} {up : List Up} (alternates : Alternates listed up false)
    (isDynamic : Bool) (attach : Nat) : Alternates listed (up ++ [.addObject isDynamic attach]) true := by
  induction up generalizing listed with
  | nil => exact ⟨alternates, rfl⟩
  | cons packet up ih =>
    cases packet with
    | addObject | removeObject => exact ⟨alternates.1, ih alternates.2⟩

theorem Alternates.remove {listed : Nat} {up : List Up} (alternates : Alternates listed up true) :
    Alternates listed (up ++ [.removeObject]) false := by
  induction up generalizing listed with
  | nil => exact ⟨alternates, rfl⟩
  | cons packet up ih =>
    cases packet with
    | addObject | removeObject => exact ⟨alternates.1, ih alternates.2⟩

end Packets

namespace Interface
variable {T C : Type} (api : Interface T C)

/-- The activated signal is the emitted one, and the property it announces is stored with
the value the source's had then. -/
def Shows (emission : Emission T C) (activation : Activation T C) : Prop :=
  activation.signal = emission.signal ∧ ∀ i ∈ api.announces emission.signal,
    ∀ value ∈ emission.value, ∃ stored ∈ activation.storage[i]?, api.Equal stored value

/-- The property values behind a signal. -/
def replay (shown : Nat → Variant T C) (emission : Emission T C) : Nat → Variant T C :=
  match api.announces emission.signal, emission.value with
  | some i, some value => Function.update shown i value
  | _, _ => shown

/-- The invoke packet of a signal. -/
def invokes (emission : Emission T C) : Down T C :=
  .invoke emission.signal (emission.args.map api.encodeVariant) (api.announces emission.signal)

/-- How a signal is sent: the value of the property it announces in front of it. -/
def Carries (emission : Emission T C) : Prop :=
  match api.announces emission.signal with
  | none => emission.payload = [api.invokes emission]
  | some i => ∃ metaType value sent, api.metaType i = some metaType ∧ emission.value = some value ∧
      api.Holds metaType value ∧ api.Sends metaType value sent ∧
      emission.payload = [.propertyChange i sent, api.invokes emission]

/-- What the packets to a replica hold, whoever they were meant for. -/
def Fits : Down T C → Prop
  | .init _ sent | .initDynamic _ sent => ∃ values, api.Snapshot values sent
  | .propertyChange i sent => ∃ metaType value, api.metaType i = some metaType ∧
      api.Holds metaType value ∧ api.Sends metaType value sent
  | .removeObject => False
  | _ => True

/-- With the signals still to come, the properties shown are those of the source, unless
their change has not been announced yet. -/
def Announced (values : Nat → Variant T C) (unannounced : List Nat) (later : List (Emission T C))
    (shown : Nat → Variant T C) : Prop :=
  ∀ i metaType, api.Notifies i metaType → i ∉ unannounced → later.foldl api.replay shown i = values i

/-- The packets of the signals to come are on the way, the first of them perhaps without
its property change packet, which has been processed. -/
def Arriving (later : List (Emission T C)) (shown : Nat → Variant T C) (down : List (Down T C)) : Prop :=
  down = later.flatMap Emission.payload ∨
    ∃ emission others i, later = emission :: others ∧ api.announces emission.signal = some i ∧
      emission.value = some (shown i) ∧
      down = api.invokes emission :: others.flatMap Emission.payload

/-- A replica whose init packet is still to come, or that has not asked for one. -/
inductive Waiting (emitted : List (Emission T C)) (values : Nat → Variant T C) (unannounced : List Nat)
    (number : Nat) (up : List Up) (down : List (Down T C)) (connected : Bool) : Prop
  | detached (free : connected = false) (unasked : ∀ packet ∈ up, packet.attach ≠ some number)
      (unsent : ∀ packet ∈ down, packet.attach ≠ some number)
  | asking (attached : connected = true) (isDynamic : Bool) (before : List Up)
      (asked : up = before ++ [.addObject isDynamic number])
      (unasked : ∀ packet ∈ before, packet.attach ≠ some number)
      (unsent : ∀ packet ∈ down, packet.attach ≠ some number)
  | initialising (attached : connected = true) (idle : up = []) (stamp : Stamp)
      (own : stamp.attach = number) (sent : List (Variant T C)) (packet : Down T C)
      (init : packet = .init stamp sent ∨ packet = .initDynamic stamp sent)
      (before : List (Down T C)) (earlier later : List (Emission T C))
      (arriving : down = before ++ packet :: later.flatMap Emission.payload)
      (unsent : ∀ packet ∈ before, packet.attach ≠ some number)
      (history : emitted = earlier ++ later) (since : earlier.length = stamp.emitted)
      (shown : Nat → Variant T C) (snapshot : api.Snapshot shown sent)
      (announced : api.Announced values unannounced later shown)
      (carried : ∀ emission ∈ later, api.Carries emission)

/-- A replica behind its own init packet. -/
structure Following (emitted : List (Emission T C)) (values : Nat → Variant T C) (unannounced : List Nat)
    (replica : ConnectedReplica T C) (down : List (Down T C)) (init : Initialised)
    (earlier seen later : List (Emission T C)) (shown : Nat → Variant T C) : Prop where
  own : replica.ownInit = some init
  history : emitted = earlier ++ (seen ++ later)
  since : earlier.length = init.stamp.emitted
  bound : init.activations ≤ replica.activated.length
  shows : List.Forall₂ api.Shows seen (replica.activated.drop init.activations)
  tracks : api.Tracks replica.storage shown
  announced : api.Announced values unannounced later shown
  carried : ∀ emission ∈ later, api.Carries emission
  arriving : api.Arriving later shown down

end Interface

section Signals
variable {T C : Type} {api : Interface T C} {emission : Emission T C} {values : Nat → Variant T C}
  {unannounced : List Nat} {later : List (Emission T C)} {shown : Nat → Variant T C}

open Interface

theorem Interface.Carries.fits (carries : api.Carries emission) :
    ∀ packet ∈ emission.payload, api.Fits packet ∧ packet.attach = none := by
  unfold Carries at carries
  intro packet member
  split at carries
  · rw [carries] at member
    obtain rfl := List.mem_singleton.mp member
    exact ⟨trivial, rfl⟩
  · obtain ⟨metaType, value, sent, found, _, holds, sends, payload⟩ := carries
    rw [payload] at member
    rcases List.mem_pair.mp member with rfl | rfl
    · exact ⟨⟨metaType, value, found, holds, sends⟩, rfl⟩
    · exact ⟨trivial, rfl⟩

theorem Interface.Carries.ne_nil (carries : api.Carries emission) : emission.payload ≠ [] := by
  unfold Carries at carries
  split at carries
  · rw [carries]
    exact List.cons_ne_nil _ _
  · obtain ⟨_, _, _, _, _, _, _, payload⟩ := carries
    rw [payload]
    exact List.cons_ne_nil _ _

/-- A write is unannounced until its signal. -/
theorem Interface.Announced.write (announced : api.Announced values unannounced later shown) (i : Nat)
    (value : Variant T C) :
    api.Announced (Function.update values i value) (i :: unannounced) later shown := by
  intro j metaType notifies told
  obtain ⟨other, told⟩ := not_or.mp (fun member => told (List.mem_cons.mpr member))
  rw [Function.update_of_ne other]
  exact announced j metaType notifies told

/-- A signal announces its property. -/
theorem Interface.Announced.emit (announced : api.Announced values unannounced later shown)
    (value : emission.value = (api.announces emission.signal).map values) :
    api.Announced values (unannounced.filter (some · ≠ api.announces emission.signal))
      (later ++ [emission]) shown := by
  intro i metaType notifies told
  rw [List.foldl_append, List.foldl_cons, List.foldl_nil]
  unfold replay
  rw [value]
  cases announces : api.announces emission.signal with
  | none =>
    simp only [announces, ne_eq, reduceCtorEq, not_false_eq_true, decide_true, List.filter_true] at told
    exact announced i metaType notifies told
  | some j =>
    simp only [Option.map_some]
    by_cases same : i = j
    · rw [same, Function.update_self]
    · rw [Function.update_of_ne same]
      apply announced i metaType notifies
      intro member
      apply told
      rw [announces]
      simpa only [List.mem_filter, member, true_and, ne_eq, Option.some.injEq, decide_eq_true_eq]

end Signals

namespace Interface
variable {T C : Type} {api : Interface T C} {emission : Emission T C} {emitted : List (Emission T C)}
  {values : Nat → Variant T C} {unannounced : List Nat} {number : Nat} {up : List Up}
  {down : List (Down T C)} {connected : Bool}

namespace Waiting

theorem write (waiting : api.Waiting emitted values unannounced number up down connected) (i : Nat)
    (value : Variant T C) : api.Waiting emitted (Function.update values i value) (i :: unannounced) number
      up down connected := by
  cases waiting with
  | detached free unasked unsent => exact .detached free unasked unsent
  | asking attached isDynamic before asked unasked unsent =>
    exact .asking attached isDynamic before asked unasked unsent
  | initialising attached idle stamp own sent packet init before earlier later arriving unsent history
      since shown snapshot announced carried =>
    exact .initialising attached idle stamp own sent packet init before earlier later arriving unsent
      history since shown snapshot (announced.write i value) carried

/-- A signal is sent behind the init packet, or to whoever listened before. -/
theorem emit (waiting : api.Waiting emitted values unannounced number up down connected)
    (value : emission.value = (api.announces emission.signal).map values) (packets : List (Down T C))
    (data : ∀ packet ∈ packets, packet.attach = none)
    (listed : connected → up = [] → packets = emission.payload ∧ api.Carries emission) :
    api.Waiting (emitted ++ [emission]) values
      (unannounced.filter (some · ≠ api.announces emission.signal)) number up (down ++ packets)
      connected := by
  have others : (∀ packet ∈ down, packet.attach ≠ some number) →
      ∀ packet ∈ down ++ packets, packet.attach ≠ some number := by
    intro unsent packet member
    rcases List.mem_append.mp member with before | new
    · exact unsent packet before
    · rw [data packet new]
      exact fun same => nomatch same
  cases waiting with
  | detached free unasked unsent => exact .detached free unasked (others unsent)
  | asking attached isDynamic before asked unasked unsent =>
    exact .asking attached isDynamic before asked unasked (others unsent)
  | initialising attached idle stamp own sent packet init before earlier later arriving unsent history
      since shown snapshot announced carried =>
    obtain ⟨payload, carries⟩ := listed attached idle
    refine .initialising attached idle stamp own sent packet init before earlier (later ++ [emission])
      ?_ unsent ?_ since shown snapshot (announced.emit value) ?_
    · rw [arriving, payload, List.flatMap_append, List.flatMap_singleton, List.append_assoc,
        List.cons_append]
    · rw [history, List.append_assoc]
    · intro other member
      rcases List.mem_append.mp member with before | new
      · exact carried other before
      · obtain rfl := List.mem_singleton.mp new
        exact carries

/-- A packet that answers no request of this replica is read. -/
theorem skip {packet : Down T C}
    (waiting : api.Waiting emitted values unannounced number up (packet :: down) connected)
    (other : packet.attach ≠ some number) :
    api.Waiting emitted values unannounced number up down connected := by
  cases waiting with
  | detached free unasked unsent =>
    exact .detached free unasked fun packet member => unsent packet (List.mem_cons_of_mem _ member)
  | asking attached isDynamic before asked unasked unsent =>
    exact .asking attached isDynamic before asked unasked
      fun packet member => unsent packet (List.mem_cons_of_mem _ member)
  | initialising attached idle stamp own sent answer init before earlier later arriving unsent history
      since shown snapshot announced carried =>
    cases before with
    | nil =>
      obtain ⟨rfl, _⟩ := List.cons.inj arriving
      rcases init with rfl | rfl <;> exact absurd (congrArg some own) other
    | cons first before =>
      obtain ⟨_, arriving⟩ := List.cons.inj arriving
      exact .initialising attached idle stamp own sent answer init before earlier later arriving
        (fun packet member => unsent packet (List.mem_cons_of_mem _ member)) history since shown snapshot
        announced carried

/-- The replica asks for its init packet. -/
theorem ask (waiting : api.Waiting emitted values unannounced number up down false) (isDynamic : Bool) :
    api.Waiting emitted values unannounced number (up ++ [.addObject isDynamic number]) down true := by
  cases waiting with
  | detached _ unasked unsent => exact .asking rfl isDynamic up rfl unasked unsent
  | asking attached | initialising attached => contradiction

/-- The host answers a request, of this replica or of an earlier one. -/
theorem answer {isDynamic : Bool} {attach : Nat} {packet : Down T C} {stamp : Stamp}
    {sent : List (Variant T C)}
    (waiting : api.Waiting emitted values unannounced number (.addObject isDynamic attach :: up) down
      connected)
    (init : packet = .init stamp sent ∨ packet = .initDynamic stamp sent) (own : stamp.attach = attach)
    (since : emitted.length = stamp.emitted) (snapshot : api.Snapshot values sent) :
    api.Waiting emitted values unannounced number up (down ++ [packet]) connected := by
  have answers : packet.attach = some attach := by
    rcases init with rfl | rfl <;> exact congrArg some own
  have others : attach ≠ number → (∀ packet ∈ down, packet.attach ≠ some number) →
      ∀ other ∈ down ++ [packet], other.attach ≠ some number := by
    intro apart unsent other member
    rcases List.mem_append.mp member with before | new
    · exact unsent other before
    · rw [List.mem_singleton.mp new, answers]
      exact fun same => apart (Option.some.inj same)
  cases waiting with
  | detached free unasked unsent =>
    obtain ⟨apart, unasked⟩ := List.forall_mem_cons.mp unasked
    exact .detached free unasked (others (fun same => apart (congrArg some same)) unsent)
  | asking attached isDynamic before asked unasked unsent =>
    cases before with
    | nil =>
      obtain ⟨request, idle⟩ := List.cons.inj asked
      cases request
      exact .initialising attached idle stamp own sent packet init down emitted [] rfl unsent
        (List.append_nil _).symm since values snapshot (fun _ _ _ _ => rfl) (fun _ member => nomatch member)
    | cons first before =>
      obtain ⟨request, rest⟩ := List.cons.inj asked
      subst request
      obtain ⟨apart, unasked⟩ := List.forall_mem_cons.mp unasked
      exact .asking attached isDynamic before rest unasked
        (others (fun same => apart (congrArg some same)) unsent)
  | initialising attached idle => contradiction

theorem dismiss
    (waiting : api.Waiting emitted values unannounced number (.removeObject :: up) down connected) :
    api.Waiting emitted values unannounced number up down connected := by
  cases waiting with
  | detached free unasked unsent => exact .detached free (List.forall_mem_cons.mp unasked).2 unsent
  | asking attached isDynamic before asked unasked unsent =>
    cases before with
    | nil => cases asked
    | cons first before =>
      obtain ⟨_, asked⟩ := List.cons.inj asked
      exact .asking attached isDynamic before asked (List.forall_mem_cons.mp unasked).2 unsent
  | initialising attached idle => contradiction

end Waiting

namespace Following
variable {replica : ConnectedReplica T C} {init : Initialised} {earlier seen later : List (Emission T C)}
  {shown : Nat → Variant T C}

theorem write (following : api.Following emitted values unannounced replica down init earlier seen later
    shown) (i : Nat) (value : Variant T C) :
    api.Following emitted (Function.update values i value) (i :: unannounced) replica down init earlier
      seen later shown :=
  { following with announced := following.announced.write i value }

theorem emit (following : api.Following emitted values unannounced replica down init earlier seen later
    shown) (value : emission.value = (api.announces emission.signal).map values)
    (carries : api.Carries emission) :
    api.Following (emitted ++ [emission]) values
      (unannounced.filter (some · ≠ api.announces emission.signal)) replica (down ++ emission.payload)
      init earlier seen (later ++ [emission]) shown where
  own := following.own
  history := by rw [following.history, List.append_assoc, List.append_assoc]
  since := following.since
  bound := following.bound
  shows := following.shows
  tracks := following.tracks
  announced := following.announced.emit value
  carried other member := by
    rcases List.mem_append.mp member with before | new
    · exact following.carried other before
    · obtain rfl := List.mem_singleton.mp new
      exact carries
  arriving := by
    rcases following.arriving with rfl | ⟨first, others, i, rfl, announces, stored, rfl⟩
    · left
      rw [List.flatMap_append, List.flatMap_singleton]
    · refine .inr ⟨first, others ++ [emission], i, rfl, announces, stored, ?_⟩
      rw [List.flatMap_append, List.flatMap_singleton, List.cons_append]

end Following

/-- The next packet of the signals to come: a property change packet, or the invoke packet
behind it. -/
theorem Arriving.next {packet : Down T C} {later : List (Emission T C)} {shown : Nat → Variant T C}
    (arriving : api.Arriving later shown (packet :: down))
    (carried : ∀ emission ∈ later, api.Carries emission) :
    ∃ emission others, later = emission :: others ∧
      ((∃ i metaType value sent, api.announces emission.signal = some i ∧
          api.metaType i = some metaType ∧ emission.value = some value ∧ api.Holds metaType value ∧
          api.Sends metaType value sent ∧ packet = .propertyChange i sent ∧
          down = api.invokes emission :: others.flatMap Emission.payload) ∨
        packet = api.invokes emission ∧ down = others.flatMap Emission.payload ∧
          ∀ i ∈ api.announces emission.signal, emission.value = some (shown i)) := by
  rcases arriving with whole | ⟨emission, others, i, rfl, announces, stored, rest⟩
  · cases later with
    | nil => contradiction
    | cons emission others =>
      refine ⟨emission, others, rfl, ?_⟩
      have carries := carried emission List.mem_cons_self
      unfold Carries at carries
      rw [List.flatMap_cons] at whole
      split at carries
      · rename_i silent
        rw [carries, List.singleton_append] at whole
        obtain ⟨first, rest⟩ := List.cons.inj whole
        exact .inr ⟨first, rest, fun i announces => by rw [silent] at announces; contradiction⟩
      · rename_i i announces
        obtain ⟨metaType, value, sent, found, announced, holds, sends, payload⟩ := carries
        rw [payload] at whole
        obtain ⟨first, rest⟩ := List.cons.inj whole
        exact .inl ⟨i, metaType, value, sent, announces, found, announced, holds, sends, first, rest⟩
  · obtain ⟨first, rest⟩ := List.cons.inj rest
    refine ⟨emission, others, rfl, .inr ⟨first, rest, ?_⟩⟩
    intro j same
    obtain rfl := Option.some.inj (announces.symm.trans same)
    exact stored

/-- The packets behind the init packet are those of signals. -/
theorem Following.next {packet : Down T C} {replica : ConnectedReplica T C} {init : Initialised}
    {earlier seen later : List (Emission T C)} {shown : Nat → Variant T C}
    (following : api.Following emitted values unannounced replica (packet :: down) init earlier seen later
      shown) : (∃ i sent, packet = .propertyChange i sent) ∨
      ∃ signal args property, packet = .invoke signal args property := by
  obtain ⟨emission, others, _, ⟨i, _, _, sent, _, _, _, _, _, change, _⟩ | ⟨invoke, _⟩⟩ :=
    following.arriving.next following.carried
  · exact .inl ⟨i, sent, change⟩
  · exact .inr ⟨_, _, _, invoke⟩

/-- The answer to the request of this replica comes first. -/
theorem Waiting.own {packet : Down T C} {stamp : Stamp} {sent : List (Variant T C)}
    (waiting : api.Waiting emitted values unannounced number up (packet :: down) connected)
    (init : packet = .init stamp sent ∨ packet = .initDynamic stamp sent) (own : stamp.attach = number) :
    connected = true ∧ up = [] ∧ ∃ shown, api.Snapshot shown sent ∧
      ∀ replica : ConnectedReplica T C, replica.number = number →
        replica.init = some ⟨stamp, replica.activated.length⟩ → api.Tracks replica.storage shown →
        ∃ earlier later, api.Following emitted values unannounced replica down
          ⟨stamp, replica.activated.length⟩ earlier [] later shown := by
  have answers : packet.attach = some number := by
    rcases init with rfl | rfl <;> exact congrArg some own
  cases waiting with
  | detached free unasked unsent => exact absurd answers (unsent packet List.mem_cons_self)
  | asking attached isDynamic before asked unasked unsent =>
    exact absurd answers (unsent packet List.mem_cons_self)
  | initialising attached idle issued asked properties answer known before earlier later arriving unsent
      history since shown snapshot announced carried =>
    cases before with
    | cons first before =>
      obtain ⟨first, _⟩ := List.cons.inj arriving
      exact absurd answers (unsent packet (first ▸ List.mem_cons_self))
    | nil =>
      obtain ⟨first, rest⟩ := List.cons.inj arriving
      subst first
      obtain ⟨rfl, rfl⟩ : issued = stamp ∧ properties = sent := by
        rcases init with rfl | rfl <;> rcases known with same | same <;> cases same <;> exact ⟨rfl, rfl⟩
      refine ⟨attached, idle, shown, snapshot, ?_⟩
      intro replica same processed tracks
      exact ⟨earlier, later, {
        own := by
          rw [ConnectedReplica.ownInit, processed, Option.filter_some, own, same,
            if_pos (decide_eq_true rfl)]
        history := history
        since := since
        bound := Nat.le_refl _
        shows := by
          rw [List.drop_length]
          exact .nil
        tracks := tracks
        announced := announced
        carried := carried
        arriving := .inl rest }⟩

/-- A replica waits for its init packet, or is behind it. -/
inductive Progress (api : Interface T C) (emitted : List (Emission T C)) (values : Nat → Variant T C)
    (unannounced : List Nat) (up : List Up) (down : List (Down T C)) (replica : ConnectedReplica T C) : Prop
  | waiting (fresh : replica.ownInit = none)
      (waiting : api.Waiting emitted values unannounced replica.number up down replica.connected)
  | following (attached : replica.connected = true) (idle : up = []) (init : Initialised)
      (earlier seen later : List (Emission T C)) (shown : Nat → Variant T C)
      (following : api.Following emitted values unannounced replica down init earlier seen later shown)

namespace Progress
variable {replica new : ConnectedReplica T C} {packet : Down T C}

theorem write (progress : api.Progress emitted values unannounced up down replica) (i : Nat)
    (value : Variant T C) :
    api.Progress emitted (Function.update values i value) (i :: unannounced) up down replica := by
  cases progress with
  | waiting fresh waiting => exact .waiting fresh (waiting.write i value)
  | following attached idle init earlier seen later shown following =>
    exact .following attached idle init earlier seen later shown (following.write i value)

theorem emit (progress : api.Progress emitted values unannounced up down replica)
    (value : emission.value = (api.announces emission.signal).map values) (packets : List (Down T C))
    (data : ∀ packet ∈ packets, packet.attach = none)
    (listed : replica.connected → up = [] → packets = emission.payload ∧ api.Carries emission) :
    api.Progress (emitted ++ [emission]) values
      (unannounced.filter (some · ≠ api.announces emission.signal)) up (down ++ packets) replica := by
  cases progress with
  | waiting fresh waiting => exact .waiting fresh (waiting.emit value packets data listed)
  | following attached idle init earlier seen later shown following =>
    obtain ⟨rfl, carries⟩ := listed attached idle
    exact .following attached idle init earlier seen (later ++ [emission]) shown
      (following.emit value carries)

/-- Before its request a replica has not been answered. -/
theorem detached (progress : api.Progress emitted values unannounced up down replica)
    (free : replica.connected = false) : replica.ownInit = none ∧
      api.Waiting emitted values unannounced replica.number up down false := by
  cases progress with
  | waiting fresh waiting => exact ⟨fresh, free ▸ waiting⟩
  | following attached => rw [free] at attached; contradiction

/-- A request of the connection is read by the host. -/
theorem asked {request : Up} (progress : api.Progress emitted values unannounced (request :: up) down replica) :
    replica.ownInit = none ∧
      api.Waiting emitted values unannounced replica.number (request :: up) down replica.connected := by
  cases progress with
  | waiting fresh waiting => exact ⟨fresh, waiting⟩
  | following attached idle => contradiction

/-- An init packet is processed. -/
theorem initialise {stamp : Stamp} {sent : List (Variant T C)}
    (progress : api.Progress emitted values unannounced up (packet :: down) replica)
    (init : packet = .init stamp sent ∨ packet = .initDynamic stamp sent)
    (number : new.number = replica.number) (connected : new.connected = replica.connected)
    (processed : new.init = some ⟨stamp, new.activated.length⟩)
    (tracks : ∀ shown, api.Snapshot shown sent → api.Tracks new.storage shown) :
    api.Progress emitted values unannounced up down new := by
  cases progress with
  | waiting fresh waiting =>
    by_cases own : stamp.attach = replica.number
    · obtain ⟨attached, idle, shown, snapshot, follows⟩ := waiting.own init own
      obtain ⟨earlier, later, following⟩ := follows new number processed (tracks shown snapshot)
      exact .following (connected.trans attached) idle _ earlier [] later shown following
    · refine .waiting ?_ ?_
      · rw [ConnectedReplica.ownInit, processed, Option.filter_some, number, if_neg]
        simpa only [decide_eq_true_eq] using own
      · rw [number, connected]
        apply waiting.skip
        rcases init with rfl | rfl <;> exact fun same => own (Option.some.inj same)
  | following attached idle _ earlier seen later shown following =>
    rcases following.next with ⟨_, _, rfl⟩ | ⟨_, _, _, rfl⟩ <;> rcases init with same | same <;>
      contradiction

end Progress
end Interface

section Reading
variable {T C : Type} [Inhabited C] {api : AlignedInterface T C} {emitted : List (Emission T C)}
  {values : Nat → Variant T C} {unannounced : List Nat} {down : List (Down T C)}
  {replica : ConnectedReplica T C} {init : Initialised} {earlier seen later : List (Emission T C)}
  {shown : Nat → Variant T C}

namespace Interface

/-- A storage with values of the right types, or that of a replica without a metaobject. -/
def Kept (api : Interface T C) (storage : List (Variant T C)) : Prop :=
  storage = [] ∨ api.Stored storage

omit [Inhabited C] in
theorem notifies_announced {i signal : Nat} {metaType : T} (announces : api.announces signal = some i)
    (found : api.metaType i = some metaType) : api.Notifies i metaType :=
  ⟨found, signal, (api.announces_iff i signal).mpr announces⟩

namespace Following

/-- The value of a property is stored in front of its signal. -/
theorem readProperty {i : Nat} {sent : Variant T C} (following : api.Following emitted values unannounced
    replica (.propertyChange i sent :: down) init earlier seen later shown)
    (kept : api.Kept replica.storage) :
    ∃ shown, api.Following emitted values unannounced (replica.setProperty api.toInterface i sent) down
      init earlier seen later shown := by
  obtain ⟨emission, others, rfl, next⟩ := following.arriving.next following.carried
  rcases next with ⟨j, metaType, value, _, announces, found, announced, holds, sends, same, rest⟩ | ⟨same, _⟩
  · cases same
    have notifies := notifies_announced announces found
    have stored : api.Stored replica.storage := by
      rcases kept with empty | stored
      · obtain ⟨value, present, _⟩ := following.tracks i metaType notifies
        rw [empty] at present
        contradiction
      · exact stored
    have tracks := setProperty_tracks api.transferNumeric found holds sends stored following.tracks
    refine ⟨Function.update shown i value, {
      own := following.own
      history := following.history
      since := following.since
      bound := following.bound
      shows := following.shows
      tracks := tracks
      announced := ?_
      carried := following.carried
      arriving := .inr ⟨emission, others, i, rfl, announces, ?_, rest⟩ }⟩
    · intro k other notifies told
      rw [← following.announced k other notifies told, List.foldl_cons, List.foldl_cons]
      simp only [replay, announces, announced, Function.update_idem]
    · rw [announced, Function.update_self]
  · contradiction

/-- The next signal is activated. -/
theorem readInvoke {signal : Nat} {args : List (Variant T C)} {property : Option Nat}
    (following : api.Following emitted values unannounced replica (.invoke signal args property :: down)
      init earlier seen later shown) :
    ∃ seen later, api.Following emitted values unannounced
      (replica.invoke api.toInterface signal args property) down init earlier seen later shown := by
  obtain ⟨emission, others, rfl, next⟩ := following.arriving.next following.carried
  rcases next with ⟨_, _, _, _, _, _, _, _, _, same, _⟩ | ⟨same, rest, stored⟩
  · contradiction
  · cases same
    obtain ⟨passed, activates⟩ := replica.invoke_frame api.toInterface emission.signal
      (emission.args.map api.encodeVariant) (api.announces emission.signal)
    rw [activates]
    have carries := following.carried emission List.mem_cons_self
    have shows : api.Shows emission ⟨emission.signal, passed, replica.storage⟩ := by
      refine ⟨rfl, ?_⟩
      intro i announces value announced
      obtain rfl := Option.some.inj ((stored i announces).symm.trans announced)
      unfold Carries at carries
      rw [announces] at carries
      obtain ⟨metaType, _, _, found, _⟩ := carries
      exact following.tracks i metaType (notifies_announced announces found)
    refine ⟨seen ++ [emission], others, {
      own := following.own
      history := by rw [following.history, List.append_assoc seen, List.singleton_append]
      since := following.since
      bound := ?_
      shows := ?_
      tracks := following.tracks
      announced := ?_
      carried := fun other member => following.carried other (List.mem_cons_of_mem _ member)
      arriving := .inl rest }⟩
    · rw [ConnectedReplica.activate, List.length_append]
      exact Nat.le_trans following.bound (Nat.le_add_right _ _)
    · rw [ConnectedReplica.activate, List.drop_append_of_le_length following.bound]
      exact List.rel_append following.shows (.cons shows .nil)
    · have unchanged : api.replay shown emission = shown := by
        unfold replay
        split
        · rename_i j value announces announced
          rw [← Option.some.inj ((stored j announces).symm.trans announced), Function.update_eq_self]
        · rfl
      intro i metaType notifies told
      rw [← following.announced i metaType notifies told, List.foldl_cons, unchanged]

end Following

namespace Progress
variable {up : List Up}

theorem readProperty {i : Nat} {sent : Variant T C} (progress : api.Progress emitted values unannounced up
    (.propertyChange i sent :: down) replica) (kept : api.Kept replica.storage) :
    api.Progress emitted values unannounced up down (replica.setProperty api.toInterface i sent) := by
  cases progress with
  | waiting fresh waiting => exact .waiting fresh (waiting.skip fun same => nomatch same)
  | following attached idle init earlier seen later shown following =>
    obtain ⟨shown, following⟩ := following.readProperty kept
    exact .following attached idle init earlier seen later shown following

theorem readInvoke {signal : Nat} {args : List (Variant T C)} {property : Option Nat}
    (progress : api.Progress emitted values unannounced up (.invoke signal args property :: down) replica) :
    api.Progress emitted values unannounced up down
      (replica.invoke api.toInterface signal args property) := by
  cases progress with
  | waiting fresh waiting =>
    obtain ⟨passed, activates⟩ := replica.invoke_frame api.toInterface signal args property
    rw [activates]
    exact .waiting fresh (waiting.skip fun same => nomatch same)
  | following attached idle init earlier seen later shown following =>
    obtain ⟨seen, later, following⟩ := following.readInvoke
    obtain ⟨passed, activates⟩ := replica.invoke_frame api.toInterface signal args property
    exact .following (by rw [activates]; exact attached) idle init earlier seen later shown following

end Progress
end Interface
end Reading
end RemoteObjects.Node
