import Mathlib.Data.Fintype.Basic
import RemoteObjects.Node.Connection

/-! Which packets reach a dynamic replica before its `m_metaObject` is set. Packets are
routed by object name alone, so those of an earlier replica reach the next one. -/
namespace RemoteObjects.Node
open Transition

section Statement
variable {Conn T C : Type}

/-- A property change or invoke packet is processed for a replica with a metaobject only. -/
def DispatchDefined (s : Net Conn T C) : Event Conn T C → Prop
  | .clientRead c => ∀ packet ∈ (s.links c).down.head?, packet.isData →
      ∀ replica ∈ (s.links c).replica, replica.hasMetaObject
  | _ => True

/-- No data in front of the first `InitDynamicPacket`. -/
def Guarded : List (Down T C) → Prop
  | [] => True
  | packet :: packets => packet.isInitDynamic ∨ ¬ packet.isData ∧ Guarded packets

instance guardedDecidable : ∀ packets : List (Down T C), Decidable (Guarded packets)
  | [] => .isTrue trivial
  | packet :: packets =>
    have := guardedDecidable packets
    inferInstanceAs (Decidable (packet.isInitDynamic ∨ ¬ packet.isData ∧ Guarded packets))

/-- A dynamic replica is acquired while no data of the name is on the way in front of an
`InitDynamicPacket`, and no signal is emitted for it before there is such a packet. -/
def InitFirst (connection : Conn) (face : Option Face) (link : Link T C) : Event Conn T C → Prop
  | .acquire c isDynamic _ => c = connection → isDynamic → link.replica.isNone → Guarded link.down
  | .emit _ _ => ∀ f ∈ face, f.listed → ∀ replica ∈ link.replica, ¬ replica.hasMetaObject →
      ∃ packet ∈ link.down, packet.isInitDynamic
  | _ => True

def InitsFirst [DecidableEq Conn] [DecidableEq T] (s : Net Conn T C) (e : Event Conn T C) : Prop :=
  ∀ c, InitFirst c (s.face c) (s.links c) e

instance [DecidableEq Conn] (connection : Conn) (face : Option Face) (link : Link T C) :
    (e : Event Conn T C) → Decidable (InitFirst connection face link e)
  | .acquire _ _ _ => inferInstanceAs (Decidable (_ → _ → _ → _))
  | .emit _ _ => inferInstanceAs (Decidable (∀ f ∈ face, f.listed → ∀ replica ∈ link.replica, ¬ replica.hasMetaObject → _))
  | .connect _ | .enableRemoting _ | .disableRemoting | .write _ _ | .delete _ | .serverRead _ | .clientRead _ => .isTrue trivial

instance [DecidableEq Conn] [DecidableEq T] [Fintype Conn] (s : Net Conn T C) (e : Event Conn T C) :
    Decidable (InitsFirst s e) :=
  inferInstanceAs (Decidable (∀ c, InitFirst c (s.face c) (s.links c) e))

/-- What is on the way to a replica without a metaobject is guarded. -/
def Awaits (link : Link T C) : Prop :=
  ∀ replica ∈ link.replica, ¬ replica.hasMetaObject → Guarded link.down

end Statement

section Invariant
variable {T C : Type} {packets more : List (Down T C)}

theorem Guarded.append (guarded : Guarded packets) (idle : ∀ packet ∈ more, ¬ packet.isData) :
    Guarded (packets ++ more) := by
  induction packets with
  | nil =>
    induction more with
    | nil => trivial
    | cons packet more ih =>
      obtain ⟨first, others⟩ := List.forall_mem_cons.mp idle
      exact .inr ⟨first, ih others⟩
  | cons packet packets ih =>
    rcases guarded with init | ⟨first, others⟩
    · exact .inl init
    · exact .inr ⟨first, ih others⟩

theorem Guarded.behind_init (guarded : Guarded packets) (init : ∃ packet ∈ packets, packet.isInitDynamic)
    (more : List (Down T C)) : Guarded (packets ++ more) := by
  induction packets with
  | nil =>
    obtain ⟨_, member, _⟩ := init
    contradiction
  | cons packet packets ih =>
    rcases guarded with first | ⟨idle, others⟩
    · exact .inl first
    · obtain ⟨found, member, dynamic⟩ := init
      rcases List.mem_cons.mp member with rfl | behind
      · exact .inl dynamic
      · exact .inr ⟨idle, ih others ⟨found, behind, dynamic⟩⟩

@[simp] theorem handleReplicaConnection_down (link : Link T C) (replica : ConnectedReplica T C)
    (source : Signature) : (link.handleReplicaConnection replica source).down = link.down := by
  unfold Link.handleReplicaConnection
  split <;> rfl

theorem handleReplicaConnection_metaObject (link : Link T C) (replica : ConnectedReplica T C)
    (source : Signature) : ∀ new ∈ (link.handleReplicaConnection replica source).replica,
      new.hasMetaObject = replica.hasMetaObject := by
  unfold Link.handleReplicaConnection
  split
  · rintro new ⟨⟩
    rfl
  · obtain ⟨state, same⟩ := replica.setState_frame .signatureMismatch
    rw [same]
    rintro new ⟨⟩
    rfl

/-- What a client reads is gone, and its replica is defined behind an `InitDynamicPacket`. -/
theorem onClientRead_metaObject [DecidableEq T] [DecidableEq C] [Inhabited C] {api : Interface T C}
    {link new : Link T C} {packet : Down T C} (read : link.onClientRead api packet = some new) :
    new.down = link.down ∧ ∀ replica ∈ new.replica, ∃ old ∈ link.replica,
      replica.hasMetaObject = (old.hasMetaObject || packet.isInitDynamic) := by
  cases packet with
  | objectList signature =>
    cases read
    unfold Link.readObjectList
    simp only
    split
    · rename_i replica held
      split
      · refine ⟨rfl, fun other same => ⟨other, same, (Bool.or_false _).symm⟩⟩
      · refine ⟨handleReplicaConnection_down _ _ _, ?_⟩
        intro other same
        refine ⟨replica, held, ?_⟩
        rw [handleReplicaConnection_metaObject _ _ _ other same]
        exact (Bool.or_false _).symm
    · exact ⟨rfl, fun other same => ⟨other, same, (Bool.or_false _).symm⟩⟩
  | removeObject =>
    cases read
    refine ⟨rfl, ?_⟩
    intro replica held
    obtain ⟨old, before, rfl⟩ := Option.map_eq_some_iff.mp held
    refine ⟨old, before, ?_⟩
    split
    · obtain ⟨state, same⟩ := ConnectedReplica.setState_frame { old with connected := false } .suspect
      rw [same]
      exact (Bool.or_false _).symm
    · exact (Bool.or_false _).symm
  | init | initDynamic | propertyChange | invoke =>
    obtain ⟨replicas, rfl, same⟩ := onClientRead_inner api rfl read
    refine ⟨rfl, ?_⟩
    intro replica held
    obtain ⟨old, before, _, _, _, defined⟩ := same replica held
    exact ⟨old, before, defined⟩

theorem Awaits.append {link : Link T C} (awaits : Awaits link) (idle : ∀ packet ∈ more, ¬ packet.isData) :
    Awaits { link with down := link.down ++ more } :=
  fun replica held undefined => (awaits replica held undefined).append idle

theorem Awaits.acquire {link : Link T C} (awaits : Awaits link) (api : Interface T C) (isDynamic : Bool)
    (signature : Signature) (first : isDynamic → link.replica.isNone → Guarded link.down) :
    Awaits (link.acquire api isDynamic signature) := by
  unfold Link.acquire
  split
  · exact awaits
  · rename_i absent
    have new : ¬ (ConnectedReplica.new api isDynamic signature link.acquired).hasMetaObject →
        Guarded link.down := by
      intro undefined
      apply first
      · simpa only [ConnectedReplica.new, Bool.not_eq_true', Bool.not_eq_false] using undefined
      · rw [absent]
        rfl
    simp only
    split
    · intro replica held undefined
      rw [handleReplicaConnection_down]
      rw [handleReplicaConnection_metaObject _ _ _ replica held] at undefined
      exact new undefined
    · rintro replica ⟨⟩ undefined
      exact new undefined

variable {Conn : Type} {connection : Conn} {e : Event Conn T C} {face face' : Option Face}
  {link link' : Link T C} [DecidableEq T] [DecidableEq C] [Inhabited C] {api : Interface T C}

theorem Awaits.turn (awaits : Awaits link) (first : InitFirst connection face link e)
    (turn : Turn api connection e face link face' link') : Awaits link' := by
  cases turn with
  | stays | ignored | detaches => exact awaits
  | connects =>
    apply awaits.append
    intro packet member
    obtain ⟨f, _, rfl⟩ := List.mem_map.mp member
    exact Bool.false_ne_true
  | enabled =>
    split
    · apply awaits.append
      rintro packet (_ | ⟨_, ⟨⟩⟩)
      exact Bool.false_ne_true
    · exact awaits
  | disabled =>
    apply awaits.append
    intro packet member
    rw [(List.mem_replicate.mp member).2]
    exact Bool.false_ne_true
  | sends packets data listed =>
    intro replica held undefined
    by_cases nothing : packets = []
    · rw [nothing, List.append_nil]
      exact awaits replica held undefined
    · have init := first _ rfl (listed nothing) replica held undefined
      exact (awaits replica held undefined).behind_init init packets
  | acquires => exact awaits.acquire api _ _ (first rfl)
  | deletes =>
    unfold Link.delete
    split
    · rintro replica ⟨⟩
    · exact awaits
  | attaches =>
    apply awaits.append
    rintro packet (_ | ⟨_, ⟨⟩⟩)
    split <;> exact Bool.false_ne_true
  | reads arriving read =>
    obtain ⟨down, same⟩ := onClientRead_metaObject read
    intro replica held undefined
    obtain ⟨old, before, defined⟩ := same replica held
    rw [defined, Bool.or_eq_true, not_or] at undefined
    have guarded := awaits old before undefined.1
    rw [arriving] at guarded
    rw [down]
    rcases guarded with init | ⟨_, others⟩
    · exact absurd init undefined.2
    · exact others

end Invariant

/-- In every run in which init packets come first, no data is dispatched to a dynamic
replica without a metaobject. -/
theorem dispatchDefined_of_initsFirst {Conn T C : Type} [DecidableEq Conn] [DecidableEq T]
    [DecidableEq C] [Inhabited C] (api : Interface T C) (values : Nat → Variant T C)
    (es : List (Event Conn T C)) (first : Admitted (step api) InitsFirst (.initial values) es) :
    Admitted (step api) DispatchDefined (.initial values) es := by
  refine admitted_of_invariant (P := fun s => ∀ c, Awaits (s.links c))
    (fun awaits first stepped c => (awaits c).turn (first c) (turn_of_step stepped c)) ?_ first
    (fun _ _ held => nomatch held)
  intro s e awaits _
  cases e with
  | clientRead c =>
    intro packet arriving data replica held
    by_contra undefined
    have guarded := awaits c replica held undefined
    obtain ⟨down, same⟩ := List.head?_eq_some_iff.mp arriving
    rw [same] at guarded
    rcases guarded with init | ⟨idle, _⟩
    · cases packet <;> contradiction
    · exact idle data
  | _ => trivial

section Stale

/-- An interface with one property and its notify signal. -/
def single : Interface Unit Nat :=
  ⟨fun _ => .other, [⟨(), some 0⟩], [[]], [0], [], [.bare () 0]⟩

/-- A change is on the way while the dynamic replica is deleted and acquired again. -/
def stale : List (Event Unit Unit Nat) :=
  [.connect (), .enableRemoting [], .clientRead (), .acquire () true [], .serverRead (),
    .clientRead (), .write 0 (.bare () 7), .emit 0 [], .delete (), .acquire () true [], .clientRead ()]

/-- The property change packet reaches a replica whose `m_metaObject` is null. -/
theorem stale_dispatched : ¬ Admitted (step single) DispatchDefined (.initial fun _ => .bare () 0) stale := by
  intro defined
  have metaObject := defined.last (e := .clientRead ()) rfl rfl _ rfl rfl _ rfl
  exact absurd metaObject (by decide)

/-- The replica is acquired again when everything that was sent to it has been read, and
the host has read that it was deleted. -/
theorem settled_defined : Admitted (step single) DispatchDefined (.initial fun _ => .bare () 0)
    ([.connect (), .enableRemoting [], .clientRead (), .acquire () true [], .serverRead (),
      .emit 0 [], .clientRead (), .clientRead (), .clientRead (), .delete (), .serverRead (),
      .acquire () true [], .emit 0 [], .serverRead (), .emit 0 [], .clientRead (), .clientRead ()] :
      List (Event Unit Unit Nat)) := by
  apply dispatchDefined_of_initsFirst
  decide

end Stale
end RemoteObjects.Node
