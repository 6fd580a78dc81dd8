import RemoteObjects.Client.Steps

/-! Connections that replace each other. The connection that announced a source first owns
it, and replicas move to another one only when the owner reports its end before the other
announces the source. -/
namespace RemoteObjects.Client
open Host (Name Kind)
open Node (Signature checkSignatures)
open Transition

variable {Conn : Type}

namespace NodePrivate
variable (s : NodePrivate Conn)

/-- The connection that a replica with this signature is given. -/
def source (signature : Signature) : Option Conn :=
  (s.connectedSource.filter fun owner => checkSignatures signature owner.2).map Prod.fst

def Served (signature : Signature) : Prop :=
  ∃ connection, s.source signature = some connection ∧ (s.devices connection).isOpen = true

/-- The host behind an open connection announced a source with a compatible signature. -/
def Announced (signature : Signature) : Prop :=
  ∃ connection announced, (s.devices connection).isOpen = true ∧ (s.devices connection).announced = some announced ∧
    checkSignatures signature announced = true

/-- No init packet is outstanding on an open connection. -/
def Quiescent : Prop := ∀ connection, (s.devices connection).isOpen = true → (s.devices connection).requests = []

/-- At rest, a replica of an announced source has an open connection, and its last init
packet came over that. -/
def Replaced : Prop :=
  s.Quiescent → ∀ root children, s.replica = some (root, children) → s.Announced root.objectSignature →
    ∃ connection, root.connectionToSource = some connection ∧ (s.devices connection).isOpen = true ∧
      root.initFrom = some connection

end NodePrivate

variable {s t : NodePrivate Conn} {e : Event Conn} {signature : Signature} {connection : Conn}

theorem source_some : s.source signature = some connection ↔
    ∃ announced, s.connectedSource = some (connection, announced) ∧ checkSignatures signature announced = true := by
  simp only [NodePrivate.source, Option.map_eq_some_iff, Option.filter_eq_some_iff, Prod.exists]
  constructor
  · rintro ⟨_, announced, ⟨owned, compatible⟩, rfl⟩
    exact ⟨announced, owned, compatible⟩
  · rintro ⟨announced, owned, compatible⟩
    exact ⟨connection, announced, ⟨owned, compatible⟩, rfl⟩

theorem source_of_none (free : s.connectedSource = none) : s.source signature = none := by
  rw [NodePrivate.source, free, Option.filter_none, Option.map_none]

theorem source_congr (same : t.connectedSource = s.connectedSource) : t.source signature = s.source signature := by
  rw [NodePrivate.source, NodePrivate.source, same]

/-- The owner of a source keeps it until it reports its end. -/
structure Owned (s : NodePrivate Conn) : Prop where
  owner : ∀ connection, (s.devices connection).hasSource = true ↔
    ∃ announced, s.connectedSource = some (connection, announced)
  closed : ∀ connection announced, s.connectedSource = some (connection, announced) →
    (s.devices connection).isOpen = true ∨ (s.devices connection).m_isClosing = true
  silent : ∀ connection, (s.devices connection).isOpen = false →
    (s.devices connection).announced = none ∧ (s.devices connection).requests = []

/-- The replica is attached to the owner of its source, which is open when any connection
for it is. -/
structure Tracked (s : NodePrivate Conn) : Prop where
  owned : Owned s
  asked : ∀ connection, (s.devices connection).requests ≠ [] →
    ∃ root children, s.replica = some (root, children) ∧ root.connectionToSource = some connection
  attached : ∀ root children, s.replica = some (root, children) → root.connectionToSource = s.source root.objectSignature
  pending : ∀ root children, s.replica = some (root, children) → ∀ connection,
    root.connectionToSource = some connection → (s.devices connection).isOpen = true →
      (s.devices connection).requests ≠ [] ∨ root.initFrom = some connection
  served : ∀ root children, s.replica = some (root, children) → s.Announced root.objectSignature → s.Served root.objectSignature

theorem Tracked.replaced (tracked : Tracked s) : s.Replaced := by
  intro quiet root children present announced
  obtain ⟨connection, source, isOpen⟩ := tracked.served root children present announced
  have attached := (tracked.attached root children present).trans source
  obtain outstanding | answered := tracked.pending root children present connection attached isOpen
  · exact absurd (quiet connection isOpen) outstanding
  · exact ⟨connection, attached, isOpen, answered⟩

theorem Tracked.quiet_of_detached (tracked : Tracked s) (detached : ∀ root children,
    s.replica = some (root, children) → root.connectionToSource = none) (connection : Conn) :
    (s.devices connection).requests = [] := by
  by_contra outstanding
  obtain ⟨root, children, present, attached⟩ := tracked.asked connection outstanding
  exact Option.some_ne_none connection (attached.symm.trans (detached root children present))

/-- Only the requests and the replica have changed, and the new replica is tracked. -/
theorem Owned.congr (owned : Owned s) (same : t.connectedSource = s.connectedSource)
    (devices : ∀ c, t.devices c = { s.devices c with requests := (t.devices c).requests })
    (silent : ∀ c, (s.devices c).isOpen = false → (t.devices c).requests = []) : Owned t := by
  refine ⟨fun c => ?_, fun c announced here => ?_, fun c closed => ?_⟩
  · rw [same, devices c]
    exact owned.owner c
  · rw [same] at here
    rw [devices c]
    exact owned.closed c announced here
  · rw [devices c] at closed ⊢
    exact ⟨(owned.silent c closed).1, silent c closed⟩

theorem NodePrivate.Announced.congr (announced : t.Announced signature)
    (devices : ∀ c, t.devices c = { s.devices c with requests := (t.devices c).requests }) : s.Announced signature := by
  obtain ⟨c, sent, isOpen, told, compatible⟩ := announced
  rw [devices c] at isOpen told
  exact ⟨c, sent, isOpen, told, compatible⟩

theorem NodePrivate.Served.congr (served : s.Served signature) (same : t.connectedSource = s.connectedSource)
    (devices : ∀ c, t.devices c = { s.devices c with requests := (t.devices c).requests }) : t.Served signature := by
  obtain ⟨c, source, isOpen⟩ := served
  exact ⟨c, (source_congr same).trans source, by rw [devices c]; exact isOpen⟩

variable [DecidableEq Conn]

theorem tracked_request (owned : Owned s) (quiet : ∀ connection, (s.devices connection).requests = [])
    {root : Replica Conn} {children : Children Conn} (present : s.replica = some (root, children))
    (attached : root.connectionToSource = some connection) (source : s.source root.objectSignature = some connection)
    (served : s.Announced root.objectSignature → s.Served root.objectSignature) (isDynamic : Bool) :
    Tracked (s.request connection isDynamic) := by
  have devices (c : Conn) : (s.request connection isDynamic).devices c =
      { s.devices c with requests := ((s.request connection isDynamic).devices c).requests } := by
    rw [NodePrivate.request_devices]
  have same := NodePrivate.request_connectedSource (s := s) connection isDynamic
  have only {root' children'} (now : (s.request connection isDynamic).replica = some (root', children')) :
      root' = root ∧ children' = children := by
    rw [NodePrivate.request_replica, present] at now
    obtain ⟨rfl, rfl⟩ := Prod.mk.inj (Option.some.inj now)
    exact ⟨rfl, rfl⟩
  refine ⟨owned.congr same devices fun c closed => ?_, fun c outstanding => ?_, ?_, ?_, ?_⟩
  · rw [NodePrivate.request_devices]
    dsimp only
    rw [if_neg, quiet c]
    rintro ⟨rfl, isOpen⟩
    rw [closed] at isOpen
    contradiction
  · obtain kept | ⟨rfl, _⟩ := NodePrivate.request_requests s connection c isDynamic
    · exact absurd (kept.trans (quiet c)) outstanding
    · exact ⟨root, children, (NodePrivate.request_replica c isDynamic).trans present, attached⟩
  · intro _ _ now
    obtain ⟨rfl, rfl⟩ := only now
    rw [source_congr same, source, attached]
  · intro _ _ now c here isOpen
    obtain ⟨rfl, rfl⟩ := only now
    obtain rfl := Option.some.inj (attached.symm.trans here)
    rw [devices] at isOpen
    refine .inl ?_
    rw [NodePrivate.request_devices]
    simp only [quiet, true_and, if_pos isOpen]
    exact List.cons_ne_nil _ _
  · intro _ _ now announced
    obtain ⟨rfl, rfl⟩ := only now
    exact (served (announced.congr devices)).congr same devices

/-- A replica without a connection, and without requests, is given the owner's. -/
theorem tracked_handleReplicaConnection (owned : Owned s) (quiet : ∀ connection, (s.devices connection).requests = [])
    {root : Replica Conn} {children : Children Conn} (detached : root.connectionToSource = none)
    (served : s.Announced root.objectSignature → s.Served root.objectSignature) :
    Tracked (s.handleReplicaConnection root children) := by
  have unchanged {root' : Replica Conn} (signature : root'.objectSignature = root.objectSignature)
      (alone : root'.connectionToSource = none) (free : s.source root.objectSignature = none) :
      Tracked { s with replica := some (root', children) } := by
    refine ⟨owned.congr rfl (fun _ => rfl) fun c _ => quiet c, fun c outstanding => absurd (quiet c) outstanding, ?_, ?_, ?_⟩
    · rintro _ _ ⟨⟩
      rw [alone, signature]
      exact free.symm
    · rintro _ _ ⟨⟩ c here
      rw [alone] at here
      contradiction
    · rintro _ _ ⟨⟩
      rw [signature]
      exact served
  rw [NodePrivate.handleReplicaConnection]
  split
  · rename_i connection announced owns
    split
    · rename_i compatible
      have source : s.source root.objectSignature = some connection := source_some.mpr ⟨announced, owns, compatible⟩
      exact tracked_request
        (s := { s with replica := some ({ root with connectionToSource := some connection, initFrom := none }, children) })
        (owned.congr rfl (fun _ => rfl) fun c _ => quiet c) quiet rfl rfl source served _
    · rename_i mismatch
      rw [Replica.setState_signatureMismatch]
      refine unchanged rfl detached (Option.eq_none_iff_forall_ne_some.mpr fun connection source => ?_)
      obtain ⟨_, owner, compatible⟩ := source_some.mp source
      obtain ⟨_, rfl⟩ := Prod.mk.inj (Option.some.inj (owns.symm.trans owner))
      exact mismatch compatible
  · rename_i free
    exact unchanged rfl detached (source_of_none free)

theorem Tracked.connect (tracked : Tracked s) (closed : (s.devices connection).isOpen = false)
    (opens : (s.devices connection).m_isClosing = false) :
    Tracked (s.setDevice connection { s.devices connection with isOpen := true }) := by
  obtain ⟨owned, asked, attached, pending, served⟩ := tracked
  -- A closed connection owns nothing that could be asked for now.
  have free (announced : Signature) : s.connectedSource ≠ some (connection, announced) := by
    intro owner
    obtain isOpen | closing := owned.closed connection announced owner
    · exact Bool.false_ne_true (closed.symm.trans isOpen)
    · exact Bool.false_ne_true (opens.symm.trans closing)
  have requests (c : Conn) : ((s.setDevice connection { s.devices connection with isOpen := true }).devices c).requests =
      (s.devices c).requests := by
    by_cases here : c = connection
    · subst here
      rw [NodePrivate.setDevice_self]
    · rw [NodePrivate.setDevice_other s here]
  refine ⟨⟨fun c => ?_, fun c announced owner => ?_, fun c silent => ?_⟩, fun c outstanding => ?_, attached, ?_, ?_⟩
  · by_cases here : c = connection
    · subst here
      rw [NodePrivate.setDevice_self]
      exact owned.owner c
    · rw [NodePrivate.setDevice_other s here]
      exact owned.owner c
  · have apart : c ≠ connection := by
      rintro rfl
      exact free announced owner
    rw [NodePrivate.setDevice_other s apart]
    exact owned.closed c announced owner
  · by_cases here : c = connection
    · subst here
      rw [NodePrivate.setDevice_self] at silent
      contradiction
    · rw [NodePrivate.setDevice_other s here] at silent ⊢
      exact owned.silent c silent
  · exact asked c (requests c ▸ outstanding)
  · intro root children present c here isOpen
    obtain ⟨announced, owner, _⟩ := source_some.mp ((attached root children present).symm.trans here)
    have apart : c ≠ connection := by
      rintro rfl
      exact free announced owner
    rw [NodePrivate.setDevice_other s apart] at isOpen ⊢
    exact pending root children present c here isOpen
  · rintro root children present ⟨c, announced, isOpen, told, compatible⟩
    have apart : c ≠ connection := by
      rintro rfl
      rw [NodePrivate.setDevice_self] at told
      exact Option.some_ne_none announced (told.symm.trans (owned.silent c closed).1)
    rw [NodePrivate.setDevice_other s apart] at isOpen told
    obtain ⟨d, source, serves⟩ := served root children present ⟨c, announced, isOpen, told, compatible⟩
    refine ⟨d, source, ?_⟩
    by_cases here : d = connection
    · subst here
      rw [NodePrivate.setDevice_self]
    · rwa [NodePrivate.setDevice_other s here]

theorem lost_other {c : Conn} (apart : c ≠ connection) : (s.lost connection).devices c = s.devices c := by
  rw [NodePrivate.lost_devices, Function.update_of_ne apart]

theorem lost_self : (s.lost connection).devices connection = { s.devices connection with
    m_isClosing := (s.devices connection).external
    isOpen := false
    hasSource := (s.devices connection).hasSource && (s.devices connection).external
    announced := none
    requests := [] } := by
  rw [NodePrivate.lost_devices, Function.update_self]

theorem lost_kept (unreported : (s.devices connection).shouldReconnect = false) :
    (s.lost connection).connectedSource = s.connectedSource ∧ (s.lost connection).replica = s.replica := by
  rw [NodePrivate.lost_connectedSource, NodePrivate.lost_replica, unreported]
  simp only [Bool.false_eq_true, ↓reduceIte, false_and, Option.map_id', and_self]

/-- The replica is without a connection, and the source without an owner. -/
theorem lost_forgotten (reported : (s.devices connection).shouldReconnect = true) :
    (s.lost connection).connectedSource = none ∧ ∀ root' children', (s.lost connection).replica = some (root', children') →
      root'.connectionToSource = none ∧ ∃ root children, s.replica = some (root, children) ∧
        root'.objectSignature = root.objectSignature := by
  refine ⟨by rw [NodePrivate.lost_connectedSource, if_pos reported], fun root' children' now => ?_⟩
  rw [NodePrivate.lost_replica] at now
  obtain ⟨⟨root, children⟩, present, same⟩ := Option.map_eq_some_iff.mp now
  dsimp only at same
  split at same
  · obtain ⟨rfl, rfl⟩ := Prod.mk.inj same
    rw [Replica.disconnected_eq]
    exact ⟨rfl, root, children, present, rfl⟩
  · rename_i kept
    obtain ⟨rfl, rfl⟩ := Prod.mk.inj same
    exact ⟨not_not.mp fun attached => kept ⟨reported, attached⟩, root, children, present, rfl⟩

theorem Owned.lost (owned : Owned s) (connection : Conn) : Owned (s.lost connection) := by
  refine ⟨fun c => ?_, fun c announced owner => ?_, fun c shut => ?_⟩
  · cases reported : (s.devices connection).shouldReconnect with
    | true =>
      obtain ⟨hasSource, internal⟩ := (Bool.and_eq_true _ _).mp reported
      obtain ⟨owner, owns⟩ := (owned.owner connection).mp hasSource
      rw [(lost_forgotten reported).1]
      simp only [reduceCtorEq, exists_false, iff_false]
      by_cases here : c = connection
      · subst here
        rw [lost_self]
        revert internal
        cases (s.devices c).external <;> simp
      · rw [lost_other here, owned.owner c, owns]
        rintro ⟨announced, same⟩
        exact here (Prod.mk.inj (Option.some.inj same)).1.symm
    | false =>
      rw [(lost_kept reported).1, ← owned.owner c]
      by_cases here : c = connection
      · subst here
        rw [lost_self]
        rw [Device.shouldReconnect] at reported
        revert reported
        cases (s.devices c).external <;> simp
      · rw [lost_other here]
  · cases reported : (s.devices connection).shouldReconnect with
    | true =>
      rw [(lost_forgotten reported).1] at owner
      contradiction
    | false =>
      rw [(lost_kept reported).1] at owner
      by_cases here : c = connection
      · subst here
        have hasSource := (owned.owner c).mpr ⟨announced, owner⟩
        rw [Device.shouldReconnect, hasSource] at reported
        rw [lost_self]
        exact .inr (by simpa using reported)
      · rw [lost_other here]
        exact owned.closed c announced owner
  · by_cases here : c = connection
    · subst here
      rw [lost_self]
      exact ⟨rfl, rfl⟩
    · rw [lost_other here] at shut ⊢
      exact owned.silent c shut

/-- No other connection has announced the source of a replica when its owner is lost. -/
theorem Tracked.lost (tracked : Tracked s) (fits : ∀ root children, s.replica = some (root, children) →
    s.source root.objectSignature = some connection → ∀ other announced, other ≠ connection →
      (s.devices other).isOpen = true → (s.devices other).announced = some announced →
        checkSignatures root.objectSignature announced = false) : Tracked (s.lost connection) := by
  obtain ⟨owned, asked, attached, pending, served⟩ := tracked
  have open_apart {c} (isOpen : ((s.lost connection).devices c).isOpen = true) : c ≠ connection := by
    rintro rfl
    rw [lost_self] at isOpen
    contradiction
  have asked_apart {c} (outstanding : ((s.lost connection).devices c).requests ≠ []) : c ≠ connection := by
    rintro rfl
    rw [lost_self] at outstanding
    exact outstanding rfl
  -- What is announced behind the loss has another owner, which is open.
  have remains {root children} (present : s.replica = some (root, children))
      (announced : (s.lost connection).Announced root.objectSignature) :
      ∃ c, s.source root.objectSignature = some c ∧ (s.devices c).isOpen = true ∧ c ≠ connection := by
    obtain ⟨c, told, isOpen, heard, compatible⟩ := announced
    have other := open_apart isOpen
    rw [lost_other other] at isOpen heard
    obtain ⟨owner, source, serves⟩ := served root children present ⟨c, told, isOpen, heard, compatible⟩
    refine ⟨owner, source, serves, ?_⟩
    rintro rfl
    exact Bool.false_ne_true ((fits root children present source c told other isOpen heard).symm.trans compatible)
  cases reported : (s.devices connection).shouldReconnect with
  | true =>
    obtain ⟨free, detached⟩ := lost_forgotten reported
    obtain ⟨owner, owns⟩ := (owned.owner connection).mp ((Bool.and_eq_true _ _).mp reported).1
    have only {c} {wanted : Signature} (source : s.source wanted = some c) : c = connection := by
      obtain ⟨_, owner, _⟩ := source_some.mp source
      exact (Prod.mk.inj (Option.some.inj (owner.symm.trans owns))).1
    refine ⟨owned.lost connection, fun c outstanding => ?_, fun root' children' now => ?_, fun root' children' now c here => ?_,
      fun root' children' now announced => ?_⟩
    · have other := asked_apart outstanding
      rw [lost_other other] at outstanding
      obtain ⟨root, children, present, own⟩ := asked c outstanding
      exact absurd (only ((attached root children present).symm.trans own)) other
    · rw [(detached root' children' now).1, source_of_none free]
    · rw [(detached root' children' now).1] at here
      contradiction
    · obtain ⟨_, root, children, present, same⟩ := detached root' children' now
      rw [same] at announced
      obtain ⟨c, source, _, other⟩ := remains present announced
      exact absurd (only source) other
  | false =>
    obtain ⟨same, replica⟩ := lost_kept reported
    refine ⟨owned.lost connection, fun c outstanding => ?_, fun root children now => ?_, fun root children now c here isOpen => ?_,
      fun root children now announced => ?_⟩
    · rw [lost_other (asked_apart outstanding)] at outstanding
      rw [replica]
      exact asked c outstanding
    · rw [source_congr same]
      exact attached root children (replica.symm.trans now)
    · have other := open_apart isOpen
      rw [lost_other other] at isOpen ⊢
      exact pending root children (replica.symm.trans now) c here isOpen
    · obtain ⟨c, source, isOpen, other⟩ := remains (replica.symm.trans now) announced
      exact ⟨c, (source_congr same).trans source, by rwa [lost_other other]⟩

theorem announce_other {c : Conn} (apart : c ≠ connection) :
    (s.announce connection signature).devices c = s.devices c := by
  rw [NodePrivate.announce_eq]
  exact s.setDevice_other apart _

theorem announce_self : (s.announce connection signature).devices connection = { s.devices connection with
    hasSource := (s.devices connection).hasSource || s.connectedSource.isNone
    announced := some signature } := by
  rw [NodePrivate.announce_eq]
  exact s.setDevice_self connection _

theorem announce_connectedSource : (s.announce connection signature).connectedSource =
    some (s.connectedSource.getD (connection, signature)) := by
  rw [NodePrivate.announce_eq]

theorem announce_requests (c : Conn) :
    ((s.announce connection signature).devices c).requests = (s.devices c).requests := by
  by_cases here : c = connection
  · subst here
    rw [announce_self]
  · rw [announce_other here]

theorem announce_isOpen (c : Conn) :
    ((s.announce connection signature).devices c).isOpen = (s.devices c).isOpen := by
  by_cases here : c = connection
  · subst here
    rw [announce_self]
  · rw [announce_other here]

theorem Owned.announce (owned : Owned s) (isOpen : (s.devices connection).isOpen = true) :
    Owned (s.announce connection signature) := by
  refine ⟨fun c => ?_, fun c announced owner => ?_, fun c closed => ?_⟩
  · rw [announce_connectedSource]
    by_cases here : c = connection
    · subst here
      rw [announce_self]
      cases owner : s.connectedSource with
      | none => simp
      | some other => simpa [owner] using owned.owner c
    · rw [announce_other here]
      cases owner : s.connectedSource with
      | none => simpa [owner, Ne.symm here] using owned.owner c
      | some other => simpa [owner] using owned.owner c
  · by_cases here : c = connection
    · subst here
      exact .inl ((announce_isOpen c).trans isOpen)
    · rw [announce_other here]
      rw [announce_connectedSource] at owner
      cases known : s.connectedSource with
      | none =>
        rw [known] at owner
        exact absurd (Prod.mk.inj (Option.some.inj owner)).1.symm here
      | some other =>
        rw [known] at owner
        exact owned.closed c announced (known.trans owner)
  · have apart : c ≠ connection := by
      rintro rfl
      rw [announce_isOpen, isOpen] at closed
      contradiction
    rw [announce_other apart] at closed ⊢
    exact owned.silent c closed

/-- A source that is announced again has an open owner. -/
theorem Tracked.objectList (tracked : Tracked s) (isOpen : (s.devices connection).isOpen = true)
    (fits : ∀ root children, s.replica = some (root, children) → checkSignatures root.objectSignature signature = true →
      s.connectedSource ≠ none → s.Served root.objectSignature) : Tracked (s.objectList connection signature) := by
  have owned : Owned (s.announce connection signature) := tracked.owned.announce isOpen
  have source (known : s.connectedSource ≠ none) (wanted : Signature) :
      (s.announce connection signature).source wanted = s.source wanted := by
    refine source_congr ?_
    obtain ⟨owner, owns⟩ := Option.ne_none_iff_exists'.mp known
    rw [announce_connectedSource, owns, Option.getD_some]
  have served {root children} (present : s.replica = some (root, children))
      (announced : (s.announce connection signature).Announced root.objectSignature) :
      (s.announce connection signature).Served root.objectSignature := by
    obtain ⟨c, told, opened, heard, compatible⟩ := announced
    by_cases known : s.connectedSource = none
    · by_cases here : c = connection
      · subst here
        rw [announce_self] at heard
        obtain rfl := Option.some.inj heard
        have owner : (s.announce c signature).connectedSource = _ := announce_connectedSource
        rw [known, Option.getD_none] at owner
        exact ⟨c, source_some.mpr ⟨signature, owner, compatible⟩, opened⟩
      · rw [announce_other here] at opened heard
        obtain ⟨d, given, _⟩ := tracked.served root children present ⟨c, told, opened, heard, compatible⟩
        rw [source_of_none known] at given
        contradiction
    · have before : s.Served root.objectSignature := by
        by_cases here : c = connection
        · subst here
          rw [announce_self] at heard
          obtain rfl := Option.some.inj heard
          exact fits root children present compatible known
        · rw [announce_other here] at opened heard
          exact tracked.served root children present ⟨c, told, opened, heard, compatible⟩
      obtain ⟨d, given, serves⟩ := before
      exact ⟨d, (source known _).trans given, (announce_isOpen d).trans serves⟩
  obtain ⟨root, children, present, detached, same⟩ | ⟨same, attached⟩ := s.objectList_cases connection signature
  · rw [same]
    refine tracked_handleReplicaConnection owned (fun c => (announce_requests c).trans ?_) detached (served present)
    refine tracked.quiet_of_detached (fun root' children' present' => ?_) c
    obtain ⟨rfl, _⟩ := Prod.mk.inj (Option.some.inj (present.symm.trans present'))
    exact detached
  · rw [same]
    have replica := s.announce_replica connection signature
    refine ⟨owned, fun c outstanding => ?_, fun root children now => ?_, fun root children now c here opened => ?_,
      fun root children now => served (replica.symm.trans now)⟩
    · rw [announce_requests] at outstanding
      rw [replica]
      exact tracked.asked c outstanding
    · have present := replica.symm.trans now
      have own := tracked.attached root children present
      have known : s.connectedSource ≠ none := by
        intro free
        exact attached root children present (own.trans (source_of_none free))
      rw [own, source known]
    · rw [announce_isOpen] at opened
      rw [announce_requests]
      exact tracked.pending root children (replica.symm.trans now) c here opened

theorem Tracked.acquire (tracked : Tracked s) (missing : s.replica = none) {isDynamic : Bool} {name : Name}
    {signature : Signature} {children : Forest (Kind × Name)}
    (fits : s.Announced (if isDynamic then [] else signature) → s.Served (if isDynamic then [] else signature)) :
    Tracked (s.acquire isDynamic name signature children) := by
  have quiet := tracked.quiet_of_detached fun root children present => by
    rw [missing] at present
    contradiction
  rw [NodePrivate.acquire]
  cases isDynamic with
  | true => exact tracked_handleReplicaConnection tracked.owned quiet rfl fits
  | false =>
    exact tracked_handleReplicaConnection
      (s := { s with replicas := fun known => s.replicas known || children.nodes.any fun node => decide (node.2.2 = known) })
      (tracked.owned.congr rfl (fun _ => rfl) fun c _ => quiet c) quiet rfl fits

/-- An init packet over its connection is answered for the replica. -/
theorem Tracked.answered (tracked : Tracked s) {isDynamic : Bool} {requests : List Bool} {root new : Replica Conn}
    {stored children : Children Conn} {names : Name → Bool} {assertions : Bool}
    (asked : (s.devices connection).requests = isDynamic :: requests) (present : s.replica = some (root, stored))
    (connects : new.connectionToSource = root.connectionToSource) (same : new.objectSignature = root.objectSignature)
    (answered : new.initFrom = some connection) :
    Tracked { s.setDevice connection { s.devices connection with requests } with
      replicas := names, replica := some (new, children), assertions } := by
  have outstanding : (s.devices connection).requests ≠ [] := by
    rw [asked]
    exact List.cons_ne_nil _ _
  have own : root.connectionToSource = some connection := by
    obtain ⟨_, _, here, own⟩ := tracked.asked connection outstanding
    obtain ⟨rfl, _⟩ := Prod.mk.inj (Option.some.inj (present.symm.trans here))
    exact own
  have devices (c : Conn) : (s.setDevice connection { s.devices connection with requests }).devices c =
      { s.devices c with requests :=
        ((s.setDevice connection { s.devices connection with requests }).devices c).requests } := by
    by_cases here : c = connection
    · subst here
      rw [NodePrivate.setDevice_self]
    · rw [NodePrivate.setDevice_other s here]
  refine ⟨tracked.owned.congr rfl devices fun c closed => ?_, fun c asked => ⟨new, children, rfl, ?_⟩, ?_, ?_, ?_⟩
  · have apart : c ≠ connection := by
      rintro rfl
      exact outstanding (tracked.owned.silent c closed).2
    dsimp only
    rw [NodePrivate.setDevice_other s apart]
    exact (tracked.owned.silent c closed).2
  · rw [connects, own]
    by_contra apart
    have other : c ≠ connection := fun here => apart (congrArg some here.symm)
    dsimp only at asked
    rw [NodePrivate.setDevice_other s other] at asked
    obtain ⟨_, _, here, attached⟩ := tracked.asked c asked
    obtain ⟨rfl, _⟩ := Prod.mk.inj (Option.some.inj (present.symm.trans here))
    exact apart (own.symm.trans attached)
  · rintro _ _ ⟨⟩
    rw [connects, same]
    exact tracked.attached root stored present
  · rintro _ _ ⟨⟩ c here _
    rw [connects, own] at here
    exact .inr (answered.trans here)
  · rintro _ _ ⟨⟩ announced
    rw [same] at announced ⊢
    exact (tracked.served root stored present (announced.congr devices)).congr rfl devices

/-- Hosts keep their sources, and answer all requests. -/
def Event.Faithful : Event Conn → Prop
  | .removeObject _ | .unanswered _ => False
  | _ => True

/-- An owner that is open stands for all connections that announced the source: when another
one announces it, when a replica is acquired, and when the owner's connection ends, behind
which no other may be left. -/
def handsOver (s : NodePrivate Conn) : Event Conn → Prop
  | .objectList connection signature =>
    (s.devices connection).isOpen = true → ∀ root children, s.replica = some (root, children) →
      checkSignatures root.objectSignature signature = true → s.connectedSource ≠ none → s.Served root.objectSignature
  | .acquire isDynamic _ signature _ =>
    s.Announced (if isDynamic then [] else signature) → s.Served (if isDynamic then [] else signature)
  | .lost connection =>
    (s.devices connection).isOpen = true → ∀ root children, s.replica = some (root, children) →
      s.source root.objectSignature = some connection → ∀ other announced, other ≠ connection →
        (s.devices other).isOpen = true → (s.devices other).announced = some announced →
          checkSignatures root.objectSignature announced = false
  | _ => True

theorem tracked_step (tracked : Tracked s) (fits : e.Faithful ∧ handsOver s e) (stepped : step s e = some t) :
    Tracked t := by
  obtain ⟨faithful, fits⟩ := fits
  cases e with
  | connect connection =>
    simp only [step, Option.ite_none_left_eq_some, Option.some.injEq, Bool.or_eq_true, not_or, Bool.not_eq_true] at stepped
    obtain ⟨⟨closed, opens⟩, rfl⟩ := stepped
    exact tracked.connect closed opens
  | lost connection =>
    simp only [step, Option.ite_none_right_eq_some, Option.some.injEq] at stepped
    obtain ⟨isOpen, rfl⟩ := stepped
    exact tracked.lost (fits isOpen)
  | acquire isDynamic name signature children =>
    simp only [step, Option.ite_none_left_eq_some, Option.some.injEq, Option.not_isSome_iff_eq_none] at stepped
    obtain ⟨missing, rfl⟩ := stepped
    exact tracked.acquire missing fits
  | objectList connection signature =>
    simp only [step, Option.ite_none_right_eq_some, Option.some.injEq] at stepped
    obtain ⟨isOpen, rfl⟩ := stepped
    exact tracked.objectList isOpen (fits isOpen)
  | init connection infos =>
    obtain ⟨requests, root, stored, children, names, inside, asked, present, _, rfl⟩ := step_init stepped
    refine tracked.answered asked present ?_ ?_ rfl
    all_goals simp only [Replica.initializeProperties, Replica.setState_valid]
  | initDynamic connection infos =>
    obtain ⟨requests, root, stored, children, names, inside, asked, present, _, rfl⟩ := step_initDynamic stepped
    refine tracked.answered asked present ?_ ?_ rfl
    all_goals simp only [Replica.setDynamicProperties, Replica.setDynamicMetaObject, Replica.setState_valid]
  | propertyChange path index info below =>
    obtain ⟨root, children, replica, stored, changed, names, inside, present, _, _, rfl⟩ := step_propertyChange stepped
    obtain ⟨owned, asked, attached, pending, served⟩ := tracked
    refine ⟨owned.congr rfl (fun _ => rfl) fun c closed => (owned.silent c closed).2, fun c outstanding => ?_, ?_, ?_, ?_⟩
    · obtain ⟨_, _, here, own⟩ := asked c outstanding
      obtain ⟨rfl, _⟩ := Prod.mk.inj (Option.some.inj (present.symm.trans here))
      exact ⟨_, _, rfl, own⟩
    · rintro _ _ ⟨⟩
      exact attached root children present
    · rintro _ _ ⟨⟩
      exact pending root children present
    · rintro _ _ ⟨⟩
      exact served root children present
  | removeObject connection => exact faithful.elim
  | unanswered connection => exact faithful.elim

/-- In a run of such steps, replicas are on an open connection whenever one announced their
source. -/
theorem replaced_of_handsOver (external : Conn → Bool) {es : List (Event Conn)} (faithful : ∀ e ∈ es, e.Faithful)
    (fits : Admitted step handsOver (.initial external) es) :
    Admitted step (fun s e => ∀ t, step s e = some t → t.Replaced) (.initial external) es := by
  refine admitted_of_invariant (P := Tracked) tracked_step ?_ (fits.and_forall faithful) ?_
  · intro s e tracked fits t stepped
    exact (tracked_step tracked fits stepped).replaced
  · refine ⟨⟨fun c => ?_, fun _ _ owner => ?_, fun _ _ => ⟨rfl, rfl⟩⟩, fun _ outstanding => absurd rfl outstanding, ?_, ?_, ?_⟩
    · exact ⟨fun brought => by contradiction, fun ⟨_, owner⟩ => by contradiction⟩
    · contradiction
    all_goals
      intro root children present
      contradiction

/-- The second connection is opened before the first is lost, and announces the source
afterwards. -/
theorem replaced_handover :
    Admitted step (fun s e => ∀ t, step s e = some t → t.Replaced) (.initial fun (_ : Bool) => false)
      [.acquire false "A".toList [1] .nil, .connect true, .objectList true [1], .init true .nil, .connect false, .lost true,
        .objectList false [1], .init false .nil] := by
  refine replaced_of_handsOver _ (by simp [Event.Faithful]) (.cons ?_ rfl (.cons trivial rfl (.cons ?_ rfl
    (.cons trivial rfl (.cons trivial rfl (.cons ?_ rfl (.cons ?_ rfl (.cons trivial rfl trivial))))))))
  · rintro ⟨_, _, isOpen, _⟩
    contradiction
  · intro _ _ _ _ _ known
    exact absurd rfl known
  · intro _ _ _ _ _ other announced apart isOpen told
    cases other with
    | false => contradiction
    | true => exact absurd rfl apart
  · intro _ _ _ _ _ known
    exact absurd rfl known

/-- The owner is lost after the second connection announced the source, or is an external
device that tells nobody of its end. -/
theorem replica_left_behind :
    (∃ t, exec step (.initial fun (_ : Bool) => false)
        [.acquire false "A".toList [1] .nil, .connect true, .objectList true [1], .init true .nil, .connect false,
          .objectList false [1], .lost true] = some t ∧ ¬ t.Replaced) ∧
    ∃ t, exec step (.initial id)
        [.acquire false "A".toList [1] .nil, .connect true, .objectList true [1], .init true .nil, .lost true,
          .connect false, .objectList false [1]] = some t ∧ ¬ t.Replaced := by
  constructor
  all_goals
    refine ⟨_, rfl, fun replaced => ?_⟩
    obtain ⟨connection, attached, isOpen, _⟩ :=
      replaced (by intro c; cases c <;> exact fun _ => rfl) _ _ rfl ⟨false, [1], rfl, rfl, by decide⟩
  · contradiction
  · obtain rfl := Option.some.inj attached
    contradiction

end RemoteObjects.Client
