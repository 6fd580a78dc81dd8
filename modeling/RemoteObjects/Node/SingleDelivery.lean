import RemoteObjects.Node.Attach
import RemoteObjects.Node.Subscription

/-! How often a connection is in the list of a root source. The host appends it with every
request, and a client asks again whenever it has lost its source. -/
namespace RemoteObjects.Node
open Transition

section Statement
variable {Conn T C : Type} [DecidableEq Conn] [DecidableEq T] [DecidableEq C] [Inhabited C]

/-- The listeners behind the step are distinct, a signal is written to each connection once
at most, and no valid replica is initialised again by the root source that initialised it. -/
def DeliversOnce (api : Interface T C) (s : Net Conn T C) (e : Event Conn T C) : Prop :=
  ∀ t, step api s e = some t → (∀ root ∈ t.root, root.listeners.Nodup) ∧
    match e with
    | .emit signal args => ∀ root ∈ s.root, ∀ c, (t.links c).down = (s.links c).down ∨
        (t.links c).down = (s.links c).down ++ (root.handleMetaCall api s.values signal args).1
    | .clientRead c => ∀ packet ∈ (s.links c).down.head?, ∀ root ∈ packet.serves none,
        ∀ replica ∈ (s.links c).replica, replica.state = .valid → replica.initRoot ≠ some root
    | _ => True

/-- A replica is acquired while nothing for an earlier one is on the way, and a client that
is told of the end of its source has no request on the way or with the next one. -/
def AsksOnce (s : Net Conn T C) : Event Conn T C → Prop
  | .acquire c _ _ => (s.links c).replica = none →
      (∀ packet ∈ (s.links c).up, packet.attach = none) ∧ ∀ packet ∈ (s.links c).down, packet.attach = none
  | .clientRead c => (s.links c).down.head? = some .removeObject → (s.links c).attached →
      (∀ packet ∈ (s.links c).up, packet.attach = none) ∧ ∀ root ∈ s.root, c ∉ root.listeners
  | _ => True

instance (s : Net Conn T C) : (e : Event Conn T C) → Decidable (AsksOnce s e)
  | .acquire _ _ _ => inferInstanceAs (Decidable (_ → _ ∧ _))
  | .clientRead _ => inferInstanceAs (Decidable (_ → _ → _ ∧ _))
  | .connect _ | .enableRemoting _ | .disableRemoting | .write _ _ | .emit _ _ | .delete _ | .serverRead _ => .isTrue trivial

end Statement

section Client
variable {T C : Type}

/-- No request follows another one, from whether the connection is listed to whether its
replica is attached. -/
def Spaced : Bool → List Up → Bool → Prop
  | listed, [], attached => listed → attached
  | listed, .addObject _ _ :: up, attached => listed = false ∧ Spaced true up attached
  | _, .removeObject :: up, attached => Spaced false up attached

theorem Spaced.unlisted (spaced : Spaced listed up attached) : Spaced false up attached := by
  cases up with
  | nil => exact fun none => nomatch none
  | cons packet up =>
    cases packet with
    | addObject isDynamic attach => exact And.intro rfl spaced.2
    | removeObject => exact spaced

theorem Spaced.add (spaced : Spaced listed up false) (isDynamic : Bool) (attach : Nat) :
    Spaced listed (up ++ [.addObject isDynamic attach]) true := by
  induction up generalizing listed with
  | nil => exact And.intro (eq_false_of_ne_true fun isListed => nomatch spaced isListed) fun _ => rfl
  | cons packet up ih =>
    cases packet with
    | addObject isDynamic attach => exact And.intro spaced.1 (ih spaced.2)
    | removeObject => exact ih spaced

theorem Spaced.remove (spaced : Spaced listed up attached) : Spaced listed (up ++ [.removeObject]) false := by
  induction up generalizing listed with
  | nil => exact fun none => nomatch none
  | cons packet up ih =>
    cases packet with
    | addObject isDynamic attach => exact And.intro spaced.1 (ih spaced.2)
    | removeObject => exact ih spaced

theorem Spaced.free (quiet : ∀ packet ∈ up, packet.attach = none) : Spaced false up false := by
  induction up with
  | nil => exact fun none => nomatch none
  | cons packet up ih =>
    obtain ⟨first, others⟩ := List.forall_mem_cons.mp quiet
    cases packet with
    | addObject => contradiction
    | removeObject => exact ih others

/-- The root sources that have initialised the replica last, or are going to. -/
def Link.inits (link : Link T C) (replica : ConnectedReplica T C) : List Nat :=
  replica.initRoot.toList ++ link.down.filterMap (Down.serves none)

/-- A connection that asks once for each root source. -/
structure Single (roots : Nat) (face : Option Face) (link : Link T C) : Prop where
  spaced : Spaced (face.any (·.listed)) link.up link.attached
  requests : ∀ replica ∈ link.replica, ∀ older isDynamic attach later,
    link.up = older ++ .addObject isDynamic attach :: later → later = [] ∧ replica.connected
  increasing : ∀ replica ∈ link.replica, (link.inits replica).Pairwise (· < ·)
  earlier : ∀ replica ∈ link.replica, ∀ root ∈ link.inits replica, root < roots
  waiting : ∀ f ∈ face, ∀ replica ∈ link.replica, link.up ≠ [] ∨ ¬ replica.connected →
    f.id ∉ link.inits replica
  listed : ∀ f ∈ face, ∀ replica ∈ link.replica, f.id ∈ link.inits replica → f.listed

variable {roots : Nat} {face : Option Face} {f : Face} {link : Link T C}

theorem Single.initial : Single roots none (.closed : Link T C) where
  spaced none := nomatch none
  requests _ member := nomatch member
  increasing _ member := nomatch member
  earlier _ member := nomatch member
  waiting _ member := nomatch member
  listed _ member := nomatch member

theorem inits_concat (replica : ConnectedReplica T C) (packets : List (Down T C)) :
    Link.inits { link with down := link.down ++ packets } replica =
      link.inits replica ++ packets.filterMap (Down.serves none) := by
  simp only [Link.inits, List.filterMap_append, List.append_assoc]

/-- Packets that initialise nothing are added to the way. -/
theorem Single.sends (single : Single roots face link) {packets : List (Down T C)}
    (silent : packets.filterMap (Down.serves none) = []) (isOpen : Bool) :
    Single roots face { link with isOpen := isOpen, down := link.down ++ packets } := by
  have same : ∀ replica, Link.inits { link with isOpen := isOpen, down := link.down ++ packets } replica =
      link.inits replica := by
    intro replica
    refine (inits_concat replica packets).trans ?_
    rw [silent, List.append_nil]
  constructor
  · exact single.spaced
  · exact single.requests
  · simpa only [same] using single.increasing
  · simpa only [same] using single.earlier
  · simpa only [same] using single.waiting
  · simpa only [same] using single.listed

theorem Single.disabled (single : Single roots face link) : Single roots none link where
  spaced := by
    have spaced := single.spaced
    cases listed : face.any (·.listed) with
    | false =>
      rw [listed] at spaced
      exact spaced
    | true =>
      rw [listed] at spaced
      exact spaced.unlisted
  requests := single.requests
  increasing := single.increasing
  earlier := single.earlier
  waiting _ member := nomatch member
  listed _ member := nomatch member

/-- The new root source has initialised nothing. -/
theorem Single.enabled (single : Single roots none link) {id : Nat} (fresh : roots ≤ id)
    (signature : Signature) : Single roots (some ⟨id, signature, false⟩) link where
  spaced := single.spaced
  requests := single.requests
  increasing := single.increasing
  earlier := single.earlier
  waiting := by
    rintro f ⟨⟩ replica held _ member
    exact absurd (single.earlier replica held _ member) (Nat.not_lt.mpr fresh)
  listed := by
    rintro f ⟨⟩ replica held member
    exact absurd (single.earlier replica held _ member) (Nat.not_lt.mpr fresh)

theorem Single.later (single : Single roots face link) {roots' : Nat} (grows : roots ≤ roots') :
    Single roots' face link where
  spaced := single.spaced
  requests := single.requests
  increasing := single.increasing
  earlier replica held root member := Nat.lt_of_lt_of_le (single.earlier replica held root member) grows
  waiting := single.waiting
  listed := single.listed

/-- A replica that is not attached yet asks, if its signature is that of the source. -/
theorem Single.handleReplicaConnection (single : Single roots face link) {replica : ConnectedReplica T C}
    (held : replica ∈ link.replica) (free : replica.connected = false) (source : Signature) :
    Single roots face (link.handleReplicaConnection replica source) := by
  have detached : link.attached = false := by rw [Link.attached, held, Option.any_some, free]
  unfold Link.handleReplicaConnection
  split
  · constructor
    · exact Spaced.add (detached ▸ single.spaced) _ _
    · rintro new ⟨⟩ older isDynamic attach later asked
      refine ⟨?_, rfl⟩
      by_contra more
      obtain ⟨before, last, rfl⟩ := List.eq_nil_or_concat later |>.resolve_left more
      rw [List.concat_eq_append, ← List.cons_append, ← List.append_assoc] at asked
      have earlier := (List.append_inj' asked rfl).1
      have attached := (single.requests replica held older isDynamic attach before earlier).2
      rw [free] at attached
      contradiction
    · rintro new ⟨⟩
      exact single.increasing replica held
    · rintro new ⟨⟩
      exact single.earlier replica held
    · rintro g member new ⟨⟩ _
      exact single.waiting g member replica held (.inr (by rw [free]; exact Bool.false_ne_true))
    · rintro g member new ⟨⟩
      exact single.listed g member replica held
  · obtain ⟨state, same⟩ := replica.setState_frame .signatureMismatch
    rw [same]
    constructor
    · have spaced := single.spaced
      rw [detached] at spaced
      simpa only [Link.attached, Option.any_some, free] using spaced
    · rintro new ⟨⟩
      exact single.requests replica held
    · rintro new ⟨⟩
      exact single.increasing replica held
    · rintro new ⟨⟩
      exact single.earlier replica held
    · rintro g member new ⟨⟩
      exact single.waiting g member replica held
    · rintro g member new ⟨⟩
      exact single.listed g member replica held

theorem Single.acquire (single : Single roots face link) (api : Interface T C) (isDynamic : Bool)
    (signature : Signature) (quiet : link.replica = none →
      (∀ packet ∈ link.up, packet.attach = none) ∧ ∀ packet ∈ link.down, packet.attach = none) :
    Single roots face (link.acquire api isDynamic signature) := by
  unfold Link.acquire
  split
  · exact single
  · rename_i absent
    obtain ⟨unasked, unsent⟩ := quiet absent
    have detached : link.attached = false := by rw [Link.attached, absent, Option.any_none]
    have acquired : Single roots face { link with
        replica := some (.new api isDynamic signature link.acquired)
        acquired := link.acquired + 1 } := by
      have none : Link.inits { link with
          replica := some (.new api isDynamic signature link.acquired)
          acquired := link.acquired + 1 } (.new api isDynamic signature link.acquired) = [] := by
        refine List.filterMap_eq_nil_iff.mpr fun packet member => ?_
        have silent := unsent packet member
        cases packet with
        | init | initDynamic => contradiction
        | objectList | removeObject | propertyChange | invoke => rfl
      constructor
      · have spaced := single.spaced
        rw [detached] at spaced
        exact spaced
      · intro new _ older isDynamic attach later asked
        have member : Up.addObject isDynamic attach ∈ link.up := by
          change link.up = _ at asked
          rw [asked]
          exact List.mem_append_right _ List.mem_cons_self
        exact nomatch unasked _ member
      · rintro new ⟨⟩
        rw [none]
        exact .nil
      · rintro new ⟨⟩ root member
        rw [none] at member
        contradiction
      · rintro _ _ new ⟨⟩ _ member
        rw [none] at member
        contradiction
      · rintro _ _ new ⟨⟩ member
        rw [none] at member
        contradiction
    simp only
    split
    · exact acquired.handleReplicaConnection rfl rfl _
    · exact acquired

theorem Single.delete (single : Single roots face link) : Single roots face link.delete := by
  unfold Link.delete
  split
  · rename_i replica held
    constructor
    · change Spaced _ (if replica.connected = true then _ else _) false
      split
      · exact single.spaced.remove
      · rename_i free
        have detached : link.attached = false := by
          rw [Link.attached, held, Option.any_some, eq_false_of_ne_true free]
        exact detached ▸ single.spaced
    all_goals intros; contradiction
  · exact single

/-- A request behind the first packet is a request. -/
theorem Single.requests_behind (single : Single roots face link) {packet : Up} {up : List Up}
    (arriving : link.up = packet :: up) : ∀ replica ∈ link.replica, ∀ older isDynamic attach later,
      up = older ++ .addObject isDynamic attach :: later → later = [] ∧ replica.connected := by
  rintro replica held older isDynamic attach later rfl
  exact single.requests replica held (packet :: older) isDynamic attach later arriving

theorem Single.ignored (single : Single roots none link) {packet : Up} {up : List Up}
    (arriving : link.up = packet :: up) : Single roots none { link with up } where
  spaced := by
    have spaced := single.spaced
    rw [arriving] at spaced
    cases packet with
    | addObject isDynamic attach => exact spaced.2.unlisted
    | removeObject => exact spaced
  requests := single.requests_behind arriving
  increasing := single.increasing
  earlier := single.earlier
  waiting _ member := nomatch member
  listed _ member := nomatch member

/-- The only request is read, and answered by the init packet of a new root source. -/
theorem Single.attaches (single : Single roots (some f) link) (latest : f.id + 1 = roots)
    {isDynamic : Bool} {attach : Nat} {up : List Up} (arriving : link.up = .addObject isDynamic attach :: up)
    {packet : Down T C} (init : packet.serves none = some f.id) :
    Single roots (some { f with listed := true }) { link with up, down := link.down ++ [packet] } := by
  have inits : ∀ replica, Link.inits { link with up, down := link.down ++ [packet] } replica =
      link.inits replica ++ [f.id] := by
    intro replica
    refine (inits_concat replica [packet]).trans ?_
    rw [List.filterMap_cons_some init, List.filterMap_nil]
  have fresh : ∀ replica ∈ link.replica, f.id ∉ link.inits replica := by
    intro replica held
    refine single.waiting f rfl replica held (.inl ?_)
    rw [arriving]
    exact List.cons_ne_nil _ _
  constructor
  · have spaced := single.spaced
    rw [arriving] at spaced
    exact spaced.2
  · exact single.requests_behind arriving
  · intro replica held
    rw [inits]
    refine List.pairwise_append.mpr ⟨single.increasing replica held, List.pairwise_singleton _ _, ?_⟩
    intro root member last same
    obtain rfl := List.mem_singleton.mp same
    have before := single.earlier replica held root member
    have apart : root ≠ f.id := fun same => fresh replica held (same ▸ member)
    omega
  · intro replica held root member
    rw [inits] at member
    rcases List.mem_append.mp member with old | new
    · exact single.earlier replica held root old
    · obtain rfl := List.mem_singleton.mp new
      omega
  · rintro g ⟨⟩ replica held more
    obtain ⟨idle, connected⟩ := single.requests replica held [] isDynamic attach up arriving
    exact absurd more (by rintro (busy | free) <;> contradiction)
  · rintro g ⟨⟩ _ _ _
    rfl

theorem Single.detaches (single : Single roots (some f) link) {up : List Up}
    (arriving : link.up = .removeObject :: up) :
    Single roots (some { f with listed := false }) { link with up } := by
  have fresh : ∀ replica ∈ link.replica, f.id ∉ link.inits replica := by
    intro replica held
    refine single.waiting f rfl replica held (.inl ?_)
    rw [arriving]
    exact List.cons_ne_nil _ _
  constructor
  · have spaced := single.spaced
    rw [arriving] at spaced
    exact spaced
  · exact single.requests_behind arriving
  · exact single.increasing
  · exact single.earlier
  · rintro g ⟨⟩ replica held _
    exact fresh replica held
  · rintro g ⟨⟩ replica held member
    exact absurd member (fresh replica held)

section Read
variable {packet : Down T C} {down : List (Down T C)}

/-- What is left of the inits once a packet has been read. -/
theorem inits_read (arriving : link.down = packet :: down) {old new : ConnectedReplica T C}
    (served : new.initRoot = packet.serves old.initRoot) (replicas : Option (ConnectedReplica T C)) :
    (Link.inits { link with down, replica := replicas } new).Sublist (link.inits old) := by
  simp only [Link.inits, arriving, served]
  cases packet with
  | objectList | removeObject | propertyChange | invoke => exact .refl _
  | init stamp | initDynamic stamp =>
    have first : ∀ {packet : Down T C}, packet.serves none = some stamp.root →
        (packet :: down).filterMap (Down.serves none) = stamp.root :: down.filterMap (Down.serves none) :=
      fun served => List.filterMap_cons_some served
    rw [first rfl]
    exact List.sublist_append_right _ _

/-- The replica is there after the packet if it was before. -/
theorem onClientRead_attached [DecidableEq T] [DecidableEq C] [Inhabited C] {api : Interface T C}
    (inner : packet.isControl = false) {new : Link T C} (read : link.onClientRead api packet = some new) :
    new.attached = link.attached := by
  obtain ⟨replicas, rfl, same⟩ := onClientRead_inner api inner read
  cases after : replicas with
  | some replica =>
    obtain ⟨old, before, connected, _⟩ := same replica after
    rw [Link.attached, Link.attached, Option.mem_def.mp before, Option.any_some, Option.any_some, connected]
  | none =>
    cases before : link.replica with
    | none => rw [Link.attached, Link.attached, before]
    | some old =>
      cases packet with
      | objectList | removeObject => contradiction
      | init =>
        simp only [Link.onClientRead, before] at read
        obtain ⟨replica, _, changed⟩ := Option.map_eq_some_iff.mp read
        cases (congrArg Link.replica changed).trans after
      | initDynamic =>
        simp only [Link.onClientRead, before, Option.map_some] at read
        cases (congrArg Link.replica (Option.some.inj read)).trans after
      | propertyChange | invoke =>
        simp only [Link.onClientRead, before] at read
        split at read
        · cases (congrArg Link.replica (Option.some.inj read)).trans after
        · contradiction

theorem Single.readsInner [DecidableEq T] [DecidableEq C] [Inhabited C] {api : Interface T C}
    (single : Single roots face link) (arriving : link.down = packet :: down)
    (inner : packet.isControl = false) {new : Link T C}
    (read : { link with down }.onClientRead api packet = some new) : Single roots face new := by
  have attached := onClientRead_attached inner read
  obtain ⟨replicas, rfl, same⟩ := onClientRead_inner api inner read
  have subset : ∀ new ∈ replicas, ∃ old ∈ link.replica, new.connected = old.connected ∧
      (Link.inits { link with down, replica := replicas } new).Sublist (link.inits old) := by
    intro new held
    obtain ⟨old, before, connected, _, served, _⟩ := same new held
    exact ⟨old, before, connected, inits_read arriving served replicas⟩
  constructor
  · rw [attached]
    exact single.spaced
  · intro replica held older isDynamic attach later asked
    obtain ⟨old, before, connected, _⟩ := subset replica held
    rw [connected]
    exact single.requests old before older isDynamic attach later asked
  · intro replica held
    obtain ⟨old, before, _, fewer⟩ := subset replica held
    exact (single.increasing old before).sublist fewer
  · intro replica held root member
    obtain ⟨old, before, _, fewer⟩ := subset replica held
    exact single.earlier old before root (fewer.subset member)
  · intro f hosted replica held more member
    obtain ⟨old, before, connected, fewer⟩ := subset replica held
    rw [connected] at more
    exact single.waiting f hosted old before more (fewer.subset member)
  · intro f hosted replica held member
    obtain ⟨old, before, _, fewer⟩ := subset replica held
    exact single.listed f hosted old before (fewer.subset member)

theorem Single.readsObjectList (single : Single roots face link) {signature : Signature}
    (arriving : link.down = .objectList signature :: down) :
    Single roots face (Link.readObjectList { link with down } signature) := by
  have read : Single roots face
      { link with down, connectedSource := some (link.connectedSource.getD signature) } := by
    have same : ∀ replica, Link.inits
        { link with down, connectedSource := some (link.connectedSource.getD signature) } replica =
          link.inits replica := by
      intro replica
      rw [Link.inits, Link.inits, arriving]
      rfl
    constructor
    · exact single.spaced
    · exact single.requests
    · simpa only [same] using single.increasing
    · simpa only [same] using single.earlier
    · simpa only [same] using single.waiting
    · simpa only [same] using single.listed
  unfold Link.readObjectList
  simp only
  split
  · rename_i replica held
    split
    · exact read
    · rename_i free
      exact read.handleReplicaConnection held (eq_false_of_ne_true free) _
  · exact read

/-- A replica that loses its source may ask for the next one, unless it has already. -/
theorem Single.readsRemoveObject (single : Single roots face link)
    (arriving : link.down = .removeObject :: down)
    (quiet : link.attached → (∀ packet ∈ link.up, packet.attach = none) ∧ ∀ f ∈ face, ¬ f.listed) :
    Single roots face (Link.readRemoveObject { link with down }) := by
  have old : ∀ new ∈ (Link.readRemoveObject { link with down }).replica, ∃ old ∈ link.replica,
      new.connected = false ∧ (Link.readRemoveObject { link with down }).inits new = link.inits old := by
    intro new held
    obtain ⟨old, before, rfl⟩ := Option.map_eq_some_iff.mp held
    refine ⟨old, before, ?_⟩
    have inits : ∀ state, (Link.readRemoveObject { link with down }).inits
        { old with connected := false, state } = link.inits old := by
      intro state
      rw [Link.inits, Link.inits, arriving]
      rfl
    split
    · obtain ⟨state, same⟩ := ConnectedReplica.setState_frame { old with connected := false } .suspect
      rw [same]
      exact ⟨rfl, inits state⟩
    · rename_i free
      have same : { old with connected := false } = old := by
        rw [← eq_false_of_ne_true free]
      exact ⟨eq_false_of_ne_true free, by simpa only [same] using inits old.state⟩
  have detached : (Link.readRemoveObject { link with down }).attached = false := by
    cases after : (Link.readRemoveObject { link with down }).replica with
    | none => rw [Link.attached, after, Option.any_none]
    | some new =>
      obtain ⟨_, _, free, _⟩ := old new after
      rw [Link.attached, after, Option.any_some, free]
  constructor
  · rw [detached]
    cases attached : link.attached with
    | false => exact attached ▸ single.spaced
    | true =>
      obtain ⟨unasked, unlisted⟩ := quiet attached
      have nowhere : face.any (·.listed) = false := by
        cases face with
        | none => rfl
        | some f => exact eq_false_of_ne_true (unlisted f rfl)
      rw [nowhere]
      exact Spaced.free unasked
  · intro new held older isDynamic attach later asked
    obtain ⟨replica, before, _⟩ := old new held
    have connected := (single.requests replica before older isDynamic attach later asked).2
    have attached : link.attached := by rw [Link.attached, Option.mem_def.mp before, Option.any_some, connected]
    have member : Up.addObject isDynamic attach ∈ link.up := by
      change link.up = _ at asked
      rw [asked]
      exact List.mem_append_right _ List.mem_cons_self
    exact nomatch (quiet attached).1 _ member
  · intro new held
    obtain ⟨replica, before, _, same⟩ := old new held
    rw [same]
    exact single.increasing replica before
  · intro new held
    obtain ⟨replica, before, _, same⟩ := old new held
    rw [same]
    exact single.earlier replica before
  · intro f hosted new held _
    obtain ⟨replica, before, _, same⟩ := old new held
    rw [same]
    by_cases connected : replica.connected
    · have attached : link.attached := by
        rw [Link.attached, Option.mem_def.mp before, Option.any_some, connected]
      exact fun member => (quiet attached).2 f hosted (single.listed f hosted replica before member)
    · exact single.waiting f hosted replica before (.inr connected)
  · intro f hosted new held member
    obtain ⟨replica, before, _, same⟩ := old new held
    rw [same] at member
    exact single.listed f hosted replica before member

variable {Conn : Type} {connection : Conn} {e : Event Conn T C} {face' : Option Face} {link' : Link T C}
  {roots' : Nat} [DecidableEq T] [DecidableEq C] [Inhabited C] {api : Interface T C}

/-- What `AsksOnce` says of one connection. -/
def AsksOnceBy (connection : Conn) (face : Option Face) (link : Link T C) : Event Conn T C → Prop
  | .acquire c _ _ => c = connection → link.replica = none →
      (∀ packet ∈ link.up, packet.attach = none) ∧ ∀ packet ∈ link.down, packet.attach = none
  | .clientRead c => c = connection → link.down.head? = some .removeObject → link.attached →
      (∀ packet ∈ link.up, packet.attach = none) ∧ ∀ f ∈ face, ¬ f.listed
  | _ => True

theorem Single.turn (single : Single roots face link) (asks : AsksOnceBy connection face link e)
    (latest : ∀ f ∈ face, f.id + 1 = roots) (fresh : face = none → ∀ f ∈ face', roots ≤ f.id)
    (turn : Turn api connection e face link face' link') : Single roots face' link' := by
  cases turn with
  | stays => exact single
  | connects =>
    refine single.sends ?_ true
    cases face <;> rfl
  | enabled id =>
    have enabled := single.enabled (fresh rfl _ rfl)
    split
    · exact (enabled _).sends rfl _
    · exact enabled _
  | disabled removals =>
    refine single.disabled.sends (List.filterMap_eq_nil_iff.mpr fun packet member => ?_) _
    rw [List.eq_of_mem_replicate member]
    rfl
  | sends packets data =>
    refine single.sends (List.filterMap_eq_nil_iff.mpr fun packet member => ?_) _
    have inner := data packet member
    cases packet with
    | propertyChange | invoke => rfl
    | objectList | init | initDynamic | removeObject => contradiction
  | acquires => exact single.acquire api _ _ (asks rfl)
  | deletes => exact single.delete
  | ignored waiting => exact single.ignored waiting
  | attaches waiting stamp properties source =>
    refine single.attaches (latest _ rfl) waiting ?_
    split <;> exact congrArg some source
  | detaches waiting => exact single.detaches waiting
  | reads arriving read =>
    rename_i packet down
    cases packet with
    | objectList signature =>
      cases read
      exact single.readsObjectList arriving
    | removeObject =>
      cases read
      exact single.readsRemoveObject arriving (asks rfl (by rw [arriving]; rfl))
    | init | initDynamic | propertyChange | invoke => exact single.readsInner arriving rfl read

end Read
end Client

section Host
variable {Conn T C : Type}

/-- What an event may change about the root source: it goes, a new one comes, some of the
listeners go, or one is appended. -/
inductive RootTurn (s : Net Conn T C) : Event Conn T C → Option (RootSource Conn T C) → Nat → Prop
  | gone : RootTurn s e none s.roots
  | enabled (unhosted : s.root = none) (id : new.id = s.roots) (unlisted : new.listeners = []) :
      RootTurn s e (some new) (s.roots + 1)
  | kept (hosted : s.root = some old) (id : new.id = old.id) (fewer : new.listeners.Sublist old.listeners) :
      RootTurn s e (some new) s.roots
  | appends (hosted : s.root = some old) (id : new.id = old.id)
      (waiting : (s.links c).up = .addObject isDynamic attach :: up)
      (more : new.listeners = old.listeners ++ [c]) : RootTurn s (.serverRead c) (some new) s.roots

variable [DecidableEq Conn] [DecidableEq T] [DecidableEq C] [Inhabited C] {api : Interface T C}
  {s t : Net Conn T C} {e : Event Conn T C}

theorem rootTurn_of_step (stepped : step api s e = some t) : RootTurn s e t.root t.roots := by
  have same : t.root = s.root → t.roots = s.roots → RootTurn s e t.root t.roots := by
    intro root roots
    rw [root, roots]
    cases hosted : s.root with
    | none => exact .gone
    | some root => exact .kept hosted rfl (.refl _)
  cases e with
  | connect c =>
    simp only [step] at stepped
    split at stepped <;> cases stepped
    exact same rfl rfl
  | enableRemoting signature =>
    simp only [step] at stepped
    split at stepped <;> cases stepped
    rename_i unhosted
    exact .enabled unhosted rfl rfl
  | disableRemoting =>
    obtain ⟨root, found, rfl⟩ := Option.map_eq_some_iff.mp stepped
    exact .gone
  | write i value =>
    simp only [step] at stepped
    split at stepped <;> cases stepped
    exact same rfl rfl
  | emit signal args =>
    simp only [step] at stepped
    split at stepped
    · split at stepped <;> cases stepped
      · rename_i root found
        obtain ⟨types, emission, frame, _⟩ := root.handleMetaCall_frame api s.values signal args
        simp only [frame]
        exact .kept found rfl (.refl _)
      · exact same rfl rfl
    · contradiction
  | acquire c isDynamic signature =>
    cases stepped
    exact same rfl rfl
  | delete c =>
    cases stepped
    exact same rfl rfl
  | serverRead c =>
    simp only [step] at stepped
    split at stepped
    · contradiction
    · rename_i packet up waiting
      cases hosted : s.root with
      | none =>
        simp only [Net.setLink, hosted] at stepped
        cases stepped
        exact same hosted.symm rfl
      | some root =>
        simp only [Net.setLink, hosted] at stepped
        cases stepped
        cases packet with
        | addObject isDynamic attach =>
          obtain ⟨types, frame⟩ := root.addListener_frame api s.values c isDynamic attach
          simp only [Net.onServerRead, frame]
          exact .appends hosted rfl waiting rfl
        | removeObject => exact .kept hosted rfl List.filter_sublist
  | clientRead c =>
    simp only [step] at stepped
    split at stepped
    · contradiction
    · obtain ⟨new, _, rfl⟩ := Option.map_eq_some_iff.mp stepped
      exact same rfl rfl

/-- Every connection asks the latest root source once, and is in its list once. -/
structure Delivering (s : Net Conn T C) : Prop where
  latest : ∀ root ∈ s.root, root.id + 1 = s.roots
  distinct : ∀ root ∈ s.root, root.listeners.Nodup
  single : ∀ c, Single s.roots (s.face c) (s.links c)

omit [DecidableEq T] [DecidableEq C] [Inhabited C] in
/-- A connection whose request is read is not listed. -/
theorem Delivering.unlisted (delivering : Delivering s) {root : RootSource Conn T C}
    (hosted : s.root = some root) {c : Conn} {isDynamic : Bool} {attach : Nat} {up : List Up}
    (waiting : (s.links c).up = .addObject isDynamic attach :: up) : c ∉ root.listeners := by
  have spaced := (delivering.single c).spaced
  rw [waiting, Net.face, hosted] at spaced
  exact of_decide_eq_false spaced.1

theorem Delivering.turn (delivering : Delivering s) (asks : AsksOnce s e)
    (stepped : step api s e = some t) : Delivering t := by
  have turn := rootTurn_of_step stepped
  have grows : s.roots ≤ t.roots := by
    generalize t.root = new at turn
    generalize t.roots = roots at turn
    cases turn with
    | gone | kept | appends => exact Nat.le_refl _
    | enabled => exact Nat.le_succ _
  have latest : ∀ root ∈ t.root, root.id + 1 = t.roots := by
    generalize t.root = new at turn
    generalize t.roots = roots at turn
    rintro root ⟨⟩
    cases turn with
    | enabled _ id => rw [id]
    | kept hosted id | appends hosted id => exact id ▸ delivering.latest _ hosted
  have fresh : ∀ c, s.face c = none → ∀ f ∈ t.face c, s.roots ≤ f.id := by
    intro c unhosted f member
    obtain ⟨root, hosted, rfl⟩ := Option.map_eq_some_iff.mp member
    change s.roots ≤ root.id
    rw [hosted] at turn
    generalize t.roots = roots at turn
    cases turn with
    | enabled _ id => exact Nat.le_of_eq id.symm
    | kept hosted | appends hosted => rw [Net.face, hosted] at unhosted; contradiction
  have asksBy : ∀ c, AsksOnceBy c (s.face c) (s.links c) e := by
    intro c
    cases e with
    | acquire d isDynamic signature =>
      rintro rfl
      exact asks
    | clientRead d =>
      rintro rfl arriving attached
      obtain ⟨unasked, unlisted⟩ := asks arriving attached
      refine ⟨unasked, fun f member => ?_⟩
      obtain ⟨root, hosted, rfl⟩ := Option.map_eq_some_iff.mp member
      exact fun listed => unlisted root hosted (of_decide_eq_true listed)
    | connect | enableRemoting | disableRemoting | write | emit | delete | serverRead => trivial
  have before : ∀ c, ∀ f ∈ s.face c, f.id + 1 = s.roots := by
    intro c f member
    obtain ⟨root, hosted, rfl⟩ := Option.map_eq_some_iff.mp member
    exact delivering.latest root hosted
  refine ⟨latest, ?_, fun c => ?_⟩
  · generalize t.root = new at turn
    generalize t.roots = roots at turn
    rintro root ⟨⟩
    cases turn with
    | enabled _ _ unlisted =>
      rw [unlisted]
      exact .nil
    | kept hosted _ fewer => exact (delivering.distinct _ hosted).sublist fewer
    | appends hosted _ waiting more =>
      rw [more, ← List.concat_eq_append]
      exact (delivering.distinct _ hosted).concat (delivering.unlisted hosted waiting)
  · exact ((delivering.single c).turn (asksBy c) (before c) (fresh c) (turn_of_step stepped c)).later grows

omit [DecidableEq T] [DecidableEq C] [Inhabited C] in
/-- A packet for all listeners is written to each connection at most once. -/
theorem send_distinct (listeners : List Conn) (distinct : listeners.Nodup) (packets : List (Down T C))
    (c : Conn) : ((s.send listeners packets).links c).down = (s.links c).down ∨
      ((s.send listeners packets).links c).down = (s.links c).down ++ packets := by
  by_cases listed : c ∈ listeners
  · right
    simp only [Net.send, List.count_eq_one_of_mem distinct listed, List.replicate_one, List.flatten_singleton]
  · left
    simp only [Net.send, List.count_eq_zero_of_not_mem listed, List.replicate_zero, List.flatten_nil,
      List.append_nil]

theorem Delivering.deliversOnce (delivering : Delivering s) (asks : AsksOnce s e) : DeliversOnce api s e := by
  intro t stepped
  refine ⟨(delivering.turn asks stepped).distinct, ?_⟩
  cases e with
  | emit signal args =>
    intro root hosted c
    simp only [step, Option.mem_def.mp hosted] at stepped
    split at stepped <;> cases stepped
    exact send_distinct root.listeners (delivering.distinct root hosted) _ c
  | clientRead c =>
    intro packet arriving root serves replica held valid initialised
    obtain ⟨down, same⟩ : ∃ down, (s.links c).down = packet :: down := by
      cases down : (s.links c).down with
      | nil => rw [down] at arriving; contradiction
      | cons first others => rw [down] at arriving; cases arriving; exact ⟨others, rfl⟩
    have increasing := (delivering.single c).increasing replica held
    rw [Link.inits, initialised, same, List.filterMap_cons_some serves] at increasing
    exact Nat.lt_irrefl root (List.rel_of_pairwise_cons increasing List.mem_cons_self)
  | connect | enableRemoting | disableRemoting | write | acquire | delete | serverRead => trivial

end Host

section Main
variable {Conn T C : Type} [DecidableEq Conn] [DecidableEq T] [DecidableEq C] [Inhabited C]

/-- In every run in which clients ask once, each connection is listed once. -/
theorem deliversOnce_of_asksOnce (api : Interface T C) (values : Nat → Variant T C)
    (es : List (Event Conn T C)) (asks : Admitted (step api) AsksOnce (.initial values) es) :
    Admitted (step api) (DeliversOnce api) (.initial values) es :=
  admitted_of_invariant Delivering.turn Delivering.deliversOnce asks
    ⟨fun _ member => (nomatch member), fun _ member => (nomatch member), fun _ => .initial⟩

/-- The source is enabled again, and the replica acquired again once the old one is gone. -/
def asked : List (Event Unit Unit Nat) :=
  [.acquire () false [1], .connect (), .enableRemoting [1], .clientRead (), .serverRead (), .clientRead (),
    .disableRemoting, .clientRead (), .enableRemoting [1], .clientRead (), .serverRead (), .clientRead (),
    .delete (), .acquire () false [1], .serverRead (), .serverRead (), .clientRead ()]

theorem asked_once : Admitted (step plain) (DeliversOnce plain) (.initial fun _ => .bare () 0) asked :=
  have asks : Admitted (step plain) AsksOnce (.initial fun _ => .bare () 0) asked := by decide
  deliversOnce_of_asksOnce plain _ asked asks

/-- A replica is replaced while its source is. The client hears of the end of the one when
it has already asked the other, and asks again. -/
def crossing : List (Event Unit Unit Nat) :=
  [.acquire () false [1], .connect (), .enableRemoting [1], .clientRead (), .serverRead (), .clientRead (),
    .disableRemoting, .enableRemoting [1], .delete (), .acquire () false [1], .serverRead (),
    .serverRead (), .clientRead (), .clientRead (), .serverRead ()]

theorem crossing_twice :
    ¬ Admitted (step plain) (DeliversOnce plain) (.initial fun _ => .bare () 0) crossing := by
  intro once
  have last := once.last (e := .serverRead ()) rfl rfl
  have distinct := (last _ rfl).1 _ rfl
  exact absurd distinct (by decide)

end Main
end RemoteObjects.Node
