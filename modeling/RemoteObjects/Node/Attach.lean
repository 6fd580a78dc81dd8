import Mathlib.Data.Fintype.Basic
import RemoteObjects.Node.Connection

/-! Whether a replica is attached to the root source once no packet is on the way. A
source that goes tells its listeners only, and a client that has asked once does not ask
again; where the two meet, a replica is left behind. -/
namespace RemoteObjects.Node
open Transition

section Client
variable {T C : Type}

/-- What the client knows of the object behind this packet. -/
def Down.learns (source : Option Signature) : Down T C → Option Signature
  | .objectList signature => some (source.getD signature)
  | .removeObject => none
  | _ => source

def Link.knownAfter (link : Link T C) : Option Signature := link.down.foldl Down.learns link.connectedSource

def Link.initAfter (link : Link T C) (replica : ConnectedReplica T C) : Option Nat :=
  link.down.foldl Down.serves replica.initRoot

/-- The last packet to the host is a request to attach. -/
def Link.Requests (link : Link T C) : Prop :=
  ∃ isDynamic attach, link.up.getLast? = some (.addObject isDynamic attach)

end Client

section Statement
variable {Conn T C : Type}

/-- Over a connection at rest, a compatible replica is a listener of the root source and
has been initialised by it. -/
def AttachedAtRest (s : Net Conn T C) : Prop :=
  ∀ c, (s.links c).isOpen → (s.links c).up = [] → (s.links c).down = [] →
    ∀ root ∈ s.root, ∀ replica ∈ (s.links c).replica,
      checkSignatures replica.objectSignature root.signature →
        c ∈ root.listeners ∧ replica.initRoot = some root.id

/-- A request that is the client's last word finds a source, unless the client is going
to hear that the source went; and a source that is made known is not known under another
signature already. -/
def HeardBy (connection : Conn) (face : Option Face) (link : Link T C) : Event Conn T C → Prop
  | .serverRead c =>
    match face, link.up with
    | none, [.addObject _ _] => c = connection →
        ∀ replica ∈ link.replica, replica.connected → .removeObject ∈ link.down
    | _, _ => True
  | .enableRemoting signature => link.isOpen → ∀ known ∈ link.knownAfter, known = signature
  | _ => True

def Heard [DecidableEq Conn] [DecidableEq T] (s : Net Conn T C) (e : Event Conn T C) : Prop :=
  ∀ c, HeardBy c (s.face c) (s.links c) e

instance [DecidableEq Conn] [DecidableEq T] [DecidableEq C] [Fintype Conn] (s : Net Conn T C)
    (e : Event Conn T C) : Decidable (Heard s e) := by
  have : ∀ c, Decidable (HeardBy c (s.face c) (s.links c) e) := by
    intro c
    unfold HeardBy
    split
    · split <;> infer_instance
    · infer_instance
    · infer_instance
  unfold Heard
  infer_instance

/-- The tables of host, client and replica in step, for one connection. -/
structure Agreed (face : Option Face) (link : Link T C) : Prop where
  closed : link.isOpen = false → link.up = [] ∧ link.down = [] ∧ link.connectedSource = none ∧
    (∀ replica ∈ link.replica, ¬ replica.connected) ∧ ∀ f ∈ face, ¬ f.listed
  known : link.isOpen → ∀ f ∈ face, link.knownAfter = some f.signature
  linked : ∀ replica ∈ link.replica, ∀ source ∈ link.connectedSource,
    checkSignatures replica.objectSignature source → replica.connected
  attached : ∀ replica ∈ link.replica, replica.connected → .removeObject ∉ link.down →
    link.Requests ∨ link.up = [] ∧ ∃ f ∈ face, f.listed
  initialised : ∀ f ∈ face, ∀ replica ∈ link.replica, replica.connected → .removeObject ∉ link.down →
    link.Requests ∨ link.initAfter replica = some f.id

end Statement

section Invariant
variable {T C : Type} {face : Option Face} {f : Face} {link : Link T C}

theorem Agreed.initial : Agreed none (.closed : Link T C) where
  closed _ := ⟨rfl, rfl, rfl, fun _ member => (nomatch member), fun _ member => (nomatch member)⟩
  known isOpen := nomatch isOpen
  linked _ member := nomatch member
  attached _ member := nomatch member
  initialised _ member := nomatch member

theorem foldl_data {α : Type*} {reads : α → Down T C → α} (ignores : ∀ a packet, packet.isData → reads a packet = a)
    {packets : List (Down T C)} (data : ∀ packet ∈ packets, packet.isData) (a : α) : packets.foldl reads a = a := by
  induction packets with
  | nil => rfl
  | cons packet packets ih =>
    obtain ⟨first, others⟩ := List.forall_mem_cons.mp data
    rw [List.foldl_cons, ignores a packet first]
    exact ih others

theorem learns_data (source : Option Signature) (packet : Down T C) (data : packet.isData) :
    packet.learns source = source := by
  cases packet with
  | propertyChange | invoke => rfl
  | objectList | init | initDynamic | removeObject => contradiction

theorem serves_data (root : Option Nat) (packet : Down T C) (data : packet.isData) :
    packet.serves root = root := by
  cases packet with
  | propertyChange | invoke => rfl
  | objectList | init | initDynamic | removeObject => contradiction

theorem Agreed.sends (agreed : Agreed (some f) link) {packets : List (Down T C)}
    (data : ∀ packet ∈ packets, packet.isData) (listed : packets ≠ [] → f.listed) :
    Agreed (some f) { link with down := link.down ++ packets } where
  closed isClosed := by
    obtain ⟨up, down, source, detached, unlisted⟩ := agreed.closed isClosed
    have nothing : packets = [] := by
      by_contra some
      exact unlisted f rfl (listed some)
    exact ⟨up, by rw [nothing, List.append_nil]; exact down, source, detached, unlisted⟩
  known isOpen g same := by
    rw [Link.knownAfter, List.foldl_append, foldl_data learns_data data]
    exact agreed.known isOpen g same
  linked := agreed.linked
  attached replica held connected unremoved :=
    agreed.attached replica held connected fun member => unremoved (List.mem_append_left _ member)
  initialised g same replica held connected unremoved := by
    rw [Link.initAfter, List.foldl_append, foldl_data serves_data data]
    exact agreed.initialised g same replica held connected
      fun member => unremoved (List.mem_append_left _ member)

/-- The only listed connection whose replica is not told of the end has asked again. -/
theorem Agreed.disabled (agreed : Agreed (some f) link) {removals : Nat}
    (told : f.listed ↔ removals ≠ 0) :
    Agreed none { link with down := link.down ++ List.replicate removals .removeObject } where
  closed isClosed := by
    obtain ⟨up, down, source, detached, unlisted⟩ := agreed.closed isClosed
    have none : removals = 0 := by
      by_contra some
      exact unlisted f rfl (told.mpr some)
    refine ⟨up, ?_, source, detached, fun _ member => nomatch member⟩
    rw [none]
    simpa only [List.replicate_zero, List.append_nil] using down
  known _ _ member := nomatch member
  linked := agreed.linked
  attached replica held connected unremoved := by
    have none : removals = 0 := by
      by_contra some
      exact unremoved (List.mem_append_right _ (List.mem_replicate.mpr ⟨some, rfl⟩))
    rcases agreed.attached replica held connected
      (fun member => unremoved (List.mem_append_left _ member)) with requests | ⟨_, g, same, listed⟩
    · exact .inl requests
    · obtain rfl := Option.some.inj same
      exact absurd none (told.mp listed)
  initialised _ member := nomatch member

/-- Nothing is known to be listed before the source is enabled, so that every attached
replica has a request on the way. -/
theorem Agreed.enabled (agreed : Agreed none link) (id : Nat) (signature : Signature)
    (known : link.isOpen → ∀ known ∈ link.knownAfter, known = signature) :
    Agreed (some ⟨id, signature, false⟩)
      (if link.isOpen then { link with down := link.down ++ [.objectList signature] } else link) := by
  have requests : ∀ replica ∈ link.replica, replica.connected → .removeObject ∉ link.down →
      link.Requests := by
    intro replica held connected unremoved
    rcases agreed.attached replica held connected unremoved with requests | ⟨_, _, member, _⟩
    · exact requests
    · contradiction
  split
  · rename_i isOpen
    constructor
    · intro isClosed
      exact absurd isOpen (by rw [isClosed]; exact Bool.false_ne_true)
    · rintro _ g ⟨⟩
      rw [Link.knownAfter, List.foldl_append, List.foldl_cons, List.foldl_nil]
      change some (link.knownAfter.getD signature) = some signature
      cases before : link.knownAfter with
      | none => rfl
      | some other => rw [known isOpen other before, Option.getD_some]
    · exact agreed.linked
    · intro replica held connected unremoved
      exact .inl (requests replica held connected fun member => unremoved (List.mem_append_left _ member))
    · intro _ _ replica held connected unremoved
      exact .inl (requests replica held connected fun member => unremoved (List.mem_append_left _ member))
  · rename_i isClosed
    constructor
    · intro same
      obtain ⟨up, down, source, detached, _⟩ := agreed.closed same
      refine ⟨up, down, source, detached, ?_⟩
      rintro g ⟨⟩
      exact Bool.false_ne_true
    · exact fun isOpen => absurd isOpen isClosed
    · exact agreed.linked
    · exact fun replica held connected unremoved => .inl (requests replica held connected unremoved)
    · exact fun _ _ replica held connected unremoved => .inl (requests replica held connected unremoved)

theorem Agreed.connects (agreed : Agreed face link) (isClosed : link.isOpen = false) :
    Agreed face { link with isOpen := true, down := link.down ++ face.toList.map (.objectList ·.signature) } := by
  obtain ⟨up, down, source, detached, unlisted⟩ := agreed.closed isClosed
  constructor
  · intro same
    contradiction
  · rintro _ g ⟨⟩
    simp only [Link.knownAfter, down, source, Option.toList_some, List.map_cons, List.map_nil,
      List.nil_append, List.foldl_cons, List.foldl_nil, Down.learns, Option.getD_none]
  · exact agreed.linked
  · exact fun replica held connected => absurd connected (detached replica held)
  · exact fun _ _ replica held connected => absurd connected (detached replica held)

/-- A replica that is not attached yet is handed what the client knows of its source. -/
theorem Agreed.handleReplicaConnection {replica : ConnectedReplica T C} {source : Signature}
    (isOpen : link.isOpen) (knows : link.connectedSource = some source)
    (detached : replica.connected = false)
    (known : ∀ f ∈ face, link.knownAfter = some f.signature) :
    Agreed face (link.handleReplicaConnection replica source) := by
  unfold Link.handleReplicaConnection
  split
  · have requests : Link.Requests { link with
        replica := some { replica with connected := true }
        up := link.up ++ [.addObject replica.needsDynamicInitialization replica.number] } :=
      ⟨_, _, List.getLast?_concat⟩
    constructor
    · intro isClosed
      exact absurd isOpen (by rw [isClosed]; exact Bool.false_ne_true)
    · exact fun _ => known
    · rintro new ⟨⟩ _ _ _
      rfl
    · exact fun _ _ _ _ => .inl requests
    · exact fun _ _ _ _ _ _ => .inl requests
  · rename_i mismatch
    obtain ⟨state, same⟩ := replica.setState_frame .signatureMismatch
    rw [same]
    constructor
    · intro isClosed
      exact absurd isOpen (by rw [isClosed]; exact Bool.false_ne_true)
    · exact fun _ => known
    · rintro new ⟨⟩ other learnt check
      obtain rfl := Option.some.inj (knows.symm.trans learnt)
      exact absurd check mismatch
    · rintro new ⟨⟩ connected
      exact absurd connected (by rw [detached]; exact Bool.false_ne_true)
    · rintro _ _ new ⟨⟩ connected
      exact absurd connected (by rw [detached]; exact Bool.false_ne_true)

theorem Agreed.acquire (agreed : Agreed face link) (api : Interface T C) (isDynamic : Bool)
    (signature : Signature) : Agreed face (link.acquire api isDynamic signature) := by
  unfold Link.acquire
  split
  · exact agreed
  · simp only
    split
    · rename_i source knows
      have isOpen : link.isOpen := by
        by_contra isClosed
        have unknown := (agreed.closed (eq_false_of_ne_true isClosed)).2.2.1
        rw [unknown] at knows
        contradiction
      exact Agreed.handleReplicaConnection isOpen knows rfl (agreed.known isOpen)
    · rename_i unknown
      constructor
      · intro isClosed
        obtain ⟨up, down, source, _, unlisted⟩ := agreed.closed isClosed
        refine ⟨up, down, source, ?_, unlisted⟩
        rintro new ⟨⟩
        exact Bool.false_ne_true
      · exact agreed.known
      · intro _ _ other learnt
        rw [unknown] at learnt
        contradiction
      · rintro new ⟨⟩ connected
        contradiction
      · rintro _ _ new ⟨⟩ connected
        contradiction

theorem Agreed.delete (agreed : Agreed face link) : Agreed face link.delete := by
  unfold Link.delete
  split
  · rename_i replica held
    constructor
    · intro isClosed
      obtain ⟨up, down, source, detached, unlisted⟩ := agreed.closed isClosed
      refine ⟨?_, down, source, fun _ member => (nomatch member), unlisted⟩
      rw [if_neg (detached replica held)]
      exact up
    · exact agreed.known
    · exact fun _ member => nomatch member
    · exact fun _ member => nomatch member
    · exact fun _ _ _ member => nomatch member
  · exact agreed

/-- A request behind the first packet is still the last one. -/
theorem Link.Requests.behind {packet : Up} {up : List Up} (requests : link.Requests)
    (waiting : link.up = packet :: up) (more : up ≠ []) : Link.Requests { link with up } := by
  obtain ⟨isDynamic, attach, last⟩ := requests
  refine ⟨isDynamic, attach, ?_⟩
  obtain ⟨next, others, rfl⟩ := List.exists_cons_of_ne_nil more
  rwa [waiting, List.getLast?_cons_cons] at last

theorem Agreed.ignored (agreed : Agreed none link) {packet : Up} {up : List Up}
    (waiting : link.up = packet :: up)
    (heard : ∀ isDynamic attach, link.up = [.addObject isDynamic attach] →
      ∀ replica ∈ link.replica, replica.connected → .removeObject ∈ link.down) :
    Agreed none { link with up } := by
  constructor
  · intro isClosed
    have empty := (agreed.closed isClosed).1
    rw [empty] at waiting
    contradiction
  · exact agreed.known
  · exact agreed.linked
  · intro replica held connected unremoved
    rcases agreed.attached replica held connected unremoved with requests | ⟨_, _, member, _⟩
    · left
      apply requests.behind waiting
      rintro rfl
      obtain ⟨isDynamic, attach, last⟩ := requests
      rw [waiting, List.getLast?_singleton] at last
      obtain rfl := Option.some.inj last
      exact unremoved (heard isDynamic attach waiting replica held connected)
    · contradiction
  · exact fun _ member => nomatch member

theorem Agreed.attaches (agreed : Agreed (some f) link) {isDynamic : Bool} {attach : Nat} {up : List Up}
    (waiting : link.up = .addObject isDynamic attach :: up) {stamp : Stamp}
    (properties : List (Variant T C)) (source : stamp.root = f.id) :
    Agreed (some { f with listed := true }) { link with
      up
      down := link.down ++ [if isDynamic then .initDynamic stamp properties else .init stamp properties] } := by
  constructor
  · intro isClosed
    have empty := (agreed.closed isClosed).1
    rw [empty] at waiting
    contradiction
  · rintro isOpen g ⟨⟩
    rw [Link.knownAfter, List.foldl_append]
    refine Eq.trans ?_ (agreed.known isOpen f rfl)
    cases isDynamic <;> rfl
  · exact agreed.linked
  · intro replica held connected unremoved
    by_cases more : up = []
    · exact .inr ⟨more, _, rfl, rfl⟩
    · rcases agreed.attached replica held connected
        (fun member => unremoved (List.mem_append_left _ member)) with requests | ⟨empty, _⟩
      · exact .inl (requests.behind waiting more)
      · rw [empty] at waiting
        contradiction
  · rintro g ⟨⟩ replica held connected unremoved
    right
    rw [Link.initAfter, List.foldl_append]
    cases isDynamic <;> exact congrArg some source

theorem Agreed.detaches (agreed : Agreed (some f) link) {up : List Up}
    (waiting : link.up = .removeObject :: up) :
    Agreed (some { f with listed := false }) { link with up } := by
  have requests : ∀ replica ∈ link.replica, replica.connected → .removeObject ∉ link.down →
      Link.Requests { link with up } := by
    intro replica held connected unremoved
    rcases agreed.attached replica held connected unremoved with requests | ⟨empty, _⟩
    · apply requests.behind waiting
      rintro rfl
      obtain ⟨isDynamic, attach, last⟩ := requests
      rw [waiting] at last
      cases last
    · rw [empty] at waiting
      contradiction
  constructor
  · intro isClosed
    have empty := (agreed.closed isClosed).1
    rw [empty] at waiting
    contradiction
  · rintro isOpen g ⟨⟩
    exact agreed.known isOpen f rfl
  · exact agreed.linked
  · exact fun replica held connected unremoved => .inl (requests replica held connected unremoved)
  · exact fun _ _ replica held connected unremoved => .inl (requests replica held connected unremoved)

section Read
variable {packet : Down T C} {down : List (Down T C)}

theorem Agreed.readsInner [DecidableEq T] [DecidableEq C] [Inhabited C] {api : Interface T C} (agreed : Agreed face link) (arriving : link.down = packet :: down)
    (inner : packet.isControl = false) {new : Link T C}
    (read : { link with down }.onClientRead api packet = some new) : Agreed face new := by
  obtain ⟨replicas, rfl, same⟩ := onClientRead_inner api inner read
  have unremoved : ∀ {p : Prop}, .removeObject ∉ down → (.removeObject ∉ link.down → p) → p := by
    intro p outside holds
    apply holds
    rw [arriving]
    intro member
    rcases List.mem_cons.mp member with rfl | member
    · contradiction
    · exact outside member
  constructor
  · intro isClosed
    have empty := (agreed.closed isClosed).2.1
    rw [empty] at arriving
    contradiction
  · intro isOpen f member
    have known := agreed.known isOpen f member
    rw [Link.knownAfter, arriving, List.foldl_cons] at known
    cases packet with
    | objectList | removeObject => contradiction
    | init | initDynamic | propertyChange | invoke => exact known
  · intro replica held source knows check
    obtain ⟨old, before, connected, signature, _⟩ := same replica held
    rw [signature] at check
    rw [connected]
    exact agreed.linked old before source knows check
  · intro replica held connected outside
    obtain ⟨old, before, alike, _, _⟩ := same replica held
    exact unremoved outside (agreed.attached old before (alike ▸ connected))
  · intro f member replica held connected outside
    obtain ⟨old, before, alike, _, served, _⟩ := same replica held
    have initialised := unremoved outside (agreed.initialised f member old before (alike ▸ connected))
    rw [Link.initAfter, arriving, List.foldl_cons, ← served] at initialised
    exact initialised

theorem Agreed.readsObjectList (agreed : Agreed face link) {signature : Signature}
    (arriving : link.down = .objectList signature :: down) :
    Agreed face (Link.readObjectList { link with down } signature) := by
  have isOpen : link.isOpen := by
    by_contra isClosed
    have empty := (agreed.closed (eq_false_of_ne_true isClosed)).2.1
    rw [empty] at arriving
    contradiction
  have known : ∀ f ∈ face,
      down.foldl Down.learns (some (link.connectedSource.getD signature)) = some f.signature := by
    intro f member
    have known := agreed.known isOpen f member
    rwa [Link.knownAfter, arriving, List.foldl_cons] at known
  have unremoved : .removeObject ∉ down → .removeObject ∉ link.down := by
    intro outside member
    rw [arriving] at member
    rcases List.mem_cons.mp member with same | member
    · contradiction
    · exact outside member
  unfold Link.readObjectList
  simp only
  split
  · rename_i replica held
    split
    · rename_i connected
      constructor
      · intro isClosed
        exact absurd isOpen (by rw [isClosed]; exact Bool.false_ne_true)
      · exact fun _ => known
      · intro other same _ _ _
        obtain rfl := Option.some.inj (held.symm.trans same)
        exact connected
      · exact fun replica held connected outside =>
          agreed.attached replica held connected (unremoved outside)
      · intro f member replica held connected outside
        have initialised := agreed.initialised f member replica held connected (unremoved outside)
        rwa [Link.initAfter, arriving, List.foldl_cons] at initialised
    · rename_i detached
      exact Agreed.handleReplicaConnection isOpen rfl (eq_false_of_ne_true detached) known
  · rename_i absent
    constructor
    · intro isClosed
      exact absurd isOpen (by rw [isClosed]; exact Bool.false_ne_true)
    · exact fun _ => known
    · exact fun _ member => by rw [absent] at member; contradiction
    · exact fun _ member => by rw [absent] at member; contradiction
    · exact fun _ _ _ member => by rw [absent] at member; contradiction

theorem Agreed.readsRemoveObject (agreed : Agreed face link) (arriving : link.down = .removeObject :: down) :
    Agreed face (Link.readRemoveObject { link with down }) := by
  have detached : ∀ replica ∈ (Link.readRemoveObject { link with down }).replica, ¬ replica.connected := by
    intro replica held
    obtain ⟨old, before, rfl⟩ := Option.map_eq_some_iff.mp held
    split
    · obtain ⟨state, same⟩ := ConnectedReplica.setState_frame { old with connected := false } .suspect
      rw [same]
      exact Bool.false_ne_true
    · assumption
  constructor
  · intro isClosed
    have empty := (agreed.closed isClosed).2.1
    rw [empty] at arriving
    contradiction
  · intro isOpen f member
    have known := agreed.known isOpen f member
    rwa [Link.knownAfter, arriving, List.foldl_cons] at known
  · exact fun _ _ _ member => nomatch member
  · exact fun replica held connected => absurd connected (detached replica held)
  · exact fun _ _ replica held connected => absurd connected (detached replica held)

variable {Conn : Type} {connection : Conn} {e : Event Conn T C} {face' : Option Face} {link' : Link T C}
  [DecidableEq T] [DecidableEq C] [Inhabited C] {api : Interface T C}

theorem Agreed.turn (agreed : Agreed face link) (heard : HeardBy connection face link e)
    (turn : Turn api connection e face link face' link') : Agreed face' link' := by
  cases turn with
  | stays => exact agreed
  | connects isClosed => exact agreed.connects isClosed
  | enabled id => exact agreed.enabled id _ heard
  | disabled removals told => exact agreed.disabled told
  | sends packets data listed => exact agreed.sends data listed
  | acquires => exact agreed.acquire api _ _
  | deletes => exact agreed.delete
  | ignored waiting =>
    apply agreed.ignored waiting
    intro isDynamic attach last
    simp only [HeardBy, last, true_implies] at heard
    exact heard
  | attaches waiting stamp properties source => exact agreed.attaches waiting properties source
  | detaches waiting => exact agreed.detaches waiting
  | reads arriving read =>
    rename_i packet down
    cases packet with
    | objectList signature =>
      cases read
      exact agreed.readsObjectList arriving
    | removeObject =>
      cases read
      exact agreed.readsRemoveObject arriving
    | init | initDynamic | propertyChange | invoke => exact agreed.readsInner arriving rfl read

end Read
end Invariant

section Main
variable {Conn T C : Type} [DecidableEq Conn]

theorem Agreed.attachedAtRest {s : Net Conn T C} (agreed : ∀ c, Agreed (s.face c) (s.links c)) :
    AttachedAtRest s := by
  intro c isOpen up down root hosted replica held compatible
  have face : root.face c ∈ s.face c := by
    rw [Net.face, hosted]
    rfl
  have known := (agreed c).known isOpen _ face
  rw [Link.knownAfter, down] at known
  have connected := (agreed c).linked replica held root.signature known compatible
  have unremoved : .removeObject ∉ (s.links c).down := by
    rw [down]
    exact List.not_mem_nil
  have noRequest : ¬ (s.links c).Requests := by
    rintro ⟨isDynamic, attach, last⟩
    rw [up] at last
    contradiction
  constructor
  · obtain requests | ⟨_, f, same, listed⟩ := (agreed c).attached replica held connected unremoved
    · exact absurd requests noRequest
    · obtain rfl := Option.some.inj (face.symm.trans same)
      exact of_decide_eq_true listed
  · obtain requests | initialised := (agreed c).initialised _ face replica held connected unremoved
    · exact absurd requests noRequest
    · rwa [Link.initAfter, down] at initialised

/-- In every run in which clients are heard, replica and source agree at rest. -/
theorem attachedAtRest_of_heard [DecidableEq T] [DecidableEq C] [Inhabited C] (api : Interface T C) (values : Nat → Variant T C)
    (es : List (Event Conn T C)) {s : Net Conn T C}
    (heard : Admitted (step api) Heard (.initial values) es)
    (run : exec (step api) (.initial values) es = some s) : AttachedAtRest s := by
  apply Agreed.attachedAtRest
  refine exec_invariant (P := fun s => ∀ c, Agreed (s.face c) (s.links c)) ?_ run heard
    (fun _ => .initial)
  intro s e t agreed heard stepped c
  exact (agreed c).turn (heard c) (turn_of_step stepped c)

end Main

section Forgotten

/-- An interface without properties and signals. -/
def plain : Interface Unit Nat := ⟨fun _ => .other, [], [], [], [], []⟩

/-- The source goes before anyone attaches, and comes back behind a request that it missed. -/
def forgotten : List (Event Unit Unit Nat) :=
  [.connect (), .enableRemoting [1], .clientRead (), .disableRemoting, .acquire () false [1],
    .serverRead (), .enableRemoting [1], .clientRead ()]

/-- At rest, the replica waits for a source that does not know of it. -/
theorem forgotten_unattached : ∃ s, exec (step plain) (.initial fun _ => .bare () 0) forgotten = some s ∧
    ¬ AttachedAtRest s := by
  refine ⟨_, rfl, fun rest => ?_⟩
  have listed := (rest () rfl rfl rfl _ rfl _ rfl rfl).1
  exact absurd listed (by decide)

/-- An attached replica is told that the source goes, and attaches to the next one. -/
def told : List (Event Unit Unit Nat) :=
  [.acquire () false [1], .connect (), .enableRemoting [1], .clientRead (), .serverRead (),
    .disableRemoting, .enableRemoting [1], .clientRead (), .clientRead (), .clientRead (), .serverRead (),
    .clientRead ()]

theorem told_attached : ∃ s, exec (step plain) (.initial fun _ => .bare () 0) told = some s ∧
    AttachedAtRest s :=
  have heard : Admitted (step plain) Heard (.initial fun _ => .bare () 0) told := by decide
  ⟨_, rfl, attachedAtRest_of_heard plain _ told heard rfl⟩

end Forgotten
end RemoteObjects.Node
