import RemoteObjects.Node.Subscription

/-! What each event does to one connection, as far as the copy of the source is concerned
that its replica holds or is going to hold. -/
namespace RemoteObjects.Node

section Links
variable {T C : Type} {api : Interface T C} {emitted : List (Emission T C)} {listed : Nat}
  {values : Nat → Variant T C} {unannounced : List Nat} {link : Link T C}

/-- The replica of a connection is on the way to a copy of the source, which has the
connection `listed` times in its list of listeners. -/
structure Interface.Copy (api : Interface T C) (emitted : List (Emission T C)) (listed : Nat)
    (values : Nat → Variant T C) (unannounced : List Nat) (link : Link T C) : Prop where
  closed : link.isOpen = false →
    link.connectedSource = none ∧ link.up = [] ∧ link.down = [] ∧ link.attached = false
  requests : ∀ packet ∈ link.up, ∀ number ∈ packet.attach, number < link.acquired
  answers : ∀ packet ∈ link.down, api.Fits packet ∧ ∀ number ∈ packet.attach, number < link.acquired
  alternates : Alternates listed link.up link.attached
  replicas : ∀ replica ∈ link.replica, replica.number < link.acquired ∧ api.Kept replica.storage ∧
    api.Progress emitted values unannounced link.up link.down replica

/-- Nothing has been announced on a connection yet. -/
structure Interface.Quiet (api : Interface T C) (link : Link T C) : Prop where
  unknown : link.connectedSource = none
  idle : link.up = [] ∧ link.down = []
  replicas : ∀ replica ∈ link.replica, replica.number < link.acquired ∧ api.Kept replica.storage ∧
    replica.ownInit = none ∧ replica.connected = false

theorem Link.attached_some {replica : ConnectedReplica T C} (held : link.replica = some replica) :
    link.attached = replica.connected := by
  rw [Link.attached, held, Option.any_some]

theorem Link.attached_none (held : link.replica = none) : link.attached = false := by
  rw [Link.attached, held, Option.any_none]

theorem Interface.Quiet.free (quiet : api.Quiet link) : link.attached = false := by
  cases held : link.replica with
  | none => exact Link.attached_none held
  | some replica =>
    rw [Link.attached_some held]
    exact (quiet.replicas replica held).2.2.2

theorem Interface.Quiet.delete (quiet : api.Quiet link) : api.Quiet link.delete := by
  obtain ⟨unknown, idle, replicas⟩ := quiet
  cases held : link.replica with
  | none =>
    simp only [Link.delete, held]
    exact ⟨unknown, idle, replicas⟩
  | some replica =>
    obtain ⟨_, _, _, free⟩ := replicas replica held
    simp only [Link.delete, held, free, Bool.false_eq_true, ↓reduceIte]
    exact ⟨unknown, idle, fun replica held => nomatch held⟩

theorem Interface.Quiet.copy (quiet : api.Quiet link) : api.Copy emitted 0 values unannounced link where
  closed _ := ⟨quiet.unknown, quiet.idle.1, quiet.idle.2, quiet.free⟩
  requests := by
    rw [quiet.idle.1]
    exact fun packet member => nomatch member
  answers := by
    rw [quiet.idle.2]
    exact fun packet member => nomatch member
  alternates := by
    rw [quiet.idle.1, quiet.free]
    rfl
  replicas replica held := by
    obtain ⟨number, kept, fresh, free⟩ := quiet.replicas replica held
    refine ⟨number, kept, .waiting fresh (.detached free ?_ ?_)⟩
    · rw [quiet.idle.1]
      exact fun packet member => nomatch member
    · rw [quiet.idle.2]
      exact fun packet member => nomatch member

namespace Interface.Copy

theorem write (copy : api.Copy emitted listed values unannounced link) (i : Nat) (value : Variant T C) :
    api.Copy emitted listed (Function.update values i value) (i :: unannounced) link where
  closed := copy.closed
  requests := copy.requests
  answers := copy.answers
  alternates := copy.alternates
  replicas replica held := by
    obtain ⟨number, kept, progress⟩ := copy.replicas replica held
    exact ⟨number, kept, progress.write i value⟩

/-- A signal is sent to the connection, if it is listed. -/
theorem emit {emission : Emission T C} (copy : api.Copy emitted listed values unannounced link)
    (value : emission.value = (api.announces emission.signal).map values)
    (carries : listed ≠ 0 → api.Carries emission) :
    api.Copy (emitted ++ [emission]) listed values
      (unannounced.filter (some · ≠ api.announces emission.signal))
      { link with down := link.down ++ (List.replicate listed emission.payload).flatten } := by
  have sent : ∀ packet ∈ (List.replicate listed emission.payload).flatten,
      api.Fits packet ∧ packet.attach = none := by
    intro packet member
    obtain ⟨payload, repeated, inside⟩ := List.mem_flatten.mp member
    obtain ⟨some, rfl⟩ := List.mem_replicate.mp repeated
    exact (carries some).fits packet inside
  have alternates := copy.alternates
  exact {
    closed := by
      intro isClosed
      obtain ⟨unknown, idle, empty, free⟩ := copy.closed isClosed
      rw [idle, free, Alternates, Bool.toNat_false] at alternates
      refine ⟨unknown, idle, ?_, free⟩
      rw [alternates, empty]
      rfl
    requests := copy.requests
    answers := by
      refine List.forall_mem_append.mpr ⟨copy.answers, ?_⟩
      intro packet member
      obtain ⟨fits, data⟩ := sent packet member
      rw [data]
      exact ⟨fits, fun number own => nomatch own⟩
    alternates := alternates
    replicas := by
      intro replica held
      have same : link.attached = replica.connected := Link.attached_some held
      obtain ⟨number, kept, progress⟩ := copy.replicas replica held
      refine ⟨number, kept, progress.emit value _ (fun packet member => (sent packet member).2) ?_⟩
      intro attached idle
      rw [idle, same, attached, Alternates, Bool.toNat_true] at alternates
      subst alternates
      exact ⟨by rw [List.replicate_one, List.flatten_singleton], carries Nat.one_ne_zero⟩ }

/-- A connection without an attached replica learns of the source. -/
theorem announce (copy : api.Copy emitted listed values unannounced link) (free : link.attached = false)
    (signatures : List Signature) : api.Copy emitted listed values unannounced
      { link with isOpen := true, down := link.down ++ signatures.map .objectList } where
  closed isClosed := by contradiction
  requests := copy.requests
  answers := by
    refine List.forall_mem_append.mpr ⟨copy.answers, List.forall_mem_map.mpr ?_⟩
    exact fun signature _ => ⟨trivial, fun number own => nomatch own⟩
  alternates := copy.alternates
  replicas replica held := by
    have same : link.attached = replica.connected := Link.attached_some held
    obtain ⟨number, kept, progress⟩ := copy.replicas replica held
    obtain ⟨fresh, waiting⟩ := progress.detached (same.symm.trans free)
    cases waiting with
    | detached _ unasked unsent =>
      refine ⟨number, kept, .waiting fresh (.detached (same.symm.trans free) unasked ?_)⟩
      refine List.forall_mem_append.mpr ⟨unsent, List.forall_mem_map.mpr ?_⟩
      exact fun signature _ same => nomatch same
    | asking attached | initialising attached => contradiction

/-- A replica that is not attached yet asks the source, or does not match it. -/
theorem handleReplicaConnection {replica : ConnectedReplica T C}
    (copy : api.Copy emitted listed values unannounced link) (isOpen : link.isOpen = true)
    (held : link.replica = some replica) (free : replica.connected = false) (signature : Signature) :
    api.Copy emitted listed values unannounced (link.handleReplicaConnection replica signature) := by
  obtain ⟨number, kept, progress⟩ := copy.replicas replica held
  obtain ⟨fresh, waiting⟩ := progress.detached free
  have alternates := copy.alternates
  rw [Link.attached_some held, free] at alternates
  have opened : link.isOpen ≠ false := fun isClosed => nomatch isOpen.symm.trans isClosed
  unfold Link.handleReplicaConnection
  split
  · exact {
      closed := fun isClosed => absurd isClosed opened
      requests := by
        refine List.forall_mem_append.mpr ⟨copy.requests, List.forall_mem_singleton.mpr ?_⟩
        rintro own ⟨⟩
        exact number
      answers := copy.answers
      alternates := alternates.add _ _
      replicas := by
        rintro new ⟨⟩
        exact ⟨number, kept, .waiting fresh (waiting.ask _)⟩ }
  · obtain ⟨state, same⟩ := replica.setState_frame .signatureMismatch
    rw [same]
    exact {
      closed := fun isClosed => absurd isClosed opened
      requests := copy.requests
      answers := copy.answers
      alternates := by
        rw [Link.attached_some rfl, free]
        exact alternates
      replicas := by
        rintro new ⟨⟩
        exact ⟨number, kept, .waiting fresh (free ▸ waiting)⟩ }

/-- A replica is new: no request and no packet has its number. -/
theorem acquired (copy : api.Copy emitted listed values unannounced link) (absent : link.replica = none)
    (replica : ConnectedReplica T C) (number : replica.number = link.acquired)
    (free : replica.connected = false) (fresh : replica.init = none) (kept : api.Kept replica.storage) :
    api.Copy emitted listed values unannounced
      { link with replica := some replica, acquired := link.acquired + 1 } where
  closed isClosed := by
    obtain ⟨unknown, idle, empty, _⟩ := copy.closed isClosed
    refine ⟨unknown, idle, empty, ?_⟩
    rw [Link.attached_some rfl, free]
  requests packet member other own := Nat.lt_succ_of_lt (copy.requests packet member other own)
  answers packet member := by
    obtain ⟨fits, numbered⟩ := copy.answers packet member
    exact ⟨fits, fun other own => Nat.lt_succ_of_lt (numbered other own)⟩
  alternates := by
    rw [Link.attached_some rfl, free, ← Link.attached_none absent]
    exact copy.alternates
  replicas := by
    rintro new ⟨⟩
    refine ⟨number ▸ Nat.lt_succ_self _, kept, .waiting ?_ (.detached free ?_ ?_)⟩
    · rw [ConnectedReplica.ownInit, fresh, Option.filter_none]
    · intro packet member own
      exact absurd number (Nat.ne_of_lt (copy.requests packet member _ own))
    · intro packet member own
      exact absurd number (Nat.ne_of_lt ((copy.answers packet member).2 _ own))

theorem delete (copy : api.Copy emitted listed values unannounced link) :
    api.Copy emitted listed values unannounced link.delete := by
  cases held : link.replica with
  | none =>
    simp only [Link.delete, held]
    exact copy
  | some replica =>
    have same : link.attached = replica.connected := Link.attached_some held
    have alternates := copy.alternates
    simp only [Link.delete, held]
    exact {
      closed := by
        intro isClosed
        obtain ⟨unknown, idle, empty, free⟩ := copy.closed isClosed
        refine ⟨unknown, ?_, empty, rfl⟩
        rw [if_neg (by rw [← same, free]; exact Bool.false_ne_true)]
        exact idle
      requests := by
        split
        · refine List.forall_mem_append.mpr ⟨copy.requests, List.forall_mem_singleton.mpr ?_⟩
          exact fun number own => nomatch own
        · exact copy.requests
      answers := copy.answers
      alternates := by
        split
        · rename_i attached
          rw [same, attached] at alternates
          exact alternates.remove
        · rename_i free
          rw [same, eq_false_of_ne_true free] at alternates
          exact alternates
      replicas := fun replica held => nomatch held }

/-- The host answers a request, in the state that the init packet describes. -/
theorem attach {isDynamic : Bool} {attach : Nat} {up : List Up} {packet : Down T C} {stamp : Stamp}
    {sent : List (Variant T C)} (copy : api.Copy emitted listed values unannounced link)
    (waiting : link.up = .addObject isDynamic attach :: up)
    (init : packet = .init stamp sent ∨ packet = .initDynamic stamp sent) (own : stamp.attach = attach)
    (since : emitted.length = stamp.emitted) (snapshot : api.Snapshot values sent) :
    listed = 0 ∧ api.Copy emitted 1 values unannounced { link with up, down := link.down ++ [packet] } := by
  obtain ⟨closed, requests, answers, alternates, replicas⟩ := copy
  rw [waiting] at requests alternates
  obtain ⟨request, requests⟩ := List.forall_mem_cons.mp requests
  refine ⟨alternates.1, ?_, requests, ?_, alternates.2, ?_⟩
  · intro isClosed
    obtain ⟨_, idle, _⟩ := closed isClosed
    rw [waiting] at idle
    contradiction
  · refine List.forall_mem_append.mpr ⟨answers, List.forall_mem_singleton.mpr ?_⟩
    rcases init with rfl | rfl
    all_goals
      refine ⟨⟨values, snapshot⟩, ?_⟩
      rintro number ⟨⟩
      exact request _ (congrArg some own.symm)
  · intro replica held
    obtain ⟨number, kept, progress⟩ := replicas replica held
    rw [waiting] at progress
    obtain ⟨fresh, asking⟩ := progress.asked
    exact ⟨number, kept, .waiting fresh (asking.answer init own since snapshot)⟩

theorem detach {up : List Up} (copy : api.Copy emitted listed values unannounced link)
    (waiting : link.up = .removeObject :: up) :
    listed = 1 ∧ api.Copy emitted 0 values unannounced { link with up } := by
  obtain ⟨closed, requests, answers, alternates, replicas⟩ := copy
  rw [waiting] at requests alternates
  refine ⟨alternates.1, ?_, (List.forall_mem_cons.mp requests).2, answers, alternates.2, ?_⟩
  · intro isClosed
    obtain ⟨_, idle, _⟩ := closed isClosed
    rw [waiting] at idle
    contradiction
  · intro replica held
    obtain ⟨number, kept, progress⟩ := replicas replica held
    rw [waiting] at progress
    obtain ⟨fresh, asking⟩ := progress.asked
    exact ⟨number, kept, .waiting fresh asking.dismiss⟩

/-- A packet is read. -/
theorem behind {packet : Down T C} {down : List (Down T C)}
    (copy : api.Copy emitted listed values unannounced link) (arriving : link.down = packet :: down)
    (source : Option Signature) (replicas : Option (ConnectedReplica T C))
    (attached : replicas.any (·.connected) = link.attached)
    (each : ∀ new ∈ replicas, ∃ old ∈ link.replica, new.number = old.number ∧
      (api.Kept old.storage →
        api.Progress emitted values unannounced link.up (packet :: down) old →
        api.Kept new.storage ∧ api.Progress emitted values unannounced link.up down new)) :
    api.Copy emitted listed values unannounced
      { link with connectedSource := source, down, replica := replicas } where
  closed isClosed := by
    obtain ⟨_, _, empty, _⟩ := copy.closed isClosed
    rw [arriving] at empty
    contradiction
  requests := copy.requests
  answers other member := copy.answers other (arriving ▸ List.mem_cons_of_mem _ member)
  alternates := by
    rw [Link.attached, attached]
    exact copy.alternates
  replicas new held := by
    obtain ⟨old, before, number, reads⟩ := each new held
    obtain ⟨numbered, kept, progress⟩ := copy.replicas old before
    rw [arriving] at progress
    obtain ⟨kept, progress⟩ := reads kept progress
    exact ⟨number ▸ numbered, kept, progress⟩

/-- A packet is read that no replica was there for. -/
theorem ignored {packet : Down T C} {down : List (Down T C)}
    (copy : api.Copy emitted listed values unannounced link) (arriving : link.down = packet :: down)
    (absent : link.replica = none) :
    api.Copy emitted listed values unannounced { link with down } := by
  apply copy.behind arriving link.connectedSource link.replica rfl
  rw [absent]
  exact fun replica held => nomatch held

/-- A packet is read, and the replica has processed it. -/
theorem processed {packet : Down T C} {down : List (Down T C)} {old new : ConnectedReplica T C}
    (copy : api.Copy emitted listed values unannounced link) (arriving : link.down = packet :: down)
    (held : link.replica = some old) (connected : new.connected = old.connected)
    (number : new.number = old.number)
    (reads : api.Kept old.storage →
      api.Progress emitted values unannounced link.up (packet :: down) old →
      api.Kept new.storage ∧ api.Progress emitted values unannounced link.up down new) :
    api.Copy emitted listed values unannounced { link with down, replica := some new } := by
  apply copy.behind arriving link.connectedSource (some new)
  · rw [Link.attached_some held, Option.any_some, connected]
  · rintro new ⟨⟩
    exact ⟨old, held, number, reads⟩

/-- A packet that is not addressed to a replica. -/
theorem readObjectList {signature : Signature} {down : List (Down T C)}
    (copy : api.Copy emitted listed values unannounced link)
    (arriving : link.down = .objectList signature :: down) :
    api.Copy emitted listed values unannounced ({ link with down }.readObjectList signature) := by
  have known : api.Copy emitted listed values unannounced
      { link with down, connectedSource := some (link.connectedSource.getD signature) } := by
    apply copy.behind arriving _ link.replica rfl
    intro replica held
    refine ⟨replica, held, rfl, fun kept progress => ⟨kept, ?_⟩⟩
    cases progress with
    | waiting fresh waiting => exact .waiting fresh (waiting.skip fun same => nomatch same)
    | following attached idle init earlier seen later shown following =>
      rcases following.next with ⟨_, _, same⟩ | ⟨_, _, _, same⟩ <;> contradiction
  have isOpen : link.isOpen = true := by
    by_contra isClosed
    obtain ⟨_, _, empty, _⟩ := copy.closed (eq_false_of_ne_true isClosed)
    rw [arriving] at empty
    contradiction
  cases held : link.replica with
  | none =>
    rw [held] at known
    exact known
  | some replica =>
    rw [held] at known
    simp only [Link.readObjectList]
    split
    · exact known
    · rename_i free
      exact known.handleReplicaConnection isOpen rfl (eq_false_of_ne_true free) _

end Interface.Copy
end Links

section Reading
variable {T C : Type} {api : AlignedInterface T C} {emitted : List (Emission T C)} {listed : Nat}
  {values : Nat → Variant T C} {unannounced : List Nat} {up : List Up} {down : List (Down T C)}
  {link new : Link T C} {packet : Down T C} {old replica : ConnectedReplica T C} {stamp : Stamp}
  {sent : List (Variant T C)}

namespace Interface

/-- A storage that an init packet fits into is none of a replica without a metaobject,
unless there are no properties. -/
theorem Kept.stored {storage : List (Variant T C)} (kept : api.Kept storage)
    (enough : api.properties.length ≤ storage.length) : api.Stored storage := by
  rcases kept with rfl | stored
  · have none := Nat.le_zero.mp enough
    refine ⟨none.symm, ?_⟩
    intro i metaType notifies
    have inside := api.notifies_lt notifies
    rw [none] at inside
    contradiction
  · exact stored

theorem kept_new (isDynamic : Bool) (signature : Signature) (number : Nat) :
    api.Kept (ConnectedReplica.new api.toInterface isDynamic signature number).storage := by
  cases isDynamic with
  | true => exact .inl rfl
  | false =>
    refine .inr ⟨api.defaults_length, ?_⟩
    intro i metaType notifies
    have inside := api.notifies_lt notifies
    rw [← api.defaults_length] at inside
    exact ⟨_, List.getElem?_eq_getElem inside,
      api.defaults_store i metaType notifies.1 _ (List.getElem?_eq_getElem inside)⟩

theorem Copy.acquire (copy : api.Copy emitted listed values unannounced link) (isDynamic : Bool)
    (signature : Signature) :
    api.Copy emitted listed values unannounced (link.acquire api.toInterface isDynamic signature) := by
  cases held : link.replica with
  | some replica =>
    simp only [Link.acquire, held]
    exact copy
  | none =>
    have start := copy.acquired held (.new api.toInterface isDynamic signature link.acquired) rfl rfl rfl
      (kept_new isDynamic signature link.acquired)
    simp only [Link.acquire, held]
    split
    · rename_i source known
      have isOpen : link.isOpen = true := by
        by_contra isClosed
        have unknown := (copy.closed (eq_false_of_ne_true isClosed)).1
        rw [known] at unknown
        contradiction
      exact start.handleReplicaConnection isOpen rfl rfl source
    · exact start

theorem Quiet.acquire (quiet : api.Quiet link) (isDynamic : Bool) (signature : Signature) :
    api.Quiet (link.acquire api.toInterface isDynamic signature) := by
  obtain ⟨unknown, idle, replicas⟩ := quiet
  cases held : link.replica with
  | some replica =>
    simp only [Link.acquire, held]
    exact ⟨unknown, idle, replicas⟩
  | none =>
    simp only [Link.acquire, held, unknown]
    refine ⟨rfl, idle, ?_⟩
    rintro new ⟨⟩
    exact ⟨Nat.lt_succ_self _, kept_new isDynamic signature link.acquired, rfl, rfl⟩

variable [Inhabited C]

theorem Kept.setProperty {i : Nat} {value : Variant T C} (kept : api.Kept old.storage)
    (fits : api.Fits (.propertyChange i value)) :
    api.Kept (old.setProperty api.toInterface i value).storage := by
  obtain ⟨metaType, source, found, holds, sends⟩ := fits
  rcases kept with empty | stored
  · left
    simp only [ConnectedReplica.setProperty, empty, List.set_nil]
  · exact .inr (setProperty_stored api.transferNumeric found holds sends stored)

theorem Progress.setDynamic
    (progress : api.Progress emitted values unannounced up (.initDynamic stamp sent :: down) old)
    (fits : api.Fits (.initDynamic stamp sent)) :
    api.Kept (old.setDynamic api.toInterface stamp sent).storage ∧
      api.Progress emitted values unannounced up down (old.setDynamic api.toInterface stamp sent) := by
  obtain ⟨source, snapshot⟩ := fits
  obtain ⟨state, activated, same⟩ := old.setDynamic_frame api.toInterface stamp sent
  rw [same]
  refine ⟨.inr (dynamicValues_tracks api.transferNumeric snapshot).1, ?_⟩
  refine progress.initialise (.inr rfl) ?_ ?_ ?_ ?_
  · rfl
  · rfl
  · rfl
  · exact fun shown snapshot => (dynamicValues_tracks api.transferNumeric snapshot).2

variable [DecidableEq T] [DecidableEq C]

theorem Progress.initializeProperties
    (progress : api.Progress emitted values unannounced up (.init stamp sent :: down) old)
    (kept : api.Kept old.storage) (fits : api.Fits (.init stamp sent))
    (done : old.initializeProperties api.toInterface stamp sent = some replica) :
    api.Kept replica.storage ∧ api.Progress emitted values unannounced up down replica := by
  obtain ⟨source, snapshot⟩ := fits
  obtain ⟨enough, state, activated, rfl⟩ := old.initializeProperties_frame api.toInterface done
  have stored : api.Stored old.storage := kept.stored (snapshot.1 ▸ enough)
  refine ⟨.inr (initialValues_tracks api.transferNumeric stored snapshot).1, ?_⟩
  refine progress.initialise (.inl rfl) ?_ ?_ ?_ ?_
  · rfl
  · rfl
  · rfl
  · exact fun shown snapshot => (initialValues_tracks api.transferNumeric stored snapshot).2

/-- Every packet brings the replica of its connection nearer to its source. -/
theorem Copy.clientRead (copy : api.Copy emitted listed values unannounced link)
    (arriving : link.down = packet :: down)
    (read : { link with down }.onClientRead api.toInterface packet = some new) :
    api.Copy emitted listed values unannounced new := by
  obtain ⟨fits, _⟩ := copy.answers packet (arriving ▸ List.mem_cons_self)
  cases packet with
  | removeObject => exact fits.elim
  | objectList signature =>
    simp only [Link.onClientRead, Option.some.injEq] at read
    exact read ▸ copy.readObjectList arriving
  | init stamp sent =>
    cases held : link.replica with
    | none =>
      simp only [Link.onClientRead, held, Option.some.injEq] at read
      rw [← read, ← held]
      exact copy.ignored arriving held
    | some old =>
      simp only [Link.onClientRead, held] at read
      obtain ⟨replica, done, rfl⟩ := Option.map_eq_some_iff.mp read
      obtain ⟨_, state, activated, same⟩ := old.initializeProperties_frame api.toInterface done
      apply copy.processed arriving held
      · rw [same]
      · rw [same]
      · exact fun kept progress => progress.initializeProperties kept fits done
  | initDynamic stamp sent =>
    cases held : link.replica with
    | none =>
      simp only [Link.onClientRead, held, Option.map_none, Option.some.injEq] at read
      rw [← read, ← held]
      exact copy.ignored arriving held
    | some old =>
      simp only [Link.onClientRead, held, Option.map_some, Option.some.injEq] at read
      obtain ⟨state, activated, same⟩ := old.setDynamic_frame api.toInterface stamp sent
      rw [← read]
      apply copy.processed arriving held
      · rw [same]
      · rw [same]
      · exact fun _ progress => progress.setDynamic fits
  | propertyChange i value =>
    cases held : link.replica with
    | none =>
      simp only [Link.onClientRead, held, Option.some.injEq] at read
      rw [← read, ← held]
      exact copy.ignored arriving held
    | some old =>
      simp only [Link.onClientRead, held] at read
      split at read <;> cases read
      apply copy.processed arriving held
      · rfl
      · rfl
      · exact fun kept progress => ⟨kept.setProperty fits, progress.readProperty kept⟩
  | invoke signal args property =>
    cases held : link.replica with
    | none =>
      simp only [Link.onClientRead, held, Option.some.injEq] at read
      rw [← read, ← held]
      exact copy.ignored arriving held
    | some old =>
      simp only [Link.onClientRead, held] at read
      split at read <;> cases read
      obtain ⟨passed, same⟩ := old.invoke_frame api.toInterface signal args property
      apply copy.processed arriving held
      · rw [same]
        rfl
      · rw [same]
        rfl
      · exact fun kept progress => ⟨by rw [same]; exact kept, progress.readInvoke⟩

end Interface
end Reading
end RemoteObjects.Node
