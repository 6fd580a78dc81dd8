import Mathlib.Data.List.Count
import RemoteObjects.Node.Copy

/-! A replica is a latent copy of its source: behind its init packet it activates the
signals that the source emits, in their order, with the properties that go with them. -/
namespace RemoteObjects.Node
open Transition

section Claim
variable {Conn T C : Type} (api : Interface T C)

/-- An object whose properties hold values of their types. -/
structure SourceObject where
  values : Nat → Variant T C
  holds : ∀ i metaType, api.metaType i = some metaType → api.Holds metaType (values i)

/-- The signals a replica has activated since its init packet are the first of those that
were emitted since it was attached, and all of them when no packet is on the way. Then its
properties are those of the source, as far as their changes were announced. -/
def LatentCopy (s : Net Conn T C) : Prop :=
  ∀ c, ∀ root ∈ s.root, ∀ replica ∈ (s.links c).replica, ∀ init ∈ replica.ownInit,
    (∃ seen, seen <+: root.emitted.drop init.stamp.emitted ∧
      List.Forall₂ api.Shows seen (replica.activated.drop init.activations)) ∧
    ((s.links c).down = [] →
      List.Forall₂ api.Shows (root.emitted.drop init.stamp.emitted)
        (replica.activated.drop init.activations) ∧
      ∀ i metaType, api.Notifies i metaType → i ∉ s.unannounced →
        ∃ stored ∈ replica.storage[i]?, api.Equal stored (s.values i))

/-- When the host answers a request, no property with a notify signal holds a gadget that
would be sent along with its type. -/
def SentPlain [DecidableEq T] (s : Net Conn T C) : Event Conn T C → Prop
  | .serverRead c =>
    match s.root, (s.links c).up with
    | some root, .addObject isDynamic _ :: _ =>
      ∀ i < api.properties.length, ∀ metaType ∈ api.metaType i, api.notifySignal i ≠ none →
        ¬ (root.attached api c isDynamic).Wraps api metaType (s.values i)
    | _, _ => True
  | _ => True

instance [DecidableEq T] (s : Net Conn T C) : (e : Event Conn T C) → Decidable (SentPlain api s e)
  | .serverRead c => by
    delta SentPlain
    dsimp only
    exact match s.root, (s.links c).up with
    | some _, .addObject _ _ :: _ => inferInstanceAs (Decidable (∀ i < api.properties.length, ∀ metaType ∈ api.metaType i, _ → ¬ _))
    | none, _ | some _, [] | some _, .removeObject :: _ => .isTrue trivial
  | .connect _ | .enableRemoting _ | .disableRemoting | .write _ _ | .emit _ _ | .acquire _ _ _ | .delete _ | .clientRead _ =>
    .isTrue trivial

end Claim

section Sending
variable {Conn T C : Type} [DecidableEq T] {api : AlignedInterface T C} {values : Nat → Variant T C}

/-- A signal to listeners carries the property that it announces. -/
theorem handleMetaCall_carries (root : RootSource Conn T C)
    (holds : ∀ i metaType, api.metaType i = some metaType → api.Holds metaType (values i))
    (signal : Nat) (args : List (Variant T C)) : ∃ types emission,
      root.handleMetaCall api.toInterface values signal args =
        (emission.payload, { root with sentTypes := types, emitted := root.emitted ++ [emission] }) ∧
      emission.signal = signal ∧ emission.value = (api.announces signal).map values ∧
      (root.listeners ≠ [] → api.Carries emission) := by
  by_cases nobody : root.listeners = []
  · refine ⟨root.sentTypes, ⟨signal, args, (api.announces signal).map values, []⟩, ?_, rfl, rfl, ?_⟩
    · simp only [RootSource.handleMetaCall, if_pos nobody]
    · exact absurd nobody
  · obtain ⟨types, frame, _⟩ := root.serializeSignal_frame api.toInterface values signal args
    refine ⟨types, ⟨signal, args, (api.announces signal).map values,
      (root.serializeSignal api.toInterface values signal args).1⟩, ?_, rfl, rfl, ?_⟩
    · simp only [RootSource.handleMetaCall, if_neg nobody, frame]
    · intro _
      unfold Interface.Carries Interface.invokes RootSource.serializeSignal
      simp only
      cases announces : api.announces signal with
      | none => rfl
      | some i =>
        obtain ⟨property, present, _⟩ :=
          Option.bind_eq_some_iff.mp ((api.announces_iff i signal).mpr announces)
        have found : api.metaType i = some property.metaType := by
          rw [Interface.metaType, present, Option.map_some]
        simp only [found]
        exact ⟨property.metaType, values i, _, rfl, rfl, holds i _ found,
          root.serializeProperty_sends api.toInterface, rfl⟩

end Sending

section Invariant
variable {Conn T C : Type} {api : Interface T C} {s : Net Conn T C} {root : RootSource Conn T C}

/-- Every replica is on the way to a copy of the source, once there is one. -/
structure Copying [DecidableEq Conn] (api : Interface T C) (s : Net Conn T C) : Prop where
  holds : ∀ i metaType, api.metaType i = some metaType → api.Holds metaType (s.values i)
  quiet : s.root = none → ∀ c, api.Quiet (s.links c)
  copies : ∀ root ∈ s.root, ∀ c,
    api.Copy root.emitted (root.listeners.count c) s.values s.unannounced (s.links c)

variable [DecidableEq Conn]

theorem Copying.initial (object : SourceObject api) : Copying api (.initial object.values : Net Conn T C) where
  holds := object.holds
  quiet _ _ := ⟨rfl, ⟨rfl, rfl⟩, fun _ held => nomatch held⟩
  copies _ hosted := nomatch hosted

/-- What one event does to one connection, by the state of the host. -/
theorem Copying.setLink (copying : Copying api s) (c : Conn) (link : Link T C)
    (quiet : s.root = none → api.Quiet link)
    (copy : ∀ root ∈ s.root,
      api.Copy root.emitted (root.listeners.count c) s.values s.unannounced link) :
    Copying api (s.setLink c link) where
  holds := copying.holds
  quiet absent d := by
    by_cases here : d = c
    · subst here
      rw [Net.setLink_self]
      exact quiet absent
    · rw [Net.setLink_other _ here]
      exact copying.quiet absent d
  copies root hosted d := by
    by_cases here : d = c
    · subst here
      rw [Net.setLink_self]
      exact copy root hosted
    · rw [Net.setLink_other _ here]
      exact copying.copies root hosted d

/-- The host changes its list of listeners by the connection it reads from. -/
theorem Copying.relist {t : Net Conn T C} {new : RootSource Conn T C} (copying : Copying api s) (c : Conn)
    (hosted : s.root = some root) (replaced : t.root = some new)
    (kept : t.values = s.values ∧ t.unannounced = s.unannounced ∧ new.emitted = root.emitted)
    (others : ∀ d, d ≠ c → t.links d = s.links d ∧ new.listeners.count d = root.listeners.count d)
    (copy : api.Copy root.emitted (new.listeners.count c) s.values s.unannounced (t.links c)) :
    Copying api t := by
  obtain ⟨values, unannounced, emitted⟩ := kept
  refine ⟨?_, ?_, ?_⟩
  · rw [values]
    exact copying.holds
  · intro absent
    rw [replaced] at absent
    contradiction
  · intro source member d
    obtain rfl := Option.some.inj (replaced.symm.trans member)
    rw [values, unannounced, emitted]
    by_cases here : d = c
    · rw [here]
      exact copy
    · obtain ⟨link, count⟩ := others d here
      rw [link, count]
      exact copying.copies root hosted d

theorem Copying.connect (copying : Copying api s) (c : Conn) (isClosed : (s.links c).isOpen = false) :
    Copying api (s.connect c) := by
  apply copying.setLink
  · intro absent
    obtain ⟨unknown, ⟨idle, empty⟩, replicas⟩ := copying.quiet absent c
    refine ⟨unknown, ⟨idle, ?_⟩, replicas⟩
    rw [absent, empty]
    rfl
  · intro root hosted
    have copy := copying.copies root hosted c
    have list : s.root.toList.map (fun root => (Down.objectList root.signature : Down T C)) =
        [root.signature].map .objectList := by
      rw [Option.mem_def.mp hosted]
      rfl
    rw [list]
    exact copy.announce (copy.closed isClosed).2.2.2 [root.signature]

theorem Copying.enableRemoting (copying : Copying api s) (absent : s.root = none) (signature : Signature) :
    Copying api { s.broadcast (.objectList signature) with
      root := some ⟨s.roots, signature, [], false, [], []⟩
      roots := s.roots + 1 } where
  holds := copying.holds
  quiet hosted := nomatch hosted
  copies := by
    rintro root ⟨⟩ c
    have quiet := copying.quiet absent c
    simp only [Net.broadcast, List.count_nil]
    split
    · rename_i isOpen
      have copy : api.Copy [] 0 s.values s.unannounced (s.links c) := quiet.copy
      have announced := copy.announce quiet.free [signature]
      rw [← isOpen] at announced
      exact announced
    · exact quiet.copy

theorem Copying.write (copying : Copying api s) {i : Nat} {value : Variant T C}
    (fits : ∃ metaType ∈ api.metaType i, api.Holds metaType value) :
    Copying api { s with values := Function.update s.values i value, unannounced := i :: s.unannounced } where
  holds j metaType found := by
    simp only
    by_cases here : j = i
    · subst here
      obtain ⟨own, same, holds⟩ := fits
      obtain rfl := Option.some.inj ((Option.mem_def.mp same).symm.trans found)
      rw [Function.update_self]
      exact holds
    · rw [Function.update_of_ne here]
      exact copying.holds j metaType found
  quiet := copying.quiet
  copies root hosted c := (copying.copies root hosted c).write i value

end Invariant

section Step
variable {Conn T C : Type} [DecidableEq Conn] [DecidableEq T] {api : AlignedInterface T C}
  {s t : Net Conn T C}

theorem Copying.emit {root : RootSource Conn T C} (copying : Copying api.toInterface s)
    (hosted : s.root = some root) (signal : Nat) (args : List (Variant T C)) :
    Copying api.toInterface
      { ({ s with unannounced := s.unannounced.filter (some · ≠ api.announces signal) } : Net Conn T C).send
          root.listeners (root.handleMetaCall api.toInterface s.values signal args).1 with
        root := some (root.handleMetaCall api.toInterface s.values signal args).2 } := by
  obtain ⟨types, emission, same, rfl, value, carries⟩ :=
    handleMetaCall_carries root copying.holds signal args
  rw [same]
  refine ⟨copying.holds, (fun absent => nomatch absent), ?_⟩
  rintro _ ⟨⟩ c
  apply (copying.copies root hosted c).emit value
  intro listed
  apply carries
  intro nobody
  rw [nobody] at listed
  exact listed rfl

/-- The host reads a request to attach, and answers it with a plain snapshot. -/
theorem Copying.addListener {root : RootSource Conn T C} {c : Conn} {isDynamic : Bool} {attach : Nat}
    {up : List Up} (copying : Copying api.toInterface s) (hosted : s.root = some root)
    (waiting : (s.links c).up = .addObject isDynamic attach :: up)
    (plain : ∀ i metaType, api.Notifies i metaType →
      ¬ (root.attached api.toInterface c isDynamic).Wraps api.toInterface metaType (s.values i)) :
    Copying api.toInterface ((s.setLink c { s.links c with up }).onServerRead api.toInterface c
      (.addObject isDynamic attach) root) := by
  obtain ⟨types, same⟩ := root.addListener_frame api.toInterface s.values c isDynamic attach
  have snapshot : api.Snapshot s.values (root.sentProperties api.toInterface s.values c isDynamic) :=
    RootSource.serializeProperties_snapshot api.toInterface _ copying.holds plain
  let stamp : Stamp := ⟨root.id, attach, root.emitted.length⟩
  let sent := root.sentProperties api.toInterface s.values c isDynamic
  have init : (if isDynamic then .initDynamic stamp sent else .init stamp sent : Down T C) = .init stamp sent ∨
      (if isDynamic then .initDynamic stamp sent else .init stamp sent : Down T C) = .initDynamic stamp sent := by
    cases isDynamic
    · exact .inl rfl
    · exact .inr rfl
  obtain ⟨unlisted, copy⟩ := (copying.copies root hosted c).attach waiting init rfl rfl snapshot
  simp only [Net.onServerRead]
  have values : (s.setLink c { s.links c with up }).values = s.values := rfl
  rw [values, same]
  refine copying.relist c hosted rfl ?_ ?_ ?_
  · exact ⟨rfl, rfl, rfl⟩
  · intro d other
    constructor
    · simp [Net.send, Net.setLink, Function.update_of_ne other, List.count_cons, Ne.symm other]
    · simp [RootSource.attached, Ne.symm other]
  · have once : (root.listeners ++ [c]).count c = 1 := by
      rw [List.count_append, unlisted, List.count_singleton_self]
    simp only [RootSource.attached, once, Net.send, Net.setLink_self, List.count_singleton_self,
      List.replicate_one, List.flatten_singleton]
    exact copy

theorem Copying.removeListener {root : RootSource Conn T C} {c : Conn} {up : List Up}
    (copying : Copying api.toInterface s) (hosted : s.root = some root)
    (waiting : (s.links c).up = .removeObject :: up) :
    Copying api.toInterface
      ((s.setLink c { s.links c with up }).onServerRead api.toInterface c .removeObject root) := by
  obtain ⟨_, copy⟩ := (copying.copies root hosted c).detach waiting
  refine copying.relist c hosted rfl ?_ ?_ ?_
  · exact ⟨rfl, rfl, rfl⟩
  · intro d other
    constructor
    · exact Net.setLink_other _ other
    · simp only [RootSource.removeListener]
      rw [List.count_filter (by simpa using other)]
  · have absent : (root.removeListener c).listeners.count c = 0 := by
      apply List.count_eq_zero_of_not_mem
      simp [RootSource.removeListener]
    rw [absent]
    simp only [Net.onServerRead, Net.setLink_self]
    exact copy

variable [DecidableEq C] [Inhabited C]

theorem copying_step {e : Event Conn T C} (copying : Copying api.toInterface s)
    (plain : e ≠ .disableRemoting ∧ SentPlain api.toInterface s e) (stepped : step api.toInterface s e = some t) :
    Copying api.toInterface t := by
  cases e with
  | connect c =>
    simp only [step] at stepped
    split at stepped <;> cases stepped
    rename_i isClosed
    exact copying.connect c (eq_false_of_ne_true isClosed)
  | enableRemoting signature =>
    simp only [step] at stepped
    split at stepped <;> cases stepped
    rename_i absent
    exact copying.enableRemoting absent signature
  | disableRemoting => exact absurd rfl plain.1
  | write i value =>
    simp only [step] at stepped
    split at stepped <;> cases stepped
    rename_i fits
    exact copying.write fits
  | emit signal args =>
    simp only [step] at stepped
    split at stepped <;> try contradiction
    cases hosted : s.root with
    | none =>
      simp only [hosted] at stepped
      cases stepped
      exact ⟨copying.holds, fun _ => copying.quiet hosted, fun root member => by cases member⟩
    | some root =>
      simp only [hosted] at stepped
      cases stepped
      exact copying.emit hosted signal args
  | acquire c isDynamic signature =>
    cases stepped
    apply copying.setLink
    · exact fun absent => (copying.quiet absent c).acquire isDynamic signature
    · exact fun root hosted => (copying.copies root hosted c).acquire isDynamic signature
  | delete c =>
    cases stepped
    apply copying.setLink
    · exact fun absent => (copying.quiet absent c).delete
    · exact fun root hosted => (copying.copies root hosted c).delete
  | serverRead c =>
    simp only [step] at stepped
    split at stepped
    · contradiction
    · rename_i packet up waiting
      cases hosted : s.root with
      | none =>
        have idle := (copying.quiet hosted c).idle.1
        rw [waiting] at idle
        contradiction
      | some root =>
        simp only [Net.setLink, hosted] at stepped
        cases stepped
        cases packet with
        | addObject isDynamic attach =>
          apply copying.addListener hosted waiting
          have plain := plain.2
          simp only [SentPlain, hosted, waiting] at plain
          intro i metaType notifies
          obtain ⟨signal, announces⟩ := notifies.2
          apply plain i (api.notifies_lt notifies) metaType notifies.1
          rw [announces]
          exact Option.some_ne_none signal
        | removeObject => exact copying.removeListener hosted waiting
  | clientRead c =>
    simp only [step] at stepped
    split at stepped
    · contradiction
    · rename_i packet down arriving
      obtain ⟨new, read, rfl⟩ := Option.map_eq_some_iff.mp stepped
      apply copying.setLink
      · intro absent
        have empty := (copying.quiet absent c).idle.2
        rw [arriving] at empty
        contradiction
      · exact fun root hosted => (copying.copies root hosted c).clientRead arriving read

omit [DecidableEq T] [DecidableEq C] [Inhabited C] in
theorem Copying.latentCopy (copying : Copying api.toInterface s) : LatentCopy api.toInterface s := by
  intro c root hosted replica held init own
  obtain ⟨_, _, progress⟩ := (copying.copies root hosted c).replicas replica held
  cases progress with
  | waiting fresh => exact nomatch own.symm.trans fresh
  | following attached idle begun earlier seen later shown following =>
    obtain rfl := Option.some.inj (following.own.symm.trans own)
    have behind : root.emitted.drop begun.stamp.emitted = seen ++ later := by
      rw [following.history, ← following.since, List.drop_left]
    refine ⟨⟨seen, behind ▸ List.prefix_append seen later, following.shows⟩, ?_⟩
    intro empty
    have all : later = [] := by
      rcases following.arriving with none | ⟨_, _, _, _, _, _, more⟩
      · rw [empty] at none
        cases later with
        | nil => rfl
        | cons emission others =>
          have carries := following.carried emission List.mem_cons_self
          exact absurd (List.append_eq_nil_iff.mp none.symm).1 carries.ne_nil
      · rw [empty] at more
        contradiction
    subst all
    rw [behind, List.append_nil]
    refine ⟨following.shows, ?_⟩
    intro i metaType notifies told
    rw [← following.announced i metaType notifies told]
    exact following.tracks i metaType notifies

end Step

section Wrapped

inductive SampleType
  | integer | point | variant
deriving DecidableEq

/-- One property of type `QVariant` with a notify signal, and a gadget type that the
definition of the interface does not mention. -/
def sample : AlignedInterface SampleType Nat where
  kind
    | .integer => .numeric
    | .point => .gadget
    | .variant => .variant
  properties := [⟨.variant, some 0⟩]
  signals := [[]]
  propertyAssociatedWithSignal := [0]
  definedTypes := []
  defaults := [.bare .integer 0]
  transferNumeric t u kind := by cases t <;> contradiction
  announces_iff i signal := by
    cases i <;> cases signal <;> simp [Interface.notifySignal, Interface.announces]
  defaults_length := rfl
  defaults_store i metaType found value default := by
    cases i with
    | zero =>
      cases found
      cases default
      exact .inr ⟨rfl, fun u kind => nomatch kind⟩
    | succ => contradiction

def sampleObject : SourceObject sample.toInterface where
  values _ := .bare .integer 0
  holds i metaType found := by
    cases i with
    | zero =>
      cases found
      exact .inr rfl
    | succ => contradiction

/-- A dynamic replica attaches while the property holds an integer, and is told of a gadget. -/
def toldAfterwards : List (Event Unit SampleType Nat) :=
  [.connect (), .enableRemoting [], .clientRead (), .acquire () true [], .serverRead (),
    .clientRead (), .write 0 (.bare .point 7), .emit 0 [], .clientRead (), .clientRead ()]

/-- It attaches while the property holds a gadget. -/
def wrapped : List (Event Unit SampleType Nat) :=
  [.connect (), .enableRemoting [], .clientRead (), .write 0 (.bare .point 7), .emit 0 [],
    .acquire () true [], .serverRead (), .clientRead ()]

end Wrapped
end RemoteObjects.Node
