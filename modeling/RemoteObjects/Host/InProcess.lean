import RemoteObjects.Host.Invocable

/-! Replicas on the node that hosts their source. All replicas of a name share one
implementation with a pointer to the source, for as long as one of them is left. -/
namespace RemoteObjects.Host
open RemoteObjects Transition

section Replicas
variable {Obj : Type}

/-- `QInProcessReplicaImplementation`, whose pointer to the source is guarded: it reads as null
once the source is destroyed. A name that the host does not know is that of a remote source. -/
inductive Implementation
  | inProcess (connectionToSource : Id)
  | connected
deriving DecidableEq

/-- An implementation and how many replicas hold it. -/
structure Shared where
  d_impl : Implementation
  instances : Nat

structure HostNode (Obj : Type) where
  remoteObjectIo : SourceIo Obj
  replicas : Name → Option Shared

/-- A property is read, or a property is written or a method called, whose index may not
resolve in the api of the source. -/
inductive Access
  | getProperty
  | _q_send (resolves : Bool)

inductive Operation (Obj : Type)
  | source (e : Event Obj)
  | acquire (name : Name)
  | delete (name : Name)
  | use (name : Name) (access : Access)

namespace HostNode
variable (s : HostNode Obj)

def initial (values : Obj → Nat → Option Obj) : HostNode Obj := ⟨.initial values, fun _ => none⟩

def implementation (name : Name) : Option Implementation := (s.replicas name).map Shared.d_impl

/-- The object of a source, behind the pointer to the source. -/
def m_object (id : Id) : Option Obj := (s.remoteObjectIo.source id).bind Source.object

/-- The first replica of a name is connected to the object of its source. -/
def handleNewAcquire (name : Name) : Option Implementation :=
  match s.remoteObjectIo.m_sourceObjects name with
  | some id => (s.m_object id).map fun _ => .inProcess id
  | none => some .connected

def setReplicaImplementation (name : Name) : Option (HostNode Obj) :=
  match s.replicas name with
  | some shared =>
    some { s with replicas := Function.update s.replicas name (some { shared with instances := shared.instances + 1 }) }
  | none => (s.handleNewAcquire name).map fun rep =>
    { s with replicas := Function.update s.replicas name (some ⟨rep, 1⟩) }

/-- The implementation goes with its last replica. -/
def delete (name : Name) (shared : Shared) : HostNode Obj :=
  let left := if shared.instances ≤ 1 then none else some { shared with instances := shared.instances - 1 }
  { s with replicas := Function.update s.replicas name left }

/-- Whether an access follows pointers that are there. -/
def reaches (rep : Implementation) : Access → Bool
  | .getProperty | ._q_send true =>
    match rep with
    | .inProcess connectionToSource => (s.m_object connectionToSource).isSome
    | .connected => true
  | ._q_send false =>
    match rep with
    | .inProcess connectionToSource =>
      (s.remoteObjectIo.source connectionToSource).isSome
    | .connected => true

/-- One step of the node, or nothing where it would follow a null pointer or look at a
source that was destroyed. -/
def step [DecidableEq Obj] (classes : Classes Obj) : Operation Obj → Option (HostNode Obj)
  | .source e => (Host.step classes s.remoteObjectIo e).map fun io => { s with remoteObjectIo := io }
  | .acquire name => s.setReplicaImplementation name
  | .delete name => (s.replicas name).map fun shared => s.delete name shared
  | .use name access => (s.replicas name).bind fun shared => if s.reaches shared.d_impl access then some s else none

end HostNode
end Replicas

section Statement
variable {Obj : Type} [DecidableEq Obj]

/-- Replicas can be acquired and used, and a new one uses the source that has its name. -/
def SurvivesSource (classes : Classes Obj) (s : HostNode Obj) : Operation Obj → Prop
  | .acquire name => ∃ t, s.step classes (.acquire name) = some t ∧
      ∀ id source, s.remoteObjectIo.m_sourceObjects name = some id → s.remoteObjectIo.source id = some source →
        t.implementation name = some (.inProcess id)
  | .use name access => s.replicas name ≠ none → ∃ t, s.step classes (.use name access) = some t
  | _ => True

/-- No source ends while a replica holds it, names are registered while no replica of them
is left, and a name is acquired whose source, if any, is there and has an object. -/
def OutlivesReplicas (classes : Classes Obj) (s : HostNode Obj) : Operation Obj → Prop
  | .source (.enableRemoting object name api) =>
    ∀ path known, api.activeName s.remoteObjectIo.values object name path = some known → s.replicas known = none
  | .source (.disableRemoting object) => ∀ number, s.remoteObjectIo.m_objectToSourceMap object = some number →
      ∀ name id, s.implementation name = some (.inProcess id) → ¬ [number] <+: id
  | .source (.destroy object) => ∀ name id, s.implementation name = some (.inProcess id) →
      ¬ Hit s.remoteObjectIo.sources object id
  | .source (.serializeProperty id i) => ∀ newObject, s.remoteObjectIo.resets id i = some newObject →
      (∀ name path, s.implementation name = some (.inProcess (id ++ [i] ++ path)) →
        readPath s.remoteObjectIo.values newObject path ≠ none) ∧
      ∀ path source model, s.remoteObjectIo.source (id ++ [i] ++ path) = some source →
        readPath s.remoteObjectIo.values newObject path = some model → classes.isModel model →
          ∀ rep ∈ s.implementation source.name, rep = .inProcess (id ++ [i] ++ path)
  | .acquire name => s.replicas name = none → ∀ id, s.remoteObjectIo.m_sourceObjects name = some id →
      ∃ source, s.remoteObjectIo.source id = some source ∧ source.object ≠ none
  | _ => True

end Statement

namespace HostNode
variable {Obj : Type} {s t : HostNode Obj}

/-- The replicas of a name use its source, which is there and has an object. -/
structure Outliving (s : HostNode Obj) : Prop where
  consistent : s.remoteObjectIo.Consistent
  active : ∀ name id, s.implementation name = some (.inProcess id) →
    ∃ source, s.remoteObjectIo.source id = some source ∧ source.object ≠ none
  named : ∀ name rep id, s.implementation name = some rep → s.remoteObjectIo.m_sourceObjects name = some id →
    rep = .inProcess id

theorem Outliving.initial (values : Obj → Nat → Option Obj) : (initial values).Outliving where
  consistent := .initial values
  active _ _ held := nomatch held
  named _ _ _ held := nomatch held

/-- An implementation that is held now was held before, or is that of the registered source. -/
theorem Outliving.acquired (outliving : s.Outliving) (same : t.remoteObjectIo = s.remoteObjectIo)
    (held : ∀ name rep, t.implementation name = some rep → s.implementation name = some rep ∨
      s.handleNewAcquire name = some rep) : t.Outliving := by
  have acquired : ∀ {name rep}, s.handleNewAcquire name = some rep →
      (∀ id, rep = .inProcess id → s.m_object id ≠ none) ∧
        ∀ id, s.remoteObjectIo.m_sourceObjects name = some id → rep = .inProcess id := by
    intro name rep made
    rw [handleNewAcquire] at made
    split at made
    · rename_i id entry
      obtain ⟨object, found, rfl⟩ := Option.map_eq_some_iff.mp made
      refine ⟨?_, ?_⟩
      · rintro _ ⟨⟩
        rw [found]
        exact Option.some_ne_none object
      · intro other again
        rw [Option.some.inj (entry.symm.trans again)]
    · rename_i unknown
      cases made
      refine ⟨fun _ other => (nomatch other), fun id entry => ?_⟩
      rw [unknown] at entry
      contradiction
  refine ⟨same ▸ outliving.consistent, ?_, ?_⟩
  · intro name id now
    rw [same]
    rcases held name _ now with before | made
    · exact outliving.active name id before
    · have reached := (acquired made).1 id rfl
      obtain ⟨object, found⟩ := Option.ne_none_iff_exists'.mp reached
      obtain ⟨source, present, here⟩ := Option.bind_eq_some_iff.mp found
      exact ⟨source, present, here ▸ Option.some_ne_none object⟩
  · intro name rep id now entry
    rw [same] at entry
    rcases held name rep now with before | made
    · exact outliving.named name rep id before entry
    · exact (acquired made).2 id entry

theorem implementation_update (replicas : Name → Option Shared) (name other : Name) (shared : Option Shared) :
    (HostNode.mk s.remoteObjectIo (Function.update replicas name shared)).implementation other =
      if other = name then shared.map Shared.d_impl else (replicas other).map Shared.d_impl := by
  simp only [implementation, Function.update_apply]
  split <;> rfl

theorem Outliving.setReplicaImplementation (outliving : s.Outliving) {name : Name}
    (acquires : s.setReplicaImplementation name = some t) : t.Outliving := by
  rw [HostNode.setReplicaImplementation] at acquires
  split at acquires
  · rename_i shared before
    cases acquires
    refine outliving.acquired rfl fun other rep now => .inl ?_
    rw [implementation_update] at now
    split at now
    · rename_i here
      rw [implementation, here, before]
      exact now
    · exact now
  · obtain ⟨made, acquired, rfl⟩ := Option.map_eq_some_iff.mp acquires
    refine outliving.acquired rfl fun other rep now => ?_
    rw [implementation_update] at now
    split at now
    · rename_i here
      obtain rfl := Option.some.inj now
      exact .inr (here ▸ acquired)
    · exact .inl now

theorem Outliving.delete (outliving : s.Outliving) {name : Name} {shared : Shared}
    (held : s.replicas name = some shared) : (s.delete name shared).Outliving := by
  refine outliving.acquired rfl fun other rep now => .inl ?_
  rw [HostNode.delete, implementation_update] at now
  split at now
  · rename_i here
    rw [implementation, here, held]
    split at now
    · contradiction
    · exact now
  · exact now

/-- The host changes, but neither ends nor renames the source of a replica. -/
theorem Outliving.hosted (outliving : s.Outliving) {io : SourceIo Obj} (consistent : io.Consistent)
    (active : ∀ name id source, s.implementation name = some (.inProcess id) →
      s.remoteObjectIo.source id = some source → source.object ≠ none →
        ∃ source, io.source id = some source ∧ source.object ≠ none)
    (named : ∀ name rep id, s.implementation name = some rep → io.m_sourceObjects name = some id →
      s.remoteObjectIo.m_sourceObjects name = some id ∨ rep = .inProcess id) :
    Outliving { s with remoteObjectIo := io } where
  consistent := consistent
  active name id held := by
    obtain ⟨source, found, object⟩ := outliving.active name id held
    exact active name id source held found object
  named name rep id held entry := by
    rcases named name rep id held entry with before | same
    · exact outliving.named name rep id held before
    · exact same

theorem implementation_none {name : Name} (free : s.replicas name = none) : s.implementation name = none := by
  rw [implementation, free, Option.map_none]

variable [DecidableEq Obj] {classes : Classes Obj}

theorem Outliving.enableRemoting (outliving : s.Outliving) {object : Obj} {name : Name} {api : Api}
    (outlives : OutlivesReplicas classes s (.source (.enableRemoting object name api)))
    (consistent : (s.remoteObjectIo.enableRemoting object name api).Consistent) :
    Outliving { s with remoteObjectIo := s.remoteObjectIo.enableRemoting object name api } := by
  refine outliving.hosted consistent ?_ ?_
  · intro _ id source _ found active
    refine ⟨source, ?_, active⟩
    rw [SourceIo.source_enableRemoting_other object name api (outliving.consistent.old_of_source found)]
    exact found
  · intro known rep id held entry
    rcases registered_some entry with ⟨source, member, rfl⟩ | ⟨_, before⟩
    · obtain ⟨⟨path, below⟩, found, active⟩ := SourceIo.mem_enabled.mp member
      have free := outlives path source.name
        (SourceIo.active_enableRemoting.mpr ⟨source, by rw [← found, ← below]; rfl, active, rfl⟩)
      rw [implementation_none free] at held
      contradiction
    · exact .inl before

theorem Outliving.withoutRoots (outliving : s.Outliving) (gone : Id → Prop) [∀ id, Decidable (gone id)]
    (roots : List Nat) {io : SourceIo Obj} (consistent : io.Consistent)
    (table : io.m_sourceObjects =
      (roots.foldl (fun s number => s.deleteRoot number) s.remoteObjectIo).m_sourceObjects)
    (left : ∀ id, io.source id = (s.remoteObjectIo.source id).filter fun _ => ¬ gone id)
    (outlives : ∀ name id, s.implementation name = some (.inProcess id) → ¬ gone id) :
    Outliving { s with remoteObjectIo := io } := by
  refine outliving.hosted consistent ?_ ?_
  · intro name id source held found active
    refine ⟨source, ?_, active⟩
    rw [left, found, Option.filter_some, if_pos (decide_eq_true (outlives name id held))]
  · intro name rep id _ entry
    rw [table, SourceIo.deleteRoots_m_sourceObjects] at entry
    exact .inl entry.1

theorem Outliving.resetObject (outliving : s.Outliving) {id : Id} {i : Nat} {newObject : Option Obj}
    (outlives : OutlivesReplicas classes s (.source (.serializeProperty id i)))
    (resets : s.remoteObjectIo.resets id i = some newObject) (whole : s.remoteObjectIo.Whole (id ++ [i]))
    (consistent : (s.remoteObjectIo.resetObject classes (id ++ [i]) newObject).Consistent) :
    Outliving { s with remoteObjectIo := s.remoteObjectIo.resetObject classes (id ++ [i]) newObject } := by
  have nonempty : id ++ [i] ≠ [] := List.concat_ne_nil i id
  obtain ⟨kept, models⟩ := outlives newObject resets
  refine outliving.hosted consistent ?_ ?_
  · intro name held source used found active
    by_cases below : id ++ [i] <+: held
    · obtain ⟨path, rfl⟩ := below
      refine ⟨_, (SourceIo.source_resetObject classes nonempty newObject path).trans
        (by rw [found, Option.map_some]), ?_⟩
      rw [Source.object_resetObject]
      exact kept name path used
    · exact ⟨source, (SourceIo.source_resetObject_other classes newObject below).trans found, active⟩
  · intro name rep known held entry
    by_cases renews : s.remoteObjectIo.Renews classes (id ++ [i]) newObject name
    · obtain ⟨path, source, model, found, rfl, read, isModel, last⟩ :=
        SourceIo.resetObject_renewed nonempty whole renews
      obtain rfl := Option.some.inj (last.symm.trans entry)
      exact .inr (models path source model found read isModel rep held)
    · rw [SourceIo.resetObject_kept nonempty whole renews] at entry
      exact .inl entry

theorem Outliving.source (outliving : s.Outliving) {e : Event Obj} {io : SourceIo Obj}
    (outlives : OutlivesReplicas classes s (.source e))
    (stepped : Host.step classes s.remoteObjectIo e = some io) : Outliving { s with remoteObjectIo := io } := by
  have consistent := SourceIo.consistent_step outliving.consistent stepped
  cases e with
  | enableRemoting object name api =>
    obtain ⟨_, rfl⟩ := step_enableRemoting.mp stepped
    exact outliving.enableRemoting outlives consistent
  | disableRemoting object =>
    obtain ⟨number, enabled, rfl⟩ := step_disableRemoting.mp stepped
    exact outliving.withoutRoots (fun id => [number] <+: id) [number] consistent rfl
      (fun _ => SourceIo.source_deleteRoot number) (outlives number enabled)
  | destroy object =>
    obtain rfl := Option.some.inj stepped
    exact outliving.withoutRoots (Hit s.remoteObjectIo.sources object) _ consistent rfl
      (fun _ => SourceIo.source_destroy object) outlives
  | setPointer object i value =>
    obtain rfl := Option.some.inj stepped
    exact outliving.hosted consistent (fun _ _ source _ found active => ⟨source, found, active⟩)
      fun _ _ _ _ entry => .inl entry
  | serializeProperty id i =>
    obtain ⟨newObject, resets, whole, rfl⟩ | ⟨_, rfl⟩ := step_serializeProperty stepped
    · exact outliving.resetObject outlives resets whole consistent
    · exact outliving

theorem Outliving.step (outliving : s.Outliving) {e : Operation Obj} (outlives : OutlivesReplicas classes s e)
    (stepped : s.step classes e = some t) : t.Outliving := by
  cases e with
  | source e =>
    obtain ⟨io, hosted, rfl⟩ := Option.map_eq_some_iff.mp stepped
    exact outliving.source outlives hosted
  | acquire name => exact outliving.setReplicaImplementation stepped
  | delete name =>
    obtain ⟨shared, held, rfl⟩ := Option.map_eq_some_iff.mp stepped
    exact outliving.delete held
  | use name access =>
    obtain ⟨shared, _, same⟩ := Option.bind_eq_some_iff.mp stepped
    split at same <;> cases same
    exact outliving

omit [DecidableEq Obj] in
theorem Outliving.reaches (outliving : s.Outliving) {name : Name} {shared : Shared}
    (held : s.replicas name = some shared) (access : Access) : s.reaches shared.d_impl access = true := by
  cases rep : shared.d_impl with
  | connected =>
    cases access with
    | getProperty => rfl
    | _q_send resolves => cases resolves <;> rfl
  | inProcess id =>
    have used : s.implementation name = some (.inProcess id) := by
      rw [implementation, held, Option.map_some, rep]
    obtain ⟨source, found, active⟩ := outliving.active name id used
    have object : (s.m_object id).isSome := by
      rw [m_object, found]
      exact Option.isSome_iff_ne_none.mpr active
    cases access with
    | getProperty => exact object
    | _q_send resolves =>
      cases resolves with
      | true => exact object
      | false => exact Option.isSome_of_eq_some found

omit [DecidableEq Obj] in
/-- A new replica has an implementation. -/
theorem implementation_acquired {name : Name} (acquires : s.setReplicaImplementation name = some t) :
    t.remoteObjectIo = s.remoteObjectIo ∧ ∃ rep, t.implementation name = some rep := by
  rw [setReplicaImplementation] at acquires
  split at acquires
  · rename_i shared _
    cases acquires
    refine ⟨rfl, shared.d_impl, ?_⟩
    rw [implementation_update, if_pos rfl, Option.map_some]
  · obtain ⟨rep, _, rfl⟩ := Option.map_eq_some_iff.mp acquires
    refine ⟨rfl, rep, ?_⟩
    rw [implementation_update, if_pos rfl, Option.map_some]

theorem Outliving.survivesSource (outliving : s.Outliving) {e : Operation Obj}
    (outlives : OutlivesReplicas classes s e) : SurvivesSource classes s e := by
  cases e with
  | acquire name =>
    have acquires : ∃ t, s.setReplicaImplementation name = some t := by
      rw [HostNode.setReplicaImplementation]
      split
      · exact ⟨_, rfl⟩
      · rename_i free
        rw [handleNewAcquire]
        split
        · rename_i id entry
          obtain ⟨source, found, active⟩ := outlives free id entry
          obtain ⟨object, here⟩ := Option.ne_none_iff_exists'.mp active
          rw [m_object, found, Option.bind_some, here]
          exact ⟨_, rfl⟩
        · exact ⟨_, rfl⟩
    obtain ⟨t, acquires⟩ := acquires
    obtain ⟨same, rep, held⟩ := implementation_acquired acquires
    refine ⟨t, acquires, fun id _ entry _ => ?_⟩
    rw [held, (outliving.setReplicaImplementation acquires).named name rep id held (same ▸ entry)]
  | use name access =>
    intro held
    obtain ⟨shared, held⟩ := Option.ne_none_iff_exists'.mp held
    refine ⟨s, ?_⟩
    simp only [HostNode.step, held, Option.bind_some, outliving.reaches held access, if_true]
  | source | delete => trivial

/-- In every run in which sources outlive their replicas, replicas can be used at any time,
and new ones use the source of their name. -/
theorem survivesSource_of_outlives (values : Obj → Nat → Option Obj) (es : List (Operation Obj))
    (outlives : Admitted (fun s e => s.step classes e) (OutlivesReplicas classes) (.initial values) es) :
    Admitted (fun s e => s.step classes e) (SurvivesSource classes) (.initial values) es :=
  admitted_of_invariant (P := Outliving) (fun outliving outlives stepped => outliving.step outlives stepped)
    (fun outliving outlives => outliving.survivesSource outlives) outlives (.initial values)

end HostNode

section Runs

/-- Objects without children and item models. -/
def bareObjects : Classes Nat := ⟨fun _ => false, fun _ => none⟩

/-- A replica is deleted before its source is disabled, and acquired again from the next one. -/
def replaced : List (Operation Nat) :=
  [.source (.enableRemoting 0 "A".toList .nil), .acquire "A".toList, .use "A".toList .getProperty,
    .delete "A".toList, .source (.disableRemoting 0), .source (.enableRemoting 1 "A".toList .nil),
    .acquire "A".toList, .use "A".toList (._q_send true)]

theorem replaced_survives :
    Admitted (fun s e => s.step bareObjects e) (SurvivesSource bareObjects) (.initial fun _ _ => none) replaced := by
  refine HostNode.survivesSource_of_outlives (fun _ _ => none) replaced ?_
  have found {s : HostNode Nat} {number : Nat} {root : Source Nat} {name : Name}
      (entry : s.remoteObjectIo.m_sourceObjects name = some [number])
      (present : s.remoteObjectIo.source [number] = some root) (active : root.object ≠ none) :
      OutlivesReplicas bareObjects s (.acquire name) := by
    intro _ id again
    obtain rfl := Option.some.inj (entry.symm.trans again)
    exact ⟨root, present, active⟩
  have free (shared : Option Shared) (name : Name) :
      Function.update (Function.update (fun _ => none) "A".toList shared) "A".toList none name = none := by
    rw [Function.update_idem, Function.update_apply, ite_self]
  refine .cons (fun _ _ _ => rfl) rfl (.cons (found rfl rfl (Option.some_ne_none 0)) rfl
    (.cons trivial rfl (.cons trivial rfl (.cons ?_ rfl (.cons ?_ rfl
      (.cons (found rfl rfl (Option.some_ne_none 1)) rfl (.cons trivial rfl trivial)))))))
  · intro _ _ name id held
    exact nomatch held.symm.trans (congrArg (Option.map Shared.d_impl) (free _ name))
  · exact fun _ known _ => free _ known

/-- A replica is left behind when its source is disabled. -/
theorem left_replica_follows_null : ¬ Admitted (fun s e => s.step bareObjects e) (SurvivesSource bareObjects)
    (.initial fun _ _ => none) [.source (.enableRemoting 0 "A".toList .nil), .acquire "A".toList,
      .source (.disableRemoting 0), .use "A".toList .getProperty] := by
  intro survives
  have last := survives.last (e := .use "A".toList .getProperty) rfl rfl
  obtain ⟨t, used⟩ := last (by decide)
  contradiction

end Runs
end RemoteObjects.Host
