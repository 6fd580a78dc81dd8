import Mathlib.Data.List.Nodup
import RemoteObjects.Host.Sources

/-! Signals of a source that reach the replicas on its own node. The first replica is
connected to the object of the source, later ones to the implementation they share. -/
namespace RemoteObjects.Host.Signals
open RemoteObjects Transition

section Classes
variable (T V : Type)

/-- A signal with the types of its parameters, and the default arguments of the last ones. -/
structure Declaration where
  name : Name
  parameters : List T
  defaults : List V
  fits : defaults.length ≤ parameters.length

/-- A name with the types of parameters. -/
abbrev Signature := Name × List T

/-- A method of a metaobject. A method with arguments omitted is a clone of the declared one. -/
structure Method where
  declaration : Nat
  omitted : Nat
  signature : Signature T

variable {T V}

/-- The method for a signal, and its clones behind it. -/
def Declaration.overloads (d : Declaration T V) (declaration : Nat) : List (Method T) :=
  (List.range (d.defaults.length + 1)).map fun omitted =>
    ⟨declaration, omitted, d.name, d.parameters.take (d.parameters.length - omitted)⟩

def methodsFrom : Nat → List (Declaration T V) → List (Method T)
  | _, [] => []
  | declaration, d :: declarations => d.overloads declaration ++ methodsFrom (declaration + 1) declarations

/-- The signals of a class. A call of two signals with one signature does not compile. -/
structure MetaObject (T V : Type) where
  signals : List (Declaration T V)
  distinct : ((methodsFrom 0 signals).map Method.signature).Nodup

namespace MetaObject
variable (us them : MetaObject T V)

def methods : List (Method T) := methodsFrom 0 us.signals

def indexOfSignal [DecidableEq T] (signature : Signature T) : Option (Method T) :=
  us.methods.reverse.find? (·.signature = signature)

end MetaObject
end Classes

section Replicas
variable {T V : Type} [DecidableEq T]

/-- Replicas are connected to the object of the source, or to their implementation, which
emits nothing by itself. -/
inductive Sender
  | object | implementation
deriving DecidableEq

structure Connection (T : Type) where
  sender : Sender
  signal : Nat
  method : Method T

/-- A replica with what it has emitted, and whether it was the only one when it was acquired. -/
structure Instance (T V : Type) where
  metaObject : MetaObject T V
  connections : List (Connection T)
  emitted : List (Nat × List V)
  alone : Bool

/-- By the signature of each signal. A clone is connected in the place of the signal it
was made for. -/
def connectReplica (them us : MetaObject T V) : List (Connection T) :=
  us.methods.filterMap fun mm =>
    (them.indexOfSignal mm.signature).bind fun sender =>
      (us.indexOfSignal mm.signature).map fun receiver => ⟨.object, sender.declaration, receiver⟩

/-- By the indices of the methods, `m_numSignals` of them. -/
def configurePrivate (us : MetaObject T V) (m_numSignals : Nat) : List (Connection T) :=
  (us.methods.take m_numSignals).mapIdx fun i mm => ⟨.implementation, i, mm⟩

/-- A clone that is called passes the default arguments on. -/
def Declaration.passed (d : Declaration T V) (omitted : Nat) (args : List V) : List V :=
  args.take (d.parameters.length - omitted) ++ d.defaults.drop (d.defaults.length - omitted)

namespace Instance
variable (replica : Instance T V)

/-- What a replica emits when the object of the source emits a signal. -/
def activations (signal : Nat) (args : List V) : List (Nat × List V) :=
  replica.connections.filterMap fun c =>
    if c.sender = .object ∧ c.signal = signal then
      (replica.metaObject.signals[c.method.declaration]?).map fun d =>
        (c.method.declaration, d.passed c.method.omitted args)
    else none

def activate (signal : Nat) (args : List V) : Instance T V :=
  { replica with emitted := replica.emitted ++ replica.activations signal args }

end Instance

/-- The replicas of a name, and `m_numSignals` of the implementation they share. -/
structure HostNode (T V : Type) where
  replicas : List (Instance T V)
  m_numSignals : Nat

inductive Event (T V : Type)
  | acquire (us : MetaObject T V)
  | delete (index : Nat)
  | emit (signal : Nat) (args : List V)

def HostNode.setReplicaImplementation (s : HostNode T V) (object us : MetaObject T V) : HostNode T V :=
  if s.replicas = [] then
    let connections := configurePrivate us us.methods.length ++ connectReplica object us
    ⟨[⟨us, connections, [], true⟩], us.methods.length⟩
  else ⟨s.replicas ++ [⟨us, configurePrivate us s.m_numSignals, [], false⟩], s.m_numSignals⟩

def step (object : MetaObject T V) (s : HostNode T V) : Event T V → Option (HostNode T V)
  | .acquire us => some (s.setReplicaImplementation object us)
  | .delete index => if index < s.replicas.length then some { s with replicas := s.replicas.eraseIdx index } else none
  | .emit signal args =>
    match object.signals[signal]? with
    | some d =>
      if args.length = d.parameters.length then
        some { s with replicas := s.replicas.map (·.activate signal args) }
      else none
    | none => none

end Replicas

section Statement
variable {T V : Type} [DecidableEq T]

/-- A class declares a signal with the same signature. -/
def Declares (us : MetaObject T V) (d : Declaration T V) (own : Nat) (e : Declaration T V) : Prop :=
  us.signals[own]? = some e ∧ e.name = d.name ∧ e.parameters = d.parameters

/-- A replica has emitted its own signal once, with these arguments. -/
def EmitsOnce (d : Declaration T V) (args : List V) (before after : Instance T V) : Prop :=
  ∃ more, after.emitted = before.emitted ++ more ∧ ∀ own e, Declares before.metaObject d own e →
    more.filter (·.1 = own) = [(own, args)]

/-- Every replica there is emits what the source emits. -/
def SeesSignals (object : MetaObject T V) (s : HostNode T V) : Event T V → Prop
  | .emit signal args => ∀ t, step object s (.emit signal args) = some t →
      ∀ d, object.signals[signal]? = some d → List.Forall₂ (EmitsOnce d args) s.replicas t.replicas
  | _ => True

/-- Replicas that declare the signal were acquired alone, and not both declarations have
default arguments. -/
def HeardAlone (object : MetaObject T V) (s : HostNode T V) : Event T V → Prop
  | .emit signal args => ∀ d, object.signals[signal]? = some d → args.length = d.parameters.length →
      ∀ replica ∈ s.replicas, ∀ own e, Declares replica.metaObject d own e →
        replica.alone ∧ (d.defaults = [] ∨ e.defaults = [])
  | _ => True

end Statement

section Lookup
variable {T V : Type}

theorem Declaration.mem_overloads {d : Declaration T V} {declaration : Nat} {mm : Method T} :
    mm ∈ d.overloads declaration ↔ ∃ omitted ≤ d.defaults.length,
      (⟨declaration, omitted, d.name, d.parameters.take (d.parameters.length - omitted)⟩ : Method T) = mm := by
  simp only [Declaration.overloads, List.mem_map, List.mem_range, Nat.lt_succ_iff]

theorem mem_methodsFrom {declarations : List (Declaration T V)} {first : Nat} {mm : Method T} :
    mm ∈ methodsFrom first declarations ↔ ∃ (i : Nat) (d : Declaration T V),
      declarations[i]? = some d ∧ mm ∈ d.overloads (first + i) := by
  induction declarations generalizing first with
  | nil => simp [methodsFrom]
  | cons d declarations ih =>
    rw [methodsFrom, List.mem_append, ih]
    constructor
    · rintro (own | ⟨i, e, found, member⟩)
      · exact ⟨0, d, rfl, own⟩
      · exact ⟨i + 1, e, found, by rwa [Nat.add_assoc, Nat.add_comm 1] at member⟩
    · rintro ⟨i, e, found, member⟩
      cases i with
      | zero =>
        cases found
        exact .inl member
      | succ i => exact .inr ⟨i, e, found, by rwa [Nat.add_assoc, Nat.add_comm 1]⟩

/-- The methods of one signal are its own and the clones of it. -/
theorem filter_methodsFrom {declarations : List (Declaration T V)} (first : Nat) {i : Nat} {d : Declaration T V}
    (found : declarations[i]? = some d) :
    (methodsFrom first declarations).filter (·.declaration = first + i) = d.overloads (first + i) := by
  induction declarations generalizing first i with
  | nil => contradiction
  | cons e declarations ih =>
    rw [methodsFrom, List.filter_append]
    cases i with
    | zero =>
      cases found
      have own : (d.overloads first).filter (·.declaration = first + 0) = d.overloads first := by
        refine List.filter_eq_self.mpr fun mm member => ?_
        obtain ⟨_, _, rfl⟩ := Declaration.mem_overloads.mp member
        exact decide_eq_true rfl
      have others : (methodsFrom (first + 1) declarations).filter (·.declaration = first + 0) = [] := by
        refine List.filter_eq_nil_iff.mpr fun mm member => ?_
        obtain ⟨i, _, _, member⟩ := mem_methodsFrom.mp member
        obtain ⟨_, _, rfl⟩ := Declaration.mem_overloads.mp member
        simp only [decide_eq_true_eq]
        omega
      rw [own, others, List.append_nil, Nat.add_zero]
    | succ i =>
      have none : (e.overloads first).filter (·.declaration = first + (i + 1)) = [] := by
        refine List.filter_eq_nil_iff.mpr fun mm member => ?_
        obtain ⟨_, _, rfl⟩ := Declaration.mem_overloads.mp member
        simp only [decide_eq_true_eq]
        omega
      rw [none, List.nil_append, ← Nat.add_assoc, Nat.add_right_comm]
      exact ih (first + 1) found

namespace MetaObject
variable [DecidableEq T] {us them : MetaObject T V}

theorem indexOfSignal_eq_some {signature : Signature T} {mm : Method T} :
    us.indexOfSignal signature = some mm ↔ mm ∈ us.methods ∧ mm.signature = signature := by
  constructor
  · intro found
    rw [indexOfSignal] at found
    have same := List.find?_some found
    exact ⟨List.mem_reverse.mp (List.mem_of_find?_eq_some found), of_decide_eq_true same⟩
  · rintro ⟨member, rfl⟩
    cases found : us.indexOfSignal mm.signature with
    | none =>
      have absent := List.find?_eq_none.mp found mm (List.mem_reverse.mpr member)
      simp only [decide_true, not_true] at absent
    | some other =>
      rw [indexOfSignal] at found
      have same := List.find?_some found
      have within := List.mem_reverse.mp (List.mem_of_find?_eq_some found)
      rw [List.inj_on_of_nodup_map us.distinct within member (of_decide_eq_true same)]

/-- A signal has the signature with some arguments omitted if it has so many defaults. -/
theorem indexOfSignal_omitted {signal : Nat} {d : Declaration T V} (found : them.signals[signal]? = some d)
    {omitted : Nat} (fits : omitted ≤ d.parameters.length) :
    (them.indexOfSignal (d.name, d.parameters.take (d.parameters.length - omitted))).any
      (·.declaration = signal) ↔ omitted ≤ d.defaults.length := by
  simp only [Option.any_eq_true, indexOfSignal_eq_some, decide_eq_true_eq]
  constructor
  · rintro ⟨sender, ⟨member, same⟩, here⟩
    obtain ⟨i, e, there, member⟩ := mem_methodsFrom.mp member
    obtain ⟨more, bound, rfl⟩ := Declaration.mem_overloads.mp member
    rw [Nat.zero_add] at here
    subst here
    obtain rfl := Option.some.inj (found.symm.trans there)
    have lengths := congrArg List.length (congrArg Prod.snd same)
    simp only [List.length_take] at lengths
    have whole := d.fits
    omega
  · intro bound
    refine ⟨⟨signal, omitted, _, _⟩, ⟨mem_methodsFrom.mpr ⟨signal, d, found, ?_⟩, rfl⟩, rfl⟩
    rw [Nat.zero_add]
    exact Declaration.mem_overloads.mpr ⟨omitted, bound, rfl⟩

end MetaObject
end Lookup

section Activations
variable {T V : Type} [DecidableEq T] {object us : MetaObject T V} {signal own : Nat} {d e : Declaration T V}
  {args : List V}

/-- A replica is wired to the object of the source if it was acquired alone. -/
def Instance.Wired (object : MetaObject T V) (replica : Instance T V) : Prop :=
  ∃ m_numSignals, replica.connections = configurePrivate replica.metaObject m_numSignals ++
    if replica.alone then connectReplica object replica.metaObject else []

omit [DecidableEq T] in
theorem configurePrivate_silent (us : MetaObject T V) (m_numSignals : Nat) (signal : Nat)
    (emission : Connection T → Option (Nat × List V)) : (configurePrivate us m_numSignals).filterMap (fun c =>
      if c.sender = .object ∧ c.signal = signal then emission c else none) = [] := by
  refine List.filterMap_eq_nil_iff.mpr fun c member => ?_
  obtain ⟨i, _, rfl⟩ := List.mem_mapIdx.mp member
  exact if_neg fun from_object => nomatch from_object.1

/-- What a method of the replica emits for a signal of the source. -/
def emission (object us : MetaObject T V) (signal : Nat) (args : List V) (mm : Method T) : Option (Nat × List V) :=
  if (object.indexOfSignal mm.signature).any (·.declaration = signal) then
    (us.signals[mm.declaration]?).map fun e => (mm.declaration, e.passed mm.omitted args)
  else none

theorem emission_declaration {mm : Method T} {emitted : Nat × List V}
    (emits : emission object us signal args mm = some emitted) : emitted.1 = mm.declaration := by
  rw [emission] at emits
  split at emits
  · obtain ⟨_, _, rfl⟩ := Option.map_eq_some_iff.mp emits
    rfl
  · contradiction

/-- Every method is called at most once. -/
theorem connectReplica_emissions : ((connectReplica object us).filterMap fun c =>
      if c.sender = .object ∧ c.signal = signal then
        (us.signals[c.method.declaration]?).map fun e => (c.method.declaration, e.passed c.method.omitted args)
      else none) = us.methods.filterMap (emission object us signal args) := by
  rw [connectReplica, List.filterMap_filterMap]
  refine List.filterMap_congr fun mm member => ?_
  rw [MetaObject.indexOfSignal_eq_some.mpr ⟨member, rfl⟩, emission]
  cases object.indexOfSignal mm.signature with
  | none => rfl
  | some sender => simp only [Option.bind_some, Option.map_some, Option.any_some, true_and, decide_eq_true_eq]

/-- Of the replica's own methods for the signal, those are called that the source has too. -/
theorem emissions_own (found : object.signals[signal]? = some d) (declares : Declares us d own e) :
    (us.methods.filterMap (emission object us signal args)).filter (·.1 = own) =
      (List.range (e.defaults.length + 1)).filterMap fun omitted =>
        if omitted ≤ d.defaults.length then some (own, e.passed omitted args) else none := by
  obtain ⟨here, name, parameters⟩ := declares
  have methods := filter_methodsFrom 0 here
  rw [Nat.zero_add] at methods
  have own_methods : (us.methods.filterMap (emission object us signal args)).filter (·.1 = own) =
      (us.methods.filter (·.declaration = own)).filterMap (emission object us signal args) := by
    rw [List.filter_filterMap, List.filterMap_filter]
    refine List.filterMap_congr fun mm _ => ?_
    cases emits : emission object us signal args mm with
    | none => split <;> rfl
    | some emitted => simp only [Option.filter_some, emission_declaration emits]
  rw [own_methods, MetaObject.methods, methods, Declaration.overloads, List.filterMap_map]
  refine List.filterMap_congr fun omitted member => ?_
  have bound := Nat.lt_succ_iff.mp (List.mem_range.mp member)
  have offered := MetaObject.indexOfSignal_omitted found
    (Nat.le_trans bound (parameters ▸ e.fits) : omitted ≤ d.parameters.length)
  have same : (object.indexOfSignal (d.name, d.parameters.take (d.parameters.length - omitted))).any
      (·.declaration = signal) = decide (omitted ≤ d.defaults.length) := by
    rw [Bool.eq_iff_iff, decide_eq_true_eq]
    exact offered
  simp only [Function.comp_apply, emission, name, parameters, same, here, Option.map_some, decide_eq_true_eq]

omit [DecidableEq T] in
/-- The first overload passes all arguments. -/
theorem passed_once (whole : args.length = e.parameters.length) (bound : Nat) :
    ((List.range (e.defaults.length + 1)).filterMap fun omitted =>
      if omitted ≤ bound then some (own, e.passed omitted args) else none) = [(own, args)] ↔
        bound = 0 ∨ e.defaults = [] := by
  have first : e.passed 0 args = args := by
    rw [Declaration.passed, Nat.sub_zero, Nat.sub_zero, ← whole, List.take_length, List.drop_length, List.append_nil]
  rw [List.range_succ_eq_map, List.filterMap_cons_some (by rw [if_pos (Nat.zero_le bound), first]),
    List.cons_eq_cons, and_iff_right rfl, List.filterMap_map, List.filterMap_eq_nil_iff]
  constructor
  · intro none
    by_contra both
    obtain ⟨positive, nonempty⟩ := not_or.mp both
    have second := none 0 (List.mem_range.mpr (List.length_pos_iff.mpr nonempty))
    simp only [Function.comp_apply, Nat.succ_le_of_lt (Nat.pos_of_ne_zero positive), if_true] at second
    contradiction
  · rintro (rfl | empty) omitted member
    · rw [Function.comp_apply, if_neg (Nat.not_succ_le_zero omitted)]
    · rw [empty] at member
      contradiction

/-- A replica emits the signal once exactly if it was acquired alone and no clone of the
signal was connected as well. -/
theorem Instance.Wired.emitsOnce_iff {replica : Instance T V} (wired : replica.Wired object)
    (found : object.signals[signal]? = some d) (whole : args.length = d.parameters.length) :
    EmitsOnce d args replica (replica.activate signal args) ↔ ∀ own e, Declares replica.metaObject d own e →
      replica.alone ∧ (d.defaults = [] ∨ e.defaults = []) := by
  obtain ⟨m_numSignals, connections⟩ := wired
  have emits : replica.activations signal args =
      if replica.alone then replica.metaObject.methods.filterMap (emission object replica.metaObject signal args)
      else [] := by
    rw [activations, connections, List.filterMap_append, configurePrivate_silent, List.nil_append]
    split
    · exact connectReplica_emissions
    · rfl
  have each : ∀ own e, Declares replica.metaObject d own e →
      ((replica.activations signal args).filter (·.1 = own) = [(own, args)] ↔
        replica.alone ∧ (d.defaults = [] ∨ e.defaults = [])) := by
    intro own e declares
    rw [emits]
    split
    · rename_i alone
      rw [emissions_own found declares, passed_once (whole.trans (congrArg List.length declares.2.2.symm)),
        List.length_eq_zero_iff, and_iff_right alone]
    · rename_i shared
      exact iff_of_false (List.cons_ne_nil _ _).symm fun heard => shared heard.1
  constructor
  · rintro ⟨more, log, once⟩ own e declares
    obtain rfl := List.append_cancel_left log
    exact (each own e declares).mp (once own e declares)
  · exact fun heard => ⟨_, rfl, fun own e declares => (each own e declares).mpr (heard own e declares)⟩

theorem wired_step {s t : HostNode T V} {event : Event T V} (wired : ∀ replica ∈ s.replicas, replica.Wired object)
    (stepped : step object s event = some t) : ∀ replica ∈ t.replicas, replica.Wired object := by
  cases event with
  | acquire us =>
    cases stepped
    intro replica member
    rw [HostNode.setReplicaImplementation] at member
    split at member
    · obtain rfl := List.mem_singleton.mp member
      exact ⟨_, rfl⟩
    · rcases List.mem_append.mp member with before | new
      · exact wired replica before
      · obtain rfl := List.mem_singleton.mp new
        exact ⟨s.m_numSignals, (List.append_nil _).symm⟩
  | delete index =>
    simp only [step] at stepped
    split at stepped <;> cases stepped
    exact fun replica member => wired replica (List.mem_of_mem_eraseIdx member)
  | emit signal args =>
    simp only [step] at stepped
    split at stepped
    · split at stepped <;> cases stepped
      intro replica member
      obtain ⟨before, within, rfl⟩ := List.mem_map.mp member
      exact wired before within
    · contradiction

theorem seesSignals_iff {s : HostNode T V} {event : Event T V} (wired : ∀ replica ∈ s.replicas, replica.Wired object) :
    SeesSignals object s event ↔ HeardAlone object s event := by
  cases event with
  | acquire | delete => exact Iff.rfl
  | emit signal args =>
    have activated : ∀ d, object.signals[signal]? = some d → args.length = d.parameters.length →
        (List.Forall₂ (EmitsOnce d args) s.replicas (s.replicas.map (·.activate signal args)) ↔
          ∀ replica ∈ s.replicas, ∀ own e, Declares replica.metaObject d own e →
            replica.alone ∧ (d.defaults = [] ∨ e.defaults = [])) := by
      intro d found whole
      rw [List.forall₂_map_right_iff, List.forall₂_same]
      exact forall₂_congr fun replica member => (wired replica member).emitsOnce_iff found whole
    constructor
    · intro sees d found whole
      have stepped : step object s (.emit signal args) =
          some { s with replicas := s.replicas.map (·.activate signal args) } := by
        simp only [step, found, if_pos whole]
      exact (activated d found whole).mp (sees _ stepped d found)
    · intro heard t stepped d found
      simp only [step, found] at stepped
      split at stepped <;> cases stepped
      rename_i whole
      exact (activated d found whole).mpr (heard d found whole)

/-- In a run, every replica there is emits every signal once exactly if it was acquired alone
and shares no clone of a signal with the source. -/
theorem seesSignals_iff_heardAlone (object : MetaObject T V) (es : List (Event T V)) :
    Admitted (step object) (SeesSignals object) ⟨[], 0⟩ es ↔ Admitted (step object) (HeardAlone object) ⟨[], 0⟩ es :=
  admitted_iff (P := fun s => ∀ replica ∈ s.replicas, replica.Wired object) (fun wired stepped => wired_step wired stepped)
    (fun wired => seesSignals_iff wired) fun _ member => nomatch member

/-- The second replica of a name is not connected to the object of the source. -/
theorem second_replica_silent :
    let object : MetaObject Unit Nat := ⟨[⟨"changed".toList, [()], [], Nat.zero_le 1⟩], by decide⟩
    ¬ Admitted (step object) (SeesSignals object) ⟨[], 0⟩ [.acquire object, .acquire object, .emit 0 [5]] := by
  intro object sees
  have last := sees.last (e := .emit 0 [5]) rfl rfl
  have both := last _ rfl _ rfl
  obtain ⟨more, log, once⟩ := (List.forall₂_cons.mp (List.forall₂_cons.mp both).2).1
  have emitted := once 0 _ ⟨rfl, rfl, rfl⟩
  obtain rfl : [] = more := log
  contradiction

end Activations
end RemoteObjects.Host.Signals
