import Mathlib.Logic.Function.Basic
import RemoteObjects.Transition

/-! What an invoke packet makes the host do, with every access to its arguments: they are taken from the wire as they are,
while the member of the source says how many it needs. -/
namespace RemoteObjects.Source.InvokePackets
open Transition

section Model
variable (S T V U : Type)

/-- As it has been decoded. -/
structure InvokePacket where
  rxName : S
  call : Int
  index : Int
  rxArgs : List V
  serialId : Int

/-- `QMetaObject::InvokeMetaMethod`; each other number is taken as a property to write. -/
def invokeMetaMethod : Int := 0

structure QMetaMethod where
  parameterTypes : List T
  returnType : T

structure QMetaObject where
  method : Nat → QMetaMethod T
  property : Nat → T

/-- An index function gives a negative number for an invalid index. -/
structure SourceApiMap where
  sourceMethodIndex : Int → Int
  sourcePropertyIndex : Int → Int
  isAdapterMethod : Int → Bool
  isAdapterProperty : Int → Bool
  methodParameterType : Int → Nat → T

/-- The object is null after the property of a child source has become null, and its adapter too. -/
structure QRemoteObjectSourceBase where
  m_api : SourceApiMap T
  m_object : Option (QMetaObject T)
  m_adapter : Option (QMetaObject T)

/-- The entry of a child source stays when the source is deleted. -/
inductive Entry
  | source (source : QRemoteObjectSourceBase T)
  | deleted

structure SourceIo where
  m_sourceObjects : S → Option (Entry T)
  m_registryMapping : Nat → Option U

/-- What the host cannot go on from: an element of `m_rxArgs` that does not exist, an assertion that fails, an object that
does not exist. -/
inductive Fault
  | rxArgs
  | assertion
  | object

/-- What an element of the array for `qt_metacall` points to. -/
inductive Pointer
  | unset
  | returnValue (asVariant : Bool)
  | argument (asVariant : Bool) (arg : V)
  | status
  | flags

inductive Call
  | invokeMetaMethod
  | writeProperty

structure MetaCall where
  call : Call
  target : QMetaObject T
  resolvedIndex : Nat
  param : List (Pointer V)

inductive Event
  | registerSource (name : S) (source : QRemoteObjectSourceBase T)
  | unregisterSource (name : S)
  | deleteChild (name : S)
  | resetObject (name : S) (source : QRemoteObjectSourceBase T)
  | disconnected (connection : Nat)
  | invokePacket (connection : Nat) (packet : InvokePacket S V)

variable {S T V U}

/-- The pointers that the call reads: for a method also that of its return value, for a property those of `QMetaProperty::write`. -/
def MetaCall.takes (made : MetaCall T V) : Nat :=
  match made.call with
  | .invokeMetaMethod => (made.target.method made.resolvedIndex).parameterTypes.length + 1
  | .writeProperty => 4

variable (isQVariant : T → Bool) (decodeVariant : V → T → V) (registry : S) (hostUrl : V → U)

/-- The loop that decodes `m_rxArgs[i]` for each parameter. -/
def decodeArgs : List T → List V → Except Fault (List V)
  | [], rxArgs => .ok rxArgs
  | _ :: _, [] => .error .rxArgs
  | type :: parameterTypes, arg :: rxArgs => do
    let rest ← decodeArgs parameterTypes rxArgs
    .ok (decodeVariant arg type :: rest)

namespace QRemoteObjectSourceBase
variable (source : QRemoteObjectSourceBase T)

def target (forAdapter : Bool) : Except Fault (QMetaObject T) :=
  match if forAdapter then source.m_adapter else source.m_object with
  | some metaObject => .ok metaObject
  | none => .error .object

/-- `invoke` for a method, with a return value. -/
def invokeMethod (index : Int) (args : List V) : Except Fault (Option (MetaCall T V)) :=
  let forAdapter := source.m_api.isAdapterMethod index
  let resolvedIndex := source.m_api.sourceMethodIndex index
  if resolvedIndex < 0 then .ok none
  else do
    let target ← source.target forAdapter
    let method := target.method resolvedIndex.toNat
    let parameterIsQVariant := fun i =>
      if forAdapter then isQVariant (source.m_api.methodParameterType index i) else (method.parameterTypes[i]?.map isQVariant).getD false
    let arguments := args.mapIdx fun i arg => .argument (parameterIsQVariant i) arg
    .ok (some ⟨.invokeMetaMethod, target, resolvedIndex.toNat,
      .returnValue (!forAdapter && isQVariant method.returnType) :: arguments⟩)

/-- `invoke` for a property: the array has room for the arguments and one more. -/
def invokeProperty (index : Int) (args : List V) : Except Fault (Option (MetaCall T V)) :=
  let forAdapter := source.m_api.isAdapterProperty index
  let resolvedIndex := source.m_api.sourcePropertyIndex index
  if resolvedIndex < 0 then .ok none
  else do
    let target ← source.target forAdapter
    let asVariant := !forAdapter && isQVariant (target.property resolvedIndex.toNat)
    let param := args.map (.argument asVariant) ++ [.unset]
    if param.length = 2 then .ok (some ⟨.writeProperty, target, resolvedIndex.toNat, param ++ [.status, .flags]⟩)
    else .error .assertion

end QRemoteObjectSourceBase

namespace SourceIo
variable (s : SourceIo S T U) [DecidableEq S]

/-- The first packet of a connection for the registry has the location of the connected node. -/
def mapRegistry (connection : Nat) (packet : InvokePacket S V) : Except Fault (SourceIo S T U) :=
  if packet.rxName = registry ∧ (s.m_registryMapping connection).isNone then
    match packet.rxArgs with
    | [] => .error .rxArgs
    | location :: _ => .ok { s with m_registryMapping := Function.update s.m_registryMapping connection (some (hostUrl location)) }
  else .ok s

/-- The source's part. An invalid index is warned of. -/
def invoke (packet : InvokePacket S V) : Except Fault (Option (MetaCall T V)) :=
  match s.m_sourceObjects packet.rxName with
  | none => .ok none
  | some .deleted => .error .object
  | some (.source source) =>
    if packet.call = invokeMetaMethod then
      let resolvedIndex := source.m_api.sourceMethodIndex packet.index
      if resolvedIndex < 0 then .ok none
      else if source.m_api.isAdapterMethod packet.index then source.invokeMethod isQVariant packet.index packet.rxArgs
      else do
        let object ← source.target false
        let rxArgs ← decodeArgs decodeVariant (object.method resolvedIndex.toNat).parameterTypes packet.rxArgs
        source.invokeMethod isQVariant packet.index rxArgs
    else if source.m_api.sourcePropertyIndex packet.index < 0 then .ok none
    else source.invokeProperty isQVariant packet.index packet.rxArgs

/-- `onServerRead` for an invoke packet. -/
def onServerRead (connection : Nat) (packet : InvokePacket S V) : Except Fault (SourceIo S T U × Option (MetaCall T V)) := do
  let s ← s.mapRegistry registry hostUrl connection packet
  let made ← s.invoke isQVariant decodeVariant packet
  .ok (s, made)

end SourceIo

/-- Nothing follows where the host breaks. What a slot does is the events that follow. -/
def step [DecidableEq S] (s : SourceIo S T U) : Event S T V → Option (SourceIo S T U)
  | .registerSource name source | .resetObject name source =>
    some { s with m_sourceObjects := Function.update s.m_sourceObjects name (some (.source source)) }
  | .unregisterSource name => some { s with m_sourceObjects := Function.update s.m_sourceObjects name none }
  | .deleteChild name => some { s with m_sourceObjects := Function.update s.m_sourceObjects name (some .deleted) }
  | .disconnected connection => some { s with m_registryMapping := Function.update s.m_registryMapping connection none }
  | .invokePacket connection packet => (s.onServerRead isQVariant decodeVariant registry hostUrl connection packet).toOption.map Prod.fst

/-- The packet leads to no fault, and the call that it makes gets the pointers that it takes. -/
def Unbroken [DecidableEq S] (s : SourceIo S T U) : Event S T V → Prop
  | .invokePacket connection packet => ∃ t made, s.onServerRead isQVariant decodeVariant registry hostUrl connection packet = .ok (t, made) ∧
    ∀ call, made = some call → call.takes ≤ call.param.length
  | _ => True

/-- A method has the arguments that it takes, a written property one. -/
def QRemoteObjectSourceBase.Takes (source : QRemoteObjectSourceBase T) (packet : InvokePacket S V) : Prop :=
  if packet.call = invokeMetaMethod then
    0 ≤ source.m_api.sourceMethodIndex packet.index →
      ∃ target, (if source.m_api.isAdapterMethod packet.index then source.m_adapter else source.m_object) = some target ∧
        (target.method (source.m_api.sourceMethodIndex packet.index).toNat).parameterTypes.length ≤ packet.rxArgs.length
  else
    0 ≤ source.m_api.sourcePropertyIndex packet.index →
      (if source.m_api.isAdapterProperty packet.index then source.m_adapter else source.m_object).isSome ∧ packet.rxArgs.length = 1

/-- A first packet for the registry has an argument; an entry of the table has a source, whose member takes the arguments. -/
def fittingArguments (s : SourceIo S T U) : Event S T V → Prop
  | .invokePacket connection packet =>
    (packet.rxName = registry → s.m_registryMapping connection = none → packet.rxArgs ≠ []) ∧
      ∀ entry, s.m_sourceObjects packet.rxName = some entry → ∃ source, entry = .source source ∧ source.Takes packet
  | _ => True

end Model

section Proofs
variable {S T V U : Type} {isQVariant : T → Bool} {decodeVariant : V → T → V} {registry : S} {hostUrl : V → U}
variable {s t : SourceIo S T U} {source : QRemoteObjectSourceBase T} {packet : InvokePacket S V} {index : Int} {args decoded : List V}
variable {parameterTypes : List T} {connection : Nat}

/-- The outcome of one call. -/
def Harmless (result : Except Fault (Option (MetaCall T V))) : Prop :=
  ∃ made, result = .ok made ∧ ∀ call, made = some call → call.takes ≤ call.param.length

theorem harmless_none : Harmless (.ok none : Except Fault (Option (MetaCall T V))) :=
  ⟨none, rfl, nofun⟩

theorem harmless_some {call : MetaCall T V} : Harmless (.ok (some call)) ↔ call.takes ≤ call.param.length :=
  ⟨fun ⟨_, same, takes⟩ => takes call (Except.ok.inj same).symm, fun takes => ⟨_, rfl, fun _ same => Option.some.inj same ▸ takes⟩⟩

theorem not_harmless_error {fault : Fault} : ¬ Harmless (.error fault : Except Fault (Option (MetaCall T V))) :=
  nofun

/-- The loop reads as many arguments as there are parameters, and replaces them. -/
theorem decodeArgs_spec (decodeVariant : V → T → V) (parameterTypes : List T) (rxArgs : List V) :
    (parameterTypes.length ≤ rxArgs.length ∧
      ∃ decoded, decodeArgs decodeVariant parameterTypes rxArgs = .ok decoded ∧ decoded.length = rxArgs.length) ∨
    (rxArgs.length < parameterTypes.length ∧ decodeArgs decodeVariant parameterTypes rxArgs = .error .rxArgs) := by
  induction parameterTypes generalizing rxArgs with
  | nil => exact .inl ⟨Nat.zero_le _, rxArgs, rfl, rfl⟩
  | cons type parameterTypes ih =>
    cases rxArgs with
    | nil => exact .inr ⟨Nat.zero_lt_succ _, rfl⟩
    | cons arg rxArgs =>
      rcases ih rxArgs with ⟨enough, decoded, rest, length⟩ | ⟨missing, rest⟩
      · exact .inl ⟨Nat.succ_le_succ enough, decodeVariant arg type :: decoded, by simp [decodeArgs, rest, bind, Except.bind], by simp [length]⟩
      · exact .inr ⟨Nat.succ_lt_succ missing, by simp [decodeArgs, rest, bind, Except.bind]⟩

theorem harmless_invokeMethod (valid : 0 ≤ source.m_api.sourceMethodIndex index) :
    Harmless (source.invokeMethod isQVariant index args) ↔
      ∃ target, (if source.m_api.isAdapterMethod index then source.m_adapter else source.m_object) = some target ∧
        (target.method (source.m_api.sourceMethodIndex index).toNat).parameterTypes.length ≤ args.length := by
  simp only [QRemoteObjectSourceBase.invokeMethod, if_neg (Int.not_lt.mpr valid), QRemoteObjectSourceBase.target]
  cases (if source.m_api.isAdapterMethod index then source.m_adapter else source.m_object) with
  | none => exact iff_of_false not_harmless_error (by simp)
  | some target =>
    refine harmless_some.trans ?_
    simp [MetaCall.takes]

theorem harmless_invokeProperty (valid : 0 ≤ source.m_api.sourcePropertyIndex index) :
    Harmless (source.invokeProperty isQVariant index args) ↔
      (if source.m_api.isAdapterProperty index then source.m_adapter else source.m_object).isSome ∧ args.length = 1 := by
  simp only [QRemoteObjectSourceBase.invokeProperty, if_neg (Int.not_lt.mpr valid), QRemoteObjectSourceBase.target]
  cases (if source.m_api.isAdapterProperty index then source.m_adapter else source.m_object) with
  | none => exact iff_of_false not_harmless_error (by simp)
  | some target =>
    by_cases one : args.length = 1
    · simp [one, bind, Except.bind, harmless_some, MetaCall.takes]
    · simp [one, bind, Except.bind, not_harmless_error]

/-- The arguments that `onServerRead` decodes are as many as there were. -/
theorem harmless_decoded {target : QMetaObject T} (object : source.m_object = some target)
    (adapter : source.m_api.isAdapterMethod index = false) (valid : 0 ≤ source.m_api.sourceMethodIndex index) :
    Harmless (decodeArgs decodeVariant (target.method (source.m_api.sourceMethodIndex index).toNat).parameterTypes args >>=
      source.invokeMethod isQVariant index) ↔
      (target.method (source.m_api.sourceMethodIndex index).toNat).parameterTypes.length ≤ args.length := by
  rcases decodeArgs_spec decodeVariant (target.method (source.m_api.sourceMethodIndex index).toNat).parameterTypes args with
    ⟨enough, decoded, done, length⟩ | ⟨missing, failed⟩
  · refine iff_of_true ?_ enough
    rw [done]
    exact (harmless_invokeMethod valid).mpr ⟨target, by simpa [adapter] using object, length ▸ enough⟩
  · rw [failed]
    exact iff_of_false not_harmless_error (Nat.not_le.mpr missing)

variable (isQVariant decodeVariant) in
theorem harmless_invoke : Harmless (s.invoke isQVariant decodeVariant packet) ↔
    ∀ entry, s.m_sourceObjects packet.rxName = some entry → ∃ source, entry = .source source ∧ source.Takes packet := by
  unfold SourceIo.invoke
  cases s.m_sourceObjects packet.rxName with
  | none => exact iff_of_true harmless_none nofun
  | some entry =>
    cases entry with
    | deleted => exact iff_of_false not_harmless_error (by simp)
    | source source =>
      simp only [Option.some.injEq, forall_eq', Entry.source.injEq, exists_eq_left', QRemoteObjectSourceBase.Takes]
      by_cases call : packet.call = invokeMetaMethod
      · simp only [if_pos call]
        by_cases valid : source.m_api.sourceMethodIndex packet.index < 0
        · exact iff_of_true (by simpa only [if_pos valid] using harmless_none) fun bound => absurd bound (Int.not_le.mpr valid)
        · have bound := Int.not_lt.mp valid
          simp only [if_neg valid, bound, forall_const]
          cases adapter : source.m_api.isAdapterMethod packet.index with
          | true =>
            have invoked : Harmless (source.invokeMethod isQVariant packet.index packet.rxArgs) ↔ _ := harmless_invokeMethod bound
            simpa [adapter] using invoked
          | false =>
            cases object : source.m_object with
            | none => simp [QRemoteObjectSourceBase.target, object, bind, Except.bind, not_harmless_error]
            | some target => simpa [QRemoteObjectSourceBase.target, object, bind, Except.bind] using harmless_decoded object adapter bound
      · simp only [if_neg call]
        by_cases valid : source.m_api.sourcePropertyIndex packet.index < 0
        · exact iff_of_true (by simpa only [if_pos valid] using harmless_none) fun bound => absurd bound (Int.not_le.mpr valid)
        · have bound := Int.not_lt.mp valid
          simpa only [if_neg valid, bound, forall_const] using harmless_invokeProperty bound

variable [DecidableEq S]

/-- The location is read where the connection is not known yet. -/
theorem mapRegistry_spec (s : SourceIo S T U) (registry : S) (hostUrl : V → U) (connection : Nat) (packet : InvokePacket S V) :
    ((packet.rxName = registry → s.m_registryMapping connection = none → packet.rxArgs ≠ []) ∧
      ∃ t, s.mapRegistry registry hostUrl connection packet = .ok t ∧ t.m_sourceObjects = s.m_sourceObjects) ∨
    (¬ (packet.rxName = registry → s.m_registryMapping connection = none → packet.rxArgs ≠ []) ∧
      s.mapRegistry registry hostUrl connection packet = .error .rxArgs) := by
  unfold SourceIo.mapRegistry
  by_cases first : packet.rxName = registry ∧ (s.m_registryMapping connection).isNone
  · rw [if_pos first]
    cases args : packet.rxArgs with
    | nil => exact .inr ⟨fun some => some first.1 (Option.isNone_iff_eq_none.mp first.2) rfl, rfl⟩
    | cons location rest => exact .inl ⟨fun _ _ => List.cons_ne_nil _ _, _, rfl, rfl⟩
  · rw [if_neg first]
    exact .inl ⟨fun name unmapped => absurd ⟨name, Option.isNone_iff_eq_none.mpr unmapped⟩ first, s, rfl, rfl⟩

theorem unbroken_iff_fitting {e : Event S T V} :
    Unbroken isQVariant decodeVariant registry hostUrl s e ↔ fittingArguments registry s e := by
  cases e with
  | invokePacket connection packet =>
    simp only [Unbroken, fittingArguments, SourceIo.onServerRead]
    rcases mapRegistry_spec s registry hostUrl connection packet with ⟨located, t, mapped, same⟩ | ⟨missing, failed⟩
    · rw [mapped, ← same, and_iff_right located, ← harmless_invoke isQVariant decodeVariant]
      constructor
      · rintro ⟨_, made, ran, takes⟩
        cases outcome : t.invoke isQVariant decodeVariant packet with
        | error fault => simp [bind, Except.bind, outcome] at ran
        | ok invoked =>
          simp only [bind, Except.bind, outcome] at ran
          obtain ⟨_, rfl⟩ := Prod.mk.inj (Except.ok.inj ran)
          exact ⟨invoked, rfl, takes⟩
      · rintro ⟨made, ran, takes⟩
        exact ⟨t, made, by simp [bind, Except.bind, ran], takes⟩
    · rw [failed]
      exact iff_of_false nofun fun fitting => missing fitting.1
  | _ => exact Iff.rfl

/-- In every run no invoke packet breaks the host, exactly if the arguments of each fit the member that it names. -/
theorem unbroken_iff (isQVariant : T → Bool) (decodeVariant : V → T → V) (registry : S) (hostUrl : V → U) (es : List (Event S T V)) :
    Admitted (step isQVariant decodeVariant registry hostUrl) (Unbroken isQVariant decodeVariant registry hostUrl)
        ⟨fun _ => none, fun _ => none⟩ es ↔
      Admitted (step isQVariant decodeVariant registry hostUrl) (fittingArguments registry) ⟨fun _ => none, fun _ => none⟩ es :=
  admitted_iff (P := fun _ => True) (fun _ _ => trivial) (fun _ => unbroken_iff_fitting) trivial

/-- One slot with a parameter. -/
def exampleSource : QRemoteObjectSourceBase Unit where
  m_api := ⟨fun index => if index = 0 then 5 else -1, fun _ => -1, fun _ => false, fun _ => false, fun _ _ => ()⟩
  m_object := some ⟨fun _ => ⟨[()], ()⟩, fun _ => ()⟩
  m_adapter := none

/-- The slot is called without an argument. -/
theorem call_without_argument :
    ¬ Admitted (step (fun _ => false) (fun arg _ => arg) "Registry" id) (Unbroken (fun _ => false) (fun arg _ => arg) "Registry" id)
      ⟨fun _ => none, fun _ => none⟩
      [.registerSource "lamp" exampleSource, .invokePacket 1 ⟨"lamp", invokeMetaMethod, 0, ([] : List Nat), -1⟩] := by
  intro run
  obtain ⟨t, made, ran, _⟩ := (run.2 _ rfl).1
  have failed : Except.error Fault.rxArgs = Except.ok (t, made) := ran
  cases failed

end Proofs
end RemoteObjects.Source.InvokePackets
