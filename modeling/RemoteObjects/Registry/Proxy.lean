import RemoteObjects.Transition
import RemoteObjects.Registry.Source

/-! A host that proxies the sources of another network and, in reverse, those of its own: one table of proxied replicas
behind the signals of two registries. -/
namespace RemoteObjects.Registry
open Host (Name)
open Transition

section Model
variable (Url : Type)

inductive ProxyDirection
  | forward
  | reverse
deriving DecidableEq

abbrev ReplicaId := Nat

structure ProxyReplicaInfo where
  replica : ReplicaId
  direction : ProxyDirection
deriving DecidableEq

/-- A replica that was acquired for proxying and is not deleted yet. -/
structure ProxiedReplica where
  id : ReplicaId
  name : Name
  direction : ProxyDirection
deriving DecidableEq

/-- An object that a node remotes: one of its own, or a replica that is proxied to it. -/
inductive Remoted
  | own
  | proxied (replica : ReplicaId)
deriving DecidableEq

/-- What does not change: the filters, and by direction the URL of the node whose entries are echoes. -/
structure ProxyConfig where
  proxyFilter : ProxyDirection → Name → Name → Bool
  echoUrl : ProxyDirection → Option Url

/-- A registry, whether its replica is valid, and whether the slots of the `ProxyInfo` are connected to it. -/
structure RegistrySide where
  locations : SourceLocations Url
  valid : Bool
  connected : Bool

/-- `ProxyInfo` between its two registries. The objects `remoted` in a direction are those of the node to which it
proxies: the `parentNode` forward, the `proxyNode` in reverse. -/
structure ProxyInfo where
  registries : ProxyDirection → RegistrySide Url
  proxiedReplicas : Name → Option ProxyReplicaInfo
  replicas : List ProxiedReplica
  initialized : ReplicaId → Bool
  remoted : ProxyDirection → Name → Option Remoted
  acquired : Nat

inductive ProxyEvent
  /-- A node invokes a slot of the registry. -/
  | slot (direction : ProxyDirection) (slot : Slot Url)
  /-- A host has gone: its connection to the registry has ended. -/
  | removeServer (direction : ProxyDirection) (url : Url)
  /-- The replica of the registry becomes valid; `keys` is the order in which the hash is read. -/
  | initialized (direction : ProxyDirection) (keys : List Name)
  /-- The replica of the forward registry becomes `Suspect`. -/
  | suspect
  | setReverseProxy
  | replicaInitialized (replica : ReplicaId)
  /-- The application remotes an object of its own on the node, or no longer does. -/
  | enableRemoting (direction : ProxyDirection) (name : Name)
  | disableRemoting (direction : ProxyDirection) (name : Name)

variable {Url}

def RegistrySide.heard (side : RegistrySide Url) : Bool := side.valid && side.connected

def ProxyConfig.wanted [DecidableEq Url] (config : ProxyConfig Url) (direction : ProxyDirection)
    (entry : SourceLocation Url) : Bool :=
  config.echoUrl direction ≠ some entry.info.hostUrl && config.proxyFilter direction entry.name entry.info.typeName

namespace ProxyInfo
variable (s : ProxyInfo Url)

/-- The reverse direction is not set up yet, and no registry has answered. -/
def initial : ProxyInfo Url where
  registries direction := ⟨fun _ => none, false, direction = .forward⟩
  proxiedReplicas _ := none
  replicas := []
  initialized _ := false
  remoted _ _ := none
  acquired := 0

def setRegistry (direction : ProxyDirection) (side : RegistrySide Url) : ProxyInfo Url :=
  { s with registries := Function.update s.registries direction side }

/-- The new info replaces the one that the table has under the name. The Boolean is the assertion that it has none. -/
def proxyObject [DecidableEq Url] (config : ProxyConfig Url) (direction : ProxyDirection) (entry : SourceLocation Url) :
    ProxyInfo Url × Bool :=
  if config.wanted direction entry then
    ({ s with
        proxiedReplicas := Function.update s.proxiedReplicas entry.name (some ⟨s.acquired, direction⟩)
        replicas := ⟨s.acquired, entry.name, direction⟩ :: s.replicas
        acquired := s.acquired + 1 },
      (s.proxiedReplicas entry.name).isNone)
  else (s, true)

def proxyObjects [DecidableEq Url] (config : ProxyConfig Url) (direction : ProxyDirection) :
    List (SourceLocation Url) → ProxyInfo Url → ProxyInfo Url × Bool
  | [], s => (s, true)
  | entry :: entries, s =>
    let (t, held) := s.proxyObject config direction entry
    let (u, later) := proxyObjects config direction entries t
    (u, held && later)

/-- The infos in the table under the chosen names. -/
def taken (chosen : Name → Bool) (name : Name) (info : ProxyReplicaInfo) : Bool :=
  chosen name && s.proxiedReplicas name = some info

/-- `disableAndDeleteObject` for what the table has under the chosen names, which it then no longer has. -/
def disableAndDeleteObjects (chosen : Name → Bool) : ProxyInfo Url :=
  { s with
    proxiedReplicas name := if chosen name then none else s.proxiedReplicas name
    replicas := s.replicas.filter fun replica => !s.taken chosen replica.name ⟨replica.id, replica.direction⟩
    remoted direction name := (s.remoted direction name).filter fun
      | .own => true
      | .proxied replica => !s.taken chosen name ⟨replica, direction⟩ }

def unproxyObject (entry : SourceLocation Url) : ProxyInfo Url := s.disableAndDeleteObjects fun name => name = entry.name

variable [DecidableEq Url] (config : ProxyConfig Url)

def onSignal (direction : ProxyDirection) : Signal Url → ProxyInfo Url × Bool
  | .remoteObjectAdded entry => s.proxyObject config direction entry
  | .remoteObjectRemoved entry => (s.unproxyObject entry, true)

/-- A slot emits one signal at most. -/
def onSlot (direction : ProxyDirection) (slot : Slot Url) : ProxyInfo Url × Bool :=
  let side := s.registries direction
  let (locations, signals) := side.locations.invoke slot
  let t := s.setRegistry direction { side with locations }
  match signals with
  | [] => (t, true)
  | signal :: _ => if side.heard then t.onSignal config direction signal else (t, true)

def onInitialized (direction : ProxyDirection) (keys : List Name) : ProxyInfo Url × Bool :=
  let side := s.registries direction
  let t := s.setRegistry direction { side with valid := true }
  if side.connected then
    proxyObjects config direction (keys.filterMap fun name => (side.locations name).map fun info => ⟨name, info⟩) t
  else (t, true)

def enableRemoting (direction : ProxyDirection) (name : Name) (object : Remoted) : ProxyInfo Url :=
  if (s.remoted direction name).isNone then
    { s with remoted := Function.update s.remoted direction (Function.update (s.remoted direction) name (some object)) }
  else s

def onReplicaInitialized (replica : ProxiedReplica) : ProxyInfo Url :=
  enableRemoting { s with initialized := Function.update s.initialized replica.id true }
    replica.direction replica.name (.proxied replica.id)

/-- A step, and whether every `proxyObject` in it passes its assertion. -/
def checkedStep : ProxyInfo Url → ProxyEvent Url → Option (ProxyInfo Url × Bool)
  | s, .slot direction slot => some (s.onSlot config direction slot)
  | s, .removeServer direction url =>
    let side := s.registries direction
    some (s.setRegistry direction { side with locations := side.locations.removeServer url }, true)
  | s, .initialized direction keys =>
    if (s.registries direction).valid = false ∧ keys.Nodup then some (s.onInitialized config direction keys) else none
  | s, .suspect =>
    let side := s.registries .forward
    if side.valid then
      some ((s.setRegistry .forward { side with valid := false }).disableAndDeleteObjects fun _ => true, true)
    else none
  | s, .setReverseProxy =>
    let side := s.registries .reverse
    if side.connected then none else some (s.setRegistry .reverse { side with connected := true }, true)
  | s, .replicaInitialized id =>
    (s.replicas.find? fun replica => replica.id = id).map fun replica => (s.onReplicaInitialized replica, true)
  | s, .enableRemoting direction name => some (s.enableRemoting direction name .own, true)
  | s, .disableRemoting direction name =>
    if s.remoted direction name = some .own then
      some ({ s with
        remoted := Function.update s.remoted direction (Function.update (s.remoted direction) name none) }, true)
    else none

def step (s : ProxyInfo Url) (e : ProxyEvent Url) : Option (ProxyInfo Url) := (checkedStep config s e).map Prod.fst

end ProxyInfo
end Model

section Statement
variable {Url : Type}

/-- A name has at most one proxied replica, and the node on the other side remotes that one as soon as it is initialized. -/
structure ProxyInfo.Single (s : ProxyInfo Url) : Prop where
  single : ∀ replica ∈ s.replicas, ∀ other ∈ s.replicas, replica.name = other.name → replica = other
  registered : ∀ replica ∈ s.replicas, s.initialized replica.id →
    s.remoted replica.direction replica.name = some (.proxied replica.id)
  existing : ∀ {direction name id}, s.remoted direction name = some (.proxied id) → ⟨id, name, direction⟩ ∈ s.replicas

variable [DecidableEq Url] (config : ProxyConfig Url)

/-- The assertion holds in every `proxyObject` of the step. -/
def ProxyInfo.Asserted (s : ProxyInfo Url) (e : ProxyEvent Url) : Prop :=
  ∀ t held, ProxyInfo.checkedStep config s e = some (t, held) → held = true

def OneProxyPerName : Prop :=
  ∀ {events s}, exec (ProxyInfo.step config) .initial events = some s →
    s.Single ∧ Admitted (ProxyInfo.step config) (ProxyInfo.Asserted config) .initial events

/-- The entry is not to be proxied, or no replica of its name is proxied from the other side. -/
def ProxyInfo.Unclaimed (s : ProxyInfo Url) (direction : ProxyDirection) (entry : SourceLocation Url) : Prop :=
  config.wanted direction entry → ∀ replica ∈ s.replicas, replica.name = entry.name → replica.direction = direction

/-- The sources of both sides that are to be proxied have different names, no host goes while one of its sources is
proxied, and a node has no object of its own under the name of a source that is proxied to it. -/
def ProxyInfo.Apart (s : ProxyInfo Url) : ProxyEvent Url → Prop
  | .slot direction slot => s.Unclaimed config direction slot.entry
  | .removeServer direction url => ∀ replica ∈ s.replicas, replica.direction = direction →
      ∀ info ∈ (s.registries direction).locations replica.name, info.hostUrl ≠ url
  | .initialized direction keys => ∀ name ∈ keys, ∀ info ∈ (s.registries direction).locations name,
      s.Unclaimed config direction ⟨name, info⟩
  | .replicaInitialized id => ∀ replica ∈ s.replicas, replica.id = id →
      s.remoted replica.direction replica.name ≠ some .own
  | _ => True

instance (s : ProxyInfo Url) (direction : ProxyDirection) (entry : SourceLocation Url) :
    Decidable (s.Unclaimed config direction entry) := inferInstanceAs (Decidable (_ → _))

instance (s : ProxyInfo Url) : ∀ e, Decidable (s.Apart config e)
  | .slot direction slot => inferInstanceAs (Decidable (s.Unclaimed config direction slot.entry))
  | .removeServer .. => inferInstanceAs (Decidable (∀ replica ∈ s.replicas, _ → ∀ info ∈ (_ : Option _), _))
  | .initialized _ keys => inferInstanceAs (Decidable (∀ name ∈ keys, ∀ info ∈ (_ : Option _), s.Unclaimed config _ _))
  | .replicaInitialized _ => inferInstanceAs (Decidable (∀ replica ∈ s.replicas, _ → _))
  | .suspect => .isTrue trivial
  | .setReverseProxy => .isTrue trivial
  | .enableRemoting .. => .isTrue trivial
  | .disableRemoting .. => .isTrue trivial

end Statement

section Invariant
variable {Url : Type} {s t : ProxyInfo Url} {config : ProxyConfig Url} {direction : ProxyDirection} {entry : SourceLocation Url}
open ProxyInfo

/-- The table has the replicas that exist. -/
structure ProxyInfo.Consistent (s : ProxyInfo Url) : Prop where
  tabled : ∀ replica ∈ s.replicas, s.proxiedReplicas replica.name = some ⟨replica.id, replica.direction⟩
  listed : ∀ {name info}, s.proxiedReplicas name = some info → ⟨info.replica, name, info.direction⟩ ∈ s.replicas
  numbered : ∀ replica ∈ s.replicas, replica.id < s.acquired
  distinct : ∀ replica ∈ s.replicas, ∀ other ∈ s.replicas, replica.id = other.id → replica = other
  earlier : ∀ {id}, s.initialized id → id < s.acquired
  registered : ∀ replica ∈ s.replicas, s.initialized replica.id →
    s.remoted replica.direction replica.name = some (.proxied replica.id)
  existing : ∀ {direction name id}, s.remoted direction name = some (.proxied id) → ⟨id, name, direction⟩ ∈ s.replicas

/-- A registry that is heard has what is proxied from it. -/
def ProxyInfo.Reported (s : ProxyInfo Url) : Prop :=
  ∀ name info, s.proxiedReplicas name = some info →
    (s.registries info.direction).heard ∧ (s.registries info.direction).locations name ≠ none

theorem ProxyInfo.Consistent.single (good : s.Consistent) : s.Single where
  single replica there other here same := by
    have both := (good.tabled replica there).symm.trans (same ▸ good.tabled other here)
    obtain ⟨id, direction⟩ := ProxyReplicaInfo.mk.inj (Option.some.inj both)
    cases replica
    cases other
    simp_all
  registered := good.registered
  existing := good.existing

theorem consistent_initial : (initial : ProxyInfo Url).Consistent := by
  constructor <;> simp [initial]

theorem reported_initial : (initial : ProxyInfo Url).Reported := by
  simp [Reported, initial]

/-- What the registries have does not concern the table. -/
theorem ProxyInfo.Consistent.setRegistry (good : s.Consistent) (side : RegistrySide Url) :
    (s.setRegistry direction side).Consistent where
  tabled := good.tabled
  listed := good.listed
  numbered := good.numbered
  distinct := good.distinct
  earlier := good.earlier
  registered := good.registered
  existing := good.existing

@[simp] theorem setRegistry_self {side : RegistrySide Url} : (s.setRegistry direction side).registries direction = side :=
  Function.update_self ..

theorem setRegistry_reports {side : RegistrySide Url} {name : Name} {at' : ProxyDirection}
    (before : (s.registries at').heard ∧ (s.registries at').locations name ≠ none)
    (kept : at' = direction → side.heard ∧ side.locations name ≠ none) :
    ((s.setRegistry direction side).registries at').heard ∧ ((s.setRegistry direction side).registries at').locations name ≠ none := by
  rw [ProxyInfo.setRegistry]
  dsimp only
  by_cases here : at' = direction
  · subst here
    rw [Function.update_self]
    exact kept rfl
  · rw [Function.update_of_ne here]
    exact before

theorem ProxyInfo.Reported.setRegistry {side : RegistrySide Url} (good : s.Reported)
    (kept : ∀ {name info}, s.proxiedReplicas name = some info → info.direction = direction →
      side.heard ∧ side.locations name ≠ none) : (s.setRegistry direction side).Reported :=
  fun name info there => setRegistry_reports (good name info there) (kept there)

/-- A registry that keeps its entries. -/
theorem ProxyInfo.Reported.grown (reported : s.Reported) {locations : SourceLocations Url}
    (kept : ∀ name, (s.registries direction).locations name ≠ none → locations name ≠ none) :
    (s.setRegistry direction { s.registries direction with locations }).Reported := by
  apply reported.setRegistry
  rintro name info there rfl
  obtain ⟨heard, located⟩ := reported name info there
  exact ⟨heard, kept name located⟩

theorem disableAndDeleteObjects_tabled (s : ProxyInfo Url) {chosen : Name → Bool} {name : Name} {info : ProxyReplicaInfo} :
    (s.disableAndDeleteObjects chosen).proxiedReplicas name = some info ↔
      chosen name = false ∧ s.proxiedReplicas name = some info := by
  cases picked : chosen name <;> simp [disableAndDeleteObjects, picked]

theorem disableAndDeleteObjects_listed (s : ProxyInfo Url) {chosen : Name → Bool} {replica : ProxiedReplica} :
    replica ∈ (s.disableAndDeleteObjects chosen).replicas ↔
      replica ∈ s.replicas ∧ s.taken chosen replica.name ⟨replica.id, replica.direction⟩ = false := by
  simp [disableAndDeleteObjects, List.mem_filter]

theorem disableAndDeleteObjects_remoted (s : ProxyInfo Url) {chosen : Name → Bool} {name : Name} {id : ReplicaId} :
    (s.disableAndDeleteObjects chosen).remoted direction name = some (.proxied id) ↔
      s.remoted direction name = some (.proxied id) ∧ s.taken chosen name ⟨id, direction⟩ = false := by
  simp [disableAndDeleteObjects, Option.filter_eq_some_iff]

theorem ProxyInfo.Consistent.disableAndDeleteObjects (good : s.Consistent) (chosen : Name → Bool) :
    (s.disableAndDeleteObjects chosen).Consistent where
  tabled replica there := by
    obtain ⟨before, untaken⟩ := (disableAndDeleteObjects_listed s).mp there
    have tabled := good.tabled replica before
    rw [disableAndDeleteObjects_tabled]
    refine ⟨?_, tabled⟩
    simpa [taken, tabled] using untaken
  listed there := by
    obtain ⟨unchosen, before⟩ := (disableAndDeleteObjects_tabled s).mp there
    rw [disableAndDeleteObjects_listed]
    exact ⟨good.listed before, by simp [taken, unchosen]⟩
  numbered replica there := good.numbered replica ((disableAndDeleteObjects_listed s).mp there).1
  distinct replica there other here :=
    good.distinct replica ((disableAndDeleteObjects_listed s).mp there).1 other ((disableAndDeleteObjects_listed s).mp here).1
  earlier := good.earlier
  registered replica there started := by
    obtain ⟨before, untaken⟩ := (disableAndDeleteObjects_listed s).mp there
    rw [disableAndDeleteObjects_remoted]
    exact ⟨good.registered replica before started, untaken⟩
  existing there := by
    obtain ⟨before, untaken⟩ := (disableAndDeleteObjects_remoted s).mp there
    rw [disableAndDeleteObjects_listed]
    exact ⟨good.existing before, untaken⟩

/-- What a registry no longer has is no longer proxied either. -/
theorem ProxyInfo.Reported.disableAndDeleteObjects {side : RegistrySide Url} {chosen : Name → Bool} (good : s.Reported)
    (kept : ∀ {name info}, chosen name = false → s.proxiedReplicas name = some info → info.direction = direction →
      side.heard ∧ side.locations name ≠ none) : ((s.setRegistry direction side).disableAndDeleteObjects chosen).Reported := by
  intro name info there
  obtain ⟨unchosen, before⟩ := (disableAndDeleteObjects_tabled _).mp there
  exact setRegistry_reports (good name info before) (kept unchosen before)

theorem update_remoted (remoted : ProxyDirection → Name → Option Remoted) (direction other : ProxyDirection) (name key : Name)
    (object : Option Remoted) :
    Function.update remoted direction (Function.update (remoted direction) name object) other key =
      if other = direction ∧ key = name then object else remoted other key := by
  by_cases side : other = direction
  · subst side
    by_cases same : key = name <;> simp [same]
  · simp [side]

/-- A name that is free, or that has an object of the node's own, gets another such object or becomes free. -/
theorem ProxyInfo.Consistent.remote_own (good : s.Consistent) {name : Name} {object : Option Remoted}
    (before : ∀ {id}, s.remoted direction name ≠ some (.proxied id)) (own : ∀ {id}, object ≠ some (.proxied id)) :
    ProxyInfo.Consistent
      { s with remoted := Function.update s.remoted direction (Function.update (s.remoted direction) name object) } := by
  have changed : ∀ {other key id}, Function.update s.remoted direction (Function.update (s.remoted direction) name object)
      other key = some (.proxied id) ↔ s.remoted other key = some (.proxied id) := by
    intro other key id
    rw [update_remoted]
    split
    · rename_i here
      rw [here.1, here.2]
      exact iff_of_false own before
    · rfl
  exact {
    tabled := good.tabled
    listed := good.listed
    numbered := good.numbered
    distinct := good.distinct
    earlier := good.earlier
    registered replica there started := changed.mpr (good.registered replica there started)
    existing there := good.existing (changed.mp there) }

theorem ProxyInfo.Consistent.enableRemoting_own (good : s.Consistent) (direction : ProxyDirection) (name : Name) :
    (s.enableRemoting direction name .own).Consistent := by
  rw [ProxyInfo.enableRemoting]
  split
  · rename_i free
    apply good.remote_own
    · simp [Option.isNone_iff_eq_none.mp free]
    · simp
  · exact good

theorem located_names (locations : SourceLocations Url) (keys : List Name) :
    (keys.filterMap fun name => (locations name).map fun info => (⟨name, info⟩ : SourceLocation Url)).map SourceLocation.name =
      keys.filter fun name => (locations name).isSome := by
  induction keys with
  | nil => rfl
  | cons name names ih => cases there : locations name <;> simp [there, ih]

/-- Remoting an object touches neither the registries nor the table. -/
theorem enableRemoting_eq (s : ProxyInfo Url) {direction : ProxyDirection} {name : Name} {object : Remoted} :
    ∃ remoted, s.enableRemoting direction name object = { s with remoted } := by
  rw [ProxyInfo.enableRemoting]
  split
  · exact ⟨_, rfl⟩
  · exact ⟨s.remoted, rfl⟩

theorem onReplicaInitialized_eq (s : ProxyInfo Url) (replica : ProxiedReplica) :
    ∃ remoted, s.onReplicaInitialized replica =
      { s with initialized := Function.update s.initialized replica.id true, remoted } :=
  enableRemoting_eq _

/-- Without an object of the node's own under its name the replica is remoted from then on. -/
theorem ProxyInfo.Consistent.onReplicaInitialized_remoted (good : s.Consistent) {replica : ProxiedReplica}
    (there : replica ∈ s.replicas) (free : s.remoted replica.direction replica.name ≠ some .own) {name : Name} {id : ReplicaId} :
    (s.onReplicaInitialized replica).remoted direction name = some (.proxied id) ↔
      ⟨id, name, direction⟩ = replica ∨ s.remoted direction name = some (.proxied id) := by
  have same : ∀ {id}, s.remoted replica.direction replica.name = some (.proxied id) → id = replica.id := by
    intro id before
    have one := good.single.single _ (good.existing before) _ there rfl
    exact congrArg ProxiedReplica.id one
  have shape : (⟨id, name, direction⟩ : ProxiedReplica) = replica ↔
      (direction = replica.direction ∧ name = replica.name) ∧ id = replica.id := by
    cases replica
    simp [and_comm]
  rw [ProxyInfo.onReplicaInitialized, ProxyInfo.enableRemoting, shape]
  dsimp only
  split
  · rename_i empty
    dsimp only
    rw [update_remoted]
    split
    · rename_i here
      rw [here.1, here.2, Option.isNone_iff_eq_none.mp empty]
      simp [eq_comm]
    · rename_i elsewhere
      simp [elsewhere]
  · rename_i taken
    apply (or_iff_right_of_imp _).symm
    rintro ⟨⟨rfl, rfl⟩, rfl⟩
    obtain ⟨object, found⟩ := Option.ne_none_iff_exists'.mp (mt Option.isNone_iff_eq_none.mpr taken)
    cases object with
    | own => exact absurd found free
    | proxied id => rw [found, same found]

theorem ProxyInfo.Consistent.onReplicaInitialized (good : s.Consistent) {replica : ProxiedReplica}
    (there : replica ∈ s.replicas) (free : s.remoted replica.direction replica.name ≠ some .own) :
    (s.onReplicaInitialized replica).Consistent := by
  have remoted : ∀ {direction name id}, (s.onReplicaInitialized replica).remoted direction name = some (.proxied id) ↔
      ⟨id, name, direction⟩ = replica ∨ s.remoted direction name = some (.proxied id) :=
    good.onReplicaInitialized_remoted there free
  obtain ⟨after, changed⟩ := onReplicaInitialized_eq s replica
  rw [changed] at remoted ⊢
  have started : ∀ {id}, Function.update s.initialized replica.id true id = true → id = replica.id ∨ s.initialized id := by
    intro id started
    by_cases own : id = replica.id
    · exact .inl own
    · rw [Function.update_of_ne own] at started
      exact .inr started
  constructor
  · exact good.tabled
  · exact good.listed
  · exact good.numbered
  · exact good.distinct
  · intro id begun
    obtain rfl | before := started begun
    · exact good.numbered replica there
    · exact good.earlier before
  · intro other listed begun
    apply remoted.mpr
    obtain own | before := started begun
    · exact .inl (good.distinct other listed replica there own)
    · exact .inr (good.registered other listed before)
  · intro direction name id here
    obtain rfl | before := remoted.mp here
    · exact there
    · exact good.existing before

variable [DecidableEq Url]

theorem proxyObject_skipped (skipped : config.wanted direction entry = false) :
    s.proxyObject config direction entry = (s, true) := by
  rw [ProxyInfo.proxyObject, skipped]
  rfl

theorem ProxyInfo.Consistent.proxyObject (good : s.Consistent)
    (free : config.wanted direction entry → s.proxiedReplicas entry.name = none) :
    (s.proxyObject config direction entry).1.Consistent ∧ (s.proxyObject config direction entry).2 = true := by
  cases wanted : config.wanted direction entry with
  | false =>
    rw [proxyObject_skipped wanted]
    exact ⟨good, rfl⟩
  | true =>
    have free := free wanted
    rw [ProxyInfo.proxyObject, if_pos wanted]
    refine ⟨?_, Option.isNone_iff_eq_none.mpr free⟩
    have unlisted : ∀ replica ∈ s.replicas, replica.name ≠ entry.name := by
      intro replica there same
      have tabled := good.tabled replica there
      rw [same, free] at tabled
      contradiction
    constructor
    · intro replica there
      obtain rfl | before := List.mem_cons.mp there
      · exact Function.update_self ..
      · exact (Function.update_of_ne (unlisted replica before) ..).trans (good.tabled replica before)
    · intro name info tabled
      obtain ⟨rfl, same⟩ | ⟨_, before⟩ := update_some tabled
      · rw [← Option.some.inj same]
        exact List.mem_cons_self
      · exact List.mem_cons_of_mem _ (good.listed before)
    · intro replica there
      obtain rfl | before := List.mem_cons.mp there
      · exact Nat.lt_succ_self _
      · exact Nat.lt_succ_of_lt (good.numbered replica before)
    · intro replica there other here same
      obtain rfl | before := List.mem_cons.mp there <;> obtain rfl | earlier := List.mem_cons.mp here
      · rfl
      · exact absurd same.symm (good.numbered other earlier).ne
      · exact absurd same (good.numbered replica before).ne
      · exact good.distinct replica before other earlier same
    · exact fun started => Nat.lt_succ_of_lt (good.earlier started)
    · intro replica there started
      obtain rfl | before := List.mem_cons.mp there
      · exact absurd (good.earlier started) (Nat.lt_irrefl _)
      · exact good.registered replica before started
    · exact fun remoted => List.mem_cons_of_mem _ (good.existing remoted)

theorem proxyObject_tabled {name : Name} {info : ProxyReplicaInfo}
    (there : (s.proxyObject config direction entry).1.proxiedReplicas name = some info) :
    name = entry.name ∧ info.direction = direction ∨ s.proxiedReplicas name = some info := by
  rw [ProxyInfo.proxyObject] at there
  split at there
  · obtain ⟨rfl, same⟩ | ⟨_, before⟩ := update_some there
    · exact .inl ⟨rfl, congrArg ProxyReplicaInfo.direction (Option.some.inj same).symm⟩
    · exact .inr before
  · exact .inr there

theorem proxyObject_registries : (s.proxyObject config direction entry).1.registries = s.registries := by
  rw [ProxyInfo.proxyObject]
  split <;> rfl

theorem ProxyInfo.Reported.proxyObject (good : s.Reported) (heard : (s.registries direction).heard)
    (located : (s.registries direction).locations entry.name ≠ none) :
    (s.proxyObject config direction entry).1.Reported := by
  intro name info there
  rw [proxyObject_registries]
  obtain ⟨rfl, rfl⟩ | before := proxyObject_tabled there
  · exact ⟨heard, located⟩
  · exact good name info before

/-- Entries with names of their own that nothing is proxied under: all are proxied, and no assertion fails. -/
theorem proxyObjects_free {entries : List (SourceLocation Url)} (consistent : s.Consistent) (reported : s.Reported)
    (heard : (s.registries direction).heard) (nodup : (entries.map SourceLocation.name).Nodup)
    (located : ∀ entry ∈ entries, (s.registries direction).locations entry.name ≠ none)
    (free : ∀ entry ∈ entries, config.wanted direction entry → s.proxiedReplicas entry.name = none) :
    (proxyObjects config direction entries s).1.Consistent ∧ (proxyObjects config direction entries s).1.Reported ∧
      (proxyObjects config direction entries s).2 = true := by
  induction entries generalizing s with
  | nil => exact ⟨consistent, reported, rfl⟩
  | cons entry entries ih =>
    obtain ⟨other, distinct⟩ := List.nodup_cons.mp nodup
    obtain ⟨here, locatedLater⟩ := List.forall_mem_cons.mp located
    obtain ⟨freeHere, freeLater⟩ := List.forall_mem_cons.mp free
    obtain ⟨kept, held⟩ := consistent.proxyObject freeHere
    have registries : (s.proxyObject config direction entry).1.registries = s.registries := proxyObject_registries
    have later := ih kept (reported.proxyObject heard here) (by rwa [registries]) distinct (by rwa [registries]) (by
      intro next there wanted
      by_contra tabled
      obtain ⟨info, tabled⟩ := Option.ne_none_iff_exists'.mp tabled
      obtain ⟨same, _⟩ | before := proxyObject_tabled tabled
      · exact other (same ▸ List.mem_map_of_mem there)
      · rw [freeLater next there wanted] at before
        contradiction)
    rw [proxyObjects]
    exact ⟨later.1, later.2.1, by rw [Bool.and_eq_true]; exact ⟨held, later.2.2⟩⟩

/-- Nothing is proxied under a name that the registry has only now reported, unless from the other side. -/
theorem ProxyInfo.Unclaimed.free (unclaimed : s.Unclaimed config direction entry) (consistent : s.Consistent)
    (unreported : ∀ {info}, s.proxiedReplicas entry.name = some info → info.direction ≠ direction)
    (wanted : config.wanted direction entry) : s.proxiedReplicas entry.name = none := by
  by_contra tabled
  obtain ⟨info, tabled⟩ := Option.ne_none_iff_exists'.mp tabled
  exact unreported tabled (unclaimed wanted _ (consistent.listed tabled) rfl)

/-- Both invariants, and the assertion in a step. -/
def ProxyInfo.Good (result : ProxyInfo Url × Bool) : Prop :=
  result.1.Consistent ∧ result.1.Reported ∧ result.2 = true

theorem onSlot_addSource (consistent : s.Consistent) (reported : s.Reported) (unclaimed : s.Unclaimed config direction entry) :
    Good (s.onSlot config direction (.addSource entry)) := by
  rw [ProxyInfo.onSlot, SourceLocations.invoke]
  cases there : (s.registries direction).locations entry.name with
  | some info =>
    rw [addSource_taken (by rw [there]; rfl)]
    exact ⟨consistent.setRegistry _, reported.grown fun _ => id, rfl⟩
  | none =>
    rw [addSource_free there]
    have grown : (s.setRegistry direction { s.registries direction with
        locations := Function.update (s.registries direction).locations entry.name (some entry.info) }).Reported := by
      apply reported.grown
      intro name before
      by_cases here : name = entry.name <;> simp [here, before]
    dsimp only
    split
    · rename_i heard
      have unreported : ∀ {info}, s.proxiedReplicas entry.name = some info → info.direction ≠ direction := by
        rintro info tabled rfl
        exact (reported _ info tabled).2 there
      obtain ⟨kept, held⟩ := (consistent.setRegistry _).proxyObject (unclaimed.free consistent unreported)
      refine ⟨kept, grown.proxyObject ?_ ?_, held⟩
      · rw [setRegistry_self]
        exact heard
      · rw [setRegistry_self]
        simp
    · exact ⟨consistent.setRegistry _, grown, rfl⟩

theorem onSlot_removeSource (consistent : s.Consistent) (reported : s.Reported) :
    Good (s.onSlot config direction (.removeSource entry)) := by
  rw [ProxyInfo.onSlot, SourceLocations.invoke]
  by_cases own : ∃ info, (s.registries direction).locations entry.name = some info ∧ info.hostUrl = entry.info.hostUrl
  · obtain ⟨info, there, same⟩ := own
    rw [removeSource_own there same]
    dsimp only
    split
    · refine ⟨(consistent.setRegistry _).disableAndDeleteObjects _, reported.disableAndDeleteObjects ?_, rfl⟩
      rintro name info other tabled rfl
      obtain ⟨heard, located⟩ := reported name info tabled
      exact ⟨heard, by simpa [Function.update_of_ne (of_decide_eq_false other)] using located⟩
    · rename_i unheard
      refine ⟨consistent.setRegistry _, reported.setRegistry ?_, rfl⟩
      rintro name info tabled rfl
      exact absurd (reported name info tabled).1 unheard
  · rw [removeSource_foreign fun info there same => own ⟨info, there, same⟩]
    exact ⟨consistent.setRegistry _, reported.grown fun _ => id, rfl⟩

theorem onInitialized_good (consistent : s.Consistent) (reported : s.Reported) {keys : List Name} (nodup : keys.Nodup)
    (invalid : (s.registries direction).valid = false)
    (unclaimed : ∀ name ∈ keys, ∀ info ∈ (s.registries direction).locations name, s.Unclaimed config direction ⟨name, info⟩) : Good (s.onInitialized config direction keys) := by
  have unreported : ∀ {name info}, s.proxiedReplicas name = some info → info.direction ≠ direction := by
    rintro name info tabled rfl
    have heard := (reported name info tabled).1
    rw [RegistrySide.heard, invalid] at heard
    contradiction
  have set : (s.setRegistry direction { s.registries direction with valid := true }).Reported := by
    apply reported.setRegistry
    intro name info tabled here
    exact absurd here (unreported tabled)
  rw [ProxyInfo.onInitialized]
  split
  · rename_i connected
    have located : ∀ {entry}, entry ∈ keys.filterMap
        (fun name => ((s.registries direction).locations name).map fun info => (⟨name, info⟩ : SourceLocation Url)) →
        entry.name ∈ keys ∧ (s.registries direction).locations entry.name = some entry.info := by
      intro entry there
      obtain ⟨name, key, here⟩ := List.mem_filterMap.mp there
      obtain ⟨info, found, rfl⟩ := Option.map_eq_some_iff.mp here
      exact ⟨key, found⟩
    apply proxyObjects_free (consistent.setRegistry _) set
    · rw [setRegistry_self]
      exact connected
    · rw [located_names]
      exact nodup.filter _
    · intro entry there
      rw [setRegistry_self, (located there).2]
      exact Option.some_ne_none _
    · intro entry there wanted
      obtain ⟨key, there⟩ := located there
      exact (unclaimed entry.name key entry.info there).free consistent unreported wanted
  · exact ⟨consistent.setRegistry _, set, rfl⟩

theorem checkedStep_good {e : ProxyEvent Url} {result : ProxyInfo Url × Bool} (consistent : s.Consistent) (reported : s.Reported)
    (apart : s.Apart config e) (head : checkedStep config s e = some result) : Good result := by
  cases e with
  | slot direction slot =>
    obtain rfl := Option.some.inj head
    cases slot with
    | addSource entry => exact onSlot_addSource consistent reported apart
    | removeSource entry => exact onSlot_removeSource consistent reported
  | removeServer direction url =>
    obtain rfl := Option.some.inj head
    refine ⟨consistent.setRegistry _, reported.setRegistry ?_, rfl⟩
    rintro name info tabled rfl
    obtain ⟨heard, located⟩ := reported name info tabled
    obtain ⟨location, there⟩ := Option.ne_none_iff_exists'.mp located
    have other := apart _ (consistent.listed tabled) rfl location there
    exact ⟨heard, Option.ne_none_iff_exists'.mpr ⟨location, removeServer_some.mpr ⟨there, other⟩⟩⟩
  | initialized direction keys =>
    rw [checkedStep] at head
    split at head
    · rename_i guard
      obtain rfl := Option.some.inj head
      exact onInitialized_good consistent reported guard.2 guard.1 apart
    · contradiction
  | suspect =>
    rw [checkedStep] at head
    split at head
    · obtain rfl := Option.some.inj head
      refine ⟨(consistent.setRegistry _).disableAndDeleteObjects _, reported.disableAndDeleteObjects ?_, rfl⟩
      intro name info other
      contradiction
    · contradiction
  | setReverseProxy =>
    rw [checkedStep] at head
    split at head
    · contradiction
    · rename_i unconnected
      obtain rfl := Option.some.inj head
      refine ⟨consistent.setRegistry _, reported.setRegistry ?_, rfl⟩
      intro name info tabled here
      have heard := (reported name info tabled).1
      rw [here, RegistrySide.heard, Bool.and_eq_true] at heard
      exact absurd heard.2 unconnected
  | replicaInitialized id =>
    obtain ⟨replica, found, rfl⟩ := Option.map_eq_some_iff.mp head
    have there := List.mem_of_find?_eq_some found
    have kept := consistent.onReplicaInitialized there (apart replica there (by simpa using List.find?_some found))
    obtain ⟨remoted, same⟩ := onReplicaInitialized_eq s replica
    refine ⟨kept, ?_, rfl⟩
    rw [same]
    exact reported
  | enableRemoting direction name =>
    obtain rfl := Option.some.inj head
    obtain ⟨remoted, same⟩ : ∃ remoted, s.enableRemoting direction name .own = { s with remoted } := enableRemoting_eq s
    refine ⟨consistent.enableRemoting_own direction name, ?_, rfl⟩
    rw [same]
    exact reported
  | disableRemoting direction name =>
    rw [checkedStep] at head
    split at head
    · rename_i own
      obtain rfl := Option.some.inj head
      refine ⟨consistent.remote_own ?_ ?_, reported, rfl⟩
      · simp [own]
      · simp
    · contradiction

theorem step_some {e : ProxyEvent Url} : ProxyInfo.step config s e = some t ↔ ∃ held, checkedStep config s e = some (t, held) := by
  simp [ProxyInfo.step, Option.map_eq_some_iff]

end Invariant

section Example

/-- Two hosts, one for each direction, whose URLs are 1 and 2; the echoes have 0. -/
def exampleConfig : ProxyConfig Nat := ⟨fun _ _ _ => true, fun _ => some 0⟩

def exampleEntry (name : Name) (url : Nat) : SourceLocation Nat := ⟨name, [], url⟩

/-- Each side has a source that is proxied to the other, and the network of the first goes and comes back. -/
def bothSides : List (ProxyEvent Nat) :=
  [.slot .forward (.addSource (exampleEntry ['a'] 1)), .initialized .forward [['a']], .setReverseProxy, .initialized .reverse [],
    .slot .reverse (.addSource (exampleEntry ['b'] 2)), .replicaInitialized 0, .replicaInitialized 1,
    .slot .reverse (.removeSource (exampleEntry ['b'] 2)), .suspect, .removeServer .forward 1, .initialized .forward []]

/-- A host goes without removing its source and comes back. -/
def hostReturns : List (ProxyEvent Nat) :=
  [.initialized .forward [], .slot .forward (.addSource (exampleEntry ['a'] 1)), .removeServer .forward 1,
    .slot .forward (.addSource (exampleEntry ['a'] 1))]

end Example
end RemoteObjects.Registry
