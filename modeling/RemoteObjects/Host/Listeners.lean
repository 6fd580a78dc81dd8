import Mathlib.Logic.Function.Basic
import RemoteObjects.Transition
import RemoteObjects.Host.Sources

/-! The listeners of the root sources of a host, while connections and roots come and go and packets are read. -/
namespace RemoteObjects.Host.Listeners
open RemoteObjects Transition

section Model

/-- Objects are told apart by numbers that are never used again. -/
abbrev Connection := Nat

/-- A packet in the buffer of a connection. Of the others, only what they call matters, which are events of their own. -/
inductive Packet
  | addObject (name : Name) (isDynamic : Bool)
  | removeObject (name : Name)
  | other
deriving DecidableEq

structure RootSource where
  m_name : Name
  m_listeners : List Connection
  isDynamic : Bool
deriving DecidableEq

/-- `reading` holds the connections for which `onServerRead` runs, the innermost first. Connections whose disconnect was
processed are `closed`. -/
structure SourceIo where
  m_connections : List Connection
  closed : List Connection
  roots : Nat → Option RootSource
  m_sourceRoots : Name → Option Nat
  reading : List Connection

inductive Event
  | newConnection (conn : Connection)
  /-- `readyRead`, from the event loop or from one that a slot of the user runs. -/
  | onServerRead (conn : Connection)
  /-- A turn of the loop in the innermost `onServerRead`. -/
  | packet (packet : Packet)
  | finished
  /-- `disconnected`, also from what a packet calls. -/
  | onServerDisconnect (conn : Connection)
  /-- `enableRemoting` with a meta object, and with an API that calls itself dynamic or not. -/
  | enableMeta (root : Nat) (name : Name)
  | enableApi (root : Nat) (name : Name) (isDynamic : Bool)
  /-- The end of a root, in `disableRemoting` or with its object. -/
  | delete (root : Nat)
  /-- A signal of its object is sent to the listeners. -/
  | handleMetaCall (root : Nat)

namespace RootSource

def addListener (io : Connection) (dynamic : Bool) (root : RootSource) : RootSource :=
  { root with m_listeners := root.m_listeners ++ [io], isDynamic := root.isDynamic || dynamic }

def removeListener (io : Connection) (root : RootSource) : RootSource :=
  { root with m_listeners := root.m_listeners.filter (· ≠ io) }

end RootSource

namespace SourceIo
variable (s : SourceIo)

def initial : SourceIo := ⟨[], [], fun _ => none, fun _ => none, []⟩

/-- What is done to the root that has a name. -/
def atName (name : Name) (f : RootSource → RootSource) : SourceIo :=
  match s.m_sourceRoots name with
  | some root => { s with roots := Function.update s.roots root ((s.roots root).map f) }
  | none => s

/-- The constructor of a root, with `registerSource`. -/
def registerRoot (root : Nat) (name : Name) : SourceIo :=
  { s with
    roots := Function.update s.roots root (some ⟨name, [], false⟩)
    m_sourceRoots := Function.update s.m_sourceRoots name (some root) }

/-- The roots in the map lose the connection. -/
def disconnect (conn : Connection) : SourceIo :=
  { s with
    m_connections := s.m_connections.filter (· ≠ conn)
    closed := conn :: s.closed
    roots := fun number => (s.roots number).map fun root =>
      if s.m_sourceRoots root.m_name = some number then root.removeListener conn else root }

/-- `~QRemoteObjectRootSource`, with `unregisterSource`. -/
def deleteRoot (number : Nat) (root : RootSource) : SourceIo :=
  { s with
    roots := Function.update s.roots number none
    m_sourceRoots := Function.update s.m_sourceRoots root.m_name none }

def handlePacket (conn : Connection) : Packet → SourceIo
  | .addObject name isDynamic => s.atName name (.addListener conn isDynamic)
  | .removeObject name => s.atName name (.removeListener conn)
  | .other => s

def step : Event → Option SourceIo
  | .newConnection conn =>
    if conn ∉ s.m_connections ∧ conn ∉ s.closed then some { s with m_connections := conn :: s.m_connections } else none
  | .onServerRead conn =>
    if conn ∈ s.m_connections ∨ conn ∈ s.closed then some { s with reading := conn :: s.reading } else none
  | .packet packet => s.reading.head?.map fun conn => s.handlePacket conn packet
  | .finished => match s.reading with
    | _ :: reading => some { s with reading }
    | [] => none
  | .onServerDisconnect conn => if conn ∈ s.m_connections ∨ conn ∈ s.closed then some (s.disconnect conn) else none
  | .enableMeta root name =>
    if s.roots root ≠ none then none
    else if (s.m_sourceRoots name).isSome then some s else some (s.registerRoot root name)
  | .enableApi root name isDynamic =>
    if s.roots root ≠ none then none
    else if !isDynamic ∧ (s.m_sourceRoots name).isSome then some s else some (s.registerRoot root name)
  | .delete number => (s.roots number).map fun root => s.deleteRoot number root
  | .handleMetaCall number => if (s.roots number).isSome then some s else none

end SourceIo
end Model

section Statement
namespace SourceIo
variable (s : SourceIo)

/-- The listeners of all roots are connections, and none whose disconnect was processed. -/
def Live : Prop :=
  ∀ number root, s.roots number = some root → ∀ conn ∈ root.m_listeners, conn ∈ s.m_connections ∧ conn ∉ s.closed

/-- No signal is written to a connection whose disconnect was processed. -/
def WritesLive (s : SourceIo) : Event → Prop
  | .handleMetaCall number => ∀ root, s.roots number = some root → ∀ conn ∈ root.m_listeners, conn ∉ s.closed
  | _ => True

def ListenersLive : Prop :=
  ∀ es, Admitted step WritesLive initial es ∧ ∀ t, exec step initial es = some t → t.Live

/-- A connection is added to a root only before its disconnect is processed. An API that calls itself dynamic has a free
name. -/
def Timely (s : SourceIo) : Event → Prop
  | .packet (.addObject name _) => (s.m_sourceRoots name).isSome → ∀ conn ∈ s.reading.head?, conn ∈ s.m_connections
  | .enableApi _ name isDynamic => isDynamic → s.m_sourceRoots name = none
  | _ => True

end SourceIo
end Statement

section Maps
variable {K V : Type} [DecidableEq K] {f : K → Option V} {key other : K} {value found : V}

theorem update_some_iff : Function.update f key (some value) other = some found ↔
    other = key ∧ value = found ∨ other ≠ key ∧ f other = some found := by
  by_cases same : other = key
  · subst same
    simp
  · simp [same]

theorem update_none_iff : Function.update f key none other = some found ↔ other ≠ key ∧ f other = some found := by
  by_cases same : other = key
  · subst same
    simp
  · simp [same]

end Maps

section Invariant
variable {s t : SourceIo} {e : Event}
namespace SourceIo

/-- The map has all roots, each under its name. -/
structure Consistent (s : SourceIo) : Prop where
  live : s.Live
  closed : ∀ conn ∈ s.closed, conn ∉ s.m_connections
  mapped : ∀ number root, s.roots number = some root → s.m_sourceRoots root.m_name = some number
  named : ∀ name number, s.m_sourceRoots name = some number → ∃ root, s.roots number = some root ∧ root.m_name = name

theorem Consistent.initial : initial.Consistent := ⟨nofun, nofun, nofun, nofun⟩

/-- A change of one root that keeps its name and has live listeners. -/
theorem Consistent.atName (consistent : s.Consistent) {name : Name} {f : RootSource → RootSource}
    (keeps : ∀ root, (f root).m_name = root.m_name)
    (listens : ∀ number root, s.m_sourceRoots name = some number → s.roots number = some root →
      ∀ conn ∈ (f root).m_listeners, conn ∈ s.m_connections ∧ conn ∉ s.closed) : (s.atName name f).Consistent := by
  rw [SourceIo.atName]
  split
  · rename_i number found
    obtain ⟨root, here, named⟩ := consistent.named name number found
    rw [here]
    refine ⟨fun other root' there => ?_, consistent.closed, fun other root' there => ?_, fun other number' there => ?_⟩
    · obtain ⟨rfl, rfl⟩ | ⟨_, there⟩ := update_some_iff.mp there
      · exact listens other root found here
      · exact consistent.live other root' there
    · obtain ⟨rfl, rfl⟩ | ⟨_, there⟩ := update_some_iff.mp there
      · rw [keeps]
        exact consistent.mapped other root here
      · exact consistent.mapped other root' there
    · obtain ⟨root', there', named'⟩ := consistent.named other number' there
      by_cases same : number' = number
      · subst same
        rw [here] at there'
        cases there'
        exact ⟨f root, update_some_iff.mpr (.inl ⟨rfl, rfl⟩), by rw [keeps, named']⟩
      · exact ⟨root', update_some_iff.mpr (.inr ⟨same, there'⟩), named'⟩
  · exact consistent

theorem Consistent.registerRoot (consistent : s.Consistent) {number : Nat} {name : Name} (new : s.roots number = none)
    (free : s.m_sourceRoots name = none) : (s.registerRoot number name).Consistent := by
  refine ⟨fun other root there => ?_, consistent.closed, fun other root there => ?_, fun other number' there => ?_⟩
  · obtain ⟨rfl, rfl⟩ | ⟨_, there⟩ := update_some_iff.mp there
    · exact nofun
    · exact consistent.live other root there
  · obtain ⟨rfl, rfl⟩ | ⟨_, there⟩ := update_some_iff.mp there
    · exact update_some_iff.mpr (.inl ⟨rfl, rfl⟩)
    · have mapped := consistent.mapped other root there
      refine update_some_iff.mpr (.inr ⟨?_, mapped⟩)
      rintro rfl
      rw [free] at mapped
      contradiction
  · obtain ⟨rfl, rfl⟩ | ⟨_, there⟩ := update_some_iff.mp there
    · exact ⟨_, update_some_iff.mpr (.inl ⟨rfl, rfl⟩), rfl⟩
    · obtain ⟨root, here, named⟩ := consistent.named other number' there
      refine ⟨root, update_some_iff.mpr (.inr ⟨?_, here⟩), named⟩
      rintro rfl
      rw [new] at here
      contradiction

/-- All roots are in the map, so that none keeps the connection. -/
theorem Consistent.disconnect (consistent : s.Consistent) (conn : Connection) : (s.disconnect conn).Consistent := by
  have left {number : Nat} {root : RootSource} (there : (s.disconnect conn).roots number = some root) :
      ∃ old, s.roots number = some old ∧ root = old.removeListener conn := by
    obtain ⟨old, here, rfl⟩ := Option.map_eq_some_iff.mp there
    exact ⟨old, here, if_pos (consistent.mapped number old here)⟩
  refine ⟨fun number root there other listens => ?_, fun other gone => ?_, fun number root there => ?_, fun name number there => ?_⟩
  · obtain ⟨old, here, rfl⟩ := left there
    obtain ⟨listens, differs⟩ := List.mem_filter.mp listens
    obtain ⟨connected, open'⟩ := consistent.live number old here other listens
    have differs : other ≠ conn := of_decide_eq_true differs
    exact ⟨List.mem_filter.mpr ⟨connected, decide_eq_true differs⟩, List.not_mem_cons_of_ne_of_not_mem differs open'⟩
  · intro connected
    obtain ⟨connected, differs⟩ := List.mem_filter.mp connected
    obtain rfl | gone := List.mem_cons.mp gone
    · exact absurd rfl (of_decide_eq_true differs)
    · exact consistent.closed other gone connected
  · obtain ⟨old, here, rfl⟩ := left there
    exact consistent.mapped number old here
  · obtain ⟨root, here, named⟩ := consistent.named name number there
    refine ⟨root.removeListener conn, ?_, named⟩
    simp only [SourceIo.disconnect, here, Option.map_some, consistent.mapped number root here, ↓reduceIte]

theorem Consistent.deleteRoot (consistent : s.Consistent) {number : Nat} {root : RootSource} (here : s.roots number = some root) :
    (s.deleteRoot number root).Consistent := by
  refine ⟨fun number' root' there => ?_, consistent.closed, fun number' root' there => ?_, fun name number' there => ?_⟩
  · exact consistent.live number' root' (update_none_iff.mp there).2
  · obtain ⟨differs, there⟩ := update_none_iff.mp there
    have mapped := consistent.mapped number' root' there
    refine update_none_iff.mpr ⟨fun same => ?_, mapped⟩
    rw [same, consistent.mapped number root here] at mapped
    exact differs (Option.some.inj mapped).symm
  · obtain ⟨differs, there⟩ := update_none_iff.mp there
    obtain ⟨root', there', named⟩ := consistent.named name number' there
    refine ⟨root', update_none_iff.mpr ⟨?_, there'⟩, named⟩
    rintro rfl
    rw [here] at there'
    exact differs (Option.some.inj there' ▸ named).symm

theorem Consistent.step (consistent : s.Consistent) (timely : s.Timely e) (stepped : s.step e = some t) : t.Consistent := by
  cases e with
  | newConnection conn =>
    rw [SourceIo.step] at stepped
    split at stepped
    · rename_i new
      cases stepped
      refine ⟨fun number root there other listens => ?_, fun other gone => ?_, consistent.mapped, consistent.named⟩
      · obtain ⟨connected, open'⟩ := consistent.live number root there other listens
        exact ⟨List.mem_cons_of_mem _ connected, open'⟩
      · exact List.not_mem_cons_of_ne_of_not_mem (fun same => new.2 (same ▸ gone)) (consistent.closed other gone)
    · contradiction
  | onServerRead conn =>
    rw [SourceIo.step] at stepped
    split at stepped
    · cases stepped
      exact ⟨consistent.live, consistent.closed, consistent.mapped, consistent.named⟩
    · contradiction
  | packet packet =>
    obtain ⟨conn, top, rfl⟩ := Option.map_eq_some_iff.mp stepped
    cases packet with
    | addObject name isDynamic =>
      refine consistent.atName (fun _ => rfl) fun number root found here other listens => ?_
      obtain listens | rfl := List.mem_append.mp listens |>.imp_right List.mem_singleton.mp
      · exact consistent.live number root here other listens
      · have connected := timely (by rw [found]; rfl) other top
        exact ⟨connected, fun gone => consistent.closed other gone connected⟩
    | removeObject name =>
      exact consistent.atName (fun _ => rfl) fun number root _ here other listens =>
        consistent.live number root here other (List.mem_filter.mp listens).1
    | other => exact consistent
  | finished =>
    rw [SourceIo.step] at stepped
    split at stepped
    · cases stepped
      exact ⟨consistent.live, consistent.closed, consistent.mapped, consistent.named⟩
    · contradiction
  | onServerDisconnect conn =>
    rw [SourceIo.step] at stepped
    split at stepped
    · cases stepped
      exact consistent.disconnect conn
    · contradiction
  | enableMeta root name =>
    rw [SourceIo.step] at stepped
    split at stepped
    · contradiction
    · rename_i new
      split at stepped
      · cases stepped
        exact consistent
      · rename_i free
        cases stepped
        exact consistent.registerRoot (Decidable.not_not.mp new) (Option.not_isSome_iff_eq_none.mp free)
  | enableApi root name isDynamic =>
    rw [SourceIo.step] at stepped
    split at stepped
    · contradiction
    · rename_i new
      split at stepped
      · cases stepped
        exact consistent
      · rename_i allowed
        cases stepped
        refine consistent.registerRoot (Decidable.not_not.mp new) ?_
        cases isDynamic with
        | true => exact timely rfl
        | false => exact Option.not_isSome_iff_eq_none.mp fun taken => allowed ⟨rfl, taken⟩
  | delete number =>
    obtain ⟨root, here, rfl⟩ := Option.map_eq_some_iff.mp stepped
    exact consistent.deleteRoot here
  | handleMetaCall number =>
    rw [SourceIo.step] at stepped
    split at stepped
    · cases stepped
      exact consistent
    · contradiction

theorem Consistent.writes (consistent : s.Consistent) : s.WritesLive e := by
  cases e with
  | handleMetaCall number => exact fun root here conn listens => (consistent.live number root here conn listens).2
  | newConnection | onServerRead | packet | finished | onServerDisconnect | enableMeta | enableApi | delete => trivial

/-- Listeners are live in the runs in which no connection is added behind its disconnect. -/
theorem listeners_live {es : List Event} (timely : Admitted step Timely initial es) :
    Admitted step WritesLive initial es ∧ ∀ t, exec step initial es = some t → t.Live :=
  ⟨admitted_of_invariant Consistent.step (fun consistent _ => consistent.writes) timely .initial,
    fun _ run => (exec_invariant Consistent.step run timely .initial).live⟩

end SourceIo
end Invariant

section Example
namespace SourceIo

/-- One burst with a call and a request for a source. The slot may process the events in which the socket reports that it
is disconnected. -/
def burst (slot : List Event) : List Event :=
  [.newConnection 0, .enableMeta 0 ['a'], .onServerRead 0, .packet .other] ++ slot ++ [.packet (.addObject ['a'] false), .finished]

theorem listeners_live_example : ∃ t, exec step initial (burst []) = some t ∧ t.Live ∧ t.m_connections = [0] := by
  have run : exec step initial (burst []) = some _ := rfl
  have timely : Admitted step Timely initial (burst []) :=
    .cons trivial rfl (.cons trivial rfl (.cons trivial rfl (.cons trivial rfl (.cons ?_ rfl (.cons trivial rfl trivial)))))
  · exact ⟨_, run, (listeners_live timely).2 _ run, rfl⟩
  · rintro _ conn top
    cases top
    exact List.mem_singleton.mpr rfl

theorem disconnect_in_slot : ¬ ListenersLive := by
  intro live
  have run : exec step initial (burst [.onServerDisconnect 0]) = some _ := rfl
  have connected := ((live _).2 _ run 0 _ rfl 0 (by decide)).1
  contradiction

end SourceIo
end Example
end RemoteObjects.Host.Listeners
