import Mathlib.Algebra.BigOperators.Group.List.Basic
import Mathlib.Algebra.GroupWithZero.Nat
import Mathlib.Tactic.Common
import RemoteObjects.Transition

/-! A hub and its peers, each with a value of its own. Whoever changes its value announces it on its links, also when the
change is one that was announced to it. -/
namespace RemoteObjects.Echo
open Transition
variable {V : Type*}

/-- What is under way between the hub and a peer, in its order. The peer is behind when it did not take the last value that
it read, or has not been sent any. -/
structure Link (V : Type*) where
  up : List V
  down : List V
  behind : Bool

structure Peer (V : Type*) where
  value : V
  link : Option (Link V)

structure Hub (V : Type*) where
  value : V
  peers : List (Peer V)

inductive Event (V : Type*)
  | setHub (v : V)
  | setPeer (k : Nat) (v : V)
  | readHub (k : Nat)
  | readPeer (k : Nat) (taken : Bool)
  | join (k : Nat)
  | leave (k : Nat)

/-- The peer of an event. -/
def Event.peer? : Event V → Option Nat
  | .setHub _ => none
  | .setPeer k _ | .readHub k | .readPeer k _ | .join k | .leave k => some k

/-- Something that is under way arrives. -/
def Event.Delivery : Event V → Prop
  | .readHub _ | .readPeer .. => True
  | _ => False

/-- Something that is under way arrives and is taken. -/
def Event.Arrival : Event V → Prop
  | .readHub _ => True
  | .readPeer _ taken => taken
  | _ => False

theorem Event.Arrival.delivery {e : Event V} (arrival : e.Arrival) : e.Delivery := by
  cases e with
  | readHub | readPeer => trivial
  | setHub | setPeer | join | leave => exact arrival

/-- The values that are set are of a kind. -/
def Event.Within (view : V → V) (P : V → Prop) : Event V → Prop
  | .setHub v => P v
  | .setPeer _ v => P (view v)
  | _ => True

theorem Event.Delivery.within {e : Event V} (delivery : e.Delivery) (view : V → V) (P : V → Prop) : e.Within view P := by
  cases e with
  | readHub | readPeer => trivial
  | setHub | setPeer | join | leave => exact delivery.elim

theorem Event.Delivery.peer {e : Event V} (delivery : e.Delivery) : ∃ k, e.peer? = some k := by
  cases e with
  | readHub k | readPeer k taken => exact ⟨k, rfl⟩
  | setHub | setPeer | join | leave => exact delivery.elim

section Step
variable [DecidableEq V]

def Peer.hear (v : V) (p : Peer V) : Peer V := { p with link := p.link.map fun link => { link with down := link.down ++ [v] } }

def Peer.change (v : V) (p : Peer V) : Peer V :=
  if v = p.value then p else ⟨v, p.link.map fun link => { link with up := link.up ++ [v] }⟩

def Hub.change (v : V) (hub : Hub V) : Hub V := if v = hub.value then hub else ⟨v, hub.peers.map (Peer.hear v)⟩

def Hub.put (k : Nat) (p : Peer V) (hub : Hub V) : Hub V := { hub with peers := hub.peers.set k p }

variable (view : V → V)

/-- A peer has only values of `view`. -/
def Hub.step (hub : Hub V) : Event V → Option (Hub V)
  | .setHub v => some (hub.change v)
  | .setPeer k v => hub.peers[k]?.map fun p => hub.put k (p.change (view v))
  | .readHub k =>
    match hub.peers[k]? with
    | some ⟨r, some ⟨v :: up, down, _⟩⟩ => some ((hub.put k ⟨r, some ⟨up, down, false⟩⟩).change v)
    | _ => none
  | .readPeer k taken =>
    match hub.peers[k]? with
    | some ⟨r, some ⟨up, v :: down, _⟩⟩ =>
      some (hub.put k (if taken then Peer.change (view v) ⟨r, some ⟨up, down, false⟩⟩ else ⟨r, some ⟨up, down, true⟩⟩))
    | _ => none
  | .join k =>
    match hub.peers[k]? with
    | some ⟨r, none⟩ => some (hub.put k ⟨r, some ⟨[], [], true⟩⟩)
    | _ => none
  | .leave k => hub.peers[k]?.map fun p => hub.put k { p with link := none }

/-- What an event does to the hub's value and the peer `k`. -/
inductive Local (k : Nat) : Event V → V → Peer V → V → Peer V → Prop
  | stays {e s p} (other : e.peer? ≠ some k) : Local k e s p s p
  | hears {e s p v} (other : e.peer? ≠ some k) (changed : v ≠ s) : Local k e s p v (p.hear v)
  | set {v s p} : Local k (.setPeer k v) s p s (p.change (view v))
  | known {s r up down behind} : Local k (.readHub k) s ⟨r, some ⟨s :: up, down, behind⟩⟩ s ⟨r, some ⟨up, down, false⟩⟩
  | news {s v r up down behind} (changed : v ≠ s) :
      Local k (.readHub k) s ⟨r, some ⟨v :: up, down, behind⟩⟩ v ⟨r, some ⟨up, down ++ [v], false⟩⟩
  | takes {s v r up down behind} : Local k (.readPeer k true) s ⟨r, some ⟨up, v :: down, behind⟩⟩ s
      (Peer.change (view v) ⟨r, some ⟨up, down, false⟩⟩)
  | skips {s v r up down behind} :
      Local k (.readPeer k false) s ⟨r, some ⟨up, v :: down, behind⟩⟩ s ⟨r, some ⟨up, down, true⟩⟩
  | joins {s r} : Local k (.join k) s ⟨r, none⟩ s ⟨r, some ⟨[], [], true⟩⟩
  | leaves {s p} : Local k (.leave k) s p s { p with link := none }

variable {view} {hub next : Hub V} {e : Event V} {k : Nat}

theorem change_value (v : V) (hub : Hub V) : (hub.change v).value = v := by
  rw [Hub.change]
  split
  · rename_i same
    exact same.symm
  · rfl

theorem change_get (v : V) (hub : Hub V) (k : Nat) :
    (hub.change v).peers[k]? = hub.peers[k]?.map fun p => if v = hub.value then p else p.hear v := by
  rw [Hub.change]
  split
  · exact (Option.map_id_apply ..).symm
  · exact List.getElem?_map ..

omit [DecidableEq V] in
theorem put_get {p : Peer V} (there : hub.peers[k]? = some p) (after : Peer V) (j : Nat) :
    (hub.put k after).peers[j]? = if k = j then some after else hub.peers[j]? := by
  rw [Hub.put, List.getElem?_set]
  split
  · exact if_pos (List.getElem?_eq_some_iff.mp there).1
  · rfl

theorem change_length (v : V) (hub : Hub V) : (hub.change v).peers.length = hub.peers.length := by
  rw [Hub.change]
  split
  · rfl
  · exact List.length_map ..

omit [DecidableEq V] in
theorem put_length (p : Peer V) : (hub.put k p).peers.length = hub.peers.length := List.length_set ..

/-- The peer that has the event is there. -/
theorem step_peer (head : hub.step view e = some next) (own : e.peer? = some k) : ∃ p, hub.peers[k]? = some p := by
  cases e with
  | setHub v => contradiction
  | setPeer j v | leave j =>
    obtain rfl := Option.some.inj own
    obtain ⟨p, there, -⟩ := Option.map_eq_some_iff.mp head
    exact ⟨p, there⟩
  | readHub j | readPeer j taken | join j =>
    obtain rfl := Option.some.inj own
    simp only [Hub.step] at head
    split at head
    · exact ⟨_, ‹_›⟩
    · contradiction

theorem step_length (head : hub.step view e = some next) : next.peers.length = hub.peers.length := by
  cases e with
  | setHub v =>
    obtain rfl := Option.some.inj head
    exact change_length v hub
  | setPeer j v | leave j =>
    obtain ⟨p, there, rfl⟩ := Option.map_eq_some_iff.mp head
    exact put_length _
  | readHub j =>
    simp only [Hub.step] at head
    split at head
    · obtain rfl := Option.some.inj head
      rw [change_length, put_length]
    · contradiction
  | readPeer j taken | join j =>
    simp only [Hub.step] at head
    split at head
    · obtain rfl := Option.some.inj head
      exact put_length _
    · contradiction

/-- A step of one peer alone is nothing to the others. -/
theorem put_local {j : Nat} {old after p : Peer V} (at_j : hub.peers[j]? = some old) (own : e.peer? = some j)
    (moves : Local view j e hub.value old hub.value after) (there : hub.peers[k]? = some p) :
    ∃ new, (hub.put j after).peers[k]? = some new ∧ Local view k e hub.value p hub.value new := by
  rw [put_get at_j]
  split
  · rename_i same
    obtain rfl := same
    obtain rfl := Option.some.inj (at_j.symm.trans there)
    exact ⟨after, rfl, moves⟩
  · rename_i other
    exact ⟨p, there, .stays fun mine => other (Option.some.inj (own.symm.trans mine))⟩

/-- What a step is for each of the peers. -/
theorem step_local (head : hub.step view e = some next) {p : Peer V} (there : hub.peers[k]? = some p) :
    ∃ after, next.peers[k]? = some after ∧ Local view k e hub.value p next.value after := by
  cases e with
  | setHub v =>
    obtain rfl := Option.some.inj head
    rw [change_get, change_value, there]
    refine ⟨_, rfl, ?_⟩
    split
    · rename_i same
      exact same ▸ .stays (by rintro ⟨⟩)
    · rename_i changed
      exact .hears (by rintro ⟨⟩) changed
  | setPeer j v =>
    obtain ⟨old, at_j, rfl⟩ := Option.map_eq_some_iff.mp head
    exact put_local at_j rfl .set there
  | readHub j =>
    simp only [Hub.step] at head
    split at head
    · rename_i r v up down behind at_j
      obtain rfl := Option.some.inj head
      by_cases same : v = hub.value
      · subst v
        have same : (hub.put j ⟨r, some ⟨up, down, false⟩⟩).change hub.value = hub.put j ⟨r, some ⟨up, down, false⟩⟩ := if_pos rfl
        rw [same]
        exact put_local at_j rfl .known there
      · have value : (hub.put j ⟨r, some ⟨up, down, false⟩⟩).value = hub.value := rfl
        rw [change_get, change_value, put_get at_j, value]
        simp only [if_neg same]
        split
        · rename_i mine
          obtain rfl := mine
          obtain rfl := Option.some.inj (at_j.symm.trans there)
          exact ⟨_, rfl, .news same⟩
        · rename_i other
          rw [there]
          exact ⟨_, rfl, .hears (fun mine => other (Option.some.inj mine)) same⟩
    · contradiction
  | readPeer j taken =>
    simp only [Hub.step] at head
    split at head
    · rename_i r up v down behind at_j
      obtain rfl := Option.some.inj head
      refine put_local at_j rfl ?_ there
      cases taken with
      | true => exact .takes
      | false => exact .skips
    · contradiction
  | join j =>
    simp only [Hub.step] at head
    split at head
    · rename_i r at_j
      obtain rfl := Option.some.inj head
      exact put_local at_j rfl .joins there
    · contradiction
  | leave j =>
    obtain ⟨old, at_j, rfl⟩ := Option.map_eq_some_iff.mp head
    exact put_local at_j rfl .leaves there

/-- Each peer behind a step was there before it. -/
theorem step_local_back (head : hub.step view e = some next) {after : Peer V} (there : after ∈ next.peers) :
    ∃ k, ∃ p ∈ hub.peers, Local view k e hub.value p next.value after := by
  obtain ⟨k, at_k⟩ := List.mem_iff_getElem?.mp there
  have inside : k < hub.peers.length := step_length head ▸ (List.getElem?_eq_some_iff.mp at_k).1
  obtain ⟨new, found, moves⟩ := step_local head (List.getElem?_eq_getElem inside)
  obtain rfl := Option.some.inj (found.symm.trans at_k)
  exact ⟨k, _, List.getElem_mem inside, moves⟩

end Step

section Agreement
variable {view : V → V} {hub next : Hub V} {s s' : V} {p p' : Peer V} {k : Nat} {e : Event V}

/-- The last value that is under way to a side is the one that the other side has. -/
structure InTouch (view : V → V) (s : V) (p : Peer V) : Prop where
  seen : view p.value = p.value
  up : ∀ link ∈ p.link, ∀ v ∈ link.up.getLast?, v = p.value
  down : ∀ link ∈ p.link, ∀ v ∈ link.down.getLast?, v = s
  quiet : ∀ link ∈ p.link, link.up = [] → link.down = [] → link.behind = false → p.value = view s

theorem getLast?_of_tail {v w : V} {l : List V} (last : w ∈ l.getLast?) : w ∈ (v :: l).getLast? := by
  cases l with
  | nil => contradiction
  | cons x l => rwa [List.getLast?_cons_cons]

theorem eq_of_last {v w : V} {l : List V} (last : w ∈ (l ++ [v]).getLast?) : w = v := by
  rw [List.getLast?_concat] at last
  exact (Option.some.inj last).symm

theorem InTouch.linked {r : V} {link : Link V} (seen : view r = r) (up : ∀ v ∈ link.up.getLast?, v = r)
    (down : ∀ v ∈ link.down.getLast?, v = s) (quiet : link.up = [] → link.down = [] → link.behind = false → r = view s) :
    InTouch view s ⟨r, some link⟩ := by
  constructor
  · exact seen
  all_goals rintro _ ⟨⟩; assumption

theorem InTouch.alone {r : V} (seen : view r = r) : InTouch view s ⟨r, none⟩ :=
  ⟨seen, by rintro _ ⟨⟩, by rintro _ ⟨⟩, by rintro _ ⟨⟩⟩

theorem InTouch.hear (touch : InTouch view s p) (v : V) : InTouch view v (p.hear v) := by
  obtain ⟨r, link⟩ := p
  cases link with
  | none => exact .alone touch.seen
  | some link =>
    exact .linked touch.seen (touch.up link rfl) (fun _ => eq_of_last) fun _ none => absurd none (List.concat_ne_nil _ _)

theorem getLastD_of_last {v w : V} {l : List V} (nonempty : l ≠ []) (is : ∀ x ∈ l.getLast?, x = w) : l.getLastD v = w := by
  rw [List.getLastD_eq_getLast?]
  have last := List.getLast?_eq_some_getLast nonempty
  rw [last]
  exact is _ last

theorem InTouch.up_getLastD {up down : List V} {r v : V} (touch : InTouch view s ⟨r, some ⟨up, down, behind⟩⟩) (nonempty : up ≠ []) :
    up.getLastD v = r :=
  getLastD_of_last nonempty fun x => touch.up _ rfl x

theorem InTouch.down_getLastD {up down : List V} {r v : V} (touch : InTouch view s ⟨r, some ⟨up, down, behind⟩⟩) (nonempty : down ≠ []) :
    down.getLastD v = s :=
  getLastD_of_last nonempty fun x => touch.down _ rfl x

variable [DecidableEq V]

theorem InTouch.change (seen : view v = v) (up : ∀ link ∈ p.link, ∀ w ∈ link.up.getLast?, w = p.value)
    (down : ∀ link ∈ p.link, ∀ w ∈ link.down.getLast?, w = s)
    (quiet : ∀ link ∈ p.link, v = p.value → link.up = [] → link.down = [] → link.behind = false → v = view s) :
    InTouch view s (p.change v) := by
  rw [Peer.change]
  split
  · rename_i same
    subst v
    exact ⟨seen, up, down, fun link there => quiet link there rfl⟩
  · obtain ⟨r, link⟩ := p
    cases link with
    | none => exact .alone seen
    | some link => exact .linked seen (fun _ => eq_of_last) (down link rfl) fun none => absurd none (List.concat_ne_nil _ _)

theorem InTouch.moves (idempotent : ∀ v, view (view v) = view v) (touch : InTouch view s p)
    (moves : Local view k e s p s' p') : InTouch view s' p' := by
  cases moves with
  | stays other => exact touch
  | hears other changed => exact touch.hear _
  | @set v s p =>
    exact .change (idempotent v) touch.up touch.down fun link there same => same ▸ touch.quiet link there
  | @known s r up down behind =>
    refine .linked touch.seen (fun w last => touch.up _ rfl w (getLast?_of_tail last)) (fun w => touch.down _ rfl w) fun none _ _ => ?_
    have own : s = r := touch.up _ rfl s (by rw [show up = [] from none]; rfl)
    subst own
    exact touch.seen.symm
  | @news s v r up down behind changed =>
    exact .linked touch.seen (fun w last => touch.up _ rfl w (getLast?_of_tail last)) (fun _ => eq_of_last)
      fun _ none => absurd none (List.concat_ne_nil _ _)
  | @takes s v r up down behind =>
    refine .change (idempotent v) ?_ ?_ ?_
    · rintro _ ⟨⟩ w last
      exact touch.up _ rfl w last
    · rintro _ ⟨⟩ w last
      exact touch.down _ rfl w (getLast?_of_tail last)
    · rintro _ ⟨⟩ - - none -
      have last : v = s := touch.down _ rfl v (by rw [show down = [] from none]; rfl)
      rw [last]
  | @skips s v r up down behind =>
    exact .linked touch.seen (fun w => touch.up _ rfl w) (fun w last => touch.down _ rfl w (getLast?_of_tail last)) (by rintro - - ⟨⟩)
  | joins => exact .linked touch.seen (by rintro _ ⟨⟩) (by rintro _ ⟨⟩) (by rintro - - ⟨⟩)
  | leaves => exact .alone touch.seen

/-- What a step keeps; a peer with nothing under way has the hub's value then, if it took the last one that it read. -/
theorem inTouch_step (idempotent : ∀ v, view (view v) = view v) (touch : ∀ p ∈ hub.peers, InTouch view hub.value p)
    (head : hub.step view e = some next) : ∀ p ∈ next.peers, InTouch view next.value p := by
  intro after there
  obtain ⟨k, p, was, moves⟩ := step_local_back head there
  exact (touch p was).moves idempotent moves

end Agreement

section Deliveries
variable {view : V → V} {hub next : Hub V} {s s' a : V} {p p' : Peer V} {k : Nat} {e : Event V} {es : List (Event V)}

/-- What is under way on the link of a peer. -/
def Carries (P : V → Prop) (p : Peer V) : Prop := ∀ link ∈ p.link, ∀ v ∈ link.up ++ link.down, P v

theorem Carries.hear {P : V → Prop} {v : V} (carries : Carries P p) (allowed : P v) : Carries P (p.hear v) := by
  obtain ⟨r, link⟩ := p
  cases link with
  | none => rintro _ ⟨⟩
  | some link =>
    rintro _ ⟨⟩ w there
    rw [← List.append_assoc] at there
    rcases List.mem_append.mp there with old | new
    · exact carries link rfl w old
    · obtain rfl := List.mem_singleton.mp new
      exact allowed

theorem append_subset_append_cons (up : List V) (v : V) (down : List V) : up ++ down ⊆ up ++ v :: down :=
  List.append_subset.mpr ⟨List.subset_append_left .., List.subset_append_of_subset_right _ (List.subset_cons_self ..)⟩

variable [DecidableEq V]

theorem Local.value {P : V → Prop} (moves : Local view k e s p s' p') (own : e.peer? = some k) (carries : Carries P p) :
    s' = s ∨ P s' := by
  cases moves with
  | hears other changed => exact absurd own other
  | news changed => exact .inr (carries _ rfl _ (List.mem_cons_self ..))
  | stays | set | known | takes | skips | joins | leaves => exact .inl rfl

/-- The hub keeps its value or has one that was set or under way. -/
theorem value_of_step {P : V → Prop} (head : hub.step view e = some next) (within : e.Within view P)
    (carries : ∀ p ∈ hub.peers, Carries P p) : next.value = hub.value ∨ P next.value := by
  cases peer : e.peer? with
  | none =>
    cases e with
    | setHub v =>
      obtain rfl := Option.some.inj head
      rw [change_value]
      exact .inr within
    | setPeer | readHub | readPeer | join | leave => cases peer
  | some k =>
    obtain ⟨p, there⟩ := step_peer head peer
    obtain ⟨after, -, moves⟩ := step_local head there
    exact moves.value peer (carries p (List.mem_of_getElem? there))

theorem Carries.change {P : V → Prop} {v : V} (carries : Carries P p) (allowed : P v) : Carries P (p.change v) := by
  rw [Peer.change]
  split
  · exact carries
  · obtain ⟨r, link⟩ := p
    cases link with
    | none => rintro _ ⟨⟩
    | some link =>
      rintro _ ⟨⟩ w there
      simp only [List.append_assoc, List.mem_append, List.mem_singleton] at there
      rcases there with up | rfl | down
      · exact carries link rfl w (List.mem_append_left _ up)
      · exact allowed
      · exact carries link rfl w (List.mem_append_right _ down)

theorem Carries.moves {P : V → Prop} (keeps : ∀ v, P v → P (view v)) (carries : Carries P p) (within : e.Within view P)
    (moves : Local view k e s p s' p') (value : s' = s ∨ P s') : Carries P p' := by
  have smaller {r : V} {up down up' down' : List V} {behind behind' : Bool} (carries : Carries P ⟨r, some ⟨up, down, behind⟩⟩)
      (fewer : up' ++ down' ⊆ up ++ down) : Carries P ⟨r, some ⟨up', down', behind'⟩⟩ := by
    rintro _ ⟨⟩ v there
    exact carries _ rfl v (fewer there)
  cases moves with
  | stays other => exact carries
  | hears other changed => exact carries.hear (value.resolve_left changed)
  | known => exact smaller carries (List.subset_cons_self ..)
  | @news s v r up down behind changed =>
    have rest : Carries P ⟨r, some ⟨up, down, false⟩⟩ := smaller carries (List.subset_cons_self ..)
    exact rest.hear (value.resolve_left changed)
  | @takes s v r up down behind =>
    have rest : Carries P ⟨r, some ⟨up, down, false⟩⟩ :=
      smaller carries (append_subset_append_cons ..)
    exact rest.change (keeps v (carries _ rfl v (List.mem_append_right _ (List.mem_cons_self ..))))
  | skips => exact smaller carries (append_subset_append_cons ..)
  | set => exact carries.change within
  | joins => rintro _ ⟨⟩ _ ⟨⟩
  | leaves => rintro _ ⟨⟩

theorem carries_step {P : V → Prop} (keeps : ∀ v, P v → P (view v)) (carries : ∀ p ∈ hub.peers, Carries P p)
    (within : e.Within view P) (head : hub.step view e = some next) : ∀ p ∈ next.peers, Carries P p := by
  intro after there
  obtain ⟨k, p, was, moves⟩ := step_local_back head there
  exact (carries p was).moves keeps within moves (value_of_step head within carries)

end Deliveries

section OneValue
variable [DecidableEq V] {view : V → V} {hub next : Hub V} {s s' a : V} {p p' : Peer V} {k : Nat} {e : Event V} {es : List (Event V)}

/-- The deliveries that are left on a link when all that is under way is one value. -/
def Peer.pending (a s : V) (p : Peer V) : Nat :=
  match p.link with
  | none => 0
  | some link => link.up.length + link.down.length + (if p.value = a then 0 else 1) + (if s = a then 0 else 1)

def Hub.pending (a : V) (hub : Hub V) : Nat := (hub.peers.map (Peer.pending a hub.value)).sum

theorem pending_change (up down : List V) (r : V) :
    (Peer.change a ⟨r, some ⟨up, down, behind⟩⟩).pending a s = up.length + down.length + (if r = a then 0 else 1) + (if s = a then 0 else 1) := by
  rw [Peer.change]
  by_cases same : a = r
  · simp [Peer.pending, same]
  · simp [Peer.pending, same, Ne.symm same]
    omega

theorem Local.pending (moves : Local view k e s p s' p') (seen : view a = a) (only : Carries (· = a) p)
    (delivery : e.Delivery) (value : s' = s ∨ s' = a) :
    p'.pending a s' + (if e.peer? = some k then 1 else 0) = p.pending a s := by
  cases moves with
  | stays other => rw [if_neg other, Nat.add_zero]
  | hears other changed =>
    obtain rfl := value.resolve_left changed
    rw [if_neg other, Nat.add_zero]
    obtain ⟨r, link⟩ := p
    cases link with
    | none => rfl
    | some link =>
      change link.up.length + (link.down ++ [s']).length + (if r = s' then 0 else 1) + (if s' = s' then 0 else 1) =
        link.up.length + link.down.length + (if r = s' then 0 else 1) + (if s = s' then 0 else 1)
      rw [List.length_append, List.length_singleton, if_pos rfl, if_neg (Ne.symm changed)]
      omega
  | known =>
    simp [Peer.pending, Event.peer?]
    omega
  | news changed =>
    obtain rfl := value.resolve_left changed
    simp [Peer.pending, Event.peer?, Ne.symm changed]
    omega
  | @takes s v r up down behind =>
    obtain rfl := only _ rfl v (List.mem_append_right _ (List.mem_cons_self ..))
    rw [seen, pending_change]
    simp [Peer.pending, Event.peer?]
    omega
  | skips =>
    simp [Peer.pending, Event.peer?]
    omega
  | set | joins | leaves => exact delivery.elim

theorem sum_set {l : List Nat} {k n : Nat} (there : l[k]? = some (n + 1)) : (l.set k n).sum + 1 = l.sum := by
  induction l generalizing k with
  | nil => contradiction
  | cons m l ih =>
    cases k with
    | zero =>
      obtain rfl := Option.some.inj there
      simp only [List.set_cons_zero, List.sum_cons]
      omega
    | succ k =>
      rw [List.set_cons_succ, List.sum_cons, List.sum_cons, Nat.add_assoc, ih there]

/-- Each delivery takes one away from what is left. -/
theorem pending_step (seen : view a = a) (only : ∀ p ∈ hub.peers, Carries (· = a) p) (delivery : e.Delivery)
    (head : hub.step view e = some next) : next.pending a + 1 = hub.pending a := by
  have value := value_of_step head (delivery.within view _) only
  obtain ⟨k, own⟩ := delivery.peer
  obtain ⟨p, there⟩ := step_peer head own
  obtain ⟨after, found, moves⟩ := step_local head there
  have taken := moves.pending seen (only p (List.mem_of_getElem? there)) delivery value
  rw [if_pos own] at taken
  have rest : next.peers.map (Peer.pending a next.value) =
      (hub.peers.map (Peer.pending a hub.value)).set k (after.pending a next.value) := by
    refine List.ext_getElem? fun j => ?_
    rw [List.getElem?_map, List.getElem?_set, List.length_map, List.getElem?_map]
    split
    · rename_i same
      obtain rfl := same
      rw [if_pos (List.getElem?_eq_some_iff.mp there).1, found]
      rfl
    · rename_i other
      cases was : hub.peers[j]? with
      | none =>
        rw [List.getElem?_eq_none_iff, ← step_length head, ← List.getElem?_eq_none_iff] at was
        rw [was]
        rfl
      | some old =>
        obtain ⟨new, now, moves⟩ := step_local head was
        have same := moves.pending seen (only old (List.mem_of_getElem? was)) delivery value
        rw [if_neg (own ▸ fun mine => other (Option.some.inj mine))] at same
        rw [now]
        exact congrArg some same
  rw [Hub.pending, rest, Hub.pending]
  exact sum_set (by rw [List.getElem?_map, there, taken]; rfl)

/-- Nothing is under way. -/
def Hub.Quiet (hub : Hub V) : Prop := ∀ p ∈ hub.peers, ∀ link ∈ p.link, link.up = [] ∧ link.down = []

/-- The hub and all peers with a link have one value, and nothing is under way. -/
def Hub.Settled (a : V) (hub : Hub V) : Prop :=
  hub.value = a ∧ ∀ p ∈ hub.peers, ∀ link ∈ p.link, p.value = a ∧ link = ⟨[], [], false⟩

def Hub.links (hub : Hub V) : Nat := hub.peers.countP fun p => p.link.isSome

/-- The value is the only one under way, and it is on its way to all that do not have it. -/
structure Spreading (a : V) (hub : Hub V) : Prop where
  only : ∀ p ∈ hub.peers, Carries (· = a) p
  told : hub.value = a ∨ ∃ p ∈ hub.peers, ∃ link ∈ p.link, link.up ≠ []
  heard : ∀ p ∈ hub.peers, ∀ link ∈ p.link, link.behind = false ∧ (hub.value = a → p.value = a ∨ link.down ≠ [])

theorem Local.told (moves : Local view k e s p s' p') (arrival : e.Arrival) (only : Carries (· = a) p)
    (told : ∃ link ∈ p.link, link.up ≠ []) : s' = a ∨ ∃ link ∈ p'.link, link.up ≠ [] := by
  cases moves with
  | stays other => exact .inr told
  | hears other changed =>
    obtain ⟨link, there, up⟩ := told
    exact .inr ⟨_, Option.map_eq_some_iff.mpr ⟨link, there, rfl⟩, up⟩
  | known | news changed => exact .inl (only _ rfl _ (List.mem_cons_self ..))
  | @takes s v r up down behind =>
    obtain ⟨_, ⟨⟩, nonempty⟩ := told
    rw [Peer.change]
    split
    · exact .inr ⟨_, rfl, nonempty⟩
    · exact .inr ⟨_, rfl, List.append_ne_nil_of_left_ne_nil nonempty _⟩
  | skips => exact absurd arrival Bool.false_ne_true
  | set | joins | leaves => exact arrival.elim

theorem Local.heard (moves : Local view k e s p s' p') (seen : view a = a) (arrival : e.Arrival) (only : Carries (· = a) p)
    (heard : ∀ link ∈ p.link, link.behind = false ∧ (s = a → p.value = a ∨ link.down ≠ [])) :
    ∀ link ∈ p'.link, link.behind = false ∧ (s' = a → p'.value = a ∨ link.down ≠ []) := by
  cases moves with
  | stays other => exact heard
  | hears other changed =>
    intro _ there
    obtain ⟨link, old, rfl⟩ := Option.map_eq_some_iff.mp there
    exact ⟨(heard link old).1, fun _ => .inr (List.append_ne_nil_of_right_ne_nil _ (List.cons_ne_nil _ _))⟩
  | known =>
    rintro _ ⟨⟩
    exact ⟨rfl, (heard _ rfl).2⟩
  | news changed =>
    rintro _ ⟨⟩
    exact ⟨rfl, fun _ => .inr (List.append_ne_nil_of_right_ne_nil _ (List.cons_ne_nil _ _))⟩
  | @takes s v r up down behind =>
    obtain rfl := only _ rfl v (List.mem_append_right _ (List.mem_cons_self ..))
    rw [Peer.change]
    split
    · rename_i same
      rintro _ ⟨⟩
      exact ⟨rfl, fun _ => .inl (same.symm.trans seen)⟩
    · rintro _ ⟨⟩
      exact ⟨rfl, fun _ => .inl seen⟩
  | skips => exact absurd arrival Bool.false_ne_true
  | set | joins | leaves => exact arrival.elim

theorem Spreading.step (spreading : Spreading a hub) (seen : view a = a) (arrival : e.Arrival)
    (head : hub.step view e = some next) : Spreading a next := by
  refine ⟨carries_step (by rintro v rfl; exact seen) spreading.only (arrival.delivery.within view _) head, ?_, ?_⟩
  · rcases spreading.told with same | ⟨p, there, told⟩
    · exact .inl ((value_of_step head (arrival.delivery.within view _) spreading.only).elim (·.trans same) id)
    · obtain ⟨k, at_k⟩ := List.mem_iff_getElem?.mp there
      obtain ⟨after, found, moves⟩ := step_local head at_k
      exact (moves.told arrival (spreading.only p there) told).imp id fun told => ⟨after, List.mem_of_getElem? found, told⟩
  · intro after there
    obtain ⟨k, p, was, moves⟩ := step_local_back head there
    exact moves.heard seen arrival (spreading.only p was) (spreading.heard p was)

omit [DecidableEq V] in
theorem Spreading.settled (spreading : Spreading a hub) (quiet : hub.Quiet) : hub.Settled a := by
  have value : hub.value = a := by
    refine spreading.told.resolve_right ?_
    rintro ⟨p, there, link, on, up⟩
    exact up (quiet p there link on).1
  refine ⟨value, fun p there link on => ?_⟩
  obtain ⟨taken, heard⟩ := spreading.heard p there link on
  obtain ⟨up, down⟩ := quiet p there link on
  refine ⟨(heard value).resolve_right (· down), ?_⟩
  obtain ⟨_, _, _⟩ := link
  obtain rfl := up
  obtain rfl := down
  obtain rfl := taken
  rfl

theorem Settled.pending (settled : hub.Settled a) : hub.pending a = 0 := by
  refine List.sum_eq_zero fun n there => ?_
  obtain ⟨⟨r, link⟩, on, rfl⟩ := List.mem_map.mp there
  cases link with
  | none => rfl
  | some link =>
    obtain ⟨rfl, rfl⟩ := settled.2 _ on link rfl
    simp [Peer.pending, settled.1]

/-- One value that spreads is everywhere after as many deliveries as are left. -/
theorem Spreading.run (spreading : Spreading a hub) (seen : view a = a) (arrivals : ∀ e ∈ es, e.Arrival)
    (run : exec (Hub.step view) hub es = some next) :
    Spreading a next ∧ es.length ≤ hub.pending a ∧ (next.Quiet → es.length = hub.pending a ∧ next.Settled a) := by
  obtain ⟨final, count⟩ := exec_measure (Hub.pending a) (P := Spreading a)
    (fun spreading arrival head => ⟨spreading.step seen arrival head, pending_step seen spreading.only arrival.delivery head⟩)
    run arrivals spreading
  refine ⟨final, by omega, fun quiet => ?_⟩
  have settled := final.settled quiet
  rw [Settled.pending settled, Nat.zero_add] at count
  exact ⟨count, settled⟩

/-- The hub's user or a peer with a link sets the value. -/
def Hub.Sets (a : V) (hub : Hub V) : Event V → Prop
  | .setHub v => v = a
  | .setPeer k v => v = a ∧ ∃ r link, hub.peers[k]? = some ⟨r, some link⟩
  | _ => False

theorem Local.isSome (moves : Local view k e s p s' p') (sets : hub.Sets a e) : p'.link.isSome = p.link.isSome := by
  cases moves with
  | stays other => rfl
  | hears other changed => exact Option.isSome_map
  | set =>
    rw [Peer.change]
    split
    · rfl
    · exact Option.isSome_map
  | known | news | takes | skips | joins | leaves => exact sets.elim

theorem links_step (sets : hub.Sets a e) (head : hub.step view e = some next) : next.links = hub.links := by
  have same : next.peers.map (fun p => p.link.isSome) = hub.peers.map fun p => p.link.isSome := by
    refine List.ext_getElem? fun k => ?_
    rw [List.getElem?_map, List.getElem?_map]
    cases was : hub.peers[k]? with
    | none =>
      rw [List.getElem?_eq_none_iff, ← step_length head, ← List.getElem?_eq_none_iff] at was
      rw [was]
    | some p =>
      obtain ⟨after, now, moves⟩ := step_local head was
      rw [now]
      exact congrArg some (moves.isSome sets)
  have count (hub : Hub V) : hub.links = (hub.peers.map fun p => p.link.isSome).countP id := by
    rw [List.countP_map]
    rfl
  rw [count, same, ← count]

/-- Behind a change that meets nothing under way two deliveries are left on each link. -/
theorem Local.opens {c : V} (moves : Local view k e s p s' p') (sets : hub.Sets a e) (changed : a ≠ c) (seen : view a = a)
    (settled : ∀ link ∈ p.link, p.value = c ∧ link = ⟨[], [], false⟩) (start : s = c) (value : s' = s ∨ s' = a) :
    p'.pending a s' = (if p'.link.isSome then 2 else 0) ∧ Carries (· = a) p' ∧
      ∀ link ∈ p'.link, link.behind = false ∧ (s' = a → p'.value = a ∨ link.down ≠ []) := by
  subst c
  obtain ⟨r, link⟩ := p
  cases link with
  | none =>
    have unlinked : p'.link = none := Option.isNone_iff_eq_none.mp (by
      rw [Option.isNone_iff_eq_none, ← Option.not_isSome_iff_eq_none, moves.isSome sets]
      exact Bool.false_ne_true)
    obtain ⟨_, _⟩ := p'
    obtain rfl := unlinked
    exact ⟨rfl, by rintro _ ⟨⟩, by rintro _ ⟨⟩⟩
  | some link =>
    obtain ⟨rfl, rfl⟩ := settled link rfl
    cases moves with
    | stays other =>
      refine ⟨?_, by rintro _ ⟨⟩ _ ⟨⟩, ?_⟩
      · simp [Peer.pending, Ne.symm changed]
      · rintro _ ⟨⟩
        exact ⟨rfl, fun same => absurd same.symm changed⟩
    | hears other news =>
      obtain rfl := value.resolve_left news
      refine ⟨?_, ?_, ?_⟩
      · simp [Peer.pending, Peer.hear, Ne.symm changed]
      · rintro _ ⟨⟩ v there
        exact List.mem_singleton.mp there
      · rintro _ ⟨⟩
        exact ⟨rfl, fun _ => .inr (List.cons_ne_nil _ _)⟩
    | set =>
      obtain ⟨rfl, -⟩ := sets
      rw [seen, Peer.change, if_neg changed]
      refine ⟨?_, ?_, ?_⟩
      · simp [Peer.pending, Ne.symm changed]
      · rintro _ ⟨⟩ v there
        exact List.mem_singleton.mp there
      · rintro _ ⟨⟩
        exact ⟨rfl, fun _ => .inl rfl⟩
    | leaves => exact sets.elim

theorem sum_pending {l : List (Peer V)} (each : ∀ p ∈ l, p.pending a s = if p.link.isSome then 2 else 0) :
    (l.map (Peer.pending a s)).sum = 2 * l.countP fun p => p.link.isSome := by
  induction l with
  | nil => rfl
  | cons p l ih =>
    obtain ⟨here, later⟩ := List.forall_mem_cons.mp each
    rw [List.map_cons, List.sum_cons, here, ih later, List.countP_cons]
    split <;> omega

theorem Settled.spreading {c : V} (settled : hub.Settled c) (sets : hub.Sets a e) (changed : a ≠ c) (seen : view a = a)
    (head : hub.step view e = some next) : Spreading a next ∧ next.pending a = 2 * hub.links := by
  have value : next.value = hub.value ∨ next.value = a := by
    cases e with
    | setHub v =>
      obtain rfl := sets
      obtain rfl := Option.some.inj head
      exact .inr (change_value ..)
    | setPeer k v =>
      obtain ⟨p, there, rfl⟩ := Option.map_eq_some_iff.mp head
      exact .inl rfl
    | readHub | readPeer | join | leave => exact sets.elim
  have opens : ∀ p ∈ next.peers, p.pending a next.value = (if p.link.isSome then 2 else 0) ∧ Carries (· = a) p ∧
      ∀ link ∈ p.link, link.behind = false ∧ (next.value = a → p.value = a ∨ link.down ≠ []) := by
    intro after there
    obtain ⟨k, p, was, moves⟩ := step_local_back head there
    exact moves.opens sets changed seen (settled.2 p was) settled.1 value
  have told : next.value = a ∨ ∃ p ∈ next.peers, ∃ link ∈ p.link, link.up ≠ [] := by
    cases e with
    | setHub v =>
      obtain rfl := sets
      obtain rfl := Option.some.inj head
      exact .inl (change_value ..)
    | setPeer k v =>
      obtain ⟨rfl, r, link, at_k⟩ := sets
      obtain ⟨rfl, rfl⟩ := settled.2 _ (List.mem_of_getElem? at_k) link rfl
      obtain ⟨p, there, rfl⟩ := Option.map_eq_some_iff.mp head
      obtain rfl := Option.some.inj (at_k.symm.trans there)
      refine .inr ⟨_, List.mem_of_getElem? (by rw [put_get at_k, if_pos rfl]), ?_⟩
      rw [seen, Peer.change, if_neg changed]
      exact ⟨_, rfl, List.cons_ne_nil _ _⟩
    | readHub | readPeer | join | leave => exact sets.elim
  refine ⟨⟨fun p there => (opens p there).2.1, told, fun p there => (opens p there).2.2⟩, ?_⟩
  rw [← links_step sets head]
  exact sum_pending fun p there => (opens p there).1

/-- A change that meets nothing under way is everywhere after two deliveries on each link, in whatever order. -/
theorem one_change {c : V} (settled : hub.Settled c) (sets : hub.Sets a e) (changed : a ≠ c) (seen : view a = a)
    (arrivals : ∀ e ∈ es, e.Arrival) (run : exec (Hub.step view) hub (e :: es) = some next) :
    Spreading a next ∧ es.length ≤ 2 * hub.links ∧ (next.Quiet → es.length = 2 * hub.links ∧ next.Settled a) := by
  obtain ⟨middle, head, tail⟩ := exec_cons.mp run
  obtain ⟨spreading, pending⟩ := Settled.spreading settled sets changed seen head
  exact pending ▸ spreading.run seen arrivals tail

end OneValue

section Restless
variable [DecidableEq V] {view : V → V} {hub next : Hub V} {s s' : V} {p p' : Peer V} {k : Nat} {e : Event V} {es : List (Event V)}

/-- How often a value is followed by another one. -/
def changes (v : V) : List V → Nat
  | [] => 0
  | w :: l => (if v = w then 0 else 1) + changes w l

theorem changes_concat (v : V) (l : List V) (w : V) :
    changes v (l ++ [w]) = changes v l + if l.getLastD v = w then 0 else 1 := by
  induction l generalizing v with
  | nil => exact Nat.add_comm ..
  | cons x l ih => rw [List.cons_append, changes, changes, ih, List.getLastD_cons, Nat.add_assoc]

theorem changes_le (v w : V) (l : List V) : changes v l ≤ changes w l + 1 := by
  cases l with
  | nil => exact Nat.zero_le _
  | cons x l =>
    rw [changes, changes]
    split <;> omega

theorem getLastD_of_changes {v : V} {l : List V} (none : changes v l = 0) : l.getLastD v = v := by
  induction l with
  | nil => rfl
  | cons w l ih =>
    rw [changes] at none
    split at none
    · rename_i same
      subst w
      rw [List.getLastD_cons]
      exact ih (by omega)
    · omega

/-- What comes back to its start has not changed once only. -/
theorem changes_ne_one {v : V} {l : List V} (back : l.getLastD v = v) : changes v l ≠ 1 := by
  induction l with
  | nil => exact Nat.zero_ne_one
  | cons w l ih =>
    rw [List.getLastD_cons] at back
    rw [changes]
    split
    · rename_i same
      subst w
      rw [Nat.zero_add]
      exact ih back
    · rename_i differs
      intro one
      rw [getLastD_of_changes (by omega)] at back
      exact differs back.symm

/-- The changes that are under way on a link, in both directions. -/
def Peer.tension (s : V) (p : Peer V) : Nat :=
  match p.link with
  | none => 0
  | some link => changes p.value link.down + changes s link.up

theorem tension_some {up down : List V} {r : V} :
    Peer.tension s ⟨r, some ⟨up, down, behind⟩⟩ = changes r down + changes s up := rfl

theorem changes_cons (v w : V) (l : List V) : changes v (w :: l) = (if v = w then 0 else 1) + changes w l := rfl

/-- When the hub takes another value, what is under way still has as many changes. -/
theorem tension_hear (up down : List V) {r v : V} (ups : up ≠ [] → up.getLastD v = r) (downs : down ≠ [] → down.getLastD r = s)
    (changed : v ≠ s) (before : 2 ≤ changes r down + (changes v up + 1) ∨ 2 ≤ changes r down + changes s up) :
    2 ≤ changes r (down ++ [v]) + changes v up := by
  have enough : 2 ≤ changes r down + (changes v up + 1) := before.elim id fun before =>
    Nat.le_trans before (Nat.add_le_add_left (changes_le s v up) _)
  rw [changes_concat]
  by_cases nonempty : down = []
  · subst down
    rw [List.getLastD_nil]
    split
    · rename_i same
      subst r
      have back : up.getLastD v = v := by
        by_cases none : up = []
        · rw [none, List.getLastD_nil]
        · exact ups none
      have twice := changes_ne_one back
      rw [changes] at enough ⊢
      omega
    · omega
  · rw [downs nonempty, if_neg (Ne.symm changed)]
    omega

theorem Local.tension (moves : Local view k e s p s' p') (touch : InTouch view s p) (plain : Carries (fun v => view v = v) p)
    (delivery : e.Delivery) (taken : e ≠ .readPeer k false) (enough : 2 ≤ p.tension s) : 2 ≤ p'.tension s' := by
  cases moves with
  | stays other => exact enough
  | @hears e s p v other changed =>
    obtain ⟨r, link⟩ := p
    cases link with
    | none => exact absurd enough (Nat.not_succ_le_zero 1)
    | some link => exact tension_hear _ _ touch.up_getLastD touch.down_getLastD changed (.inr enough)
  | known =>
    rw [tension_some, changes_cons, if_pos rfl, Nat.zero_add] at enough
    exact enough
  | @news s v r up down behind changed =>
    rw [tension_some, changes_cons, if_neg (Ne.symm changed), Nat.add_comm 1] at enough
    refine tension_hear _ _ (fun nonempty => ?_) touch.down_getLastD changed (.inl enough)
    rw [← touch.up_getLastD (v := s) (List.cons_ne_nil _ _), List.getLastD_cons]
  | @takes s v r up down behind =>
    rw [plain _ rfl v (List.mem_append_right _ (List.mem_cons_self ..)), Peer.change]
    split
    · rename_i same
      subst same
      rw [tension_some, changes_cons, if_pos rfl, Nat.zero_add] at enough
      exact enough
    · rename_i changed
      rw [tension_some, changes_cons, if_neg (Ne.symm changed)] at enough
      have other := tension_hear (r := s) (s := r) (v := v) down up ?_ ?_ changed (.inl (by omega))
      · exact (Nat.add_comm ..).trans_ge other
      · intro nonempty
        rw [← touch.down_getLastD (v := s) (List.cons_ne_nil _ _), List.getLastD_cons]
      · exact touch.up_getLastD
  | skips => exact absurd rfl taken
  | set | joins | leaves => exact delivery.elim

/-- Peers with values of `view` only, and these under way. -/
structure Hub.Sound (view : V → V) (hub : Hub V) : Prop where
  touch : ∀ p ∈ hub.peers, InTouch view hub.value p
  plain : ∀ p ∈ hub.peers, Carries (fun v => view v = v) p

theorem Hub.Sound.step (idempotent : ∀ v, view (view v) = view v) (sound : hub.Sound view) (delivery : e.Delivery)
    (head : hub.step view e = some next) : next.Sound view :=
  ⟨inTouch_step idempotent sound.touch head, carries_step (fun v _ => idempotent v) sound.plain (delivery.within view _) head⟩

/-- With two changes under way on a link something is under way on it for ever, whatever else arrives. -/
theorem restless (idempotent : ∀ v, view (view v) = view v) (sound : hub.Sound view) (there : hub.peers[k]? = some p)
    (twice : 2 ≤ p.tension hub.value) (deliveries : ∀ e ∈ es, e.Delivery ∧ e ≠ .readPeer k false)
    (run : exec (Hub.step view) hub es = some next) : ∃ after, next.peers[k]? = some after ∧ 2 ≤ after.tension next.value := by
  refine (exec_invariant_of_forall (P := fun hub : Hub V => hub.Sound view ∧ ∃ p, hub.peers[k]? = some p ∧ 2 ≤ p.tension hub.value)
    ?_ run deliveries ⟨sound, p, there, twice⟩).2
  rintro hub e next ⟨sound, p, there, twice⟩ ⟨delivery, taken⟩ head
  obtain ⟨after, found, moves⟩ := step_local head there
  have there := List.mem_of_getElem? there
  exact ⟨sound.step idempotent delivery head, after, found,
    moves.tension (sound.touch p there) (sound.plain p there) delivery taken twice⟩

/-- The hub and a peer set different values before either has read the other's. -/
theorem tension_of_crossing {middle : Hub V} {a b r : V} (there : hub.peers[k]? = some ⟨r, some ⟨[], [], behind⟩⟩)
    (news : a ≠ hub.value) (seen : view b = b) (other : b ≠ r) (differ : a ≠ b) (first : hub.step view (.setHub a) = some middle)
    (second : middle.step view (.setPeer k b) = some next) : ∃ p, next.peers[k]? = some p ∧ 2 ≤ p.tension next.value := by
  obtain rfl := Option.some.inj first
  have heard : (hub.change a).peers[k]? = some ⟨r, some ⟨[], [a], behind⟩⟩ := by
    rw [change_get, there]
    simp only [if_neg news, Option.map_some]
    rfl
  rw [Hub.step, heard, seen] at second
  obtain rfl := Option.some.inj second
  refine ⟨_, by rw [put_get heard, if_pos rfl], ?_⟩
  have value : ((hub.change a).put k (Peer.change b ⟨r, some ⟨[], [a], behind⟩⟩)).value = a := change_value a hub
  rw [value, Peer.change, if_neg other]
  change 2 ≤ changes b [a] + changes a [b]
  rw [changes_cons, changes_cons, if_neg differ, if_neg (Ne.symm differ)]
  exact Nat.le_refl 2

theorem under_way_of_tension {r : V} {link : Link V} (some_change : Peer.tension s ⟨r, some link⟩ ≠ 0) :
    link.up ≠ [] ∨ link.down ≠ [] := by
  obtain ⟨up, down, behind⟩ := link
  by_contra none
  obtain ⟨rfl, rfl⟩ := not_or.mp none |>.imp not_not.mp not_not.mp
  exact some_change rfl

theorem step_readHub {r v : V} {up down : List V} (there : hub.peers[k]? = some ⟨r, some ⟨v :: up, down, behind⟩⟩) :
    hub.step view (.readHub k) = some ((hub.put k ⟨r, some ⟨up, down, false⟩⟩).change v) := by
  rw [Hub.step, there]

theorem step_readPeer {r v : V} {up down : List V} (there : hub.peers[k]? = some ⟨r, some ⟨up, v :: down, behind⟩⟩) :
    hub.step view (.readPeer k taken) =
      some (hub.put k (if taken then Peer.change (view v) ⟨r, some ⟨up, down, false⟩⟩ else ⟨r, some ⟨up, down, true⟩⟩)) := by
  rw [Hub.step, there]

/-- The deliveries that are left of a link that is alone. -/
def Peer.remaining (s : V) (p : Peer V) : Nat := (p.link.elim 0 fun link => link.up.length + link.down.length) + p.tension s

/-- A value that is the only change under way on a link is the last one behind which nothing comes back. -/
theorem alone_of_once {own other v : V} {rest back : List V} (changed : v ≠ own) (last : rest.getLastD v = other)
    (returns : back ≠ [] → back.getLastD other = own) (once : changes other back + (1 + changes v rest) ≤ 1) : v = other ∧ back = [] := by
  have same : v = other := (getLastD_of_changes (by omega)).symm.trans last
  refine ⟨same, ?_⟩
  by_contra nonempty
  have last := returns nonempty
  rw [getLastD_of_changes (by omega)] at last
  exact changed (same.trans last)

/-- One change at most that is under way on a link that is alone is not under way for ever. -/
theorem Local.remaining (moves : Local view k e s p s' p') (touch : InTouch view s p) (plain : Carries (fun v => view v = v) p)
    (own : e.peer? = some k) (arrival : e.Arrival) (once : p.tension s ≤ 1) :
    p'.tension s' ≤ 1 ∧ p'.remaining s' + 1 = p.remaining s := by
  cases moves with
  | stays other | hears other => exact absurd own other
  | known =>
    rw [Peer.remaining, Peer.remaining, tension_some, tension_some, changes_cons, if_pos rfl, Nat.zero_add] at *
    simp only [Option.elim_some, List.length_cons]
    omega
  | @news s v r up down behind changed =>
    rw [tension_some, changes_cons, if_neg (Ne.symm changed)] at once
    have last : up.getLastD s' = r := by rw [← touch.up_getLastD (v := s) (List.cons_ne_nil _ _), List.getLastD_cons]
    obtain ⟨same, none⟩ := alone_of_once changed last touch.down_getLastD once
    subst none same
    change changes s' [s'] + changes s' up ≤ 1 ∧ up.length + 1 + (changes s' [s'] + changes s' up) + 1 =
      up.length + 1 + 0 + (0 + ((if s = s' then 0 else 1) + changes s' up))
    rw [changes_cons, if_pos rfl, if_neg (Ne.symm changed)]
    simp only [changes] at once ⊢
    omega
  | @takes s v r up down behind =>
    rw [plain _ rfl v (List.mem_append_right _ (List.mem_cons_self ..)), Peer.change]
    split
    · rename_i same
      subst same
      rw [Peer.remaining, Peer.remaining, tension_some, tension_some, changes_cons, if_pos rfl, Nat.zero_add] at *
      simp only [Option.elim_some, List.length_cons]
      omega
    · rename_i changed
      rw [tension_some, changes_cons, if_neg (Ne.symm changed)] at once
      have last : down.getLastD v = s := by rw [← touch.down_getLastD (v := s) (List.cons_ne_nil _ _), List.getLastD_cons]
      obtain ⟨same, none⟩ := alone_of_once changed last touch.up_getLastD ((Nat.add_comm ..).trans_le once)
      subst none same
      change changes v down + changes v [v] ≤ 1 ∧ 1 + down.length + (changes v down + changes v [v]) + 1 =
        0 + (down.length + 1) + ((if r = v then 0 else 1) + changes v down + 0)
      rw [changes_cons, if_pos rfl, if_neg (Ne.symm changed)]
      simp only [changes] at once ⊢
      omega
  | skips => exact absurd arrival Bool.false_ne_true
  | set | joins | leaves => exact arrival.elim

theorem rests_of_once (idempotent : ∀ v, view (view v) = view v) (sound : hub.Sound view) (alone : hub.peers = [p])
    (once : p.tension hub.value ≤ 1) (arrivals : ∀ e ∈ es, e.Arrival) (run : exec (Hub.step view) hub es = some next) :
    es.length ≤ p.remaining hub.value := by
  have count := (exec_measure (fun hub : Hub V => (hub.peers.map (Peer.remaining hub.value)).sum)
    (P := fun hub : Hub V => hub.Sound view ∧ ∃ p, hub.peers = [p] ∧ p.tension hub.value ≤ 1) ?_ run arrivals
    ⟨sound, p, alone, once⟩).2
  · simp only [alone, List.map_cons, List.map_nil, List.sum_cons, List.sum_nil] at count
    omega
  · rintro hub e next ⟨sound, p, alone, once⟩ arrival head
    obtain ⟨k, own⟩ := arrival.delivery.peer
    obtain ⟨q, there⟩ := step_peer head own
    obtain ⟨after, found, moves⟩ := step_local head there
    rw [alone, List.getElem?_singleton] at there
    split at there
    · rename_i first
      subst first
      obtain rfl := Option.some.inj there
      have on : p ∈ hub.peers := alone ▸ List.mem_singleton_self p
      have still : next.peers = [after] := by
        have length := step_length head
        rw [alone, List.length_singleton] at length
        obtain ⟨only, one⟩ := List.length_eq_one_iff.mp length
        rw [one] at found ⊢
        exact congrArg (· :: []) (Option.some.inj found)
      obtain ⟨once, less⟩ := moves.remaining (sound.touch p on) (sound.plain p on) own arrival once
      refine ⟨⟨sound.step idempotent arrival.delivery head, after, still, once⟩, ?_⟩
      simpa only [alone, still, List.map_cons, List.map_nil, List.sum_cons, List.sum_nil, Nat.add_zero] using less
    · contradiction

end Restless
end RemoteObjects.Echo
