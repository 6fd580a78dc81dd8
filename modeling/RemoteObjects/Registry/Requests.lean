import RemoteObjects.Registry.Registration

/-! What the requests of a host do to its entries, and what its registry sends when its sources change. -/
namespace RemoteObjects.Registry.Registration
open Host (Name)
open Registry.Agreement (Request)
open Ownership (Hosts)

section Requests
variable {Url : Type} {name : Name} {registered : Bool} {requests later : List (Request Url)}

/-- What a request of a host does to its entry of a name. -/
def registers (name : Name) (registered : Bool) : Request Url → Bool
  | .invoke (.addSource entry) => registered || decide (entry.name = name)
  | .invoke (.removeSource entry) => registered && decide (entry.name ≠ name)
  | .addObject => registered

/-- Whether there is an entry when the requests have been served. -/
def WillBe (name : Name) (registered : Bool) (requests : List (Request Url)) : Prop :=
  requests.foldl (registers name) registered = true

theorem willBe_cons {request : Request Url} :
    WillBe name registered (request :: requests) ↔ WillBe name (registers name registered request) requests := Iff.rfl

theorem willBe_append : WillBe name registered (requests ++ later) ↔ WillBe name (requests.foldl (registers name) registered) later := by
  rw [WillBe, WillBe, List.foldl_append]

theorem WillBe.mono (willBe : WillBe name registered requests) : WillBe name true requests := by
  cases registered with
  | true => exact willBe
  | false =>
    induction requests with
    | nil => contradiction
    | cons request requests ih =>
      rw [willBe_cons] at willBe ⊢
      cases after : registers name true request with
      | true =>
        cases before : registers name false request with
        | true =>
          rw [before] at willBe
          exact willBe
        | false =>
          rw [before] at willBe
          exact ih willBe
      | false =>
        have before : registers name false request = false := by
          cases request with
          | addObject => rfl
          | invoke slot =>
            cases slot with
            | addSource entry => simp [registers] at after
            | removeSource entry => rfl
        rwa [before] at willBe

theorem WillBe.more {now : Bool} (willBe : WillBe name registered requests) (more : registered = true → now = true) :
    WillBe name now requests := by
  cases now with
  | true => exact willBe.mono
  | false =>
    rw [Bool.eq_false_iff.mpr fun before => Bool.false_ne_true (more before)] at willBe
    exact willBe

/-- Requests for other names do not matter. -/
theorem WillBe.others (willBe : WillBe name registered requests) (others : ∀ slot, .invoke slot ∈ later → slot.entry.name ≠ name) :
    WillBe name registered (requests ++ later) := by
  rw [willBe_append, show requests.foldl (registers name) registered = true from willBe]
  induction later with
  | nil => rfl
  | cons request later ih =>
    rw [willBe_cons]
    have same : registers name true request = true := by
      cases request with
      | addObject => rfl
      | invoke slot =>
        have other := others slot List.mem_cons_self
        cases slot with
        | addSource entry => rfl
        | removeSource entry => simpa [registers, Slot.entry] using other
    rw [same]
    exact ih fun slot member => others slot (List.mem_cons_of_mem request member)

/-- Behind a request to add the entry it does not matter whether there was one. -/
theorem WillBe.again (willBe : WillBe name true requests) {entry : SourceLocation Url}
    (member : .invoke (.addSource entry) ∈ requests) (named : entry.name = name) : WillBe name false requests := by
  induction requests with
  | nil => contradiction
  | cons request requests ih =>
    rw [willBe_cons] at willBe ⊢
    obtain rfl | behind := List.mem_cons.mp member
    · simpa [registers, named] using willBe
    · cases after : registers name true request with
      | true =>
        rw [after] at willBe
        cases before : registers name false request with
        | true => exact willBe
        | false => exact ih willBe behind
      | false =>
        rw [after] at willBe
        have before : registers name false request = false := by
          cases request with
          | addObject => rfl
          | invoke slot =>
            cases slot with
            | addSource entry => simp [registers] at after
            | removeSource entry => rfl
        rwa [before]

/-- Requests that only add entries, one of them of the name. -/
theorem willBe_added {slots : List (SourceLocation Url)} (named : registered = true ∨ ∃ entry ∈ slots, entry.name = name) :
    WillBe name registered (slots.map fun entry => .invoke (.addSource entry)) := by
  induction slots generalizing registered with
  | nil =>
    obtain here | ⟨_, none, _⟩ := named
    · exact here
    · contradiction
  | cons entry slots ih =>
    rw [List.map_cons, willBe_cons]
    apply ih
    simp only [registers, Bool.or_eq_true, decide_eq_true_eq]
    obtain here | ⟨other, member, named⟩ := named
    · exact .inl (.inl here)
    · obtain rfl | behind := List.mem_cons.mp member
      · exact .inl (.inr named)
      · exact .inr ⟨other, behind, named⟩

end Requests

section Locations
variable {Conn Host Url : Type} [Inhabited Url] [DecidableEq Url] {hosts : Hosts Host Url} {host : Option Host} {name : Name}
  {locations : SourceLocations Url} {slot : Slot Url}

/-- Whether the entry of the name is one of the host. -/
def holds (hosts : Hosts Host Url) (host : Option Host) (name : Name) (locations : SourceLocations Url) : Bool :=
  (locations name).any fun info => info.hostUrl = hosts.url host

theorem holds_iff : holds hosts host name locations = true ↔ ∃ info, locations name = some info ∧ info.hostUrl = hosts.url host := by
  simp only [holds, Option.any_eq_true, decide_eq_true_eq]

/-- Slots of other hosts leave the entries of a host as they are. -/
theorem holds_foreign (foreign : slot.entry.info.hostUrl ≠ hosts.url host) :
    holds hosts host name (locations.invoke slot).1 = holds hosts host name locations := by
  rw [Bool.eq_iff_iff, holds_iff, holds_iff]
  constructor
  · rintro ⟨info, there, same⟩
    obtain before | ⟨_, _, rfl⟩ := invoke_some there
    · exact ⟨info, before, same⟩
    · exact absurd same foreign
  · rintro ⟨info, before, same⟩
    obtain kept | gone := invoke_kept before
    · exact ⟨info, kept, same⟩
    · obtain ⟨entry, rfl, _, url⟩ := invoke_none before gone
      exact absurd (url.symm.trans same) foreign

/-- Slots for other names do so too. -/
theorem holds_others (other : slot.entry.name ≠ name) :
    holds hosts host name (locations.invoke slot).1 = holds hosts host name locations := by
  rw [Bool.eq_iff_iff, holds_iff, holds_iff]
  constructor
  · rintro ⟨info, there, same⟩
    obtain before | ⟨_, named, _⟩ := invoke_some there
    · exact ⟨info, before, same⟩
    · exact absurd named.symm other
  · rintro ⟨info, before, same⟩
    obtain kept | gone := invoke_kept before
    · exact ⟨info, kept, same⟩
    · obtain ⟨entry, rfl, named, _⟩ := invoke_none before gone
      exact absurd named.symm other

theorem holds_kept {entry : SourceLocation Url} (held : holds hosts host name locations = true) :
    holds hosts host name (locations.addSource entry).1 = true := by
  obtain ⟨info, there, same⟩ := holds_iff.mp held
  exact holds_iff.mpr ⟨info, addSource_some.mpr (.inl there), same⟩

theorem holds_added {entry : SourceLocation Url} (own : entry.info.hostUrl = hosts.url host) (named : entry.name = name)
    (free : locations name = none ∨ holds hosts host name locations = true) :
    holds hosts host name (locations.addSource entry).1 = true := by
  obtain free | held := free
  · exact holds_iff.mpr ⟨entry.info, addSource_some.mpr (.inr ⟨free, named.symm, rfl⟩), own⟩
  · exact holds_kept held

theorem holds_removed {entry : SourceLocation Url} (own : entry.info.hostUrl = hosts.url host) (named : entry.name = name) :
    holds hosts host name (locations.removeSource entry).1 = false := by
  rw [Bool.eq_false_iff, Ne, holds_iff]
  rintro ⟨info, there, same⟩
  exact (removeSource_some.mp there).2 ⟨named.symm, same.trans own.symm⟩

theorem holds_removeServer {url : Url} :
    holds hosts host name (locations.removeServer url) = (holds hosts host name locations && decide (hosts.url host ≠ url)) := by
  rw [Bool.eq_iff_iff, Bool.and_eq_true, holds_iff, holds_iff, decide_eq_true_eq]
  constructor
  · rintro ⟨info, there, same⟩
    obtain ⟨before, foreign⟩ := removeServer_some.mp there
    exact ⟨⟨info, before, same⟩, same ▸ foreign⟩
  · rintro ⟨⟨info, before, same⟩, foreign⟩
    exact ⟨info, removeServer_some.mpr ⟨before, same ▸ foreign⟩, same⟩

/-- A slot of the host does what its request does, unless another host has the name. -/
theorem holds_invoke (own : slot.entry.info.hostUrl = hosts.url host)
    (free : ∀ entry, slot = .addSource entry → entry.name = name → locations name = none ∨ holds hosts host name locations = true) :
    holds hosts host name (locations.invoke slot).1 = registers name (holds hosts host name locations) (.invoke slot) := by
  cases slot with
  | addSource entry =>
    change entry.info.hostUrl = hosts.url host at own
    by_cases named : entry.name = name
    · rw [SourceLocations.invoke, holds_added own named (free entry rfl named)]
      simpa [registers] using .inr named
    · have same : holds hosts host name (locations.invoke (.addSource entry)).1 = holds hosts host name locations := holds_others named
      rw [same]
      simpa [registers] using fun here => absurd here named
  | removeSource entry =>
    change entry.info.hostUrl = hosts.url host at own
    by_cases named : entry.name = name
    · rw [SourceLocations.invoke, holds_removed own named]
      simpa [registers] using fun _ => named
    · have same : holds hosts host name (locations.invoke (.removeSource entry)).1 = holds hosts host name locations := holds_others named
      rw [same]
      simpa [registers] using fun _ => named

end Locations

section Registries
variable {Conn Url : Type} {name : Name} {r : HostRegistry Conn Url} {entry : SourceLocation Url} {sources later : Name → Option Name}

def HostRegistry.HasSource (r : HostRegistry Conn Url) (name : Name) : Prop := ∃ entry ∈ r.hostedSources, entry.name = name

/-- A registry goes along when the sources of its host change: it has the source while the host has it, and what it sends
makes for an entry. -/
structure HostRegistry.Follows (name : Name) (sources later : Name → Option Name) (r : HostRegistry Conn Url)
    (result : HostRegistry Conn Url × List (Slot Url)) : Prop where
  hosted : result.1.HasSource name ↔ later name ≠ none
  sent : ∀ registered requests, result.1.state = .valid → later name ≠ none →
    (r.state = .valid → sources name ≠ none → WillBe name registered requests) →
      WillBe name registered (requests ++ result.2.map .invoke)

/-- A change for other names. -/
theorem follows_others {result : HostRegistry Conn Url × List (Slot Url)} (hosted : r.HasSource name ↔ sources name ≠ none)
    (same : later name = sources name) (state : result.1.state = r.state) (kept : result.1.HasSource name ↔ r.HasSource name)
    (sent : ∀ slot ∈ result.2, slot.entry.name ≠ name) : r.Follows name sources later result := by
  constructor
  · rw [kept, hosted, same]
  · intro registered requests isValid enabled willBe
    rw [state] at isValid
    rw [same] at enabled
    apply (willBe isValid enabled).others
    intro slot member
    obtain ⟨_, sends, ⟨⟩⟩ := List.mem_map.mp member
    exact sent slot sends

theorem addSource_others (r : HostRegistry Conn Url) (entry : SourceLocation Url) (other : entry.name ≠ name) : (r.addSource entry).1.state = r.state ∧
    ((r.addSource entry).1.HasSource name ↔ r.HasSource name) ∧ ∀ slot ∈ (r.addSource entry).2, slot.entry.name ≠ name := by
  have more : (∃ hosted ∈ entry :: r.hostedSources, hosted.name = name) ↔ r.HasSource name := by
    simp [HostRegistry.HasSource, other]
  unfold HostRegistry.addSource
  dsimp only
  split
  · exact ⟨rfl, Iff.rfl, fun _ none => nomatch none⟩
  · split
    · exact ⟨rfl, more, fun _ none => nomatch none⟩
    · split
      · exact ⟨rfl, more, fun _ none => nomatch none⟩
      · refine ⟨rfl, more, fun slot member => ?_⟩
        rw [List.mem_singleton.mp member]
        exact other

theorem removeSource_others (r : HostRegistry Conn Url) (entry : SourceLocation Url) (other : entry.name ≠ name) : (r.removeSource entry).1.state = r.state ∧
    ((r.removeSource entry).1.HasSource name ↔ r.HasSource name) ∧ ∀ slot ∈ (r.removeSource entry).2, slot.entry.name ≠ name := by
  have fewer : (∃ hosted ∈ r.hostedSources.filter fun hosted => hosted.name ≠ entry.name, hosted.name = name) ↔ r.HasSource name := by
    constructor
    · rintro ⟨hosted, member, named⟩
      exact ⟨hosted, List.mem_of_mem_filter member, named⟩
    · rintro ⟨hosted, member, named⟩
      exact ⟨hosted, List.mem_filter.mpr ⟨member, by simpa [named] using Ne.symm other⟩, named⟩
  unfold HostRegistry.removeSource
  dsimp only
  split
  · split
    · exact ⟨rfl, fewer, fun _ none => nomatch none⟩
    · refine ⟨rfl, fewer, fun slot member => ?_⟩
      rw [List.mem_singleton.mp member]
      exact other
  · exact ⟨rfl, Iff.rfl, fun _ none => nomatch none⟩

theorem follows_addSource {added typeName : Name} {url : Url} (hosted : r.HasSource name ↔ sources name ≠ none)
    (new : sources added = none) (free : added = name → r.state = .valid → r.sourceLocations name = none) :
    r.Follows name sources (Function.update sources added (some typeName)) (r.addSource ⟨added, ⟨typeName, url⟩⟩) := by
  by_cases named : added = name
  · subst named
    have unknown : ¬ (r.hostedSources.any fun hosted => hosted.name = added) := by
      intro known
      obtain ⟨other, member, same⟩ := List.any_eq_true.mp known
      exact hosted.mp ⟨other, member, of_decide_eq_true same⟩ new
    simp only [HostRegistry.addSource, if_neg unknown]
    split
    · rename_i waiting
      constructor
      · simp [HostRegistry.HasSource]
      · intro _ _ isValid
        exact absurd isValid waiting
    · rename_i isValid
      rw [if_neg]
      · constructor
        · simp [HostRegistry.HasSource]
        · intro registered requests _ _ _
          rw [willBe_append, List.map_singleton, willBe_cons]
          simp [WillBe, registers]
      · rw [free rfl (not_not.mp isValid)]
        exact Bool.false_ne_true
  · obtain ⟨state, kept, sent⟩ := addSource_others r ⟨added, ⟨typeName, url⟩⟩ named
    exact follows_others hosted (Function.update_of_ne (Ne.symm named) ..) state kept sent

theorem follows_removeSource {removed typeName : Name} {url : Url} (hosted : r.HasSource name ↔ sources name ≠ none) :
    r.Follows name sources (Function.update sources removed none) (r.removeSource ⟨removed, ⟨typeName, url⟩⟩) := by
  by_cases named : removed = name
  · subst named
    constructor
    · rw [Function.update_self]
      apply iff_of_false
      · unfold HostRegistry.removeSource HostRegistry.HasSource
        split
        · rintro ⟨other, member, same⟩
          dsimp only at member
          split at member <;> exact of_decide_eq_true (List.mem_filter.mp member).2 same
        · rename_i unknown
          rintro ⟨other, member, same⟩
          exact unknown (List.any_eq_true.mpr ⟨other, member, decide_eq_true same⟩)
      · exact fun enabled => enabled rfl
    · intro _ _ _ enabled
      rw [Function.update_self] at enabled
      contradiction
  · obtain ⟨state, kept, sent⟩ := removeSource_others r ⟨removed, ⟨typeName, url⟩⟩ named
    exact follows_others hosted (Function.update_of_ne (Ne.symm named) ..) state kept sent

theorem connection_read (r : HostRegistry Conn Url) (packet : Packet Url) :
    (r.read packet).1.connectionToSource = r.connectionToSource := by
  unfold HostRegistry.read
  dsimp only
  split
  · rfl
  · unfold HostRegistry.pushToRegistryIfNeeded
    split <;> rfl

/-- The first packet of a connection has no entry of a name that the host needs. -/
theorem follows_read {packet : Packet Url} (hosted : r.HasSource name ↔ sources name ≠ none)
    (free : ∀ locations, packet = .snapshot locations → sources name ≠ none → locations name = none) :
    r.Follows name sources sources (r.read packet) := by
  unfold HostRegistry.read
  dsimp only
  split
  · rename_i same
    exact follows_others hosted rfl same Iff.rfl fun _ none => nomatch none
  · rename_i changed
    unfold HostRegistry.pushToRegistryIfNeeded
    cases packet with
    | update change => exact absurd (state_update change) changed
    | snapshot locations =>
      have copied : (r.toRegistryReplica.read (.snapshot locations)).sourceLocations = locations := by
        simp only [RegistryReplica.read, RegistryReplica.initializeProperties, RegistryReplica.setState]
        split <;> rfl
      have pushed : sources name ≠ none → ∃ entry ∈ r.hostedSources.filter fun hosted =>
          ((r.toRegistryReplica.read (.snapshot locations)).sourceLocations hosted.name).isNone, entry.name = name := by
        intro enabled
        obtain ⟨entry, member, named⟩ := hosted.mpr enabled
        refine ⟨entry, List.mem_filter.mpr ⟨member, ?_⟩, named⟩
        rw [copied, named, free locations rfl enabled]
        rfl
      dsimp only
      split
      · rename_i waiting
        constructor
        · exact hosted
        · intro _ _ isValid
          exact absurd isValid waiting
      · constructor
        · constructor
          · rintro ⟨entry, member, named⟩
            exact hosted.mp ⟨entry, List.mem_of_mem_filter member, named⟩
          · exact pushed
        · intro registered requests _ enabled _
          rw [willBe_append, List.map_map]
          exact willBe_added (.inr (pushed enabled))

end Registries

end RemoteObjects.Registry.Registration
