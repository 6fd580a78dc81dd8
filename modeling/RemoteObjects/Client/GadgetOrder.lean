import Mathlib.Data.Nat.Init
import Mathlib.Logic.Relation
import RemoteObjects.Client.ManagedTypes

/-! The order in which the gadgets of one packet are registered. The recursion takes them out of the hash from which the loop goes on;
a gadget comes behind those that its properties use, unless they use each other. -/
namespace RemoteObjects.Client.ManagedTypes
open Relation Transition

section Statement
variable {N : Type} [DecidableEq N]

-- The gadgets of the packet, and the types in front of them.
variable (packet : Gadgets N) (before : Types N)

def gadgetOf (name : N) : GadgetData N := (packet.lookup name).getD ⟨[], []⟩

/-- One gadget of the packet has a property of the type of another. -/
def Uses (name other : N) : Prop := other ∈ packet.map Prod.fst ∧ .type other ∈ (gadgetOf packet name).properties

/-- No gadget has a property of its own type, be it in another gadget. -/
def Acyclic : Prop := ∀ name, ¬ TransGen (Uses packet) name name

/-- The types that the packet defines: gadgets, and enumerations of gadgets. -/
def Defines : TypeName N → Prop
  | .type name => name ∈ packet.map Prod.fst
  | .enumeration scope name => name ∈ (gadgetOf packet scope).enums

/-- A gadget of the packet whose type is not registered yet. -/
def IsNew (name : N) : Prop := name ∈ packet.map Prod.fst ∧ .type name ∉ before.registered

/-- What the registration of a gadget comes to: new gadgets that are used by new ones. -/
def Reaches (name other : N) : Prop :=
  IsNew packet before name ∧ ReflTransGen (fun a b => Uses packet a b ∧ IsNew packet before b) name other

/-- The type is registered, in front of the gadget, and known to the member of it. -/
structure KnownTo (after : Types N) (name : N) (i : Nat) (type : TypeName N) : Prop where
  member : ∃ entry, after.s_managedTypes name = some entry ∧ entry.gadgetType[i]? = some (some type)
  inFront : ∃ newer older, after.registered = newer ++ .type name :: older ∧ type ∈ older

/-- What the loop must do for a packet. With as many calls as there are gadgets, it and the recursion have come to their ends. -/
structure RegistersInOrder (hash : Hash N) (connection : Nat) : Prop where
  returns : ∀ (gadgets : Gadgets N) (statics : List (TypeName N)) (s : Types N) (name : N) (calls : Nat), WellFormed statics s →
    name ∈ gadgets.map Prod.fst → gadgets.length ≤ calls → registerGadgets connection calls gadgets name s = registerGadgets connection gadgets.length gadgets name s
  ends : ∀ calls, packet.length ≤ calls → (registerAllGadgets hash connection calls packet before).1 = [] ∧
    registerAllGadgets hash connection calls packet before = registerAllGadgets hash connection packet.length packet before
  once : ∃ newer, (registerAllGadgets hash connection packet.length packet before).2.registered = newer ++ before.registered ∧
    ∀ name, (IsNew packet before name → newer.count (.type name) = 1) ∧ (¬ IsNew packet before name → .type name ∉ newer)
  inOrder : Acyclic packet → ∀ name, IsNew packet before name → ∀ (i : Nat) (type : TypeName N),
    (gadgetOf packet name).properties[i]? = some type → Defines packet type →
    KnownTo (registerAllGadgets hash connection packet.length packet before).2 name i type

/-- An enumeration of the packet is known, or a property in front leads to the registration of its gadget. -/
def EnumerationsInFront : Prop :=
  ∀ name, IsNew packet before name → ∀ (i : Nat) (scope enum : N),
    (gadgetOf packet name).properties[i]? = some (.enumeration scope enum) → enum ∈ (gadgetOf packet scope).enums →
    .enumeration scope enum ∈ before.registered ∨
      ∃ j < i, ∃ other, (gadgetOf packet name).properties[j]? = some (.type other) ∧ Reaches packet before other scope

end Statement

section Keeps
variable {N : Type} [DecidableEq N] {connection : Nat} {a b c : Gadgets N × Types N}

theorem lookup_take {gadgets : Gadgets N} {name other : N} (apart : other ≠ name) : (Gadgets.take gadgets name).lookup other = gadgets.lookup other := by
  induction gadgets with
  | nil => rfl
  | cons gadget gadgets ih =>
    by_cases same : gadget.1 = name
    · have missed : (other == gadget.1) = false := by simpa [same] using apart
      have gone : Gadgets.take (gadget :: gadgets) name = Gadgets.take gadgets name := by simp [Gadgets.take, same]
      rw [gone, ih, List.lookup_cons, missed]
    · have kept : Gadgets.take (gadget :: gadgets) name = gadget :: Gadgets.take gadgets name := by simp [Gadgets.take, same]
      rw [kept, List.lookup_cons, List.lookup_cons, ih]

/-- Gadgets are taken and types added, and what is there of a type stays. -/
structure Keeps (a b : Gadgets N × Types N) : Prop where
  sublist : b.1.Sublist a.1
  lookup : ∀ name ∈ b.1.map Prod.fst, b.1.lookup name = a.1.lookup name
  grown : a.2.registered <:+ b.2.registered
  named : ∀ name, .type name ∈ b.2.registered → .type name ∈ a.2.registered ∨ name ∈ a.1.map Prod.fst
  kept : ∀ name, .type name ∈ a.2.registered → b.2.s_managedTypes name = a.2.s_managedTypes name

theorem Keeps.refl (a : Gadgets N × Types N) : Keeps a a := ⟨.refl _, fun _ _ => rfl, List.suffix_rfl, fun _ => .inl, fun _ _ => rfl⟩

theorem Keeps.trans (first : Keeps a b) (second : Keeps b c) : Keeps a c where
  sublist := second.sublist.trans first.sublist
  lookup name member := (second.lookup name member).trans (first.lookup name ((second.sublist.map Prod.fst).subset member))
  grown := first.grown.trans second.grown
  named name there := (second.named name there).elim (first.named name) fun member =>
    .inr ((first.sublist.map Prod.fst).subset member)
  kept name there := (second.kept name (first.grown.subset there)).trans (first.kept name there)

theorem addProperty_keeps {registerGadgets : Gadgets N → N → Types N → Gadgets N × Types N}
    (nested : ∀ gadgets s name, name ∈ gadgets.map Prod.fst → Keeps (gadgets, s) (registerGadgets gadgets name s))
    (state : (Gadgets N × Types N) × List (Option (TypeName N))) (type : TypeName N) :
    Keeps state.1 (addProperty registerGadgets state type).1 := by
  obtain ⟨⟨gadgets, s⟩, gadgetType⟩ := state
  unfold addProperty
  dsimp only
  split
  · exact .refl _
  · split
    · split
      · rename_i member
        exact nested gadgets s _ member
      · exact .refl _
    · exact .refl _

theorem addProperties_keeps {registerGadgets : Gadgets N → N → Types N → Gadgets N × Types N}
    (nested : ∀ gadgets s name, name ∈ gadgets.map Prod.fst → Keeps (gadgets, s) (registerGadgets gadgets name s)) (properties : List (TypeName N))
    (state : (Gadgets N × Types N) × List (Option (TypeName N))) :
    Keeps state.1 (properties.foldl (addProperty registerGadgets) state).1 := by
  induction properties generalizing state with
  | nil => exact .refl _
  | cons type properties ih => exact (addProperty_keeps nested state type).trans (ih _)

variable (connection)

theorem not_mem_registerEnums {s : Types N} {scope name : N} {enums : List N} : .type name ∉ s.registerEnums scope enums := by
  simp [Types.registerEnums]

theorem registerGadgets_keeps (calls : Nat) (gadgets : Gadgets N) (s : Types N) (typeName : N) (member : typeName ∈ gadgets.map Prod.fst) :
    Keeps (gadgets, s) (registerGadgets connection calls gadgets typeName s) := by
  induction calls generalizing gadgets s typeName with
  | zero => exact .refl _
  | succ calls ih =>
    rw [registerGadgets]
    split
    · exact ⟨List.filter_sublist, fun other left => lookup_take (mem_take.mp left).2, List.suffix_rfl, fun _ => .inl, fun _ _ => rfl⟩
    · rename_i new
      have nested := addProperties_keeps (fun gadgets s name => ih gadgets s name)
        ((gadgets.lookup typeName).getD ⟨[], []⟩).properties ((gadgets.take typeName, s), [])
      refine ⟨nested.sublist.trans List.filter_sublist, fun name left => ?_, nested.grown.trans (List.suffix_append (_ :: _) _),
        fun name there => ?_, fun name there => ?_⟩
      · have apart := (mem_take.mp ((nested.sublist.map Prod.fst).subset left)).2
        exact (nested.lookup name left).trans (lookup_take apart)
      · obtain same | other := List.mem_cons.mp there
        · exact .inr (TypeName.type.inj same ▸ member)
        · obtain enum | inner := List.mem_append.mp other
          · exact absurd enum not_mem_registerEnums
          · exact (nested.named name inner).imp id fun left => (mem_take.mp left).1
      · have apart : name ≠ typeName := fun same => new (same ▸ there)
        simpa [Types.trackConnection, Function.update_of_ne apart] using nested.kept name there

theorem registerAllGadgets_keeps (hash : Hash N) (calls : Nat) (gadgets : Gadgets N) (s : Types N) :
    Keeps (gadgets, s) (registerAllGadgets hash connection calls gadgets s) := by
  induction calls generalizing gadgets s with
  | zero => exact .refl _
  | succ calls ih =>
    rw [registerAllGadgets]
    split
    · exact .refl _
    · rename_i name begins
      exact (registerGadgets_keeps connection gadgets.length gadgets s name (hash.mem_of_constBegin gadgets name begins)).trans (ih _ _)

end Keeps

section Order
variable {N : Type} [DecidableEq N] {packet gadgets : Gadgets N} {before s t : Types N} {statics : List (TypeName N)}
variable {connection : Nat} {name other scope enum : N} {pending : N → Prop}

/-- A gadget that is registered, and what its members know, where the packet allows it. -/
structure Done (packet : Gadgets N) (before s : Types N) (name : N) (entry : ManagedGadgetTypeEntry N) (newer older : List (TypeName N)) :
    Prop where
  managed : s.s_managedTypes name = some entry
  registered : s.registered = newer ++ .type name :: older
  enums : ∀ enum ∈ (gadgetOf packet name).enums, .enumeration name enum ∈ older
  known : Acyclic packet → EnumerationsInFront packet before → ∀ (i : Nat) (type : TypeName N),
    (gadgetOf packet name).properties[i]? = some type → Defines packet type →
    entry.gadgetType[i]? = some (some type) ∧ type ∈ older

/-- What holds of the gadgets that are left and the types, while the registration of some gadgets is not done. -/
structure Ordered (packet : Gadgets N) (before : Types N) (pending : N → Prop) (state : Gadgets N × Types N) : Prop where
  sublist : state.1.Sublist packet
  lookup : ∀ name ∈ state.1.map Prod.fst, state.1.lookup name = packet.lookup name
  taken : ∀ name ∈ packet.map Prod.fst, name ∉ state.1.map Prod.fst → .type name ∈ state.2.registered ∨ pending name
  newer : ∃ newer, state.2.registered = newer ++ before.registered ∧
    ∀ name, newer.count (.type name) ≤ 1 ∧ (.type name ∈ newer → IsNew packet before name)
  done : ∀ name, IsNew packet before name → .type name ∈ state.2.registered →
    ∃ entry newer older, Done packet before state.2 name entry newer older

/-- What is registered stays in its place. -/
theorem Done.later {entry : ManagedGadgetTypeEntry N} {newer older more : List (TypeName N)}
    (done : Done packet before s name entry newer older) (grown : t.registered = more ++ s.registered)
    (kept : t.s_managedTypes name = s.s_managedTypes name) : Done packet before t name entry (more ++ newer) older where
  managed := kept.trans done.managed
  registered := by simp [grown, done.registered]
  enums := done.enums
  known := done.known

/-- A gadget is taken whose type is registered, or is going to be. -/
theorem Ordered.take {pending' : N → Prop} (ordered : Ordered packet before pending (gadgets, s))
    (more : ∀ other, pending other → pending' other) (here : .type name ∈ s.registered ∨ pending' name) :
    Ordered packet before pending' (gadgets.take name, s) where
  sublist := List.filter_sublist.trans ordered.sublist
  lookup other member := by
    obtain ⟨member, apart⟩ := mem_take.mp member
    rw [lookup_take apart, ordered.lookup other member]
  taken other member absent := by
    by_cases same : other = name
    · exact same ▸ here
    · have gone : other ∉ gadgets.map Prod.fst := fun there => absent (mem_take.mpr ⟨there, same⟩)
      exact (ordered.taken other member gone).imp id (more other)
  newer := ordered.newer
  done := ordered.done

/-- What is reached from a gadget that is registered is registered. -/
theorem Ordered.reached (ordered : Ordered packet before pending (gadgets, s)) (acyclic : Acyclic packet)
    (inFront : EnumerationsInFront packet before) (reaches : Reaches packet before other scope) (there : .type other ∈ s.registered) :
    IsNew packet before scope ∧ .type scope ∈ s.registered := by
  obtain ⟨new, path⟩ := reaches
  induction path with
  | refl => exact ⟨new, there⟩
  | tail _ step ih =>
    obtain ⟨⟨member, uses⟩, next⟩ := step
    obtain ⟨entry, newer, older, done⟩ := ordered.done _ ih.1 ih.2
    obtain ⟨i, same⟩ := List.mem_iff_getElem?.mp uses
    have older := (done.known acyclic inFront i _ same member).2
    have registered : s.registered = _ := done.registered
    exact ⟨next, by simp [registered, older]⟩

/-- The members so far, of a gadget that is going to be registered. -/
structure Added (packet : Gadgets N) (before : Types N) (pending : N → Prop) (calls : Nat) (properties : List (TypeName N)) (state : (Gadgets N × Types N) × List (Option (TypeName N))) : Prop where
  ordered : Ordered packet before pending state.1
  few : state.1.1.length ≤ calls
  length : state.2.length = properties.length
  known : Acyclic packet → EnumerationsInFront packet before → ∀ (i : Nat) (type : TypeName N), properties[i]? = some type →
    Defines packet type → state.2[i]? = some (some type) ∧ type ∈ state.1.2.registered

/-- The registration of a gadget that no pending one is used by. -/
def Visits (packet : Gadgets N) (before : Types N) (connection calls : Nat) : Prop :=
  ∀ (gadgets : Gadgets N) (s : Types N) (name : N) (pending : N → Prop),
    Ordered packet before pending (gadgets, s) → name ∈ gadgets.map Prod.fst → gadgets.length ≤ calls →
    (∀ other, pending other → TransGen (Uses packet) other name) →
    Ordered packet before pending (registerGadgets connection calls gadgets name s) ∧
      .type name ∈ (registerGadgets connection calls gadgets name s).2.registered

/-- A type that is not known is not of the packet, or the condition on it does not hold. -/
theorem Added.unknown {calls : Nat} {added rest : List (TypeName N)} {gadgetType : List (Option (TypeName N))} {type : TypeName N}
    (fits : Added packet before pending calls added ((gadgets, s), gadgetType)) (new : IsNew packet before name)
    (properties : (gadgetOf packet name).properties = added ++ type :: rest)
    (above : ∀ other, pending other → other = name ∨ TransGen (Uses packet) other name) (absent : type ∉ s.registered)
    (left : ∀ other, type = .type other → other ∉ gadgets.map Prod.fst) (acyclic : Acyclic packet)
    (inFront : EnumerationsInFront packet before) : ¬ Defines packet type := by
  intro defined
  have here : (gadgetOf packet name).properties[added.length]? = some type := by simp [properties]
  cases type with
  | type other =>
    obtain there | pends := fits.ordered.taken other defined (left other rfl)
    · exact absent there
    · have uses : Uses packet name other := ⟨defined, List.mem_of_getElem? here⟩
      obtain rfl | higher := above other pends
      · exact acyclic _ (.single uses)
      · exact acyclic _ (higher.tail uses)
  | enumeration scope enum =>
    obtain ⟨newer, grown, _⟩ := fits.ordered.newer
    dsimp only at grown
    obtain early | ⟨j, earlier, other, property, reaches⟩ := inFront name new added.length scope enum here defined
    · exact absent (by simp [grown, early])
    · have inside : added[j]? = some (.type other) := by simpa [properties, List.getElem?_append_left earlier] using property
      have registered := (fits.known acyclic inFront j _ inside reaches.1.1).2
      obtain ⟨new', there⟩ := fits.ordered.reached acyclic inFront reaches registered
      obtain ⟨entry, newer, older, done⟩ := fits.ordered.done scope new' there
      have grown : s.registered = _ := done.registered
      exact absent (by simp [grown, done.enums enum defined])

/-- One member more, where what is known stays known. -/
theorem Added.push {calls : Nat} {added : List (TypeName N)} {state next : (Gadgets N × Types N) × List (Option (TypeName N))}
    {type : TypeName N} {value : Option (TypeName N)} (fits : Added packet before pending calls added state)
    (ordered : Ordered packet before pending next.1) (keeps : Keeps state.1 next.1) (pushed : next.2 = state.2 ++ [value])
    (last : Acyclic packet → EnumerationsInFront packet before → Defines packet type → value = some type ∧ type ∈ next.1.2.registered) :
    Added packet before pending calls (added ++ [type]) next where
  ordered := ordered
  few := Nat.le_trans keeps.sublist.length_le fits.few
  length := by simp [pushed, fits.length]
  known acyclic inFront i other property defined := by
    obtain earlier | behind := Nat.lt_or_ge i added.length
    · rw [List.getElem?_append_left earlier] at property
      obtain ⟨member, there⟩ := fits.known acyclic inFront i other property defined
      exact ⟨by rw [pushed, List.getElem?_append_left (fits.length ▸ earlier), member], keeps.grown.subset there⟩
    · obtain rfl : i = added.length := by
        have := (List.getElem?_eq_some_iff.mp property).1
        simp at this
        omega
      obtain rfl : type = other := by simpa using property
      obtain ⟨rfl, there⟩ := last acyclic inFront defined
      exact ⟨by simp [pushed, ← fits.length], there⟩

theorem Added.next {calls : Nat} (visits : Visits packet before connection calls) {added rest : List (TypeName N)}
    {state : (Gadgets N × Types N) × List (Option (TypeName N))} {type : TypeName N}
    (fits : Added packet before pending calls added state) (new : IsNew packet before name)
    (properties : (gadgetOf packet name).properties = added ++ type :: rest)
    (above : ∀ other, pending other → other = name ∨ TransGen (Uses packet) other name) :
    Added packet before pending calls (added ++ [type]) (addProperty (registerGadgets connection calls) state type) := by
  have keeps := addProperty_keeps (fun gadgets s name member => registerGadgets_keeps connection calls gadgets s name member) state type
  obtain ⟨⟨gadgets, s⟩, gadgetType⟩ := state
  have unknown := fits.unknown new properties above
  unfold addProperty at keeps ⊢
  dsimp only at keeps ⊢
  split
  · rename_i there
    exact fits.push fits.ordered (.refl _) rfl fun _ _ _ => ⟨rfl, there⟩
  · rename_i absent
    rw [if_neg absent] at keeps
    split
    · rename_i other
      split
      · rename_i member
        have uses : Uses packet name other :=
          ⟨(fits.ordered.sublist.map Prod.fst).subset member, by simp [properties]⟩
        have higher : ∀ upper, pending upper → TransGen (Uses packet) upper other := fun upper pends =>
          (above upper pends).elim (fun same => same ▸ .single uses) (·.tail uses)
        obtain ⟨ordered, there⟩ := visits gadgets s other pending fits.ordered member fits.few higher
        exact fits.push ordered (registerGadgets_keeps connection calls gadgets s other member) rfl fun _ _ _ => ⟨rfl, there⟩
      · rename_i gone
        refine fits.push fits.ordered (.refl _) rfl fun acyclic inFront defined => ?_
        exact absurd defined (unknown absent (fun _ same => TypeName.type.inj same ▸ gone) acyclic inFront)
    · refine fits.push fits.ordered (.refl _) rfl fun acyclic inFront defined => ?_
      exact absurd defined (unknown absent (fun _ same => nomatch same) acyclic inFront)

/-- All members, from the first one on. -/
theorem Added.all {calls : Nat} (visits : Visits packet before connection calls) (new : IsNew packet before name)
    (above : ∀ other, pending other → other = name ∨ TransGen (Uses packet) other name) {added rest : List (TypeName N)}
    {state : (Gadgets N × Types N) × List (Option (TypeName N))} (fits : Added packet before pending calls added state)
    (properties : (gadgetOf packet name).properties = added ++ rest) :
    Added packet before pending calls (added ++ rest) (rest.foldl (addProperty (registerGadgets connection calls)) state) := by
  induction rest generalizing added state with
  | nil => simpa using fits
  | cons type rest ih =>
    have next := ih (fits.next visits new properties above) (by simp [properties])
    simpa using next

/-- The gadget is registered itself, when all its members are there. -/
theorem Added.done {calls : Nat} {gadgetType : List (Option (TypeName N))} (member : name ∈ packet.map Prod.fst)
    (absent : .type name ∉ s.registered)
    (fits : Added packet before (fun other => pending other ∨ other = name) calls (gadgetOf packet name).properties
      ((gadgets, s), gadgetType)) :
    Ordered packet before pending (gadgets, {
      registered := TypeName.type name :: s.registerEnums name (gadgetOf packet name).enums ++ s.registered
      s_managedTypes := Function.update s.s_managedTypes name (some ⟨gadgetType, s.registerEnums name (gadgetOf packet name).enums⟩)
      s_trackedConnections := s.s_trackedConnections.insert (name, connection) }) := by
  obtain ⟨newer, grown, once⟩ := fits.ordered.newer
  dsimp only at grown
  have enums (enum : N) (there : enum ∈ (gadgetOf packet name).enums) :
      .enumeration name enum ∈ s.registerEnums name (gadgetOf packet name).enums ++ s.registered := by
    by_cases known : .enumeration name enum ∈ s.registered
    · exact List.mem_append_right _ known
    · exact List.mem_append_left _ (by simpa [Types.registerEnums, known] using there)
  refine ⟨fits.ordered.sublist, fits.ordered.lookup, fun other inside gone => ?_,
    ⟨.type name :: s.registerEnums name (gadgetOf packet name).enums ++ newer, by simp [grown], fun other => ?_⟩,
    fun other new there => ?_⟩
  · obtain there | pends | rfl := fits.ordered.taken other inside gone
    · exact .inl (by simp [there])
    · exact .inr pends
    · exact .inl (by simp)
  · have none : (s.registerEnums name (gadgetOf packet name).enums).count (.type other) = 0 :=
      List.count_eq_zero.mpr not_mem_registerEnums
    by_cases same : other = name
    · subst same
      have unknown : .type other ∉ newer := fun there => absent (by simp [grown, there])
      refine ⟨by simp [none, List.count_eq_zero.mpr unknown], fun _ => ⟨member, fun there => absent (by simp [grown, there])⟩⟩
    · simpa [List.count_cons, none, same, Ne.symm same, not_mem_registerEnums] using once other
  · by_cases same : other = name
    · subst same
      refine ⟨_, [], s.registerEnums other (gadgetOf packet other).enums ++ s.registered, Function.update_self .., rfl, enums,
        fun acyclic inFront i type property defined => ?_⟩
      obtain ⟨known, there⟩ := fits.known acyclic inFront i type property defined
      exact ⟨known, List.mem_append_right _ there⟩
    · have earlier : .type other ∈ s.registered := by simpa [same, not_mem_registerEnums] using there
      obtain ⟨entry, newer, older, done⟩ := fits.ordered.done other new earlier
      exact ⟨entry, _, older, done.later rfl (Function.update_of_ne same _ _)⟩

/-- By induction on the nesting of the calls. -/
theorem visits (packet : Gadgets N) (before : Types N) (connection calls : Nat) : Visits packet before connection calls := by
  induction calls with
  | zero =>
    intro gadgets s name pending ordered member enough
    obtain rfl := List.eq_nil_of_length_eq_zero (Nat.le_zero.mp enough)
    exact (nomatch member)
  | succ calls ih =>
    intro gadgets s name pending ordered member enough above
    have found : (gadgets.lookup name).getD ⟨[], []⟩ = gadgetOf packet name := by rw [ordered.lookup name member, gadgetOf]
    have inside : name ∈ packet.map Prod.fst := (ordered.sublist.map Prod.fst).subset member
    rw [registerGadgets, found]
    split
    · rename_i known
      obtain ⟨sublist, lookup, taken, newer, done⟩ := ordered.take (fun _ => id) (.inl known)
      refine ⟨⟨sublist, lookup, taken, newer, fun other new there => ?_⟩, known⟩
      obtain ⟨entry, newer, older, done⟩ := done other new there
      exact ⟨entry, [] ++ newer, older, done.later rfl rfl⟩
    · rename_i absent
      have new : IsNew packet before name := by
        obtain ⟨newer, grown, _⟩ := ordered.newer
        exact ⟨inside, fun there => absent (by dsimp only at grown; simp [grown, there])⟩
      have shorter : (Gadgets.take gadgets name).length ≤ calls := by
        obtain ⟨gadget, here, rfl⟩ := List.mem_map.mp member
        have strict : (Gadgets.take gadgets gadget.1).length < gadgets.length :=
          List.length_filter_lt_length_iff_exists.mpr ⟨gadget, here, by simp⟩
        exact Nat.le_of_lt_succ (Nat.lt_of_lt_of_le strict enough)
      have none : Added packet before (fun other => pending other ∨ other = name) calls [] ((gadgets.take name, s), []) :=
        ⟨ordered.take (fun _ => .inl) (.inr (.inr rfl)), shorter, rfl, fun _ _ => by simp⟩
      have added := none.all ih new (fun other => Or.rec (fun pends => .inr (above other pends)) .inl) rfl
      have keeps := addProperties_keeps (fun gadgets s name member => registerGadgets_keeps connection calls gadgets s name member)
        (gadgetOf packet name).properties ((gadgets.take name, s), [])
      have still : .type name ∉ ((gadgetOf packet name).properties.foldl (addProperty (registerGadgets connection calls))
          ((gadgets.take name, s), [])).1.2.registered := fun there =>
        (keeps.named name there).elim absent fun left => (mem_take.mp left).2 rfl
      exact ⟨added.done inside still, by simp [Types.trackConnection]⟩

theorem registerAllGadgets_ordered (hash : Hash N) (connection calls : Nat)
    (ordered : Ordered packet before (fun _ => False) (gadgets, s)) :
    Ordered packet before (fun _ => False) (registerAllGadgets hash connection calls gadgets s) := by
  induction calls generalizing gadgets s with
  | zero => exact ordered
  | succ calls ih =>
    rw [registerAllGadgets]
    split
    · exact ordered
    · rename_i name begins
      exact ih (visits packet before connection gadgets.length gadgets s name _ ordered
        (hash.mem_of_constBegin gadgets name begins) (Nat.le_refl _) (fun _ => False.elim)).1

theorem ordered_initial (packet : Gadgets N) (before : Types N) : Ordered packet before (fun _ => False) (packet, before) where
  sublist := .refl _
  lookup _ _ := rfl
  taken _ member absent := absurd member absent
  newer := ⟨[], by simp⟩
  done _ new there := absurd there new.2

end Order

section Ends
variable {N : Type} [DecidableEq N] {gadgets : Gadgets N} {s : Types N}

theorem registerGadgets_shorter (connection calls : Nat) {name : N} (member : name ∈ gadgets.map Prod.fst) :
    (registerGadgets connection (calls + 1) gadgets name s).1.length < gadgets.length := by
  have strict : (Gadgets.take gadgets name).length < gadgets.length := by
    obtain ⟨gadget, here, rfl⟩ := List.mem_map.mp member
    exact List.length_filter_lt_length_iff_exists.mpr ⟨gadget, here, by simp⟩
  refine Nat.lt_of_le_of_lt (List.Sublist.length_le ?_) strict
  rw [registerGadgets]
  split
  · exact .refl _
  · exact (addProperties_keeps (fun gadgets s name member => registerGadgets_keeps connection calls gadgets s name member) _ _).sublist

/-- The loop ends with the last gadget. -/
theorem registerAllGadgets_ends (hash : Hash N) (connection : Nat) {calls : Nat} (enough : gadgets.length ≤ calls) :
    (registerAllGadgets hash connection calls gadgets s).1 = [] ∧
      registerAllGadgets hash connection (calls + 1) gadgets s = registerAllGadgets hash connection calls gadgets s := by
  induction calls generalizing gadgets s with
  | zero =>
    obtain rfl := List.eq_nil_of_length_eq_zero (Nat.le_zero.mp enough)
    have none : hash.constBegin [] = none :=
      Option.eq_none_iff_forall_not_mem.mpr fun name begins => nomatch hash.mem_of_constBegin [] name begins
    exact ⟨rfl, by simp [registerAllGadgets, none]⟩
  | succ calls ih =>
    cases begins : hash.constBegin gadgets with
    | none =>
      have empty : gadgets = [] := by_contra fun filled => by simpa [begins] using hash.isSome_constBegin gadgets filled
      subst empty
      simp [registerAllGadgets, begins]
    | some name =>
      have member := hash.mem_of_constBegin gadgets name begins
      obtain ⟨count, counted⟩ : ∃ count, gadgets.length = count + 1 :=
        Nat.exists_eq_succ_of_ne_zero fun zero => by simp [List.eq_nil_of_length_eq_zero zero] at member
      have shorter : (registerGadgets connection gadgets.length gadgets name s).1.length < gadgets.length := by
        rw [counted]
        exact counted ▸ registerGadgets_shorter connection count member
      rw [registerAllGadgets, registerAllGadgets, begins]
      exact ih (Nat.le_of_lt_succ (Nat.lt_of_lt_of_le shorter enough))

end Ends

section Late
variable {N : Type} [DecidableEq N] {packet gadgets : Gadgets N} {before s : Types N} {connection calls : Nat} {name scope enum : N}

/-- Enumerations come with the gadgets that are reached. -/
theorem addProperties_enumerations
    (nested : ∀ gadgets s name, Keeps (packet, before) (gadgets, s) → name ∈ gadgets.map Prod.fst → .type name ∉ s.registered →
      .enumeration scope enum ∈ (registerGadgets connection calls gadgets name s).2.registered →
      .enumeration scope enum ∈ s.registered ∨ Reaches packet before name scope)
    (properties : List (TypeName N)) {state : (Gadgets N × Types N) × List (Option (TypeName N))} (keeps : Keeps (packet, before) state.1)
    (there : .enumeration scope enum ∈ (properties.foldl (addProperty (registerGadgets connection calls)) state).1.2.registered) :
    .enumeration scope enum ∈ state.1.2.registered ∨
      ∃ other, .type other ∈ properties ∧ Reaches packet before other scope := by
  induction properties generalizing state with
  | nil => exact .inl there
  | cons type properties ih =>
    have step := addProperty_keeps (fun gadgets s name member => registerGadgets_keeps connection calls gadgets s name member) state type
    obtain early | ⟨other, member, reaches⟩ := ih (keeps.trans step) there
    · obtain ⟨⟨gadgets, s⟩, gadgetType⟩ := state
      unfold addProperty at early
      dsimp only at early
      split at early
      · exact .inl early
      · rename_i absent
        split at early
        · rename_i other
          split at early
          · rename_i member
            exact (nested gadgets s other keeps member absent early).imp id fun reaches => ⟨other, List.mem_cons_self, reaches⟩
          · exact .inl early
        · exact .inl early
    · exact .inr ⟨other, List.mem_cons_of_mem _ member, reaches⟩

theorem registerGadgets_enumerations (keeps : Keeps (packet, before) (gadgets, s)) (member : name ∈ gadgets.map Prod.fst)
    (absent : .type name ∉ s.registered)
    (there : .enumeration scope enum ∈ (registerGadgets connection calls gadgets name s).2.registered) :
    .enumeration scope enum ∈ s.registered ∨ Reaches packet before name scope := by
  induction calls generalizing gadgets s name with
  | zero => exact .inl there
  | succ calls ih =>
    have found : (gadgets.lookup name).getD ⟨[], []⟩ = gadgetOf packet name := by
      have same : gadgets.lookup name = packet.lookup name := keeps.lookup name member
      rw [same, gadgetOf]
    have new : IsNew packet before name :=
      ⟨(keeps.sublist.map Prod.fst).subset member, fun early => absent (keeps.grown.subset early)⟩
    have taken : Keeps (gadgets, s) (gadgets.take name, s) :=
      ⟨List.filter_sublist, fun other left => lookup_take (mem_take.mp left).2, List.suffix_rfl, fun _ => .inl, fun _ _ => rfl⟩
    rw [registerGadgets, found, if_neg absent] at there
    obtain own | inner := List.mem_append.mp ((List.mem_cons.mp there).resolve_left fun other => by cases other)
    · obtain rfl : name = scope := by
        simp only [Types.registerEnums, List.mem_filter, List.mem_map] at own
        obtain ⟨⟨_, _, same⟩, _⟩ := own
        exact (TypeName.enumeration.inj same).1
      exact .inr ⟨new, .refl⟩
    · obtain early | ⟨other, property, reaches⟩ :=
        addProperties_enumerations (fun gadgets s name keeps member absent => ih keeps member absent) _ (keeps.trans taken) inner
      · exact .inl early
      · exact .inr ⟨new, .head ⟨⟨reaches.1.1, property⟩, reaches.1⟩ reaches.2⟩

/-- One value for each property, in their order. -/
theorem addProperties_values (registerGadgets : Gadgets N → N → Types N → Gadgets N × Types N) (properties : List (TypeName N))
    (state : (Gadgets N × Types N) × List (Option (TypeName N))) :
    ∃ values, (properties.foldl (addProperty registerGadgets) state).2 = state.2 ++ values ∧ values.length = properties.length := by
  induction properties generalizing state with
  | nil => exact ⟨[], by simp⟩
  | cons type properties ih =>
    obtain ⟨value, pushed⟩ : ∃ value, (addProperty registerGadgets state type).2 = state.2 ++ [value] := by
      unfold addProperty
      dsimp only
      split
      · exact ⟨_, rfl⟩
      · split
        · split <;> exact ⟨_, rfl⟩
        · exact ⟨_, rfl⟩
    obtain ⟨values, all, length⟩ := ih (addProperty registerGadgets state type)
    exact ⟨value :: values, by simp [all, pushed], by simp [length]⟩

variable (connection calls) in
/-- An enumeration that no property in front leads to is not known to the first gadget that is registered. -/
theorem enumeration_unknown (new : IsNew packet before name) {i : Nat}
    (property : (gadgetOf packet name).properties[i]? = some (.enumeration scope enum))
    (absent : .enumeration scope enum ∉ before.registered)
    (late : ∀ j < i, ∀ other, (gadgetOf packet name).properties[j]? = some (.type other) → ¬ Reaches packet before other scope) :
    ∃ entry, (registerGadgets connection (calls + 1) packet name before).2.s_managedTypes name = some entry ∧
      entry.gadgetType[i]? = some none := by
  obtain ⟨inside, same⟩ := List.getElem?_eq_some_iff.mp property
  have split : (gadgetOf packet name).properties = (gadgetOf packet name).properties.take i ++
      .enumeration scope enum :: (gadgetOf packet name).properties.drop (i + 1) := by
    rw [← same, ← List.drop_eq_getElem_cons inside, List.take_append_drop]
  have taken : Keeps (packet, before) (packet.take name, before) :=
    ⟨List.filter_sublist, fun other left => lookup_take (mem_take.mp left).2, List.suffix_rfl, fun _ => .inl, fun _ _ => rfl⟩
  have unknown : .enumeration scope enum ∉ (((gadgetOf packet name).properties.take i).foldl
      (addProperty (registerGadgets connection calls)) ((packet.take name, before), [])).1.2.registered := by
    intro there
    obtain early | ⟨other, member, reaches⟩ := addProperties_enumerations
      (fun gadgets s name keeps member absent => registerGadgets_enumerations keeps member absent) _ taken there
    · exact absent early
    · obtain ⟨j, found⟩ := List.mem_iff_getElem?.mp member
      rw [List.getElem?_take] at found
      split at found
      · rename_i earlier
        exact late j earlier other found reaches
      · contradiction
  -- The member is added, and the members behind it leave it as it is.
  obtain ⟨values, front, length⟩ := addProperties_values (registerGadgets connection calls)
    ((gadgetOf packet name).properties.take i) ((packet.take name, before), [])
  have pushed (state : (Gadgets N × Types N) × List (Option (TypeName N))) (missed : .enumeration scope enum ∉ state.1.2.registered) :
      addProperty (registerGadgets connection calls) state (.enumeration scope enum) = (state.1, state.2 ++ [none]) := by
    obtain ⟨⟨gadgets, s⟩, gadgetType⟩ := state
    exact if_neg missed
  obtain ⟨more, whole, -⟩ := addProperties_values (registerGadgets connection calls)
    ((gadgetOf packet name).properties.drop (i + 1)) (addProperty (registerGadgets connection calls)
      (((gadgetOf packet name).properties.take i).foldl (addProperty (registerGadgets connection calls))
        ((packet.take name, before), [])) (.enumeration scope enum))
  rw [← List.foldl_cons, ← List.foldl_append, ← split, pushed _ unknown, front] at whole
  have count : values.length = i := by rw [length, List.length_take, Nat.min_eq_left (Nat.le_of_lt inside)]
  refine ⟨_, by rw [registerGadgets, if_neg new.2]; exact Function.update_self .., ?_⟩
  change (((gadgetOf packet name).properties.foldl (addProperty (registerGadgets connection calls))
    ((packet.take name, before), [])).2)[i]? = some none
  rw [whole]
  simp [← count]

end Late
section Main
variable {N : Type} [DecidableEq N] (packet : Gadgets N) (before : Types N) (connection : Nat)

/-- The hash that begins with a gadget, as long as that is there. -/
def Hash.beginning (name : N) : Hash N where
  constBegin gadgets := if name ∈ gadgets.map Prod.fst then some name else gadgets.head?.map Prod.fst
  mem_of_constBegin gadgets other member := by
    split at member
    · rename_i there
      exact Option.some.inj member ▸ there
    · exact Hash.first.mem_of_constBegin gadgets other member
  isSome_constBegin gadgets filled := by
    split
    · rfl
    · exact Hash.first.isSome_constBegin gadgets filled

/-- Whatever order the hash has, the loop ends and registers each new type of the packet once. It registers a type behind those that
it uses, where they do not use each other, exactly if enumerations are known or their gadgets come with a property in front. -/
theorem registersInOrder_iff : (∀ hash, RegistersInOrder packet before hash connection) ↔
    (Acyclic packet → EnumerationsInFront packet before) := by
  constructor
  · intro registers acyclic name new i scope enum property defined
    by_contra late
    simp only [not_or, not_exists, not_and] at late
    -- The hash may begin with this gadget.
    obtain ⟨calls, counted⟩ : ∃ calls, packet.length = calls + 1 :=
      Nat.exists_eq_succ_of_ne_zero fun zero => by simpa [List.eq_nil_of_length_eq_zero zero] using new.1
    obtain ⟨entry, managed, unknown⟩ := enumeration_unknown connection calls new property late.1 late.2
    have there := (visits packet before connection (calls + 1) packet before name _ (ordered_initial packet before) new.1
      (Nat.le_of_eq counted) (fun _ => False.elim)).2
    have whole : registerAllGadgets (Hash.beginning name) connection packet.length packet before =
        registerAllGadgets (Hash.beginning name) connection calls
          (registerGadgets connection (calls + 1) packet name before).1 (registerGadgets connection (calls + 1) packet name before).2 := by
      have begins : (Hash.beginning name).constBegin packet = some name := if_pos new.1
      rw [counted, registerAllGadgets, begins, counted]
    obtain ⟨⟨entry', managed', known⟩, -⟩ := (registers (Hash.beginning name)).inOrder acyclic name new i _ property defined
    have kept := (registerAllGadgets_keeps connection (Hash.beginning name) calls
      (registerGadgets connection (calls + 1) packet name before).1
      (registerGadgets connection (calls + 1) packet name before).2).kept name there
    rw [whole] at managed'
    obtain rfl := Option.some.inj (managed'.symm.trans (kept.trans managed))
    simp [unknown] at known
  · intro inFront hash
    have ordered := registerAllGadgets_ordered hash connection packet.length (ordered_initial packet before)
    have ends := registerAllGadgets_ends hash connection (Nat.le_refl packet.length) (s := before)
    have all (name : N) (member : name ∈ packet.map Prod.fst) :
        .type name ∈ (registerAllGadgets hash connection packet.length packet before).2.registered :=
      (ordered.taken name member (by simp [ends.1])).resolve_right id
    obtain ⟨newer, grown, once⟩ := ordered.newer
    refine ⟨fun gadgets statics s name calls wellFormed member enough => ?_, fun calls enough => ?_,
      ⟨newer, grown, fun name => ⟨fun new => ?_, fun old there => old ((once name).2 there)⟩⟩,
      fun acyclic name new i type property defined => ?_⟩
    · induction calls, enough using Nat.le_induction with
      | base => rfl
      | succ calls enough ih => rw [registerGadgets_enough connection calls gadgets s name wellFormed member enough, ih]
    · induction calls, enough using Nat.le_induction with
      | base => exact ⟨ends.1, rfl⟩
      | succ calls enough ih => rw [(registerAllGadgets_ends hash connection enough).2]; exact ih
    · have there := (List.mem_append.mp (grown ▸ all name new.1)).resolve_right new.2
      exact Nat.le_antisymm (once name).1 (List.count_pos_iff.mpr there)
    · obtain ⟨entry, newer, older, done⟩ := ordered.done name new (all name new.1)
      obtain ⟨known, behind⟩ := done.known acyclic (inFront acyclic) i type property defined
      exact ⟨⟨entry, done.managed, known⟩, newer, older, done.registered, behind⟩

end Main

section Example

/-- A gadget with an enumeration of another one that comes behind it. -/
def lateEnumeration : Gadgets (List Char) :=
  [("Outer".toList, ⟨[.enumeration "Inner".toList "Kind".toList], []⟩), ("Inner".toList, ⟨[], ["Kind".toList]⟩)]

theorem mem_gadgetOf {N : Type} [DecidableEq N] {packet : Gadgets N} {name : N} {type : TypeName N}
    (member : type ∈ (gadgetOf packet name).properties) : ∃ gadget ∈ packet, type ∈ gadget.2.properties := by
  unfold gadgetOf at member
  cases found : packet.lookup name with
  | none => simp [found] at member
  | some gadget =>
    obtain ⟨front, behind, split, -⟩ := List.lookup_eq_some_iff.mp found
    exact ⟨(name, gadget), by simp [split], by simpa [found] using member⟩

/-- The member has no type, although no gadget uses another. -/
theorem lateEnumeration_unknown : ¬ RegistersInOrder lateEnumeration ⟨[], fun _ => none, []⟩ Hash.first 1 := by
  intro registers
  have acyclic : Acyclic lateEnumeration := by
    intro name cycle
    obtain ⟨other, ⟨there, uses⟩, -⟩ := TransGen.head'_iff.mp cycle
    obtain ⟨gadget, inside, uses⟩ := mem_gadgetOf uses
    simp only [lateEnumeration, List.mem_cons, List.not_mem_nil, or_false] at inside
    obtain rfl | rfl := inside <;> simp at uses
  obtain ⟨⟨entry, managed, known⟩, -⟩ := registers.inOrder acyclic "Outer".toList ⟨by decide, by decide⟩ 0
    (.enumeration "Inner".toList "Kind".toList) rfl (show _ ∈ [_] by decide)
  obtain rfl := Option.some.inj (show some _ = some entry from managed)
  exact absurd known (by decide)

end Example
end RemoteObjects.Client.ManagedTypes
