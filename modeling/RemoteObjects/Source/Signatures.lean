import RemoteObjects.Text

/-! Signatures of signals and slots as texts: what `QMetaObjectBuilder` reads in them, and what
textual replacement does to them. -/
namespace RemoteObjects.Source.Signatures
open RemoteObjects Text

abbrev Name := List Char

section Model

/-- The parameters behind one that begins: none in front of the closing parenthesis. -/
def begun : Name → Nat
  | ')' :: _ => 0
  | _ => 1

/-- The parameters that begin behind a comma outside of all angle brackets. -/
def laterParameters : Int → Name → Nat
  | _, [] => 0
  | level, c :: s =>
    if c = ')' then 0
    else if c = ',' ∧ level ≤ 0 then begun s + laterParameters 0 s
    else laterParameters (if c = '<' then level + 1 else if c = '>' then level - 1 else level) s

/-- `QMetaObjectPrivate::parameterTypeNamesFromSignature`, as far as it counts them. -/
def parameterCount (signature : Name) : Nat :=
  match signature.dropWhile (· ≠ '(') with
  | [] => 0
  | _ :: s => begun s + laterParameters 0 s

def methodName (signature : Name) : Name := signature.takeWhile (· ≠ '(')

def argumentList : List Name → Name
  | [] => [')']
  | [type] => type ++ [')']
  | type :: next :: types => type ++ ',' :: argumentList (next :: types)

/-- The signature of a method in Qt's normal form. -/
def signature (name : Name) (types : List Name) : Name := name ++ '(' :: argumentList types

/-- The open angle brackets behind a character. A type has no parentheses, closes no brackets but
its own, and has commas only inside of them. -/
def opened (level : Nat) (c : Char) : Option Nat :=
  if c = '(' ∨ c = ')' then none
  else if c = '<' then some (level + 1)
  else if level = 0 then if c = '>' ∨ c = ',' then none else some 0
  else some (if c = '>' then level - 1 else level)

def nesting (level : Nat) (t : Name) : Option Nat := t.foldlM opened level

/-- The text of a type. -/
def IsType (t : Name) : Prop := nesting 0 t = some 0

instance (t : Name) : Decidable (IsType t) := inferInstanceAs (Decidable (nesting 0 t = some 0))

/-- A name has none of the characters that separate parts of a signature. -/
def IsName (t : Name) : Prop := ∀ c ∈ t, c ∉ ['(', ')', ',', '<', '>']

instance (t : Name) : Decidable (IsName t) := List.decidableBAll (fun c => c ∉ ['(', ')', ',', '<', '>']) t

/-- A type that is renamed, and its new name. -/
structure Renaming where
  type : Name
  by' : Name
  type_ne : type ≠ []
  isType : IsType type
  isName : IsName by'

/-- `QByteArray::replace`, one renaming after the other. -/
def renamed (renamings : List Renaming) (s : Name) : Name := renamings.foldl (fun s r => replace r.type r.by' s) s

end Model

section Nesting
variable {s t u : Name} {level last : Nat} {c : Char}

theorem nesting_cons : nesting level (c :: t) = (opened level c).bind fun level => nesting level t := rfl

theorem nesting_append (level : Nat) (s t : Name) :
    nesting level (s ++ t) = (nesting level s).bind fun level => nesting level t :=
  List.foldlM_append

theorem opened_add (step : opened level c = some last) (more : Nat) : opened (level + more) c = some (last + more) := by
  unfold opened at step ⊢
  split_ifs at step ⊢ <;> simp_all <;> omega

/-- Inside of more brackets, a text opens and closes the same. -/
theorem nesting_add (nested : nesting level t = some last) (more : Nat) :
    nesting (level + more) t = some (last + more) := by
  induction t generalizing level with
  | nil =>
    obtain rfl := Option.some.inj nested
    rfl
  | cons c t ih =>
    obtain ⟨middle, step, nested⟩ := Option.bind_eq_some_iff.mp nested
    rw [nesting_cons, opened_add step, Option.bind_some]
    exact ih nested

theorem IsType.nesting (type : IsType t) (level : Nat) : nesting level t = some level := by
  have nested := nesting_add type level
  rwa [Nat.zero_add] at nested

theorem IsName.isType (name : IsName t) : IsType t := by
  induction t with
  | nil => rfl
  | cons c t ih =>
    obtain ⟨here, later⟩ := List.forall_mem_cons.mp name
    simp only [List.mem_cons, List.not_mem_nil, or_false, not_or] at here
    obtain ⟨left, right, comma, open', close⟩ := here
    have step : opened 0 c = some 0 := by
      simp only [opened, left, right, open', close, comma, or_self, if_false, if_true]
    rw [IsType, nesting_cons, step]
    exact ih later

/-- A replacement by a name leaves types types. -/
theorem nesting_replace {pattern by' : Name} (nonempty : pattern ≠ []) (type : IsType pattern) (name : IsName by')
    (level : Nat) (t : Name) : nesting level (replace pattern by' t) = nesting level t := by
  induction t using replace_induction nonempty generalizing level with
  | nil => rfl
  | found t ih =>
    rw [replace_pattern nonempty, nesting_append, nesting_append, type.nesting, name.isType.nesting,
      Option.bind_some, Option.bind_some, ih]
  | other c t absent ih =>
    rw [replace_cons absent, nesting_cons, nesting_cons]
    exact congrArg _ (funext fun level => ih level)

/-- A type that stands where a type ends goes no further. -/
theorem IsType.within {pattern rest : Name} (isType : IsType pattern) (type : IsType t) (suffix : u <:+ t)
    (occurs : pattern <+: u ++ ',' :: rest) : pattern <+: u := by
  rcases List.prefix_or_prefix_of_prefix occurs (List.prefix_append u (',' :: rest)) with inside | longer
  · exact inside
  · obtain ⟨more, rfl⟩ := longer
    have behind : more <+: ',' :: rest := (List.prefix_append_right_inj u).mp occurs
    cases more with
    | nil =>
      simp only [List.append_nil, List.prefix_rfl]
    | cons c more =>
      obtain ⟨rfl, _⟩ := List.cons_prefix_cons.mp behind
      obtain ⟨front, rfl⟩ := suffix
      rw [IsType, nesting_append] at isType type
      obtain ⟨level, nested, closing⟩ := Option.bind_eq_some_iff.mp isType
      obtain ⟨before, _, whole⟩ := Option.bind_eq_some_iff.mp type
      have deeper := nesting_add nested before
      rw [Nat.zero_add, whole, Option.some.injEq] at deeper
      have outside : level = 0 := by omega
      rw [outside] at closing
      exact absurd closing (by simp [nesting_cons, opened])

theorem opened_ne_paren (step : opened level c = some last) : c ≠ '(' ∧ c ≠ ')' := by
  unfold opened at step
  split_ifs at step <;> simp_all

theorem not_mem_of_nesting (nested : nesting level t = some last) : '(' ∉ t ∧ ')' ∉ t := by
  induction t generalizing level with
  | nil => exact ⟨List.not_mem_nil, List.not_mem_nil⟩
  | cons c t ih =>
    obtain ⟨middle, step, nested⟩ := Option.bind_eq_some_iff.mp nested
    obtain ⟨left, right⟩ := ih nested
    obtain ⟨notLeft, notRight⟩ := opened_ne_paren step
    exact ⟨List.not_mem_cons_of_ne_of_not_mem notLeft.symm left, List.not_mem_cons_of_ne_of_not_mem notRight.symm right⟩

end Nesting

section Count
variable {name t : Name} {types : List Name} {level last : Nat} {c : Char}

/-- Inside of a type no parameter begins. -/
theorem laterParameters_opened (step : opened level c = some last) (s : Name) :
    laterParameters level (c :: s) = laterParameters last s := by
  rw [laterParameters]
  unfold opened at step
  split_ifs at step with paren left outside special close <;> obtain rfl := Option.some.inj step
  · rw [if_neg fun right => paren (.inr right), if_neg fun comma => absurd (comma.1.symm.trans left) (by decide), if_pos left,
      Int.natCast_succ]
  · subst outside
    rw [if_neg fun right => paren (.inr right), if_neg fun comma => special (.inr comma.1), if_neg left,
      if_neg fun right => special (.inl right), Int.natCast_zero]
  · rw [if_neg fun right => paren (.inr right), if_neg fun comma => by omega, if_neg left, if_pos close]
    congr 1
    omega
  · rw [if_neg fun right => paren (.inr right), if_neg fun comma => by omega, if_neg left, if_neg close]

theorem laterParameters_append (nested : nesting level t = some last) (s : Name) :
    laterParameters level (t ++ s) = laterParameters last s := by
  induction t generalizing level with
  | nil =>
    obtain rfl := Option.some.inj nested
    rfl
  | cons c t ih =>
    obtain ⟨middle, step, nested⟩ := Option.bind_eq_some_iff.mp nested
    rw [List.cons_append, laterParameters_opened step, ih nested]

theorem begun_append (type : IsType t) (some' : t ≠ []) (s : Name) : begun (t ++ s) = 1 := by
  obtain ⟨c, rest, rfl⟩ := List.exists_cons_of_ne_nil some'
  have notRight : c ≠ ')' := fun right => (not_mem_of_nesting type).2 (right ▸ List.mem_cons_self)
  unfold begun
  split
  · rename_i same
    exact absurd (List.cons_eq_cons.mp same).1 notRight
  · rfl

/-- All parameters are found, except for a last one without a text. -/
theorem parameters_argumentList (isTypes : ∀ t ∈ types, IsType t) :
    begun (argumentList types) + laterParameters 0 (argumentList types) =
      if types.getLast? = some [] then types.length - 1 else types.length := by
  induction types with
  | nil => rfl
  | cons t types ih =>
    obtain ⟨type, isTypes⟩ := List.forall_mem_cons.mp isTypes
    cases types with
    | nil =>
      have last := laterParameters_append type [')']
      rw [Int.natCast_zero] at last
      rw [argumentList, last]
      by_cases empty : t = []
      · subst empty
        rfl
      · have filled : ¬ [t].getLast? = some [] := fun same => empty (Option.some.inj same)
        rw [begun_append type empty, if_neg filled]
        rfl
    | cons next types =>
      have last := laterParameters_append type (',' :: argumentList (next :: types))
      rw [Int.natCast_zero] at last
      have first : begun (t ++ ',' :: argumentList (next :: types)) = 1 := by
        by_cases empty : t = []
        · subst empty
          rfl
        · exact begun_append type empty _
      have behind : laterParameters 0 (',' :: argumentList (next :: types)) =
          begun (argumentList (next :: types)) + laterParameters 0 (argumentList (next :: types)) := by
        rw [laterParameters, if_neg (by decide), if_pos ⟨rfl, Int.le_refl 0⟩]
      rw [argumentList, first, last, behind, ih isTypes, List.getLast?_cons_cons]
      simp only [List.length_cons]
      split <;> omega

theorem dropWhile_signature (noParen : '(' ∉ name) : (signature name types).dropWhile (· ≠ '(') = '(' :: argumentList types := by
  rw [signature, List.dropWhile_append_of_pos]
  · rfl
  · intro c member
    exact decide_eq_true fun left => noParen (left ▸ member)

theorem methodName_signature (noParen : '(' ∉ name) : methodName (signature name types) = name := by
  rw [methodName, signature, List.takeWhile_append_of_pos]
  · exact List.append_nil name
  · intro c member
    exact decide_eq_true fun left => noParen (left ▸ member)

theorem parameterCount_signature (noParen : '(' ∉ name) (isTypes : ∀ t ∈ types, IsType t) :
    parameterCount (signature name types) = if types.getLast? = some [] then types.length - 1 else types.length := by
  unfold parameterCount
  rw [dropWhile_signature noParen]
  exact parameters_argumentList isTypes

end Count

section Renamed
variable {name t : Name} {types : List Name} {renamings : List Renaming}

theorem Renaming.isType_replace (r : Renaming) (type : IsType t) : IsType (replace r.type r.by' t) := by
  rw [IsType, nesting_replace r.type_ne r.isType r.isName]
  exact type

/-- A replacement goes through the parameters one by one. -/
theorem Renaming.replace_argumentList (r : Renaming) (isTypes : ∀ t ∈ types, IsType t) :
    replace r.type r.by' (argumentList types) = argumentList (types.map (replace r.type r.by')) := by
  have noParen := (not_mem_of_nesting r.isType).2
  induction types with
  | nil =>
    have last : replace r.type r.by' ([] ++ [')']) = replace r.type r.by' [] ++ ')' :: replace r.type r.by' [] :=
      replace_separate r.type_ne noParen
    exact last
  | cons t types ih =>
    obtain ⟨type, isTypes⟩ := List.forall_mem_cons.mp isTypes
    cases types with
    | nil =>
      have last : replace r.type r.by' (t ++ [')']) = replace r.type r.by' t ++ ')' :: replace r.type r.by' [] :=
        replace_separate r.type_ne noParen
      exact last
    | cons next types =>
      have comma : ¬ r.type <+: ',' :: argumentList (next :: types) := fun occurs =>
        r.type_ne (List.prefix_nil.mp (r.isType.within type (List.nil_suffix) occurs))
      have apart : ∀ u, u ≠ [] → u <:+ t → r.type <+: u ++ ',' :: argumentList (next :: types) → r.type <+: u :=
        fun _ _ suffix => r.isType.within type suffix
      rw [argumentList, replace_append r.type_ne apart, replace_cons comma, ih isTypes]
      rfl

theorem Renaming.replace_signature (r : Renaming) (isTypes : ∀ t ∈ types, IsType t) :
    replace r.type r.by' (signature name types) =
      signature (replace r.type r.by' name) (types.map (replace r.type r.by')) := by
  rw [signature, replace_separate r.type_ne (not_mem_of_nesting r.isType).1, r.replace_argumentList isTypes]
  rfl

theorem isType_renamed (type : IsType t) : IsType (renamed renamings t) := by
  induction renamings generalizing t with
  | nil => exact type
  | cons r renamings ih => exact ih (r.isType_replace type)

theorem renamed_signature (isTypes : ∀ t ∈ types, IsType t) :
    renamed renamings (signature name types) = signature (renamed renamings name) (types.map (renamed renamings)) := by
  induction renamings generalizing name types with
  | nil =>
    have same : types.map (renamed []) = types := List.map_id types
    rw [same]
    rfl
  | cons r renamings ih =>
    have later : ∀ t ∈ types.map (replace r.type r.by'), IsType t :=
      List.forall_mem_map.mpr fun t member => r.isType_replace (isTypes t member)
    have whole : renamed (r :: renamings) (signature name types) =
        renamed renamings (signature (replace r.type r.by' name) (types.map (replace r.type r.by'))) :=
      congrArg (renamed renamings) (r.replace_signature isTypes)
    rw [whole, ih later, List.map_map]
    rfl

theorem Renaming.plain (r : Renaming) : '<' ∉ r.by' := fun member => absurd (r.isName _ member) (by decide)

/-- Renaming generic types to plain ones leaves fewer brackets. -/
theorem count_renamed (generic : ∀ r ∈ renamings, '<' ∈ r.type) (t : Name) :
    (renamed renamings t).count '<' ≤ t.count '<' := by
  induction renamings generalizing t with
  | nil => exact Nat.le_refl _
  | cons r renamings ih =>
    obtain ⟨here, later⟩ := List.forall_mem_cons.mp generic
    exact Nat.le_trans (ih later _) (count_replace here r.plain t).1

theorem renamed_eq_self (generic : ∀ r ∈ renamings, '<' ∈ r.type) :
    renamed renamings t = t ↔ ∀ r ∈ renamings, ¬ r.type <:+: t := by
  induction renamings with
  | nil => exact ⟨fun _ => List.forall_mem_nil _, fun _ => rfl⟩
  | cons r renamings ih =>
    obtain ⟨here, later⟩ := List.forall_mem_cons.mp generic
    change renamed renamings (replace r.type r.by' t) = t ↔ _
    rw [List.forall_mem_cons]
    by_cases occurs : r.type <:+: t
    · refine ⟨fun same => ?_, fun absent => absurd occurs absent.1⟩
      have fewer := (count_replace here r.plain t).2 occurs
      have most := count_renamed later (replace r.type r.by' t)
      rw [same] at most
      omega
    · rw [replace_absent r.type_ne occurs]
      exact (ih later).trans ⟨fun rest => ⟨occurs, rest⟩, fun absent => absent.2⟩

end Renamed
end RemoteObjects.Source.Signatures
