import Mathlib.Algebra.Order.BigOperators.Group.List
import Mathlib.Algebra.Order.Group.Nat
import Mathlib.Data.List.Infix
import RemoteObjects.Repc.Comments
import RemoteObjects.Repc.PlainTexts
import RemoteObjects.Repc.SourceApi
import RemoteObjects.Text

/-! The texts of signatures that the generated source API returns. Enumerations of the class have numbered placeholders in them, which
are put where a search finds the name first and replaced one after the other. -/
namespace RemoteObjects.Repc
open Text

section Model

def placeholder (enumCount : Nat) : QString := '$' :: Nat.toDigits 10 enumCount

/-- `qtro_enum_signature`. -/
def enumSignature (scope name : QString) : QString := replace "2".toList name (replace "1".toList scope "1::2".toList)

section Class
variable (qt : QtCore) (c : ASTClass) (scope : QString)

def paramsAsList (f : ASTFunction) : List QString := f.params.map fun param => qt.normalizeType (param.asString false)

/-- `paramsAsString(Normalized)`. -/
def paramsAsString (f : ASTFunction) : QString := join [','] (paramsAsList qt f)

/-- The loop over what is between commas: the text and the enumerations for the placeholders in it. -/
def spellFrom : Nat → QString → List QString → QString × List QString
  | _, text, [] => (text, [])
  | enumCount, text, p :: list =>
    if isClassEnum c p then
      let spelled := spellFrom (enumCount + 1) (replaceFirst p (placeholder enumCount) text) list
      (spelled.1, p :: spelled.2)
    else spellFrom enumCount text list

/-- One call of `replace` for each placeholder. -/
def fillFrom : Nat → List QString → QString → QString
  | _, [], text => text
  | enumCount, name :: enums, text =>
    fillFrom (enumCount + 1) enums (replace (placeholder enumCount) (enumSignature scope name) text)

def functionSignature (f : ASTFunction) : QString :=
  let spelled := spellFrom c 0 (paramsAsString qt f) ((paramsAsString qt f).splitOn ',')
  fillFrom scope 0 spelled.2 (f.name ++ '(' :: (spelled.1 ++ [')']))

def changedSignature (property : ASTProperty) : QString :=
  if isClassEnum c property.type then
    replace (placeholder 1) (enumSignature scope property.type) (property.name ++ "Changed($1)".toList)
  else property.name ++ "Changed(".toList ++ typeForMode property .source ++ [')']

def pushSignature (property : ASTProperty) : QString :=
  if isClassEnum c property.type then
    replace (placeholder 1) (enumSignature scope property.type) ("push".toList ++ property.name ++ "($1)".toList)
  else "push".toList ++ cap qt property.name ++ '(' :: (property.type ++ [')'])

/-- The cases of the `switch`; without one nothing is returned. -/
def caseOf (cases : List QString) (index : Int) : QString := if 0 ≤ index then cases[index.toNat]?.getD [] else []

/-- The `signalSignature` of an API for a class whose enumerations are in the scope. -/
def signalSignature (index : Int) : QString :=
  caseOf ((c.properties.filter (·.modifier ≠ .constant)).map (changedSignature c scope) ++
    c.signalsList.map (functionSignature qt c scope)) index

def methodSignature (index : Int) : QString :=
  caseOf ((c.properties.filter (·.modifier = .readPush)).map (pushSignature qt c scope) ++
    c.slotsList.map (functionSignature qt c scope)) index

end Class
end Model

section Statement
variable (qt : QtCore) (c : ASTClass) (scope : QString)

/-- The types of the member with the class in the place of `typename ObjectType`. -/
def Member.types : Member → List QString
  | .changed property => [qt.normalizeType (fullyQualifiedName c scope (typeForMode property .source))]
  | .signal f | .slot f => paramsAsList qt (transformParams c scope f)
  | .push property => [qt.normalizeType (fullyQualifiedName c scope property.type)]

def Member.signature (member : Member) : QString :=
  (member.inApi qt c).name ++ '(' :: (join [','] (member.types qt c scope) ++ [')'])

/-- The text that the generated code returns for a member. -/
def Member.spelled : Member → QString
  | .changed property => changedSignature c scope property
  | .signal f | .slot f => functionSignature qt c scope f
  | .push property => pushSignature qt c scope property

/-- The types of the parameters that are enums of the class. -/
def enumTypes (f : ASTFunction) : List QString := (f.params.map (·.type)).filter (isClassEnum c)

/-- Names as in C++, without `$`, and what is documented of normal forms: they keep colons, and are without `const` and without
references to what is `const`. -/
structure WellNamed : Prop where
  enums : ∀ en ∈ c.enums, isIdentifier en.name = true
  qualified : ∀ a ∈ scope, isNamePart a = true ∨ a = ':'
  properties : ∀ property ∈ c.properties, '$' ∉ property.name
  functions : ∀ f ∈ c.signalsList ++ c.slotsList, '$' ∉ f.name ∧ ∀ t ∈ paramsAsList qt f, '$' ∉ t
  colons : ∀ property ∈ c.properties, ∀ t ∈ [property.type, typeForMode property .source],
    (qt.normalizeType (fullyQualifiedName c scope t)).count ':' = (fullyQualifiedName c scope t).count ':'
  normal : ∀ en ∈ c.enums, ∀ q ∈ [en.name, scope ++ "::".toList ++ en.name], ∀ constant reference,
    qt.normalizeType (ASTDeclaration.asString ⟨q, [], constant, reference⟩ false) = q ++ if reference ∧ ¬ constant then ['&'] else []

/-- A type in its normal form with no enum of the class in it. -/
def PlainType (t : QString) : Prop := qt.normalizeType t = t ∧ fullyQualifiedName c scope t = t

/-- No reference is made to an enum but to a `const` one, other types have no enum between commas, enums are not found in other types
before them, a number with more digits stands for the enum of its first digit with the others behind it, and the scope has no 2. -/
structure FunctionFits (f : ASTFunction) : Prop where
  whole : ∀ param ∈ f.params, isClassEnum c param.type = true → param.reference = true → param.constant = true
  apart : ∀ param ∈ f.params, isClassEnum c param.type = false → ∀ piece ∈ (qt.normalizeType (param.asString false)).splitOn ',',
    isClassEnum c piece = false
  first : f.params.Pairwise fun earlier later => isClassEnum c earlier.type = false → isClassEnum c later.type = true →
    ¬ later.type <:+: qt.normalizeType (earlier.asString false)
  numbered : ∀ k name, (enumTypes c f)[k]? = some name → ∃ index first rest, Nat.toDigits 10 k = index.digitChar :: rest ∧ index < 10 ∧
    (enumTypes c f)[index]? = some first ∧ name = first ++ rest
  digitless : enumTypes c f ≠ [] → '2' ∉ scope

/-- A reference to an enum is not found, and an enum between the commas of another type is. -/
def Cancels (f : ASTFunction) : Prop :=
  (∃ param ∈ f.params, isClassEnum c param.type = true ∧ param.reference = true ∧ param.constant = false) ∧
    ∃ param ∈ f.params, isClassEnum c param.type = false ∧ ∃ piece ∈ (qt.normalizeType (param.asString false)).splitOn ',',
      isClassEnum c piece = true

def Member.Fits : Member → Prop
  | .changed property =>
    if isClassEnum c property.type then property.isPointer = false ∧ '2' ∉ scope else PlainType qt c scope (typeForMode property .source)
  | .push property => if isClassEnum c property.type then cap qt property.name = property.name ∧ '2' ∉ scope else PlainType qt c scope property.type
  | .signal f | .slot f => FunctionFits qt c scope f

def Member.Cancels : Member → Prop
  | .signal f | .slot f => RemoteObjects.Repc.Cancels qt c f
  | _ => False

/-- What a `switch` returns for an index, by the members behind the entries of an array. -/
def ReturnsMember (members : List Member) (array : ApiArray ApiMethod) (returned : QString) (index : Int) : Prop :=
  (array.source index = none → returned = []) ∧ ∀ entry, array.source index = some entry →
    ∃ member, members[index.toNat]? = some member ∧ entry = member.inApi qt c ∧
      (member.Fits qt c scope → returned = member.signature qt c scope) ∧
      (¬ member.Cancels qt c → returned = member.signature qt c scope → member.Fits qt c scope)

end Statement

section Enums
variable {qt : QtCore} {c : ASTClass} {scope name e t : QString} {a : Char}

theorem isClassEnum_iff : isClassEnum c t = true ↔ ∃ en ∈ c.enums, en.name = t := by simp [isClassEnum]

theorem WellNamed.identifier (named : WellNamed qt c scope) (is : isClassEnum c e = true) : isIdentifier e = true := by
  obtain ⟨en, mem, rfl⟩ := isClassEnum_iff.mp is
  exact named.enums en mem

/-- The characters of a name are none of these. -/
theorem not_mem_identifier (isName : isIdentifier e = true) (other : isNamePart a = false) : a ∉ e := fun mem =>
  absurd (isNamePart_of_mem isName a mem) (by rw [other]; exact Bool.false_ne_true)

theorem enumSignature_eq (scope name : QString) : enumSignature scope name = replace ['2'] name scope ++ "::".toList ++ name := by
  have inner : replace "1".toList scope "1::2".toList = scope ++ ':' :: [':', '2'] := by
    have step : replace "1".toList scope ("1".toList ++ "::2".toList) = scope ++ replace "1".toList scope "::2".toList :=
      replace_pattern (by decide) _
    exact step
  have colon : replace "2".toList name [':', '2'] = ':' :: name := by
    have step : replace "2".toList name ("2".toList ++ []) = name ++ [] := replace_pattern (by decide) _
    rw [replace_cons (by decide)]
    simpa using step
  rw [enumSignature, inner, replace_separate (by decide) (by decide), colon]
  simp

variable (scope) in
/-- The scope is replaced by the name where it has a 2. -/
theorem enumSignature_iff (isName : isIdentifier name = true) :
    enumSignature scope name = scope ++ "::".toList ++ name ↔ '2' ∉ scope := by
  have other : (['2'] : QString) ≠ name := by
    rintro rfl
    exact absurd isName (by decide)
  rw [enumSignature_eq, List.append_cancel_right_eq, List.append_cancel_right_eq, replace_eq_self (by decide), or_iff_right other,
    List.singleton_infix_iff]

theorem qualifyFrom_name (plain : ∀ a ∈ t, isDelimiter a = false) (token : QString) :
    qualifyFrom c scope token t = qualifiedToken c scope (token ++ t) := by
  have nothing : qualifyFrom c scope [] [] = [] := by simp [qualifyFrom, qualifiedToken]
  have part : qualifyFrom c scope token (t ++ []) = qualifiedToken c scope (token ++ t) ++ qualifyFrom c scope [] [] :=
    qualifyFrom_part c scope plain (by rintro _ ⟨⟩) token
  rwa [nothing, List.append_nil, List.append_nil] at part

theorem fullyQualifiedName_enum (named : WellNamed qt c scope) (is : isClassEnum c e = true) :
    fullyQualifiedName c scope e = scope ++ "::".toList ++ e := by
  have isName := named.identifier is
  have plain : ∀ a ∈ e, isDelimiter a = false := by
    intro a mem
    have part := isNamePart_of_mem isName a mem
    have other (d : Char) (bad : isNamePart d = false) : a ≠ d := ne_of_isNamePart part bad
    simp [isDelimiter, other '<' (by decide), other '>' (by decide), other ',' (by decide), isSpace_of_part part]
  rw [fullyQualifiedName, qualifyFrom_name plain, List.nil_append, qualifiedToken, if_pos ⟨identifier_ne_nil isName, is⟩]

/-- Where a type is qualified it has more colons. -/
theorem count_qualifyFrom (c : ASTClass) (scope token t : QString) : (token ++ t).count ':' ≤ (qualifyFrom c scope token t).count ':' ∧
    ((qualifyFrom c scope token t).count ':' = (token ++ t).count ':' → qualifyFrom c scope token t = token ++ t) := by
  have one (token : QString) : token.count ':' ≤ (qualifiedToken c scope token).count ':' ∧
      ((qualifiedToken c scope token).count ':' = token.count ':' → qualifiedToken c scope token = token) := by
    rw [qualifiedToken]
    split
    · have two : List.count ':' "::".toList = 2 := by decide
      rw [List.count_append, List.count_append, two]
      exact ⟨by omega, fun same => by omega⟩
    · exact ⟨le_rfl, fun _ => rfl⟩
  induction t generalizing token with
  | nil => simpa [qualifyFrom] using one token
  | cons a t ih =>
    rw [qualifyFrom]
    split
    · obtain ⟨more, same⟩ := ih []
      obtain ⟨more', same'⟩ := one token
      simp only [List.nil_append] at more same
      simp only [List.count_append, List.count_cons]
      refine ⟨by omega, fun equal => ?_⟩
      rw [same (by omega), same' (by omega)]
    · simpa using ih (token ++ [a])

/-- The type of a member in the scope is the plain one only if that is in normal form and names no enum. -/
theorem plainType_iff (kept : (qt.normalizeType (fullyQualifiedName c scope t)).count ':' = (fullyQualifiedName c scope t).count ':') :
    t = qt.normalizeType (fullyQualifiedName c scope t) ↔ PlainType qt c scope t := by
  constructor
  · intro same
    have colons := kept.symm.trans (congrArg (List.count ':') same.symm)
    have unqualified : fullyQualifiedName c scope t = t := (count_qualifyFrom c scope [] t).2 colons
    rw [unqualified] at same
    exact ⟨same.symm, unqualified⟩
  · rintro ⟨normal, unqualified⟩
    rw [unqualified, normal]

end Enums

section Properties
variable {qt : QtCore} {c : ASTClass} {scope name e : QString} {property : ASTProperty}

/-- The number of its placeholder. -/
theorem replace_placeholder (absent : '$' ∉ name) (by' : QString) : replace (placeholder 1) by' (name ++ "($1)".toList) = name ++ '(' :: (by' ++ [')']) := by
  have one : placeholder 1 = ['$', '1'] := by decide
  have last : replace ['$', '1'] by' ("$1".toList ++ ")".toList) = by' ++ replace ['$', '1'] by' ")".toList := replace_pattern (by decide) _
  have nothing : replace ['$', '1'] by' ")".toList = ")".toList := replace_absent (by decide) (by decide)
  have same : replace ['$', '1'] by' name = name :=
    replace_absent (by decide) fun occurs => absent (occurs.subset List.mem_cons_self)
  rw [one, show name ++ "($1)".toList = name ++ '(' :: ("$1".toList ++ ")".toList) from rfl, replace_separate (by decide) (by decide), last,
    nothing, same]
  rfl

theorem normal_enum (named : WellNamed qt c scope) (is : isClassEnum c e = true) :
    qt.normalizeType (scope ++ "::".toList ++ e) = scope ++ "::".toList ++ e := by
  obtain ⟨en, mem, rfl⟩ := isClassEnum_iff.mp is
  simpa [ASTDeclaration.asString] using named.normal en mem _ (by simp) false false

/-- A pointer to a class is none to an enum. -/
theorem colons_pointer (named : WellNamed qt c scope) (is : isClassEnum c property.type = true) (pointer : property.isPointer = true) :
    (fullyQualifiedName c scope (typeForMode property .source)).count ':' = 0 := by
  have isName := named.identifier is
  obtain ⟨sort, letters, type⟩ : ∃ sort, (∀ a ∈ sort, isNamePart a = true) ∧ typeForMode property .source = property.type ++ (sort ++ ['*']) := by
    rw [typeForMode, if_neg (not_not.mpr pointer)]
    split
    · exact ⟨[], nofun, rfl⟩
    · exact ⟨"Source".toList, by decide, rfl⟩
  have chars : ∀ a ∈ typeForMode property .source, isNamePart a = true ∨ a = '*' := by
    rw [type]
    simp only [List.mem_append, List.mem_singleton]
    rintro a (mem | mem | rfl)
    · exact .inl (isNamePart_of_mem isName a mem)
    · exact .inl (letters a mem)
    · exact .inr rfl
  have plain : ∀ a ∈ typeForMode property .source, isDelimiter a = false ∧ a ≠ ':' := by
    intro a mem
    rcases chars a mem with part | rfl
    · have other (d : Char) (bad : isNamePart d = false) : a ≠ d := ne_of_isNamePart part bad
      simp [isDelimiter, other '<' (by decide), other '>' (by decide), other ',' (by decide), isSpace_of_part part, other ':' (by decide)]
    · decide
  have none : isClassEnum c (typeForMode property .source) = false := by
    refine Bool.eq_false_iff.mpr fun enum => ?_
    have star : '*' ∈ typeForMode property .source := by simp [type]
    exact not_mem_identifier (named.identifier enum) (by decide) star
  rw [fullyQualifiedName, qualifyFrom_name fun a mem => (plain a mem).1, List.nil_append, qualifiedToken, none,
    if_neg (by simp), List.count_eq_zero]
  exact fun mem => (plain _ mem).2 rfl

theorem changedSignature_iff (named : WellNamed qt c scope) (mem : property ∈ c.properties) :
    changedSignature c scope property = (Member.changed property).signature qt c scope ↔ (Member.changed property).Fits qt c scope := by
  have signature : (Member.changed property).signature qt c scope =
      (property.name ++ "Changed".toList) ++ '(' :: (qt.normalizeType (fullyQualifiedName c scope (typeForMode property .source)) ++ [')']) := rfl
  have kept := named.colons property mem (typeForMode property .source) (by simp)
  rw [signature, changedSignature, Member.Fits]
  by_cases is : isClassEnum c property.type = true
  · have absent : '$' ∉ property.name ++ "Changed".toList := by simpa using named.properties property mem
    have filled := replace_placeholder absent (enumSignature scope property.type)
    rw [List.append_assoc] at filled
    rw [if_pos is, if_pos is, show "Changed($1)".toList = "Changed".toList ++ "($1)".toList from rfl, filled, List.append_cancel_left_eq,
      List.cons.injEq, List.append_cancel_right_eq, and_iff_right rfl]
    cases pointer : property.isPointer with
    | false =>
      have plain : typeForMode property .source = property.type := by simp [typeForMode, pointer]
      rw [plain, fullyQualifiedName_enum named is, normal_enum named is, enumSignature_iff scope (named.identifier is)]
      simp
    | true =>
      refine iff_of_false (fun same => ?_) (by simp)
      have colons := congrArg (List.count ':') same
      rw [kept, colons_pointer named is pointer, enumSignature_eq] at colons
      simp at colons
  · rw [if_neg is, if_neg is, ← plainType_iff kept]
    simp

theorem pushSignature_iff (named : WellNamed qt c scope) (mem : property ∈ c.properties) :
    pushSignature qt c scope property = (Member.push property).signature qt c scope ↔ (Member.push property).Fits qt c scope := by
  have signature : (Member.push property).signature qt c scope =
      ("push".toList ++ cap qt property.name) ++ '(' :: (qt.normalizeType (fullyQualifiedName c scope property.type) ++ [')']) := rfl
  rw [signature, pushSignature, Member.Fits]
  by_cases is : isClassEnum c property.type = true
  · have absent : '$' ∉ "push".toList ++ property.name := by simpa using named.properties property mem
    have filled := replace_placeholder absent (enumSignature scope property.type)
    have length : (cap qt property.name).length = property.name.length := by cases property.name <;> rfl
    rw [if_pos is, if_pos is, filled, fullyQualifiedName_enum named is, normal_enum named is, ← enumSignature_iff scope (named.identifier is)]
    constructor
    · intro same
      obtain ⟨first, second⟩ := List.append_inj same (by simp [length])
      exact ⟨(List.append_cancel_left first).symm, List.append_cancel_right (List.cons_injective second)⟩
    · rintro ⟨capital, signature⟩
      rw [capital, signature]
  · rw [if_neg is, if_neg is, ← plainType_iff (named.colons property mem property.type List.mem_cons_self)]
    simp

end Properties

section Placeholders
variable {scope s t rest first : QString} {names : List QString} {k number index : Nat} {a : Char}

theorem digitChar_injective {i j : Nat} (small : i < 10) (small' : j < 10) (same : i.digitChar = j.digitChar) : i = j := by
  have all : ∀ i < 10, ∀ j < 10, Nat.digitChar i = Nat.digitChar j → i = j := by decide
  exact all i small j small' same

theorem exists_first_digit (number : Nat) :
    ∃ index rest, Nat.toDigits 10 number = index.digitChar :: rest ∧ index < 10 ∧ index ≤ number ∧ ∀ a ∈ rest, a.isDigit = true := by
  induction number using Nat.strongRecOn with
  | ind number ih =>
    by_cases small : number < 10
    · exact ⟨number, [], Nat.toDigits_of_lt_base small, small, le_rfl, nofun⟩
    · obtain ⟨index, rest, digits, least, below, all⟩ := ih (number / 10) (by omega)
      refine ⟨index, rest ++ [(number % 10).digitChar], ?_, least, by omega, ?_⟩
      · rw [Nat.toDigits_of_base_le (by decide) (by omega), digits]
        rfl
      · simp only [List.mem_append, List.mem_singleton]
        rintro a (mem | rfl)
        · exact all a mem
        · simp [Nat.isDigit_digitChar, Nat.mod_lt]

theorem not_mem_placeholder (other : a ≠ '$') (digit : a.isDigit = false) (k : Nat) : a ∉ placeholder k := by
  rw [placeholder, List.mem_cons, not_or]
  exact ⟨other, fun mem => by rw [Nat.isDigit_of_mem_toDigits (by decide) (by decide) mem] at digit; cases digit⟩

theorem placeholder_ne_nil (k : Nat) : placeholder k ≠ [] := List.cons_ne_nil _ _

/-- Without placeholders nothing is replaced. -/
theorem fillFrom_absent (absent : '$' ∉ s) : fillFrom scope k names s = s := by
  induction names generalizing k with
  | nil => rfl
  | cons name names ih =>
    rw [fillFrom, replace_absent (placeholder_ne_nil k) fun occurs => absent (occurs.subset List.mem_cons_self), ih]

theorem fillFrom_separate (other : a ≠ '$') (digit : a.isDigit = false) :
    fillFrom scope k names (s ++ a :: rest) = fillFrom scope k names s ++ a :: fillFrom scope k names rest := by
  induction names generalizing k s rest with
  | nil => rfl
  | cons name names ih =>
    rw [fillFrom, replace_separate (placeholder_ne_nil k) (not_mem_placeholder other digit k), ih, fillFrom, fillFrom]

theorem not_mem_enumSignature (other : a ≠ ':') (plainScope : a ∉ scope) (plainName : a ∉ t) : a ∉ enumSignature scope t := by
  rw [enumSignature_eq]
  have colons : a ∉ "::".toList := by simpa using other
  simp only [List.mem_append, not_or]
  exact ⟨⟨fun mem => (mem_replace (by decide) mem).elim plainName plainScope, colons⟩, plainName⟩

/-- The enum of the first digit comes in the place of a number, and the other digits stay. -/
theorem fillFrom_placeholder (plainScope : '$' ∉ scope) (plainNames : ∀ name ∈ names, '$' ∉ name)
    (digits : Nat.toDigits 10 number = index.digitChar :: rest) (small : index < 10) (others : ∀ a ∈ rest, a.isDigit = true) (start : k ≤ index)
    (at_ : names[index - k]? = some first) : fillFrom scope k names (placeholder number) = enumSignature scope first ++ rest := by
  have noDollar : '$' ∉ rest := fun mem => absurd (others _ mem) (by decide)
  induction names generalizing k with
  | nil => simp at at_
  | cons name names ih =>
    rw [List.forall_mem_cons] at plainNames
    have own : placeholder k = ['$', k.digitChar] := by rw [placeholder, Nat.toDigits_of_lt_base (by omega)]
    rw [fillFrom]
    rcases Nat.eq_or_lt_of_le start with rfl | later
    · obtain rfl : name = first := by simpa using at_
      have split : placeholder number = placeholder k ++ rest := by rw [placeholder, digits, own]; rfl
      rw [split, replace_pattern (placeholder_ne_nil k),
        replace_absent (placeholder_ne_nil k) fun occurs => noDollar (occurs.subset (by rw [own]; exact List.mem_cons_self)),
        fillFrom_absent]
      rw [List.mem_append, not_or]
      exact ⟨not_mem_enumSignature (by decide) plainScope plainNames.1, noDollar⟩
    · have absent : ¬ placeholder k <:+: placeholder number := by
        rw [own, placeholder, digits, List.infix_cons_iff]
        rintro (occurs | occurs)
        · have same := (List.cons_prefix_cons.mp (List.cons_prefix_cons.mp occurs).2).1
          exact absurd (digitChar_injective (by omega) small same) (by omega)
        · have mem : '$' ∈ index.digitChar :: rest := occurs.subset List.mem_cons_self
          rcases List.mem_cons.mp mem with is | mem
          · have all : ∀ i < 10, Nat.digitChar i ≠ '$' := by decide
            exact all index small is.symm
          · exact noDollar mem
      rw [replace_absent (placeholder_ne_nil k) absent]
      refine ih plainNames.2 later ?_
      rw [← at_, show index - k = (index - (k + 1)) + 1 by omega, List.getElem?_cons_succ]

end Placeholders

section Pieces
variable {qt : QtCore} {c : ASTClass} {scope s t e ph : QString} {xs ys list front : List QString} {names : List QString} {k : Nat} {a : Char}

/-- The pieces between commas with the first one changed that has a text in it. -/
def mark (e ph : QString) : List QString → List QString
  | [] => []
  | x :: xs => if e <:+: x then replaceFirst e ph x :: xs else x :: mark e ph xs

/-- The search on the pieces. -/
def marked (c : ASTClass) : Nat → List QString → List QString → List QString
  | _, xs, [] => xs
  | k, xs, p :: list => if isClassEnum c p then marked c (k + 1) (mark p (placeholder k) xs) list else marked c k xs list

/-- The enums among the pieces by their numbers. -/
def numberFrom (c : ASTClass) : Nat → List QString → List QString
  | _, [] => []
  | k, p :: list => if isClassEnum c p then placeholder k :: numberFrom c (k + 1) list else p :: numberFrom c k list

theorem replaceFirst_join (nonempty : e ≠ []) (comma : ',' ∉ e) (xs : List QString) :
    replaceFirst e ph (join [','] xs) = join [','] (mark e ph xs) := by
  induction xs with
  | nil => exact replaceFirst_nil nonempty
  | cons x xs ih =>
    cases xs with
    | nil =>
      by_cases occurs : e <:+: x
      · simp [mark, occurs, join]
      · simp [mark, occurs, join, replaceFirst_absent occurs]
    | cons y ys =>
      rw [join_cons_cons, List.append_assoc, List.singleton_append, replaceFirst_separate nonempty comma, ih]
      by_cases occurs : e <:+: x
      · rw [if_pos occurs, mark, if_pos occurs, join_cons_cons, List.append_assoc, List.singleton_append]
      · have later : mark e ph (x :: y :: ys) = x :: mark e ph (y :: ys) := if_neg occurs
        have pieces : mark e ph (y :: ys) ≠ [] := by rw [mark]; split <;> simp
        obtain ⟨z, zs, is⟩ := List.exists_cons_of_ne_nil pieces
        rw [if_neg occurs, later, is, join_cons_cons, List.append_assoc, List.singleton_append]

theorem spellFrom_eq (named : WellNamed qt c scope) (k : Nat) (xs list : List QString) :
    spellFrom c k (join [','] xs) list = (join [','] (marked c k xs list), list.filter (isClassEnum c)) := by
  induction list generalizing k xs with
  | nil => rfl
  | cons p list ih =>
    rw [spellFrom, marked]
    by_cases is : isClassEnum c p = true
    · have isName := named.identifier is
      rw [if_pos is, if_pos is, replaceFirst_join (identifier_ne_nil isName) (not_mem_identifier isName (by decide)), ih,
        List.filter_cons_of_pos is]
    · rw [if_neg is, if_neg is, ih, List.filter_cons_of_neg is]

theorem fillFrom_join (xs : List QString) : fillFrom scope k names (join [','] xs) = join [','] (xs.map (fillFrom scope k names)) := by
  induction xs with
  | nil => exact fillFrom_absent List.not_mem_nil
  | cons x xs ih =>
    cases xs with
    | nil => rfl
    | cons y ys =>
      rw [join_cons_cons, List.append_assoc, List.singleton_append, fillFrom_separate (by decide) (by decide), ih, List.map_cons, List.map_cons,
        List.map_cons, join_cons_cons, List.append_assoc, List.singleton_append]

/-- A text without commas stands in a joined one only within a piece. -/
theorem infix_join (nonempty : e ≠ []) (comma : ',' ∉ e) (xs : List QString) : e <:+: join [','] xs ↔ ∃ x ∈ xs, e <:+: x := by
  have single (s rest : QString) : e <:+: s ++ ',' :: rest ↔ e <:+: s ∨ e <:+: rest := by
    constructor
    · intro occurs
      induction s with
      | nil =>
        rcases List.infix_cons_iff.mp occurs with here | later
        · obtain ⟨b, more, rfl⟩ := List.exists_cons_of_ne_nil nonempty
          obtain ⟨rfl, -⟩ := List.cons_prefix_cons.mp here
          exact absurd List.mem_cons_self comma
        · exact .inr later
      | cons b s ih =>
        rcases List.infix_cons_iff.mp occurs with here | later
        · have within : e <+: b :: s := prefix_of_not_mem comma here
          exact .inl within.isInfix
        · exact (ih later).imp_left fun occurs => occurs.trans (List.suffix_cons b s).isInfix
    · rintro (occurs | occurs)
      · exact occurs.trans (List.prefix_append _ _).isInfix
      · exact occurs.trans ((List.suffix_cons _ _).trans (List.suffix_append _ _)).isInfix
  induction xs with
  | nil => simpa [join] using nonempty
  | cons x xs ih =>
    cases xs with
    | nil => simp [join]
    | cons y ys => simp only [join_cons_cons, List.append_assoc, List.singleton_append, single, ih, List.mem_cons, exists_eq_or_imp]

theorem mem_join (other : a ≠ ',') (xs : List QString) : a ∈ join [','] xs ↔ ∃ x ∈ xs, a ∈ x := by
  have occurs := infix_join (List.cons_ne_nil a []) (by simpa using other.symm) xs
  simpa only [List.singleton_infix_iff] using occurs

theorem join_eq_intercalate (separator : QString) (xs : List QString) : join separator xs = separator.intercalate xs := by
  induction xs with
  | nil => rfl
  | cons x xs ih =>
    cases xs with
    | nil => simp [join]
    | cons y ys => simp [join, ih]

theorem join_splitOn (s : QString) : join [','] (s.splitOn ',') = s := by rw [join_eq_intercalate, List.intercalate_splitOn]

theorem splitOn_join (some : xs ≠ []) : (join [','] xs).splitOn ',' = xs.flatMap (·.splitOn ',') := by
  induction xs with
  | nil => exact absurd rfl some
  | cons x xs ih =>
    cases xs with
    | nil => simp [join]
    | cons y ys =>
      rw [join_cons_cons, List.append_assoc, List.singleton_append, List.splitOn_append_cons_self, ih (List.cons_ne_nil _ _)]
      rfl

end Pieces

section Sufficient
variable {qt : QtCore} {c : ASTClass} {scope e ph : QString} {front list : List QString} {names : List QString} {k : Nat}

/-- An enum by its name in the scope. -/
def qualifiedPiece (c : ASTClass) (scope x : QString) : QString := if isClassEnum c x then scope ++ "::".toList ++ x else x

/-- A search with nothing to find before the piece itself. -/
theorem mark_append (absent : ∀ x ∈ front, ¬ e <:+: x) : mark e ph (front ++ list) = front ++ mark e ph list := by
  induction front with
  | nil => rfl
  | cons x front ih =>
    rw [List.forall_mem_cons] at absent
    rw [List.cons_append, mark, if_neg absent.1, ih absent.2, List.cons_append]

theorem mark_own (nonempty : e ≠ []) (ph : QString) (list : List QString) : mark e ph (e :: list) = ph :: list := by
  have whole : replaceFirst e ph (e ++ []) = ph ++ [] := replaceFirst_pattern nonempty []
  rw [mark, if_pos List.infix_rfl]
  simpa using whole

theorem not_infix_placeholder (isName : isIdentifier e = true) (k : Nat) : ¬ e <:+: placeholder k := by
  intro occurs
  cases e with
  | nil => exact absurd isName Bool.false_ne_true
  | cons a rest =>
    have start : isNameStart a = true := (Bool.and_eq_true_iff.mp isName).1
    have letter := (toNat_of_isNameStart start).1
    rcases List.mem_cons.mp (occurs.subset List.mem_cons_self) with rfl | digit
    · exact absurd letter (by decide)
    · have isDigit : a.isDigit = true := Nat.isDigit_of_mem_toDigits (by decide) (by decide) digit
      simp only [Char.isDigit, Bool.and_eq_true, decide_eq_true_eq, UInt32.le_iff_toNat_le] at isDigit
      exact absurd (letter.trans isDigit.2) (by decide)

/-- Where no enum is found in another type before it, each gets its number. -/
theorem marked_eq (named : WellNamed qt c scope)
    (before : ∀ x ∈ front, ∀ e ∈ list, isClassEnum c e = true → ¬ e <:+: x)
    (among : list.Pairwise fun x e => isClassEnum c x = false → isClassEnum c e = true → ¬ e <:+: x) :
    marked c k (front ++ list) list = front ++ numberFrom c k list := by
  induction list generalizing front k with
  | nil => rfl
  | cons p list ih =>
    rw [List.pairwise_cons] at among
    rw [marked, numberFrom]
    by_cases is : isClassEnum c p = true
    · have isName := named.identifier is
      have own : mark p (placeholder k) (front ++ p :: list) = (front ++ [placeholder k]) ++ list := by
        rw [mark_append fun x mem => before x mem p List.mem_cons_self is, mark_own (identifier_ne_nil isName)]
        simp
      have next : ∀ x ∈ front ++ [placeholder k], ∀ e ∈ list, isClassEnum c e = true → ¬ e <:+: x := by
        simp only [List.mem_append, List.mem_singleton]
        rintro x (mem | rfl) e later enum
        · exact before x mem e (List.mem_cons_of_mem _ later) enum
        · exact not_infix_placeholder (named.identifier enum) k
      rw [if_pos is, if_pos is, own, ih next among.2]
      simp
    · have next : ∀ x ∈ front ++ [p], ∀ e ∈ list, isClassEnum c e = true → ¬ e <:+: x := by
        simp only [List.mem_append, List.mem_singleton]
        rintro x (mem | rfl) e later enum
        · exact before x mem e (List.mem_cons_of_mem _ later) enum
        · exact among.1 e later (by simpa using is) enum
      rw [if_neg is, if_neg is, List.append_cons, ih next among.2]
      simp

theorem map_numberFrom_iff {fill : QString → QString} (kept : ∀ x ∈ list, isClassEnum c x = false → fill x = x) :
    (numberFrom c k list).map fill = list.map (qualifiedPiece c scope) ↔
      ∀ j name, (list.filter (isClassEnum c))[j]? = some name → fill (placeholder (k + j)) = scope ++ "::".toList ++ name := by
  induction list generalizing k with
  | nil => simp [numberFrom]
  | cons p list ih =>
    rw [List.forall_mem_cons] at kept
    rw [numberFrom]
    by_cases is : isClassEnum c p = true
    · rw [if_pos is, List.map_cons, List.map_cons, List.cons.injEq, ih kept.2, List.filter_cons_of_pos is, qualifiedPiece, if_pos is]
      constructor
      · rintro ⟨own, others⟩ j name at_
        cases j with
        | zero =>
          obtain rfl : p = name := by simpa using at_
          exact own
        | succ j =>
          rw [show k + (j + 1) = k + 1 + j by omega]
          exact others j name at_
      · intro all
        refine ⟨all 0 p rfl, fun j name at_ => ?_⟩
        have step := all (j + 1) name at_
        rwa [show k + (j + 1) = k + 1 + j by omega] at step
    · rw [if_neg is, List.map_cons, List.map_cons, List.cons.injEq, ih kept.2, List.filter_cons_of_neg is, qualifiedPiece, if_neg is,
        and_iff_right (kept.1 (by simpa using is))]

end Sufficient

section Params
variable {qt : QtCore} {c : ASTClass} {scope e : QString} {param : ASTDeclaration} {f : ASTFunction}

def normalText (qt : QtCore) (param : ASTDeclaration) : QString := qt.normalizeType (param.asString false)

def scopedParam (c : ASTClass) (scope : QString) (param : ASTDeclaration) : ASTDeclaration :=
  if isClassEnum c param.type then { param with type := scope ++ "::".toList ++ param.type } else param

theorem foldl_other {enums : List ASTEnum} (other : ∀ en ∈ enums, en.name ≠ param.type) :
    enums.foldl (fun param astEnum =>
      if astEnum.name = param.type then { param with type := scope ++ "::".toList ++ param.type } else param) param = param := by
  induction enums with
  | nil => rfl
  | cons en enums ih =>
    rw [List.forall_mem_cons] at other
    rw [List.foldl_cons, if_neg other.1, ih other.2]

/-- Names do not have the colons of the new type, so that it is changed once. -/
theorem foldl_enum {enums : List ASTEnum} (names : ∀ en ∈ enums, isIdentifier en.name = true) (is : ∃ en ∈ enums, en.name = param.type) :
    enums.foldl (fun param astEnum =>
      if astEnum.name = param.type then { param with type := scope ++ "::".toList ++ param.type } else param) param =
      { param with type := scope ++ "::".toList ++ param.type } := by
  induction enums with
  | nil => simp at is
  | cons en enums ih =>
    rw [List.forall_mem_cons] at names
    rw [List.foldl_cons]
    by_cases same : en.name = param.type
    · rw [if_pos same, foldl_other]
      intro later mem equal
      have colon : ':' ∈ later.name := by simp [equal]
      exact not_mem_identifier (names.2 later mem) (by decide) colon
    · obtain ⟨other, mem, equal⟩ := is
      have later : other ∈ enums := (List.mem_cons.mp mem).resolve_left (by rintro rfl; exact same equal)
      rw [if_neg same, ih names.2 ⟨other, later, equal⟩]

theorem transformParams_params (named : WellNamed qt c scope) : (transformParams c scope f).params = f.params.map (scopedParam c scope) := by
  refine List.map_congr_left fun param _ => ?_
  rw [scopedParam]
  by_cases is : isClassEnum c param.type = true
  · rw [if_pos is, foldl_enum named.enums (isClassEnum_iff.mp is)]
  · rw [if_neg is, foldl_other fun en mem same => is (isClassEnum_iff.mpr ⟨en, mem, same⟩)]

theorem normalText_enum (named : WellNamed qt c scope) (is : isClassEnum c param.type = true) :
    normalText qt param = param.type ++ (if param.reference ∧ ¬ param.constant then ['&'] else []) ∧
      normalText qt (scopedParam c scope param) =
        scope ++ "::".toList ++ param.type ++ if param.reference ∧ ¬ param.constant then ['&'] else [] := by
  obtain ⟨en, mem, same⟩ := isClassEnum_iff.mp is
  have normal := named.normal en mem
  rw [same] at normal
  constructor
  · exact normal _ (by simp) param.constant param.reference
  · rw [scopedParam, if_pos is]
    exact normal _ (by simp) param.constant param.reference

theorem comma_not_mem_scope (named : WellNamed qt c scope) : ',' ∉ scope := fun mem => by
  rcases named.qualified _ mem with part | colon
  · exact absurd part (by decide)
  · exact absurd colon (by decide)

theorem comma_not_mem_qualified (named : WellNamed qt c scope) (is : isClassEnum c e = true) : ',' ∉ scope ++ "::".toList ++ e := by
  have colons : ',' ∉ "::".toList := by decide
  simp only [List.mem_append, not_or]
  exact ⟨⟨comma_not_mem_scope named, colons⟩, not_mem_identifier (named.identifier is) (by decide)⟩

theorem pieces_of_fits (named : WellNamed qt c scope)
    (whole : isClassEnum c param.type = true → param.reference = true → param.constant = true)
    (apart : isClassEnum c param.type = false → ∀ piece ∈ (normalText qt param).splitOn ',', isClassEnum c piece = false) :
    (normalText qt (scopedParam c scope param)).splitOn ',' = ((normalText qt param).splitOn ',').map (qualifiedPiece c scope) ∧
      ((normalText qt param).splitOn ',').filter (isClassEnum c) = if isClassEnum c param.type then [param.type] else [] := by
  by_cases is : isClassEnum c param.type = true
  · obtain ⟨text, qualified⟩ := normalText_enum named is
    have const : ¬ (param.reference = true ∧ ¬ param.constant = true) := fun ⟨reference, other⟩ => other (whole is reference)
    rw [if_neg const, List.append_nil] at text qualified
    rw [text, qualified, List.splitOn_eq_singleton (not_mem_identifier (named.identifier is) (by decide)),
      List.splitOn_eq_singleton (comma_not_mem_qualified named is)]
    simp [qualifiedPiece, is]
  · have none := apart (by simpa using is)
    rw [scopedParam, if_neg is, if_neg is]
    constructor
    · conv_lhs => rw [← List.map_id ((normalText qt param).splitOn ',')]
      exact List.map_congr_left fun piece mem => by simp [qualifiedPiece, none piece mem]
    · exact List.filter_eq_nil_iff.mpr fun piece mem => by simp [none piece mem]

variable (qt f) in
theorem splitOn_params (some : f.params ≠ []) :
    (paramsAsString qt f).splitOn ',' = f.params.flatMap fun param => (normalText qt param).splitOn ',' := by
  rw [paramsAsString, splitOn_join (by simpa [paramsAsList] using some), paramsAsList, List.flatMap_map]
  rfl

variable (c f) in
theorem enumTypes_eq : enumTypes c f = f.params.flatMap fun param => if isClassEnum c param.type then [param.type] else [] := by
  rw [enumTypes]
  induction f.params with
  | nil => rfl
  | cons param params ih =>
    rw [List.map_cons, List.filter_cons, List.flatMap_cons, ih]
    split
    · rfl
    · rfl

section Parts
variable (named : WellNamed qt c scope)
  (whole : ∀ param ∈ f.params, isClassEnum c param.type = true → param.reference = true → param.constant = true)
  (apart : ∀ param ∈ f.params, isClassEnum c param.type = false →
    ∀ piece ∈ (normalText qt param).splitOn ',', isClassEnum c piece = false)
include named whole apart

/-- Between the commas are the enums of the parameters and nothing that looks like one. -/
theorem splitOn_of_fits :
    (join [','] (f.params.map fun param => normalText qt (scopedParam c scope param))).splitOn ',' =
        ((paramsAsString qt f).splitOn ',').map (qualifiedPiece c scope) ∧
      ((paramsAsString qt f).splitOn ',').filter (isClassEnum c) = enumTypes c f := by
  by_cases empty : f.params = []
  · have none : isClassEnum c [] = false := Bool.eq_false_iff.mpr fun is => absurd (named.identifier is) Bool.false_ne_true
    simp [paramsAsString, paramsAsList, enumTypes, empty, join, qualifiedPiece, none]
  · rw [splitOn_params qt f empty, splitOn_join (by simpa using empty), List.flatMap_map, List.map_flatMap, List.filter_flatMap,
      enumTypes_eq]
    constructor
    · exact List.flatMap_congr fun param mem => (pieces_of_fits named (whole param mem) (apart param mem)).1
    · exact List.flatMap_congr fun param mem => (pieces_of_fits named (whole param mem) (apart param mem)).2

/-- For the search the pieces stand for the parameters. -/
theorem pairwise_iff :
    (((paramsAsString qt f).splitOn ',').Pairwise fun x e => isClassEnum c x = false → isClassEnum c e = true → ¬ e <:+: x) ↔
      f.params.Pairwise fun earlier later => isClassEnum c earlier.type = false → isClassEnum c later.type = true →
        ¬ later.type <:+: normalText qt earlier := by
  by_cases empty : f.params = []
  · simp [paramsAsString, paramsAsList, empty, join]
  · have own : ∀ param ∈ f.params, isClassEnum c param.type = true → (normalText qt param).splitOn ',' = [param.type] := by
      intro param mem is
      have const : ¬ (param.reference = true ∧ ¬ param.constant = true) := fun odd => odd.2 (whole param mem is odd.1)
      rw [(normalText_enum named is).1, if_neg const, List.append_nil,
        List.splitOn_eq_singleton (not_mem_identifier (named.identifier is) (by decide))]
    rw [splitOn_params qt f empty, List.pairwise_flatMap, and_iff_right]
    · refine List.Pairwise.iff_of_mem fun {earlier later} mem mem' => ?_
      by_cases is : isClassEnum c earlier.type = true
      · simp [own earlier mem is, is]
      · by_cases is' : isClassEnum c later.type = true
        · have isName := named.identifier is'
          have inside := infix_join (identifier_ne_nil isName) (not_mem_identifier isName (by decide)) ((normalText qt earlier).splitOn ',')
          have none := apart earlier mem (by simpa using is)
          rw [join_splitOn] at inside
          simp only [own later mem' is', inside, is, is', List.mem_singleton, forall_eq, forall_const, not_exists, not_and]
          exact forall₂_congr fun x at_ => by simp [none x at_]
        · have none := apart later mem' (by simpa using is')
          simp only [is', Bool.false_eq_true, false_implies, implies_true, iff_true]
          exact fun x _ y mem _ enum => absurd enum (by simp [none y mem])
    · intro param mem
      by_cases is : isClassEnum c param.type = true
      · simp [own param mem is]
      · exact List.pairwise_of_forall_mem_list fun x _ e at_ _ enum => absurd enum (by simp [apart param mem (by simpa using is) e at_])

end Parts
end Params

section Numbers
variable {qt : QtCore} {c : ASTClass} {scope : QString} {names : List QString} {f : ASTFunction}

theorem dollar_not_mem_scope (named : WellNamed qt c scope) : '$' ∉ scope := fun mem => by
  rcases named.qualified _ mem with part | colon
  · exact absurd part (by decide)
  · exact absurd colon (by decide)

/-- Each placeholder becomes its own enum. -/
theorem placeholders_iff (plainScope : '$' ∉ scope) (plainNames : ∀ name ∈ names, isIdentifier name = true) :
    (∀ k name, names[k]? = some name → fillFrom scope 0 names (placeholder k) = scope ++ "::".toList ++ name) ↔
      (∀ k name, names[k]? = some name → ∃ index first rest, Nat.toDigits 10 k = index.digitChar :: rest ∧ index < 10 ∧
        names[index]? = some first ∧ name = first ++ rest) ∧ (names ≠ [] → '2' ∉ scope) := by
  have noDollar : ∀ name ∈ names, '$' ∉ name := fun name mem => not_mem_identifier (plainNames name mem) (by decide)
  have filled (k : Nat) (small : k < names.length) : ∃ index first rest, Nat.toDigits 10 k = index.digitChar :: rest ∧ index < 10 ∧
      names[index]? = some first ∧ fillFrom scope 0 names (placeholder k) = enumSignature scope first ++ rest := by
    obtain ⟨index, rest, digits, least, below, all⟩ := exists_first_digit k
    obtain ⟨first, found⟩ : ∃ first, names[index]? = some first := ⟨_, List.getElem?_eq_getElem (by omega)⟩
    exact ⟨index, first, rest, digits, least, found, fillFrom_placeholder plainScope noDollar digits least all (Nat.zero_le _) found⟩
  constructor
  · intro all
    have digitless : names ≠ [] → '2' ∉ scope := by
      intro some
      obtain ⟨name, others, rfl⟩ := List.exists_cons_of_ne_nil some
      have zero : fillFrom scope 0 (name :: others) (placeholder 0) = enumSignature scope name ++ [] :=
        fillFrom_placeholder plainScope noDollar rfl (by decide) nofun le_rfl rfl
      have first := all 0 name rfl
      rw [zero, List.append_nil, enumSignature_iff scope (plainNames name List.mem_cons_self)] at first
      exact first
    refine ⟨fun k name at_ => ?_, digitless⟩
    have small : k < names.length := (List.getElem?_eq_some_iff.mp at_).1
    obtain ⟨index, first, rest, digits, least, found, result⟩ := filled k small
    have signature := (enumSignature_iff scope (plainNames first (List.mem_of_getElem? found))).mpr
      (digitless (List.ne_nil_of_mem (List.mem_of_getElem? found)))
    rw [all k name at_, signature, List.append_assoc _ first, List.append_cancel_left_eq] at result
    exact ⟨index, first, rest, digits, least, found, result⟩
  · rintro ⟨numbered, digitless⟩ k name at_
    have small : k < names.length := (List.getElem?_eq_some_iff.mp at_).1
    obtain ⟨index, first, rest, digits, least, found, result⟩ := filled k small
    obtain ⟨index', first', rest', digits', least', found', rfl⟩ := numbered k name at_
    obtain ⟨digit, rfl⟩ := List.cons_eq_cons.mp (digits.symm.trans digits')
    obtain rfl := digitChar_injective least least' digit
    obtain rfl : first = first' := Option.some_injective _ (found.symm.trans found')
    have signature := (enumSignature_iff scope (plainNames first (List.mem_of_getElem? found))).mpr
      (digitless (List.ne_nil_of_mem (List.mem_of_getElem? found)))
    rw [result, signature, List.append_assoc _ first]

end Numbers

section Functions
variable {qt : QtCore} {c : ASTClass} {scope x : QString} {f : ASTFunction}

/-- The pieces of a text of parameters with the enums in them. -/
def filledPieces (qt : QtCore) (c : ASTClass) (scope : QString) (f : ASTFunction) : List QString :=
  (marked c 0 ((paramsAsString qt f).splitOn ',') ((paramsAsString qt f).splitOn ',')).map
    (fillFrom scope 0 (((paramsAsString qt f).splitOn ',').filter (isClassEnum c)))

theorem functionSignature_eq (named : WellNamed qt c scope) (mem : f ∈ c.signalsList ++ c.slotsList) :
    functionSignature qt c scope f = f.name ++ '(' :: (join [','] (filledPieces qt c scope f) ++ [')']) := by
  have spelled := spellFrom_eq named 0 ((paramsAsString qt f).splitOn ',') ((paramsAsString qt f).splitOn ',')
  rw [join_splitOn] at spelled
  rw [functionSignature, spelled, fillFrom_separate (by decide) (by decide), fillFrom_separate (by decide) (by decide),
    fillFrom_absent (named.functions f mem).1, fillFrom_absent List.not_mem_nil, fillFrom_join]
  rfl

/-- The names are the same, so that it is about what is between the parentheses. -/
theorem functionSignature_iff (named : WellNamed qt c scope) (mem : f ∈ c.signalsList ++ c.slotsList) :
    functionSignature qt c scope f = (Member.signal f).signature qt c scope ↔
      join [','] (filledPieces qt c scope f) = join [','] (f.params.map fun param => normalText qt (scopedParam c scope param)) := by
  have signature : (Member.signal f).signature qt c scope =
      f.name ++ '(' :: (join [','] (f.params.map fun param => normalText qt (scopedParam c scope param)) ++ [')']) := by
    rw [Member.signature, Member.types, paramsAsList, transformParams_params named, List.map_map]
    rfl
  rw [signature, functionSignature_eq named mem, List.append_cancel_left_eq, List.cons.injEq, and_iff_right rfl, List.append_cancel_right_eq]

theorem dollar_not_mem_piece (named : WellNamed qt c scope) (mem : f ∈ c.signalsList ++ c.slotsList)
    (at_ : x ∈ (paramsAsString qt f).splitOn ',') : '$' ∉ x := fun inside => by
  obtain ⟨t, param, inside⟩ := (mem_join (by decide) _).mp ((mem_splitOn x at_).2 '$' inside)
  exact (named.functions f mem).2 t param inside

/-- The texts of the parameters fit. -/
theorem functionSignature_of_fits (named : WellNamed qt c scope) (mem : f ∈ c.signalsList ++ c.slotsList) (fits : FunctionFits qt c scope f) :
    functionSignature qt c scope f = (Member.signal f).signature qt c scope := by
  obtain ⟨expected, enums⟩ := splitOn_of_fits named fits.whole fits.apart
  have names : ∀ name ∈ enumTypes c f, isIdentifier name = true := fun name at_ => named.identifier (List.mem_filter.mp at_).2
  have placeholders := (placeholders_iff (dollar_not_mem_scope named) names).mpr ⟨fits.numbered, fits.digitless⟩
  have kept : ∀ x ∈ (paramsAsString qt f).splitOn ',', isClassEnum c x = false → fillFrom scope 0 (enumTypes c f) x = x :=
    fun x at_ _ => fillFrom_absent (dollar_not_mem_piece named mem at_)
  have filled : filledPieces qt c scope f = ((paramsAsString qt f).splitOn ',').map (qualifiedPiece c scope) := by
    have numbers := marked_eq (k := 0) named (fun x at_ => absurd at_ List.not_mem_nil)
      ((pairwise_iff named fits.whole fits.apart).mpr fits.first)
    rw [List.nil_append, List.nil_append] at numbers
    rw [filledPieces, numbers, enums, map_numberFrom_iff kept, enums]
    simpa using placeholders
  rw [functionSignature_iff named mem, filled, ← expected, join_splitOn]

end Functions

section Weights
variable {qt : QtCore} {c : ASTClass} {scope s t e ph name : QString} {xs front list names : List QString} {k n : Nat}

/-- A placeholder weighs as much as what comes in its place. -/
def weight (scope : QString) (a : Char) : Nat := if a = ':' then 1 else if a = '$' then scope.count ':' + 2 else 0

def weigh (scope s : QString) : Nat := (s.map (weight scope)).sum

def weighAll (scope : QString) (xs : List QString) : Nat := (xs.map (weigh scope)).sum

@[simp] theorem weigh_append (scope s t : QString) : weigh scope (s ++ t) = weigh scope s + weigh scope t := by simp [weigh]

@[simp] theorem weighAll_append (scope : QString) (xs ys : List QString) :
    weighAll scope (xs ++ ys) = weighAll scope xs + weighAll scope ys := by simp [weighAll]

@[simp] theorem weighAll_cons (scope s : QString) (xs : List QString) : weighAll scope (s :: xs) = weigh scope s + weighAll scope xs := by
  simp [weighAll]

@[simp] theorem weighAll_nil (scope : QString) : weighAll scope [] = 0 := rfl

theorem weigh_eq_count (absent : '$' ∉ s) : weigh scope s = s.count ':' := by
  induction s with
  | nil => rfl
  | cons a s ih =>
    rw [List.mem_cons, not_or] at absent
    have rest := ih absent.2
    rw [weigh] at rest ⊢
    rw [List.map_cons, List.sum_cons, rest, List.count_cons, weight, if_neg (Ne.symm absent.1)]
    by_cases colon : a = ':'
    · simp [colon, Nat.add_comm]
    · simp [colon]

theorem weigh_name (scope : QString) (isName : isIdentifier name = true) : weigh scope name = 0 := by
  rw [weigh_eq_count (not_mem_identifier isName (by decide)), List.count_eq_zero]
  exact not_mem_identifier isName (by decide)

theorem weigh_placeholder (scope : QString) (k : Nat) : weigh scope (placeholder k) = scope.count ':' + 2 := by
  have digits : weigh scope (Nat.toDigits 10 k) = 0 := by
    have isDigit (a : Char) (other : a.isDigit = false) : a ∉ Nat.toDigits 10 k := fun mem => by
      rw [Nat.isDigit_of_mem_toDigits (by decide) (by decide) mem] at other
      cases other
    rw [weigh_eq_count (isDigit '$' (by decide)), List.count_eq_zero]
    exact isDigit ':' (by decide)
  have own : weigh scope ['$'] = scope.count ':' + 2 := by simp [weigh, weight]
  have split : placeholder k = ['$'] ++ Nat.toDigits 10 k := rfl
  rw [split, weigh_append, own, digits, Nat.add_zero]

theorem weigh_enumSignature (plainScope : '$' ∉ scope) (isName : isIdentifier name = true) :
    weigh scope (enumSignature scope name) = scope.count ':' + 2 := by
  have same : weigh scope (replace ['2'] name scope) = weigh scope scope := by
    refine sum_replace (weight scope) (by decide) ?_ scope
    have two : weigh scope ['2'] = 0 := rfl
    exact (weigh_name scope isName).trans two.symm
  have colons : weigh scope "::".toList = 2 := rfl
  rw [enumSignature_eq, weigh_append, weigh_append, same, weigh_eq_count plainScope, weigh_name scope isName, colons]

theorem weigh_fillFrom (plainScope : '$' ∉ scope) (plainNames : ∀ name ∈ names, isIdentifier name = true) (s : QString) :
    weigh scope (fillFrom scope k names s) = weigh scope s := by
  induction names generalizing k s with
  | nil => rfl
  | cons name names ih =>
    rw [List.forall_mem_cons] at plainNames
    rw [fillFrom, ih plainNames.2]
    refine sum_replace (weight scope) (placeholder_ne_nil k) ?_ s
    exact (weigh_enumSignature plainScope plainNames.1).trans (weigh_placeholder scope k).symm

theorem weigh_join (scope : QString) (xs : List QString) : weigh scope (join [','] xs) = weighAll scope xs := by
  have comma : weigh scope [','] = 0 := rfl
  induction xs with
  | nil => rfl
  | cons x xs ih =>
    cases xs with
    | nil => rfl
    | cons y ys => rw [join_cons_cons, weigh_append, weigh_append, ih, comma, Nat.add_zero, weighAll_cons scope x]

theorem weigh_replaceFirst (isName : isIdentifier e = true) (occurs : e <:+: s) :
    weigh scope (replaceFirst e (placeholder k) s) = weigh scope s + (scope.count ':' + 2) := by
  have exchange : weigh scope (replaceFirst e (placeholder k) s) + weigh scope e = weigh scope s + weigh scope (placeholder k) :=
    sum_replaceFirst (weight scope) (identifier_ne_nil isName) occurs
  rwa [weigh_name scope isName, weigh_placeholder] at exchange

theorem length_mark (xs : List QString) : (mark e ph xs).length = xs.length := by
  induction xs with
  | nil => rfl
  | cons x xs ih =>
    rw [mark]
    split
    · rfl
    · rw [List.length_cons, ih, List.length_cons]

theorem length_marked (xs : List QString) : (marked c k xs list).length = xs.length := by
  induction list generalizing k xs with
  | nil => rfl
  | cons p list ih =>
    rw [marked]
    split
    · rw [ih, length_mark]
    · exact ih xs

/-- What is found before the piece itself changes only what is before it. -/
theorem mark_before (scope : QString) (k : Nat) (list : List QString) (isName : isIdentifier e = true) (occurs : ∃ x ∈ front, e <:+: x) :
    mark e (placeholder k) (front ++ list) = mark e (placeholder k) front ++ list ∧
      weighAll scope (mark e (placeholder k) front) = weighAll scope front + (scope.count ':' + 2) := by
  induction front with
  | nil => simp at occurs
  | cons x front ih =>
    rw [List.cons_append, mark, mark]
    by_cases here : e <:+: x
    · rw [if_pos here, if_pos here, weighAll_cons, weighAll_cons, weigh_replaceFirst isName here]
      exact ⟨rfl, by omega⟩
    · obtain ⟨y, mem, occurs⟩ := occurs
      have later : y ∈ front := (List.mem_cons.mp mem).resolve_left (by rintro rfl; exact here occurs)
      obtain ⟨split, sum⟩ := ih ⟨y, later, occurs⟩
      rw [if_neg here, if_neg here, split, weighAll_cons, weighAll_cons, sum]
      exact ⟨rfl, by omega⟩

/-- Each search finds something. -/
theorem weighAll_marked (named : WellNamed qt c scope) (k : Nat) (front list : List QString) :
    weighAll scope (marked c k (front ++ list) list) =
      weighAll scope front + weighAll scope list + (scope.count ':' + 2) * (list.filter (isClassEnum c)).length := by
  induction list generalizing k front with
  | nil => simp [marked]
  | cons p list ih =>
    rw [marked]
    by_cases is : isClassEnum c p = true
    · have isName := named.identifier is
      obtain ⟨front', found, sum⟩ : ∃ front', mark p (placeholder k) (front ++ p :: list) = front' ++ list ∧
          weighAll scope front' = weighAll scope front + (scope.count ':' + 2) := by
        by_cases occurs : ∃ x ∈ front, p <:+: x
        · obtain ⟨split, sum⟩ := mark_before scope k (p :: list) isName occurs
          exact ⟨mark p (placeholder k) front ++ [p], by simp [split], by simp [sum, weigh_name scope isName]⟩
        · have absent : ∀ x ∈ front, ¬ p <:+: x := fun x mem inside => occurs ⟨x, mem, inside⟩
          exact ⟨front ++ [placeholder k], by simp [mark_append absent, mark_own (identifier_ne_nil isName)], by simp [weigh_placeholder]⟩
      rw [if_pos is, found, ih, sum, List.filter_cons_of_pos is, weighAll_cons, weigh_name scope isName, List.length_cons, Nat.mul_succ]
      omega
    · rw [if_neg is, List.append_cons, ih, List.filter_cons_of_neg is]
      simp only [weighAll_append, weighAll_cons, weighAll_nil]
      omega

theorem take_mark_le (enum : isIdentifier e = true) (n : Nat) (xs : List QString) :
    weighAll scope (xs.take n) ≤ weighAll scope ((mark e (placeholder k) xs).take n) := by
  induction xs generalizing n with
  | nil => simp [mark]
  | cons x xs ih =>
    cases n with
    | zero => simp
    | succ n =>
      rw [mark]
      by_cases here : e <:+: x
      · simp only [if_pos here, List.take_succ_cons, weighAll_cons, weigh_replaceFirst enum here]
        omega
      · simp only [if_neg here, List.take_succ_cons, weighAll_cons]
        exact Nat.add_le_add_left (ih n) _

theorem take_marked_le (named : WellNamed qt c scope) (k : Nat) (list : List QString) (n : Nat) (xs : List QString) :
    weighAll scope (xs.take n) ≤ weighAll scope ((marked c k xs list).take n) := by
  induction list generalizing k xs with
  | nil => exact le_rfl
  | cons p list ih =>
    rw [marked]
    by_cases is : isClassEnum c p = true
    · rw [if_pos is]
      exact (take_mark_le (named.identifier is) n xs).trans (ih (k + 1) _)
    · rw [if_neg is]
      exact ih k xs

theorem weigh_qualifiedPiece (c : ASTClass) (plainScope : '$' ∉ scope) (s : QString) :
    weigh scope (qualifiedPiece c scope s) = weigh scope s + if isClassEnum c s then scope.count ':' + 2 else 0 := by
  have colons : weigh scope "::".toList = 2 := rfl
  rw [qualifiedPiece]
  split
  · rw [weigh_append, weigh_append, weigh_eq_count plainScope, colons, Nat.add_comm]
  · rfl

/-- Where each piece weighs what its type does, no search has found something before its own piece. -/
theorem search_of_weights (named : WellNamed qt c scope) (front list : List QString) (weights : (marked c k (front ++ list) list).map (weigh scope) =
      front.map (weigh scope) ++ list.map fun x => weigh scope (qualifiedPiece c scope x)) :
    (∀ x ∈ front, ∀ e ∈ list, isClassEnum c e = true → ¬ e <:+: x) ∧
      list.Pairwise fun x e => isClassEnum c x = false → isClassEnum c e = true → ¬ e <:+: x := by
  induction list generalizing front k with
  | nil => exact ⟨fun _ _ _ later => absurd later List.not_mem_nil, List.Pairwise.nil⟩
  | cons p list ih =>
    rw [marked] at weights
    have own := weigh_qualifiedPiece c (dollar_not_mem_scope named) p
    by_cases is : isClassEnum c p = true
    · have isName := named.identifier is
      have absent : ∀ x ∈ front, ¬ p <:+: x := by
        intro x mem occurs
        obtain ⟨split, sum⟩ := mark_before scope k (p :: list) isName ⟨x, mem, occurs⟩
        have more := take_marked_le named (k + 1) list front.length (mark p (placeholder k) (front ++ p :: list))
        have sums := congrArg (fun weights => (weights.take front.length).sum) weights
        simp only [if_pos is, ← List.map_take] at sums
        rw [List.take_left' (by simp)] at sums
        rw [split, List.take_left' (length_mark front), sum] at more
        rw [split] at sums
        have equal : weighAll scope _ = weighAll scope front := sums
        omega
      have found : mark p (placeholder k) (front ++ p :: list) = (front ++ [placeholder k]) ++ list := by
        rw [mark_append absent, mark_own (identifier_ne_nil isName)]
        simp
      rw [if_pos is, found] at weights
      rw [if_pos is, weigh_name scope isName, Nat.zero_add] at own
      obtain ⟨before, among⟩ := ih (front ++ [placeholder k]) (by simpa [weigh_placeholder, own] using weights)
      refine ⟨fun x mem e later enum => ?_, List.pairwise_cons.mpr ⟨fun e _ other => absurd is (by simp [other]), among⟩⟩
      rcases List.mem_cons.mp later with rfl | later
      · exact absent x mem
      · exact before x (List.mem_append_left _ mem) e later enum
    · rw [if_neg is, List.append_cons] at weights
      rw [if_neg is, Nat.add_zero] at own
      obtain ⟨before, among⟩ := ih (front ++ [p]) (by simpa [own] using weights)
      refine ⟨fun x mem e later enum => ?_, List.pairwise_cons.mpr ⟨fun e later _ enum => ?_, among⟩⟩
      · rcases List.mem_cons.mp later with rfl | later
        · exact absurd enum is
        · exact before x (List.mem_append_left _ mem) e later enum
      · exact before p (by simp) e later enum

end Weights

section Necessary
variable {qt : QtCore} {c : ASTClass} {scope s e ph : QString} {xs list names : List QString} {k : Nat} {a : Char} {f : ASTFunction}
  {param : ASTDeclaration}

theorem not_mem_marked (other : a ≠ '$') (digit : a.isDigit = false)
    (absent : ∀ x ∈ xs, a ∉ x) : ∀ x ∈ marked c k xs list, a ∉ x := by
  have one (e : QString) (k : Nat) (xs : List QString) (absent : ∀ x ∈ xs, a ∉ x) : ∀ x ∈ mark e (placeholder k) xs, a ∉ x := by
    induction xs with
    | nil => exact absent
    | cons y xs ih =>
      rw [List.forall_mem_cons] at absent
      rw [mark]
      split
      · refine List.forall_mem_cons.mpr ⟨fun inside => ?_, absent.2⟩
        exact (mem_replaceFirst inside).elim (not_mem_placeholder other digit k) absent.1
      · exact List.forall_mem_cons.mpr ⟨absent.1, ih absent.2⟩
  induction list generalizing k xs with
  | nil => exact absent
  | cons p list ih =>
    rw [marked]
    split
    · exact ih (one p k xs absent)
    · exact ih absent

theorem not_mem_fillFrom (colon : a ≠ ':') (plainScope : a ∉ scope) (plainNames : ∀ name ∈ names, a ∉ name) (absent : a ∉ s) :
    a ∉ fillFrom scope k names s := by
  induction names generalizing k s with
  | nil => exact absent
  | cons name names ih =>
    rw [List.forall_mem_cons] at plainNames
    rw [fillFrom]
    refine ih plainNames.2 fun inside => ?_
    exact (mem_replace (placeholder_ne_nil k) inside).elim (not_mem_enumSignature colon plainScope plainNames.1) absent

theorem splitOn_filledPieces (named : WellNamed qt c scope) : (join [','] (filledPieces qt c scope f)).splitOn ',' = filledPieces qt c scope f := by
  have pieces : filledPieces qt c scope f ≠ [] := by
    rw [← List.length_pos_iff, filledPieces, List.length_map, length_marked]
    exact List.length_pos_iff.mpr (List.splitOn_ne_nil _ _)
  have enums : ∀ name ∈ ((paramsAsString qt f).splitOn ',').filter (isClassEnum c), ',' ∉ name := fun name mem =>
    not_mem_identifier (named.identifier (List.mem_filter.mp mem).2) (by decide)
  rw [join_eq_intercalate, List.splitOn_intercalate ',' ?_ pieces]
  intro piece mem
  obtain ⟨x, inside, rfl⟩ := List.mem_map.mp mem
  have absent := not_mem_marked (by decide) (by decide) (fun x at_ => (mem_splitOn x at_).1) x inside
  exact not_mem_fillFrom (by decide) (comma_not_mem_scope named) enums absent

theorem weigh_scopedParam (named : WellNamed qt c scope) (param : ASTDeclaration) :
    weigh scope (normalText qt (scopedParam c scope param)) =
      weigh scope (normalText qt param) + if isClassEnum c param.type then scope.count ':' + 2 else 0 := by
  by_cases is : isClassEnum c param.type = true
  · obtain ⟨text, qualified⟩ := normalText_enum named is
    have colons : weigh scope "::".toList = 2 := rfl
    rw [text, qualified, if_pos is]
    simp only [weigh_append, weigh_eq_count (dollar_not_mem_scope named), colons]
    omega
  · rw [scopedParam, if_neg is, if_neg is, Nat.add_zero]

/-- Texts of one weight have as many enums found in them as there are parameters of enums. -/
theorem count_of_join (named : WellNamed qt c scope)
    (same : join [','] (filledPieces qt c scope f) = join [','] (f.params.map fun param => normalText qt (scopedParam c scope param))) :
    (f.params.map fun param => (((normalText qt param).splitOn ',').filter (isClassEnum c)).length).sum =
      (f.params.map fun param => if isClassEnum c param.type then 1 else 0).sum := by
  by_cases empty : f.params = []
  · simp [empty]
  have names : ∀ name ∈ ((paramsAsString qt f).splitOn ',').filter (isClassEnum c), isIdentifier name = true := fun name mem =>
    named.identifier (List.mem_filter.mp mem).2
  have filled : weighAll scope (filledPieces qt c scope f) =
      weigh scope (paramsAsString qt f) + (scope.count ':' + 2) * (((paramsAsString qt f).splitOn ',').filter (isClassEnum c)).length := by
    have total := weighAll_marked named 0 [] ((paramsAsString qt f).splitOn ',')
    rw [List.nil_append, weighAll_nil, Nat.zero_add, ← weigh_join, ← weigh_join, join_splitOn] at total
    rw [← total, weigh_join, filledPieces, weighAll, List.map_map]
    exact congrArg List.sum (List.map_congr_left fun x _ => weigh_fillFrom (dollar_not_mem_scope named) names x)
  have types : weighAll scope (f.params.map fun param => normalText qt (scopedParam c scope param)) =
      weigh scope (paramsAsString qt f) + (scope.count ':' + 2) * (f.params.map fun param => if isClassEnum c param.type then 1 else 0).sum := by
    rw [paramsAsString, weigh_join]
    change _ = weighAll scope (f.params.map (normalText qt)) + _
    induction f.params with
    | nil => rfl
    | cons param params ih =>
      simp only [List.map_cons, weighAll_cons, List.sum_cons, weigh_scopedParam named, ih, Nat.mul_add]
      split <;> omega
  have count : (((paramsAsString qt f).splitOn ',').filter (isClassEnum c)).length =
      (f.params.map fun param => (((normalText qt param).splitOn ',').filter (isClassEnum c)).length).sum := by
    rw [splitOn_params qt f empty, List.filter_flatMap, List.length_flatMap]
  have weights : weighAll scope (filledPieces qt c scope f) =
      weighAll scope (f.params.map fun param => normalText qt (scopedParam c scope param)) := by rw [← weigh_join, same, weigh_join]
  rw [filled, types, count, Nat.add_left_cancel_iff] at weights
  exact Nat.eq_of_mul_eq_mul_left (by omega) weights

/-- Numbers of one order with one sum are the same. -/
theorem eq_of_sum_eq {α : Type*} {f g : α → Nat} {xs : List α} (le : ∀ x ∈ xs, f x ≤ g x) (same : (xs.map f).sum = (xs.map g).sum) :
    ∀ x ∈ xs, f x = g x := by
  induction xs with
  | nil => exact nofun
  | cons y xs ih =>
    rw [List.forall_mem_cons] at le ⊢
    have sums : (xs.map f).sum ≤ (xs.map g).sum := List.sum_le_sum le.2
    rw [List.map_cons, List.map_cons, List.sum_cons, List.sum_cons] at same
    exact ⟨by omega, ih le.2 (by omega)⟩

theorem count_enum (named : WellNamed qt c scope) (is : isClassEnum c param.type = true) :
    (((normalText qt param).splitOn ',').filter (isClassEnum c)).length ≤ 1 ∧
      ((((normalText qt param).splitOn ',').filter (isClassEnum c)).length = 1 ↔ (param.reference = true → param.constant = true)) := by
  have name := not_mem_identifier (a := ',') (named.identifier is) (by decide)
  rw [(normalText_enum named is).1]
  split
  · next const =>
    have reference : isClassEnum c (param.type ++ ['&']) = false := by
      refine Bool.eq_false_iff.mpr fun other => ?_
      exact not_mem_identifier (named.identifier other) (by decide) (List.mem_append_right _ List.mem_cons_self : '&' ∈ _)
    rw [List.splitOn_eq_singleton (by simpa using name)]
    simp only [List.filter_cons, reference]
    simpa using const
  · next const =>
    rw [List.append_nil, List.splitOn_eq_singleton name]
    simp only [List.filter_cons, is]
    simpa using const

/-- What is not found and what is found too often can only be one of the two. -/
theorem whole_and_apart (named : WellNamed qt c scope) (cancels : ¬ Cancels qt c f)
    (same : join [','] (filledPieces qt c scope f) = join [','] (f.params.map fun param => normalText qt (scopedParam c scope param))) :
    (∀ param ∈ f.params, isClassEnum c param.type = true → param.reference = true → param.constant = true) ∧
      ∀ param ∈ f.params, isClassEnum c param.type = false → ∀ piece ∈ (normalText qt param).splitOn ',', isClassEnum c piece = false := by
  have sums := count_of_join named same
  rw [Cancels, not_and_or] at cancels
  rcases cancels with none | none
  · have whole : ∀ param ∈ f.params, isClassEnum c param.type = true → param.reference = true → param.constant = true := by
      intro param mem is reference
      by_contra const
      exact none ⟨param, mem, is, reference, by simpa using const⟩
    refine ⟨whole, fun param mem other => ?_⟩
    have le : ∀ param ∈ f.params, (if isClassEnum c param.type then 1 else 0) ≤
        (((normalText qt param).splitOn ',').filter (isClassEnum c)).length := by
      intro param mem
      split
      · next is => exact ((count_enum named is).2.mpr (whole param mem is)).ge
      · exact Nat.zero_le _
    have equal := eq_of_sum_eq le sums.symm param mem
    rw [other, if_neg Bool.false_ne_true, eq_comm, List.length_eq_zero_iff, List.filter_eq_nil_iff] at equal
    exact fun piece at_ => by simpa using equal piece at_
  · have apart : ∀ param ∈ f.params, isClassEnum c param.type = false →
        ∀ piece ∈ (normalText qt param).splitOn ',', isClassEnum c piece = false := by
      intro param mem other piece at_
      by_contra is
      exact none ⟨param, mem, other, piece, at_, by simpa using is⟩
    refine ⟨fun param mem is => ?_, apart⟩
    have le : ∀ param ∈ f.params, (((normalText qt param).splitOn ',').filter (isClassEnum c)).length ≤
        if isClassEnum c param.type then 1 else 0 := by
      intro param mem
      split
      · next is => exact (count_enum named is).1
      · next other =>
        rw [Nat.le_zero, List.length_eq_zero_iff, List.filter_eq_nil_iff]
        exact fun piece at_ => by simp [apart param mem (by simpa using other) piece at_]
    have equal := eq_of_sum_eq le sums param mem
    rw [if_pos is] at equal
    exact (count_enum named is).2.mp equal

/-- Texts that are the same fit, but where errors may cancel. -/
theorem fits_of_functionSignature (named : WellNamed qt c scope) (mem : f ∈ c.signalsList ++ c.slotsList) (cancels : ¬ Cancels qt c f)
    (same : functionSignature qt c scope f = (Member.signal f).signature qt c scope) : FunctionFits qt c scope f := by
  rw [functionSignature_iff named mem] at same
  obtain ⟨whole, apart⟩ := whole_and_apart named cancels same
  obtain ⟨expected, enums⟩ := splitOn_of_fits named whole apart
  have plainScope := dollar_not_mem_scope named
  have names : ∀ name ∈ enumTypes c f, isIdentifier name = true := fun name at_ => named.identifier (List.mem_filter.mp at_).2
  have pieces : filledPieces qt c scope f = ((paramsAsString qt f).splitOn ',').map (qualifiedPiece c scope) := by
    rw [← expected, ← same, splitOn_filledPieces named]
  have kind : weigh scope ∘ fillFrom scope 0 (enumTypes c f) = weigh scope := funext fun x => weigh_fillFrom plainScope names x
  have weights := congrArg (List.map (weigh scope)) pieces
  rw [filledPieces, enums, List.map_map, List.map_map, kind] at weights
  obtain ⟨-, among⟩ := search_of_weights named [] ((paramsAsString qt f).splitOn ',') weights
  have numbers := marked_eq (k := 0) named (fun x at_ => absurd at_ List.not_mem_nil) among
  have kept : ∀ x ∈ (paramsAsString qt f).splitOn ',', isClassEnum c x = false → fillFrom scope 0 (enumTypes c f) x = x :=
    fun x at_ _ => fillFrom_absent (dollar_not_mem_piece named mem at_)
  rw [List.nil_append, List.nil_append] at numbers
  rw [filledPieces, numbers, enums, map_numberFrom_iff kept, enums] at pieces
  obtain ⟨numbered, digitless⟩ := (placeholders_iff plainScope names).mp (by simpa using pieces)
  exact ⟨whole, apart, (pairwise_iff named whole apart).mp among, numbered, digitless⟩

end Necessary

section Result
variable {qt : QtCore} {c : ASTClass} {scope : QString}

theorem member_spelled (named : WellNamed qt c scope) {member : Member} (mem : member ∈ signalMembers c ++ methodMembers c) :
    (member.Fits qt c scope → member.spelled qt c scope = member.signature qt c scope) ∧
      (¬ member.Cancels qt c → member.spelled qt c scope = member.signature qt c scope → member.Fits qt c scope) := by
  simp only [signalMembers, methodMembers, List.mem_append, List.mem_map, List.mem_filter] at mem
  cases member with
  | changed property =>
    have declared : property ∈ c.properties ∧ property.modifier ≠ .constant := by simpa using mem
    exact ⟨(changedSignature_iff named declared.1).mpr, fun _ => (changedSignature_iff named declared.1).mp⟩
  | push property =>
    have declared : property ∈ c.properties ∧ property.modifier = .readPush := by simpa using mem
    exact ⟨(pushSignature_iff named declared.1).mpr, fun _ => (pushSignature_iff named declared.1).mp⟩
  | signal f =>
    have declared : f ∈ c.signalsList := by simpa using mem
    have among := List.mem_append_left c.slotsList declared
    exact ⟨functionSignature_of_fits named among, fits_of_functionSignature named among⟩
  | slot f =>
    have declared : f ∈ c.slotsList := by simpa using mem
    have among := List.mem_append_right c.signalsList declared
    exact ⟨functionSignature_of_fits named among, fits_of_functionSignature named among⟩

theorem returns_members {members : List Member} (index : Int)
    (spelled : ∀ member ∈ members, (member.Fits qt c scope → member.spelled qt c scope = member.signature qt c scope) ∧
      (¬ member.Cancels qt c → member.spelled qt c scope = member.signature qt c scope → member.Fits qt c scope)) :
    ReturnsMember qt c scope members ⟨(members.map (Member.inApi qt c)).length, (members.map (Member.inApi qt c)).zipIdx 1⟩
      (caseOf (members.map (Member.spelled qt c scope)) index) index := by
  constructor
  · intro none
    rw [caseOf]
    split
    · next inside =>
      obtain ⟨k, rfl⟩ := Int.eq_ofNat_of_zero_le inside
      rw [source_natCast, List.getElem?_map, Option.map_eq_none_iff] at none
      rw [Int.toNat_natCast, List.getElem?_map, none]
      rfl
    · rfl
  · intro entry found
    obtain ⟨k, rfl, at_⟩ := source_eq_some.mp found
    rw [List.getElem?_map, Option.map_eq_some_iff] at at_
    obtain ⟨member, at_, rfl⟩ := at_
    have returned : caseOf (members.map (Member.spelled qt c scope)) k = member.spelled qt c scope := by
      rw [caseOf, if_pos (Int.natCast_nonneg k), Int.toNat_natCast, List.getElem?_map, at_]
      rfl
    rw [returned]
    exact ⟨member, at_, rfl, spelled member (List.mem_of_getElem? at_)⟩

/-- Every index has the signature of the member at it, where that fits. -/
theorem signatures_of_members (named : WellNamed qt c scope) (index : Int) :
    ReturnsMember qt c scope (signalMembers c) (generateSourceAPI qt c).m_signals (signalSignature qt c scope index) index ∧
      ReturnsMember qt c scope (methodMembers c) (generateSourceAPI qt c).m_methods (methodSignature qt c scope index) index := by
  have signals := returns_members index fun member mem => member_spelled named (List.mem_append_left (methodMembers c) mem)
  have methods := returns_members index fun member mem => member_spelled named (List.mem_append_right (signalMembers c) mem)
  rw [signalMembers, List.map_append (f := Member.spelled qt c scope), List.map_map, List.map_map] at signals
  rw [methodMembers, List.map_append (f := Member.spelled qt c scope), List.map_map, List.map_map] at methods
  rw [m_signals_eq, m_methods_eq]
  exact ⟨signals, methods⟩

/-- Without spaces; a reference to what is `const` is none. -/
def normalizing : QtCore :=
  { plainCore with
    normalizeType := fun t =>
      if "const ".toList <+: t then (t.drop 6).filter fun a => a ≠ ' ' ∧ a ≠ '&' else t.filter (· ≠ ' ') }

def level : QString := "Level".toList

/-- A class with `SIGNAL(raised(Level to, const Level &from))`, `SIGNAL(listed(QList<Level> all, Level last))` and
`PROP(Level level)`. -/
def levels : ASTClass where
  name := "Tank".toList
  enums := [{ name := level }]
  properties := [{ type := level, name := "level".toList }]
  signalsList := [
    { name := "raised".toList, params := [⟨level, "to".toList, false, false⟩, ⟨level, "from".toList, true, true⟩] },
    { name := "listed".toList, params := [⟨"QList<Level>".toList, "all".toList, false, false⟩, ⟨level, "last".toList, false, false⟩] }]

theorem wellNamed_levels : WellNamed normalizing levels "Tank".toList where
  enums := by decide
  qualified := by decide
  properties := by decide
  functions := by decide
  colons := by decide
  normal := by decide

theorem raised_signature : signalSignature normalizing levels "Tank".toList 1 = "raised(Tank::Level,Tank::Level)".toList := by
  obtain ⟨member, at_, -, fits, -⟩ := (signatures_of_members wellNamed_levels 1).1.2 _ rfl
  have is : some (Member.signal levels.signalsList[0]) = some member := at_
  obtain rfl := Option.some_injective _ is
  have types : enumTypes levels levels.signalsList[0] = [level, level] := by decide
  refine (fits ⟨by decide, by decide, by decide, fun k name numbered => ?_, by decide⟩).trans (by decide)
  rw [types] at numbered ⊢
  match k, numbered with
  | 0, numbered => exact ⟨0, level, [], rfl, by decide, rfl, by simpa using numbered.symm⟩
  | 1, numbered => exact ⟨1, level, [], rfl, by decide, rfl, by simpa using numbered.symm⟩

/-- The name of the slot is without the capital of the member, and the enum is replaced within the list before it. -/
theorem tank_signatures :
    (generateSourceAPI normalizing levels).m_methods.source 0 = some ((Member.push levels.properties[0]).inApi normalizing levels) ∧
      methodSignature normalizing levels "Tank".toList 0 = "pushlevel(Tank::Level)".toList ∧
      (Member.push levels.properties[0]).signature normalizing levels "Tank".toList = "pushLevel(Tank::Level)".toList ∧
      (generateSourceAPI normalizing levels).m_signals.source 2 = some ((Member.signal levels.signalsList[1]).inApi normalizing levels) ∧
      signalSignature normalizing levels "Tank".toList 2 = "listed(QList<Tank::Level>,Level)".toList ∧
      (Member.signal levels.signalsList[1]).signature normalizing levels "Tank".toList = "listed(QList<Level>,Tank::Level)".toList := by
  decide

end Result
end RemoteObjects.Repc
