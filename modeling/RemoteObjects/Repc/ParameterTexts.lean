import RemoteObjects.Repc.Parser
import RemoteObjects.Repc.PlainTexts
import RemoteObjects.Repc.SignatureReferences

/-! Lists of parameters as they are written in `.rep` files, with spaces, line breaks and comments between their parts, and what the
parser reads of them. -/
namespace RemoteObjects.Repc

section Model

def builtinWords : List QString :=
  ["unsigned", "signed", "short", "long", "int", "char", "double"].map String.toList

/-- A name or a template, or several words of a built-in type. -/
inductive TypeText
  | single (text : QString) (isType : text ≠ [] ∧ text ≠ "const".toList ∧ isBalanced isTypePart 0 text = true)
  | words (first : QString) (others : List (Gap × QString)) (several : others ≠ [])
      (builtin : first ∈ builtinWords ∧ ∀ other ∈ others, other.2 ∈ builtinWords)

def TypeText.text : TypeText → QString
  | single text _ => text
  | words first others _ _ => first ++ others.flatMap fun other => other.1.text ++ other.2

/-- The type that is written, with one space between words. -/
def TypeText.type : TypeText → QString
  | single text _ => text
  | words first others _ _ => first ++ others.flatMap fun other => ' ' :: other.2

structure ParameterText where
  front : Gap
  constant : Option Gap
  type : TypeText
  behindType : Gap
  reference : Option Gap
  name : Option (QString × Gap)
  isName : ∀ entry ∈ name, isIdentifier entry.1 = true

namespace ParameterText

def text (p : ParameterText) : QString :=
  p.front.text ++ ((p.constant.elim [] fun g => "const".toList ++ g.text) ++ (p.type.text ++ (p.behindType.text ++
    ((p.reference.elim [] fun g => '&' :: g.text) ++ p.name.elim [] fun entry => entry.1 ++ entry.2.text))))

/-- The parameter with the number that it has if it is unnamed. -/
def declaration (index : Nat) (p : ParameterText) : ASTDeclaration where
  type := p.type.type
  name := p.name.elim ("__repc_variable_".toList ++ (toString index).toList) Prod.fst
  constant := p.constant.isSome
  reference := p.reference.isSome

end ParameterText

/-- The declarations behind so many unnamed ones. -/
def declarationsFrom : Nat → List ParameterText → List ASTDeclaration
  | _, [] => []
  | index, p :: ps => p.declaration (index + 1) :: declarationsFrom (if p.name = none then index + 1 else index) ps

structure ParameterList where
  front : Gap
  parameters : List ParameterText

def ParameterList.text (l : ParameterList) : QString := l.front.text ++ join [','] (l.parameters.map ParameterText.text)

def ParameterList.declarations (l : ParameterList) : List ASTDeclaration := declarationsFrom 0 l.parameters

end Model

section Statement

/-- A single word or template in one line, without references within it. -/
def TypeText.Fits : TypeText → Prop
  | single text _ => '\n' ∉ text ∧ '&' ∉ text
  | words _ _ _ _ => False

/-- A space stands somewhere between type and name. -/
def ParameterText.Separate (p : ParameterText) : Prop := p.behindType.kept ≠ [] ∨ ∃ g ∈ p.reference, g.kept ≠ []

/-- Spaces other than line breaks and comments stand behind `const` and in front of the name. -/
structure ParameterText.Fits (p : ParameterText) : Prop where
  type : p.type.Fits
  constant : ∀ g ∈ p.constant, g.kept ≠ []
  name : p.name ≠ none → p.Separate

def ParameterList.Fits (l : ParameterList) : Prop := ∀ p ∈ l.parameters, p.Fits

end Statement

section Kept
variable {s : QString} {c : Char}

def TypeText.kept : TypeText → QString
  | single text _ => text
  | words first others _ _ => first ++ others.flatMap fun other => other.1.kept ++ other.2

/-- Templates without line breaks and references. -/
def TypeText.Plain : TypeText → Prop
  | single text _ => '\n' ∉ text ∧ '&' ∉ text
  | words _ _ _ _ => True

/-- What remains of a parameter without comments and line breaks. -/
def ParameterText.kept (p : ParameterText) : QString :=
  p.front.kept ++ ((p.constant.elim [] fun g => "const".toList ++ g.kept) ++ (p.type.kept ++ (p.behindType.kept ++
    ((p.reference.elim [] fun g => '&' :: g.kept) ++ p.name.elim [] fun entry => entry.1 ++ entry.2.kept))))

theorem part_of_builtin {word : QString} (builtin : word ∈ builtinWords) : ∀ c ∈ word, isNamePart c = true := by
  have all : ∀ word ∈ builtinWords, ∀ c ∈ word, isNamePart c = true := by decide
  exact all word builtin

theorem stripArgs_builtin {others : List (Gap × QString)} (builtin : ∀ other ∈ others, other.2 ∈ builtinWords) (s : QString) :
    stripArgs (others.flatMap (fun other => other.1.text ++ other.2) ++ s) =
      others.flatMap (fun other => other.1.kept ++ other.2) ++ stripArgs s := by
  induction others with
  | nil => rfl
  | cons other others ih =>
    rw [List.forall_mem_cons] at builtin
    simp [stripArgs_gap, stripArgs_append fun c mem => plain_of_part (part_of_builtin builtin.1 c mem), ih builtin.2]

theorem stripArgs_typeText {t : TypeText} (plain : t.Plain) (s : QString) : stripArgs (t.text ++ s) = t.kept ++ stripArgs s := by
  cases t with
  | single text isType => exact stripArgs_type (fun c => visible_of_isTypePart) isType.2.2 plain.1 s
  | words first others several builtin =>
    simp [TypeText.text, TypeText.kept, stripArgs_append fun c mem => plain_of_part (part_of_builtin builtin.1 c mem),
      stripArgs_builtin builtin.2]

theorem stripArgs_parameter {p : ParameterText} (plain : p.type.Plain) (s : QString) :
    stripArgs (p.text ++ s) = p.kept ++ stripArgs s := by
  have constant (s : QString) : stripArgs ((p.constant.elim [] fun g => "const".toList ++ g.text) ++ s) =
      (p.constant.elim [] fun g => "const".toList ++ g.kept) ++ stripArgs s := by
    cases p.constant with
    | none => rfl
    | some g =>
      have word : stripArgs ("const".toList ++ (g.text ++ s)) = "const".toList ++ stripArgs (g.text ++ s) := stripArgs_append (by decide) _
      simpa [stripArgs_gap] using word
  have reference (s : QString) : stripArgs ((p.reference.elim [] fun g => '&' :: g.text) ++ s) =
      (p.reference.elim [] fun g => '&' :: g.kept) ++ stripArgs s := by
    cases p.reference with
    | none => rfl
    | some g =>
      have sign : stripArgs (['&'] ++ (g.text ++ s)) = ['&'] ++ stripArgs (g.text ++ s) := stripArgs_append (by decide) _
      simpa [stripArgs_gap] using sign
  have name (s : QString) : stripArgs ((p.name.elim [] fun entry => entry.1 ++ entry.2.text) ++ s) =
      (p.name.elim [] fun entry => entry.1 ++ entry.2.kept) ++ stripArgs s := by
    have isName := p.isName
    cases is : p.name with
    | none => rfl
    | some entry =>
      have part := isNamePart_of_mem (isName entry is)
      simp [stripArgs_append fun c mem => plain_of_part (part c mem), stripArgs_gap]
  simp only [ParameterText.text, ParameterText.kept, List.append_assoc, stripArgs_gap, constant, stripArgs_typeText plain, reference, name]

end Kept

section Reading
variable {s : TypeParser} {x : QString}

theorem read_space {c : Char} (space : QChar.isSpace c = true) (outside : s.inTemplate = false) : s.read c =
    if s.propertyType = [] then s else if s.propertyType = "const".toList then { s with propertyType := [], constant := true }
      else { s with inVariable := true } := by
  have other : c ≠ '<' ∧ c ≠ '>' := by
    constructor <;> rintro rfl <;> exact absurd space (by decide)
  rw [TypeParser.read, if_neg other.1, if_neg other.2, if_pos space, outside]
  rfl

/-- Spaces do nothing in front of a type. -/
theorem foldl_read_front (spaces : ∀ c ∈ x, QChar.isSpace c = true) (outside : s.inTemplate = false) (empty : s.propertyType = []) :
    x.foldl TypeParser.read s = s := by
  induction x with
  | nil => rfl
  | cons c x ih =>
    rw [List.forall_mem_cons] at spaces
    rw [List.foldl_cons, read_space spaces.1 outside, if_pos empty, ih spaces.2]

theorem foldl_read_const (spaces : ∀ c ∈ x, QChar.isSpace c = true) (some : x ≠ []) (outside : s.inTemplate = false)
    (const : s.propertyType = "const".toList) : x.foldl TypeParser.read s = { s with propertyType := [], constant := true } := by
  cases x with
  | nil => exact absurd rfl some
  | cons c x =>
    rw [List.forall_mem_cons] at spaces
    rw [List.foldl_cons, read_space spaces.1 outside, if_neg (by rw [const]; decide), if_pos const]
    exact foldl_read_front spaces.2 outside rfl

/-- Behind a type spaces end it. -/
theorem foldl_read_behind (spaces : ∀ c ∈ x, QChar.isSpace c = true) (outside : s.inTemplate = false) (type : s.propertyType ≠ [])
    (other : s.propertyType ≠ "const".toList) : x.foldl TypeParser.read s = { s with inVariable := s.inVariable || x ≠ [] } := by
  induction x generalizing s with
  | nil => simp
  | cons c x ih =>
    rw [List.forall_mem_cons] at spaces
    rw [List.foldl_cons, read_space spaces.1 outside, if_neg type, if_neg other,
      @ih { s with inVariable := true } spaces.2 outside type other]
    simp

theorem read_part {c : Char} (part : isNamePart c = true) : s.read c =
    if s.inVariable then { s with variableName := s.variableName ++ [c] } else { s with propertyType := s.propertyType ++ [c] } := by
  have not (d : Char) (bad : isNamePart d = false) : c ≠ d := ne_of_isNamePart part bad
  rw [TypeParser.read, if_neg (not '<' (by decide)), if_neg (not '>' (by decide)),
    if_neg (by rw [isSpace_of_isNamePart part]; exact Bool.false_ne_true), if_neg (not '&' (by decide)), if_neg (not ',' (by decide))]

/-- A word belongs to the name behind a space, and to the type otherwise. -/
theorem foldl_read_part (part : ∀ c ∈ x, isNamePart c = true) : x.foldl TypeParser.read s =
    if s.inVariable then { s with variableName := s.variableName ++ x } else { s with propertyType := s.propertyType ++ x } := by
  induction x generalizing s with
  | nil => simp
  | cons c x ih =>
    rw [List.forall_mem_cons] at part
    rw [List.foldl_cons, read_part part.1, ih part.2]
    split
    case isTrue reading => simp [reading]
    case isFalse reading => simp [reading]

theorem read_reference : s.read '&' = { s with reference := true } := rfl

end Reading

section Parameters
variable {s : TypeParser} {p : ParameterText}

/-- Between two parameters. -/
structure TypeParser.Fresh (s : TypeParser) : Prop where
  propertyType : s.propertyType = []
  variableName : s.variableName = []
  constant : s.constant = false
  reference : s.reference = false
  inVariable : s.inVariable = false
  inTemplate : s.inTemplate = false
  templateDepth : s.templateDepth = 0

/-- What `const` leaves in the type, where no space follows it. -/
def ParameterText.constantText (p : ParameterText) : QString := p.constant.elim [] fun g => if g.kept = [] then "const".toList else []

def ParameterText.nameText (p : ParameterText) : QString := p.name.elim [] Prod.fst

instance (p : ParameterText) : Decidable p.Separate := by
  unfold ParameterText.Separate
  cases p.reference with
  | none => exact decidable_of_iff (p.behindType.kept ≠ []) (by simp)
  | some g => exact decidable_of_iff (p.behindType.kept ≠ [] ∨ g.kept ≠ []) (by simp)

theorem foldl_read_constant (fresh : s.Fresh) :
    (p.front.kept ++ (p.constant.elim [] fun g => "const".toList ++ g.kept)).foldl TypeParser.read s =
      { s with propertyType := p.constantText, constant := p.constant.any (·.kept ≠ []) } := by
  obtain ⟨type, name, constant, reference, inVariable, inTemplate, depth⟩ := fresh
  rw [List.foldl_append, foldl_read_front (kept_isQSpace p.front) inTemplate type]
  cases is : p.constant with
  | none =>
    have same : s = { s with propertyType := [], constant := false } := by
      rw [← type, ← constant]
    simpa [ParameterText.constantText, is] using same
  | some g =>
    have word : "const".toList.foldl TypeParser.read s = { s with propertyType := "const".toList } := by
      rw [foldl_read_part (by decide), inVariable, type]
      rfl
    rw [Option.elim_some, List.foldl_append, word]
    by_cases space : g.kept = []
    · simp [ParameterText.constantText, is, space, ← constant]
    · rw [foldl_read_const (s := { s with propertyType := "const".toList }) (kept_isQSpace g) space inTemplate rfl]
      simp [ParameterText.constantText, is, space]

/-- The text behind a type up to the name. -/
theorem foldl_read_reference (outside : s.inTemplate = false) (behind : s.inVariable = false) (type : s.propertyType ≠ [])
    (const : s.propertyType ≠ "const".toList) :
    (p.behindType.kept ++ (p.reference.elim [] fun g => '&' :: g.kept)).foldl TypeParser.read s =
      { s with inVariable := p.Separate, reference := s.reference || p.reference.isSome } := by
  have first : p.behindType.kept.foldl TypeParser.read s = { s with inVariable := p.behindType.kept ≠ [] } := by
    rw [foldl_read_behind (kept_isQSpace _) outside type const, behind, Bool.false_or]
  rw [List.foldl_append, first]
  cases is : p.reference with
  | none => simp [ParameterText.Separate, is]
  | some g =>
    rw [Option.elim_some, List.foldl_cons, read_reference, foldl_read_behind (kept_isQSpace g)]
    · simp [ParameterText.Separate, is]
    · exact outside
    · exact type
    · exact const

/-- Behind a space the name is read. -/
theorem foldl_read_separate (outside : s.inTemplate = false) (reading : s.inVariable = true ∨ p.name = none) (type : s.propertyType ≠ [])
    (const : s.propertyType ≠ "const".toList) (empty : s.variableName = []) :
    (p.name.elim [] fun entry => entry.1 ++ entry.2.kept).foldl TypeParser.read s = { s with variableName := p.nameText } := by
  have isName := p.isName
  cases is : p.name with
  | none =>
    have same : s = { s with variableName := [] } := by rw [← empty]
    simpa [ParameterText.nameText, is] using same
  | some entry =>
    have inVariable := reading.resolve_right (by simp [is])
    rw [Option.elim_some, List.foldl_append, foldl_read_part (isNamePart_of_mem (isName entry is)), if_pos inVariable,
      foldl_read_behind (kept_isQSpace _)]
    · simp [ParameterText.nameText, is, empty, inVariable]
    · exact outside
    · exact type
    · exact const

/-- Otherwise the name belongs to the type, which may be lost as `const` then. -/
theorem foldl_read_run {name : QString} {g : Gap} (outside : s.inTemplate = false) (reading : s.inVariable = false)
    (type : s.propertyType ≠ []) (isName : isIdentifier name = true) :
    ((name ++ g.kept).foldl TypeParser.read s).propertyType = [] ∨
      s.propertyType.length < ((name ++ g.kept).foldl TypeParser.read s).propertyType.length := by
  rw [List.foldl_append, foldl_read_part (isNamePart_of_mem isName), reading, if_neg Bool.false_ne_true]
  have longer : s.propertyType.length < (s.propertyType ++ name).length := by
    simpa using List.length_pos_of_ne_nil (identifier_ne_nil isName)
  by_cases empty : g.kept = []
  · exact .inr (by simpa [empty] using longer)
  · by_cases const : s.propertyType ++ name = "const".toList
    · rw [foldl_read_const (kept_isQSpace g) empty]
      · exact .inl rfl
      · exact outside
      · exact const
    · rw [foldl_read_behind (kept_isQSpace g)]
      · exact .inr longer
      · exact outside
      · simp [type]
      · exact const

/-- What was read before, and that no template is open. -/
structure TypeParser.Beside (s q : TypeParser) : Prop where
  arguments : q.arguments = s.arguments
  variableNameIndex : q.variableNameIndex = s.variableNameIndex
  inTemplate : q.inTemplate = false
  templateDepth : q.templateDepth = s.templateDepth

theorem TypeParser.Beside.trans {q r : TypeParser} (first : s.Beside q) (second : q.Beside r) : s.Beside r :=
  ⟨second.arguments.trans first.arguments, second.variableNameIndex.trans first.variableNameIndex, second.inTemplate,
    second.templateDepth.trans first.templateDepth⟩

/-- Outside of templates only a comma ends a parameter, and spaces are not read into the type. -/
theorem beside_read {c : Char} (outside : s.inTemplate = false) (other : c ≠ '<' ∧ c ≠ '>' ∧ c ≠ ',') :
    s.Beside (s.read c) ∧ ((∀ d ∈ s.propertyType, QChar.isSpace d = false) → ∀ d ∈ (s.read c).propertyType, QChar.isSpace d = false) := by
  rw [TypeParser.read, if_neg other.1, if_neg other.2.1, outside]
  split
  · simp only [Bool.false_eq_true, if_false]
    split
    · exact ⟨⟨rfl, rfl, outside, rfl⟩, id⟩
    · split
      · exact ⟨⟨rfl, rfl, rfl, rfl⟩, fun _ _ none => absurd none List.not_mem_nil⟩
      · exact ⟨⟨rfl, rfl, rfl, rfl⟩, id⟩
  case isFalse visible =>
    rw [if_neg other.2.2]
    split
    · exact ⟨⟨rfl, rfl, rfl, rfl⟩, id⟩
    · split
      · exact ⟨⟨rfl, rfl, rfl, rfl⟩, id⟩
      · refine ⟨⟨rfl, rfl, rfl, rfl⟩, fun all d mem => ?_⟩
        rcases List.mem_append.mp mem with mem | mem
        · exact all d mem
        · rw [List.mem_singleton.mp mem]
          exact Bool.eq_false_iff.mpr visible

theorem beside_foldl {x : QString} (outside : s.inTemplate = false) (other : ∀ c ∈ x, c ≠ '<' ∧ c ≠ '>' ∧ c ≠ ',') :
    s.Beside (x.foldl TypeParser.read s) ∧
      ((∀ d ∈ s.propertyType, QChar.isSpace d = false) → ∀ d ∈ (x.foldl TypeParser.read s).propertyType, QChar.isSpace d = false) := by
  induction x generalizing s with
  | nil => exact ⟨⟨rfl, rfl, outside, rfl⟩, id⟩
  | cons c x ih =>
    rw [List.forall_mem_cons] at other
    obtain ⟨beside, visible⟩ := beside_read outside other.1
    obtain ⟨beside', visible'⟩ := ih beside.inTemplate other.2
    exact ⟨beside.trans beside', visible' ∘ visible⟩

/-- What may stand beside a type. -/
theorem kept_other (g : Gap) : ∀ c ∈ g.kept, c ≠ '<' ∧ c ≠ '>' ∧ c ≠ ',' := by
  intro c mem
  refine ⟨?_, ?_, ?_⟩ <;> rintro rfl <;> exact absurd (kept_space g _ mem) (by decide)

theorem part_other {c : Char} (part : isNamePart c = true) : c ≠ '<' ∧ c ≠ '>' ∧ c ≠ ',' := by
  refine ⟨?_, ?_, ?_⟩ <;> rintro rfl <;> exact absurd part (by decide)

theorem behind_other (p : ParameterText) : ∀ c ∈ p.behindType.kept ++ ((p.reference.elim [] fun g => '&' :: g.kept) ++
    p.name.elim [] fun entry => entry.1 ++ entry.2.kept), c ≠ '<' ∧ c ≠ '>' ∧ c ≠ ',' := by
  have isName := p.isName
  intro c mem
  rcases List.mem_append.mp mem with mem | mem
  · exact kept_other _ c mem
  rcases List.mem_append.mp mem with mem | mem
  · cases is : p.reference with
    | none => simp [is] at mem
    | some g =>
      rw [is, Option.elim_some, List.mem_cons] at mem
      rcases mem with rfl | mem
      · decide
      · exact kept_other g c mem
  · cases is : p.name with
    | none => simp [is] at mem
    | some entry =>
      rw [is, Option.elim_some, List.mem_append] at mem
      rcases mem with mem | mem
      · exact part_other (isNamePart_of_mem (isName entry is) c mem)
      · exact kept_other _ c mem

/-- Behind a type the name is read as such, or lengthens the type. -/
theorem foldl_read_tail (outside : s.inTemplate = false) (reading : s.inVariable = false) (empty : s.variableName = [])
    (unread : s.reference = false) (type : s.propertyType ≠ []) (const : s.propertyType ≠ "const".toList) {q : TypeParser}
    (run : (p.behindType.kept ++ ((p.reference.elim [] fun g => '&' :: g.kept) ++
      p.name.elim [] fun entry => entry.1 ++ entry.2.kept)).foldl TypeParser.read s = q) :
    ((p.name ≠ none → p.Separate) → q.propertyType = s.propertyType ∧ q.variableName = p.nameText ∧ q.constant = s.constant ∧
      q.reference = p.reference.isSome) ∧
    (¬ (p.name ≠ none → p.Separate) → q.propertyType = [] ∨ s.propertyType.length < q.propertyType.length) := by
  rw [← List.append_assoc, List.foldl_append, foldl_read_reference outside reading type const, unread, Bool.false_or] at run
  constructor
  · intro separate
    rw [foldl_read_separate] at run
    · rw [← run]
      exact ⟨rfl, rfl, rfl, rfl⟩
    · exact outside
    · by_cases named : p.name = none
      · exact .inr named
      · exact .inl (decide_eq_true (separate named))
    · exact type
    · exact const
    · exact empty
  · intro together
    rw [Classical.not_imp] at together
    have isName := p.isName
    cases is : p.name with
    | none => exact absurd is together.1
    | some entry =>
      rw [is, Option.elim_some] at run
      have longer := foldl_read_run (s := { s with inVariable := p.Separate, reference := p.reference.isSome }) (g := entry.2)
        outside (decide_eq_false together.2) type (isName entry is)
      rwa [run] at longer

theorem typeText_ne_nil (t : TypeText) : t.type ≠ [] ∧ t.type ≠ "const".toList := by
  cases t with
  | single text isType => exact ⟨isType.1, isType.2.1⟩
  | words first others several builtin =>
    have all : ∀ word ∈ builtinWords, word ≠ [] := by decide
    refine ⟨by simp [TypeText.type, all first builtin.1], fun is => ?_⟩
    obtain ⟨other, others, rfl⟩ := List.exists_cons_of_ne_nil several
    have space : ' ' ∈ "const".toList := by
      rw [← is]
      simp [TypeText.type]
    exact absurd space (by decide)

theorem constantText_cases (p : ParameterText) : p.constantText = [] ∧ (∀ g ∈ p.constant, g.kept ≠ []) ∨
    p.constantText = "const".toList ∧ ¬ ∀ g ∈ p.constant, g.kept ≠ [] := by
  cases is : p.constant with
  | none => exact .inl ⟨by simp [ParameterText.constantText, is], nofun⟩
  | some g => by_cases empty : g.kept = [] <;> simp [ParameterText.constantText, is, empty]

theorem constantText_append {text : QString} (nonempty : text ≠ []) (const : text ≠ "const".toList) :
    p.constantText ++ text ≠ "const".toList := by
  rcases constantText_cases p with ⟨is, -⟩ | ⟨is, -⟩
  · rwa [is]
  · rw [is]
    exact fun same => nonempty (List.append_cancel_left (same.trans (List.append_nil _).symm))

/-- A parameter is read as its own declaration if it fits, and with another type otherwise. -/
theorem foldl_read_parameter (fresh : s.Fresh) (plain : p.type.Plain) :
    s.Beside (p.kept.foldl TypeParser.read s) ∧
      ((p.kept.foldl TypeParser.read s).propertyType = p.type.type ↔ p.Fits) ∧
      (p.Fits → (p.kept.foldl TypeParser.read s).variableName = p.nameText ∧
        (p.kept.foldl TypeParser.read s).constant = p.constant.isSome ∧
        (p.kept.foldl TypeParser.read s).reference = p.reference.isSome) := by
  have split : p.kept = (p.front.kept ++ (p.constant.elim [] fun g => "const".toList ++ g.kept)) ++ (p.type.kept ++ (p.behindType.kept ++
      ((p.reference.elim [] fun g => '&' :: g.kept) ++ p.name.elim [] fun entry => entry.1 ++ entry.2.kept))) := by
    simp [ParameterText.kept]
  rw [split, List.foldl_append, foldl_read_constant fresh, List.foldl_append]
  have front : s.Beside { s with propertyType := p.constantText, constant := p.constant.any (·.kept ≠ []) } :=
    ⟨rfl, rfl, fresh.inTemplate, rfl⟩
  cases is : p.type with
  | single text isType =>
    rw [is] at plain
    obtain ⟨nonempty, const, balanced⟩ := isType
    have whole : p.constantText ++ text ≠ [] := by simp [nonempty]
    have whole' : p.constantText ++ text ≠ "const".toList := constantText_append nonempty const
    have fits_iff : p.Fits ↔ (∀ g ∈ p.constant, g.kept ≠ []) ∧ (p.name ≠ none → p.Separate) :=
      ⟨fun fits => ⟨fits.constant, fits.name⟩, fun ⟨constant, name⟩ => ⟨by rw [is]; exact plain, constant, name⟩⟩
    obtain ⟨s₂, is₂⟩ : ∃ s₂ : TypeParser, s₂ = { s with
      propertyType := p.constantText ++ text, constant := p.constant.any (·.kept ≠ []), inTemplate := false, templateDepth := 0 } := ⟨_, rfl⟩
    have read : (TypeText.single text ⟨nonempty, const, balanced⟩).kept.foldl TypeParser.read
        { s with propertyType := p.constantText, constant := p.constant.any (·.kept ≠ []) } = s₂ := by
      rw [is₂]
      exact foldl_read_balanced balanced plain.2 fresh.inTemplate fresh.templateDepth fresh.inVariable
    have outside : s₂.inTemplate = false := by rw [is₂]
    have type : s₂.propertyType = p.constantText ++ text := by rw [is₂]
    have beside : s.Beside s₂ := by
      rw [is₂]
      exact ⟨rfl, rfl, rfl, fresh.templateDepth.symm⟩
    obtain ⟨separate, together⟩ := foldl_read_tail (p := p) outside (by rw [is₂]; exact fresh.inVariable)
      (by rw [is₂]; exact fresh.variableName) (by rw [is₂]; exact fresh.reference) (by rw [type]; exact whole)
      (by rw [type]; exact whole') rfl
    rw [read]
    refine ⟨beside.trans (beside_foldl outside (behind_other p)).1, ?_, fun fits => ?_⟩
    · rw [fits_iff]
      constructor
      · intro same
        change _ = text at same
        have name : p.name ≠ none → p.Separate := by
          by_contra run
          rcases together run with lost | longer
          · exact nonempty (same.symm.trans lost)
          · rw [same, type, List.length_append] at longer
            omega
        rcases constantText_cases p with ⟨-, constant⟩ | ⟨lengthened, -⟩
        · exact ⟨constant, name⟩
        · rw [(separate name).1, type, lengthened] at same
          exact absurd (List.append_cancel_right (same.trans (List.nil_append text).symm)) (by decide)
      · rintro ⟨constant, name⟩
        rw [(separate name).1, type]
        rcases constantText_cases p with ⟨same, -⟩ | ⟨-, other⟩
        · rw [same]
          rfl
        · exact absurd constant other
    · obtain ⟨-, name, constant, reference⟩ := separate fits.name
      refine ⟨name, ?_, reference⟩
      rw [constant, is₂]
      have spaces := fits.constant
      cases is' : p.constant with
      | none => rfl
      | some g => simpa [is'] using spaces
  | words first others several builtin =>
    have misfit : ¬ p.Fits := fun fits => by simpa [is, TypeText.Fits] using fits.type
    have all : ∀ c ∈ first ++ others.flatMap (fun other => other.1.kept ++ other.2), c ≠ '<' ∧ c ≠ '>' ∧ c ≠ ',' := by
      intro c mem
      simp only [List.mem_append, List.mem_flatMap] at mem
      rcases mem with mem | ⟨other, here, mem | mem⟩
      · exact part_other (part_of_builtin builtin.1 c mem)
      · exact kept_other _ c mem
      · exact part_other (part_of_builtin (builtin.2 other here) c mem)
    obtain ⟨first_, visible⟩ := beside_foldl (s := { s with propertyType := p.constantText, constant := p.constant.any (·.kept ≠ []) })
      fresh.inTemplate all
    obtain ⟨second, visible'⟩ := beside_foldl first_.inTemplate (behind_other p)
    refine ⟨front.trans (first_.trans second), iff_of_false (fun same => ?_) misfit, fun fits => absurd fits misfit⟩
    have front_visible : ∀ c ∈ p.constantText, QChar.isSpace c = false := by
      rcases constantText_cases p with ⟨is, -⟩ | ⟨is, -⟩ <;> rw [is] <;> decide
    have none := visible' (visible front_visible)
    obtain ⟨other, others, rfl⟩ := List.exists_cons_of_ne_nil several
    have space : ' ' ∈ (TypeText.words first (other :: others) several builtin).type := by simp [TypeText.type]
    rw [← same] at space
    exact absurd (none ' ' space) (by decide)

end Parameters

section Lists
variable {s : TypeParser} {p : ParameterText} {ps : List ParameterText}

/-- The declaration that is made of what was read. -/
def TypeParser.declaration (s : TypeParser) : ASTDeclaration :=
  ⟨s.propertyType, if s.variableName = [] then "__repc_variable_".toList ++ (toString (s.variableNameIndex + 1)).toList
    else trimmed s.variableName, s.constant, s.reference⟩

theorem generate_arguments : s.generateFunctionParameter.arguments = s.arguments ++ [s.declaration] := by
  by_cases unnamed : s.variableName = [] <;> simp [TypeParser.generateFunctionParameter, TypeParser.declaration, unnamed]

/-- A comma ends a parameter. -/
theorem read_comma (outside : s.inTemplate = false) (depth : s.templateDepth = 0) : (s.read ',').Fresh ∧
    (s.read ',').arguments = s.arguments ++ [s.declaration] ∧
    (s.read ',').variableNameIndex = (if s.variableName = [] then s.variableNameIndex + 1 else s.variableNameIndex) := by
  have comma : s.read ',' = { s.generateFunctionParameter with
      propertyType := [], variableName := [], constant := false, reference := false, inVariable := false } := by
    simp [TypeParser.read, outside, QChar.isSpace]
  rw [comma]
  exact ⟨⟨rfl, rfl, rfl, rfl, rfl, outside, depth⟩, generate_arguments, rfl⟩

theorem declaration_type (index : Nat) (p : ParameterText) : (p.declaration index).type = p.type.type := rfl

theorem nameText_eq_nil : p.nameText = [] ↔ p.name = none := by
  have isName := p.isName
  cases is : p.name with
  | none => simp [ParameterText.nameText, is]
  | some entry => simp [ParameterText.nameText, is, identifier_ne_nil (isName entry is)]

/-- The declaration of a parameter that fits. -/
theorem declaration_of_fits {q : TypeParser} (beside : s.Beside q) (type : q.propertyType = p.type.type)
    (rest : q.variableName = p.nameText ∧ q.constant = p.constant.isSome ∧ q.reference = p.reference.isSome) :
    q.declaration = p.declaration (s.variableNameIndex + 1) := by
  obtain ⟨name, constant, reference⟩ := rest
  have isName := p.isName
  simp only [TypeParser.declaration, ParameterText.declaration, type, name, constant, reference, beside.variableNameIndex, nameText_eq_nil]
  cases is : p.name with
  | none => rfl
  | some entry => simp [ParameterText.nameText, is, trimmed_name (isNamePart_of_mem (isName entry is))]

/-- What the parser makes of a list, up to the names of parameters that do not fit. -/
structure ReadsAs (index : Nat) (ps : List ParameterText) (out : List ASTDeclaration) : Prop where
  types : out.map (·.type) = ps.map (·.type.type) ↔ ∀ p ∈ ps, p.Fits
  declarations : (∀ p ∈ ps, p.Fits) → out = declarationsFrom index ps

theorem readsAs_cons {index : Nat} {d : ASTDeclaration} {out : List ASTDeclaration} (type : d.type = p.type.type ↔ p.Fits)
    (first : p.Fits → d = p.declaration (index + 1)) (index' : Nat) (next : p.Fits → index' = if p.name = none then index + 1 else index)
    (rest : ReadsAs index' ps out) : ReadsAs index (p :: ps) (d :: out) := by
  refine ⟨?_, fun fits => ?_⟩
  · rw [List.map_cons, List.map_cons, List.cons.injEq, List.forall_mem_cons, type, rest.types]
  · rw [List.forall_mem_cons] at fits
    rw [declarationsFrom, first fits.1, ← next fits.1, rest.declarations fits.2]

/-- The parameters between the commas are read one after the other. -/
theorem foldl_read_parameters (fresh : s.Fresh) (nonempty : ps ≠ []) (plain : ∀ p ∈ ps, p.type.Plain) {q : TypeParser}
    (run : (join [','] (ps.map ParameterText.kept)).foldl TypeParser.read s = q) :
    (∃ out, q.finish = s.arguments ++ out ∧ ReadsAs s.variableNameIndex ps out) ∧ q.inTemplate = false ∧
      ((∀ p ∈ ps, p.Fits) → q.propertyType ≠ []) := by
  induction ps generalizing s with
  | nil => exact absurd rfl nonempty
  | cons p ps ih =>
    rw [List.forall_mem_cons] at plain
    obtain ⟨beside, type, rest⟩ := foldl_read_parameter fresh plain.1
    cases ps with
    | nil =>
      replace run : p.kept.foldl TypeParser.read s = q := run
      rw [run] at beside type rest
      refine ⟨?_, beside.inTemplate, fun fits => ?_⟩
      · by_cases lost : q.propertyType = []
        · have misfit : ¬ p.Fits := fun fits => (typeText_ne_nil p.type).1 ((type.mpr fits).symm.trans lost)
          refine ⟨[], by simp [TypeParser.finish, lost, beside.arguments], ?_, fun fits => absurd (fits p List.mem_cons_self) misfit⟩
          simp [misfit]
        · refine ⟨[q.declaration], by simp [TypeParser.finish, lost, generate_arguments, beside.arguments], ?_⟩
          refine readsAs_cons type (fun fits => declaration_of_fits beside (type.mpr fits) (rest fits)) _ (fun _ => rfl) ⟨by simp, fun _ => rfl⟩
      · rw [type.mpr (fits p List.mem_cons_self)]
        exact (typeText_ne_nil p.type).1
    | cons p' ps =>
      rw [List.map_cons, List.map_cons, join_cons_cons, List.foldl_append, List.foldl_append, List.foldl_cons, List.foldl_nil,
        ← List.map_cons] at run
      generalize p.kept.foldl TypeParser.read s = r at beside type rest run
      obtain ⟨fresh', arguments, index⟩ := read_comma beside.inTemplate (beside.templateDepth.trans fresh.templateDepth)
      obtain ⟨⟨out, finish, reads⟩, outside, full⟩ := ih fresh' (by simp) plain.2 run
      refine ⟨⟨r.declaration :: out, ?_, ?_⟩, outside, fun fits => full fun p mem => fits p (List.mem_cons_of_mem _ mem)⟩
      · rw [finish, arguments, beside.arguments, List.append_assoc]
        rfl
      · refine readsAs_cons type (fun fits => declaration_of_fits beside (type.mpr fits) (rest fits)) _ (fun fits => ?_) reads
        simp only [index, (rest fits).1, nameText_eq_nil, beside.variableNameIndex]

end Lists

section Trimming
variable {s q : TypeParser} {x a b d : QString}

theorem mem_of_mem_lines (s : QString) : ∀ line ∈ lines s, ∀ c ∈ line, c ∈ s := by
  fun_induction lines s with
  | case1 => simp
  | case2 s ih | case3 s ih =>
    rw [List.forall_mem_cons]
    exact ⟨fun _ none => absurd none List.not_mem_nil, fun line inside c mem => by simp [ih line inside c mem]⟩
  | case4 c s _ _ ih =>
    cases split : lines s with
    | nil => simp
    | cons first others =>
      rw [split, List.forall_mem_cons] at ih
      rw [List.modifyHead_cons, List.forall_mem_cons]
      refine ⟨fun d mem => ?_, fun line inside d mem => List.mem_cons_of_mem c (ih.2 line inside d mem)⟩
      rcases List.mem_cons.mp mem with rfl | mem
      · exact List.mem_cons_self
      · exact List.mem_cons_of_mem c (ih.1 d mem)

/-- Of spaces spaces remain. -/
theorem stripArgs_spaces (spaces : ∀ c ∈ b, QChar.isSpace c = true) :
    (∀ c ∈ stripArgs b, QChar.isSpace c = true) ∧ ∀ c ∈ behindComment b, QChar.isSpace c = true := by
  constructor
  · intro c mem
    obtain ⟨line, inside, mem⟩ := List.mem_flatMap.mp mem
    exact spaces c (mem_of_mem_lines b line inside c ((withoutComment_sublist line).subset mem))
  · intro c mem
    obtain ⟨line, inside, mem⟩ := List.mem_flatMap.mp mem
    exact spaces c (mem_of_mem_lines b line (List.mem_of_mem_tail inside) c ((withoutComment_sublist line).subset mem))

/-- In front of a text spaces are kept or fall away. -/
theorem stripArgs_front (spaces : ∀ c ∈ a, QChar.isSpace c = true) (d : QString) :
    ∃ kept, stripArgs (a ++ d) = kept ++ stripArgs d ∧ ∀ c ∈ kept, QChar.isSpace c = true := by
  induction a with
  | nil => exact ⟨[], rfl, nofun⟩
  | cons c a ih =>
    rw [List.forall_mem_cons] at spaces
    obtain ⟨kept, rest, all⟩ := ih spaces.2
    by_cases line : c = '\n'
    · exact ⟨kept, by rw [line, List.cons_append, stripArgs_lineBreak, rest], all⟩
    · by_cases carriageReturn : c = '\r' ∧ (a ++ d).head? = some '\n'
      · obtain ⟨rfl, next⟩ := carriageReturn
        obtain ⟨t, is⟩ : ∃ t, a ++ d = '\n' :: t := by cases whole : a ++ d <;> simp_all
        refine ⟨kept, ?_, all⟩
        rw [← rest, List.cons_append, is, stripArgs_carriageReturn, stripArgs_lineBreak]
      · refine ⟨c :: kept, ?_, List.forall_mem_cons.mpr ⟨spaces.1, all⟩⟩
        rw [List.cons_append, stripArgs_cons line (by tauto) ?_, rest, List.cons_append]
        rintro rfl
        exact absurd spaces.1 (by decide)

/-- Behind a text spaces are kept or fall away. -/
theorem stripArgs_back (spaces : ∀ c ∈ b, QChar.isSpace c = true) (solid : ∀ t c, d = t ++ [c] → QChar.isSpace c = false) :
    (∃ kept, stripArgs (d ++ b) = stripArgs d ++ kept ∧ ∀ c ∈ kept, QChar.isSpace c = true) ∧
      ∃ kept, behindComment (d ++ b) = behindComment d ++ kept ∧ ∀ c ∈ kept, QChar.isSpace c = true := by
  induction d with
  | nil =>
    obtain ⟨outside, inside⟩ := stripArgs_spaces spaces
    exact ⟨⟨stripArgs b, rfl, outside⟩, behindComment b, by simp [behindComment, lines], inside⟩
  | cons c d ih =>
    obtain ⟨⟨kept, outside, all⟩, kept', inside, all'⟩ := ih fun t e is => solid (c :: t) e (by rw [is]; rfl)
    by_cases line : c = '\n'
    · rw [line, List.cons_append, stripArgs_lineBreak, stripArgs_lineBreak, behindComment_lineBreak, behindComment_lineBreak]
      exact ⟨⟨kept, outside, all⟩, kept, outside, all⟩
    · refine ⟨?_, kept', by rw [List.cons_append, behindComment_cons line, behindComment_cons line, inside], all'⟩
      cases d with
      | nil =>
        have visible := solid [] c rfl
        have other : c ≠ '\r' := by
          rintro rfl
          exact absurd visible (by decide)
        have slash : c = '/' → (b.head? ≠ some '/') := by
          intro _ next
          obtain ⟨t, rfl⟩ : ∃ t, b = '/' :: t := by cases b <;> simp_all
          exact absurd (spaces '/' List.mem_cons_self) (by decide)
        refine ⟨kept, ?_, all⟩
        rw [List.nil_append] at outside
        rw [List.cons_append, List.nil_append, stripArgs_cons line (fun is => absurd is other) slash, outside,
          stripArgs_cons line (fun is => absurd is other) (by simp), List.cons_append]
      | cons e d =>
        by_cases carriageReturn : c = '\r' ∧ e = '\n'
        · obtain ⟨rfl, rfl⟩ := carriageReturn
          rw [List.cons_append, stripArgs_lineBreak, stripArgs_lineBreak] at outside
          exact ⟨kept, by rw [List.cons_append, List.cons_append, stripArgs_carriageReturn, stripArgs_carriageReturn, outside], all⟩
        · by_cases comment : c = '/' ∧ e = '/'
          · obtain ⟨rfl, rfl⟩ := comment
            rw [List.cons_append, behindComment_cons (by decide), behindComment_cons (by decide)] at inside
            exact ⟨kept', by rw [List.cons_append, List.cons_append, stripArgs_comment, stripArgs_comment, inside], all'⟩
          · refine ⟨kept, ?_, all⟩
            rw [List.cons_append, stripArgs_cons line ?_ ?_, outside, stripArgs_cons line ?_ ?_, List.cons_append]
            all_goals
              intro is
              simp_all

theorem trimmed_split (s : QString) : ∃ a b, s = a ++ (trimmed s ++ b) ∧ (∀ c ∈ a, QChar.isSpace c = true) ∧
    (∀ c ∈ b, QChar.isSpace c = true) ∧ ∀ t c, trimmed s = t ++ [c] → QChar.isSpace c = false := by
  refine ⟨s.takeWhile QChar.isSpace, (s.dropWhile QChar.isSpace).rtakeWhile QChar.isSpace, ?_, fun c => List.mem_takeWhile_imp,
    fun c => List.mem_rtakeWhile_imp, fun t c is => ?_⟩
  · rw [trimmed, List.rdropWhile_append_rtakeWhile, List.takeWhile_append_dropWhile]
  · have nonempty : trimmed s ≠ [] := by simp [is]
    have last := List.rdropWhile_last_not QChar.isSpace (s.dropWhile QChar.isSpace) nonempty
    have ends : (trimmed s).getLast nonempty = c := by simp [is]
    rw [← ends]
    exact Bool.eq_false_iff.mpr last

theorem open_spaces (spaces : ∀ c ∈ b, QChar.isSpace c = true) (inside : s.inTemplate = true) :
    (b.foldl TypeParser.read s).inTemplate = true := by
  induction b generalizing s with
  | nil => exact inside
  | cons c b ih =>
    rw [List.forall_mem_cons] at spaces
    refine ih spaces.2 ?_
    have other : c ≠ '<' ∧ c ≠ '>' := by
      constructor <;> rintro rfl <;> exact absurd spaces.1 (by decide)
    rw [TypeParser.read, if_neg other.1, if_neg other.2, if_pos spaces.1, if_pos inside]
    exact inside

/-- Spaces at the end change nothing, but that a `const` there is no type behind them. -/
theorem finish_spaces (spaces : ∀ c ∈ b, QChar.isSpace c = true) (run : b.foldl TypeParser.read s = q) (outside : q.inTemplate = false) :
    s.finish = q.finish ∨ q.propertyType = [] ∧ ∃ d : ASTDeclaration, d.type = "const".toList ∧ s.finish = q.finish ++ [d] := by
  have closed : s.inTemplate = false := by
    by_contra inside
    rw [← run, open_spaces spaces (by simpa using inside)] at outside
    cases outside
  by_cases empty : s.propertyType = []
  · rw [foldl_read_front spaces closed empty] at run
    exact .inl (by rw [run])
  · by_cases const : s.propertyType = "const".toList
    · by_cases none : b = []
      · rw [none, List.foldl_nil] at run
        exact .inl (by rw [run])
      · rw [foldl_read_const spaces none closed const] at run
        refine .inr ⟨by rw [← run], s.declaration, const, ?_⟩
        rw [← run, TypeParser.finish, if_neg empty, generate_arguments]
        rfl
    · rw [foldl_read_behind spaces closed empty const] at run
      rw [← run, TypeParser.finish, TypeParser.finish, if_neg empty, if_neg empty, generate_arguments, generate_arguments]
      exact .inl rfl

end Trimming

section Main
variable {l : ParameterList} {p : ParameterText} {ps : List ParameterText}

theorem stripArgs_comma (s : QString) : stripArgs (',' :: s) = ',' :: stripArgs s := stripArgs_cons (by decide) (by simp) (by simp)

theorem stripArgs_join (plain : ∀ p ∈ ps, p.type.Plain) :
    stripArgs (join [','] (ps.map ParameterText.text)) = join [','] (ps.map ParameterText.kept) := by
  induction ps with
  | nil => rfl
  | cons p ps ih =>
    rw [List.forall_mem_cons] at plain
    cases ps with
    | nil =>
      have one := stripArgs_parameter plain.1 []
      rwa [List.append_nil, stripArgs_nil, List.append_nil] at one
    | cons p' ps =>
      rw [List.map_cons, List.map_cons, join_cons_cons, ← List.map_cons, List.append_assoc, stripArgs_parameter plain.1,
        List.singleton_append, stripArgs_comma, ih plain.2, List.map_cons, List.map_cons, List.map_cons, join_cons_cons, List.append_assoc]
      rfl

theorem parseArguments_eq (s : QString) : parseArguments s = ((stripArgs s).foldl TypeParser.read {}).finish := rfl

/-- The text between the parentheses is trimmed before it is read. -/
theorem readsAs_trimmed (plain : ∀ p ∈ l.parameters, p.type.Plain) : ReadsAs 0 l.parameters (parseArguments (trimmed l.text)) := by
  obtain ⟨a, b, split, front, back, solid⟩ := trimmed_split l.text
  obtain ⟨first, strip, spaces⟩ := stripArgs_front front (trimmed l.text ++ b)
  obtain ⟨⟨last, strip', spaces'⟩, -⟩ := stripArgs_back back solid
  have whole : l.front.kept ++ join [','] (l.parameters.map ParameterText.kept) = first ++ (stripArgs (trimmed l.text) ++ last) := by
    rw [← strip', ← strip, ← split, ParameterList.text, stripArgs_gap, stripArgs_join plain]
  have run : (join [','] (l.parameters.map ParameterText.kept)).foldl TypeParser.read {} =
      last.foldl TypeParser.read ((stripArgs (trimmed l.text)).foldl TypeParser.read {}) := by
    have same := congrArg (List.foldl TypeParser.read {}) whole
    rwa [List.foldl_append, foldl_read_front (kept_isQSpace _) rfl rfl, List.foldl_append, foldl_read_front spaces rfl rfl,
      List.foldl_append] at same
  rw [parseArguments_eq]
  cases is : l.parameters with
  | nil =>
    have blank : ∀ c ∈ stripArgs (trimmed l.text), QChar.isSpace c = true := by
      intro c mem
      have kept : c ∈ l.front.kept ++ join [','] (l.parameters.map ParameterText.kept) := by simp [whole, mem]
      exact kept_isQSpace l.front c (by simpa [is, join] using kept)
    rw [foldl_read_front blank rfl rfl]
    exact ⟨by simp [TypeParser.finish], fun _ => rfl⟩
  | cons p ps =>
    rw [is] at run plain
    obtain ⟨⟨out, finish, reads⟩, outside, full⟩ := foldl_read_parameters (s := {}) ⟨rfl, rfl, rfl, rfl, rfl, rfl, rfl⟩
      (List.cons_ne_nil p ps) plain rfl
    replace finish : _ = out := finish
    rw [run] at finish outside full
    rcases finish_spaces spaces' rfl outside with same | ⟨lost, d, const, same⟩
    · rw [same, finish]
      exact reads
    · have misfit : ¬ ∀ other ∈ p :: ps, other.Fits := fun fits => full fits lost
      refine ⟨iff_of_false (fun types => ?_) misfit, fun fits => absurd fits misfit⟩
      -- the last type would be a `const`
      rw [same, List.map_append] at types
      have mem : "const".toList ∈ (p :: ps).map (·.type.type) := by
        rw [← types, ← const]
        simp
      obtain ⟨other, -, type⟩ := List.mem_map.mp mem
      exact (typeText_ne_nil other.type).2 type

/-- What was read up to here contains none of these characters. -/
def TypeParser.Without (s : TypeParser) (c : Char) : Prop := (∀ arg ∈ s.arguments, c ∉ arg.type) ∧ c ∉ s.propertyType

theorem without_generate {s : TypeParser} {c : Char} (without : s.Without c) : ∀ arg ∈ s.generateFunctionParameter.arguments, c ∉ arg.type := by
  rw [generate_arguments]
  intro arg mem
  rcases List.mem_append.mp mem with mem | mem
  · exact without.1 arg mem
  · rw [List.mem_singleton.mp mem]
    exact without.2

theorem without_read {s : TypeParser} {c d : Char} (without : s.Without c) (other : d ≠ c ∨ c = '&') : (s.read d).Without c := by
  have append (bad : d ≠ '&') : c ∉ s.propertyType ++ [d] := by
    rw [List.mem_append, List.mem_singleton, not_or]
    refine ⟨without.2, ?_⟩
    rintro rfl
    exact other.elim (absurd rfl) bad
  rw [TypeParser.read]
  split
  case isTrue is => exact ⟨without.1, append (by rw [is]; decide)⟩
  split
  case isTrue is => exact ⟨without.1, append (by rw [is]; decide)⟩
  split
  case isTrue space =>
    split
    · exact ⟨without.1, append (by rintro rfl; exact absurd space (by decide))⟩
    split
    · exact without
    split
    · exact ⟨without.1, List.not_mem_nil⟩
    · exact without
  split
  · exact without
  case isFalse visible =>
    split
    · split
      · exact ⟨without.1, append visible⟩
      · exact ⟨without_generate without, List.not_mem_nil⟩
    split
    · exact without
    · exact ⟨without.1, append visible⟩

/-- No type contains references or line breaks. -/
theorem type_of_mem_parseArguments {c : Char} (bad : c = '&' ∨ c = '\n') (s : QString) : ∀ arg ∈ parseArguments s, c ∉ arg.type := by
  have all (s : QString) (p : TypeParser) (without : p.Without c) (absent : c = '&' ∨ c ∉ s) : (s.foldl TypeParser.read p).Without c := by
    induction s generalizing p with
    | nil => exact without
    | cons d s ih =>
      rw [List.mem_cons, not_or] at absent
      exact ih _ (without_read without (absent.elim .inr fun absent => .inl (Ne.symm absent.1))) (absent.imp_right And.right)
  have without := all (stripArgs s) {} ⟨nofun, List.not_mem_nil⟩ (bad.imp_right fun is => by rw [is]; exact newline_not_mem s)
  rw [parseArguments]
  split
  · exact without.1
  · exact without_generate without

theorem parseArguments_readsAs (l : ParameterList) : ReadsAs 0 l.parameters (parseArguments (trimmed l.text)) := by
  by_cases plain : ∀ p ∈ l.parameters, p.type.Plain
  · exact readsAs_trimmed plain
  · simp only [not_forall] at plain
    obtain ⟨p, here, broken⟩ := plain
    have misfit : ¬ ∀ p ∈ l.parameters, p.Fits := fun fits => by
      have type := (fits p here).type
      cases is : p.type with
      | single text isType =>
        rw [is] at broken type
        exact broken type
      | words => simp [is, TypeText.Fits] at type
    refine ⟨iff_of_false (fun types => ?_) misfit, fun fits => absurd fits misfit⟩
    have mem : p.type.type ∈ (parseArguments (trimmed l.text)).map (·.type) := by
      rw [types]
      exact List.mem_map_of_mem here
    obtain ⟨arg, read, type⟩ := List.mem_map.mp mem
    cases is : p.type with
    | single text isType =>
      rw [is] at broken type
      replace type : arg.type = text := type
      rw [TypeText.Plain, ← type] at broken
      exact broken ⟨type_of_mem_parseArguments (.inr rfl) _ arg read, type_of_mem_parseArguments (.inl rfl) _ arg read⟩
    | words => exact broken (by rw [is]; trivial)

theorem typeText_visible (t : TypeText) : ∃ c ∈ t.text, QChar.isSpace c = false := by
  cases t with
  | single text isType =>
    obtain ⟨nonempty, -, balanced⟩ := isType
    obtain ⟨c, s, rfl⟩ := List.exists_cons_of_ne_nil nonempty
    refine ⟨c, List.mem_cons_self, ?_⟩
    rcases isBalanced_cons balanced with ⟨rfl, -⟩ | ⟨rfl, -⟩ | ⟨-, -, -, outer, -⟩
    · decide
    · decide
    · exact visible_of_isTypePart (outer rfl)
  | words first others several builtin =>
    have all : ∀ word ∈ builtinWords, word ≠ [] := by decide
    obtain ⟨c, mem⟩ := List.exists_mem_of_ne_nil _ (all first builtin.1)
    exact ⟨c, List.mem_append_left _ mem, isSpace_of_isNamePart (part_of_builtin builtin.1 c mem)⟩

theorem parameterList_visible (some : l.parameters ≠ []) : ∃ c ∈ l.text, QChar.isSpace c = false := by
  obtain ⟨p, ps, is⟩ := List.exists_cons_of_ne_nil some
  obtain ⟨c, mem, visible⟩ := typeText_visible p.type
  have first : c ∈ p.text := by simp [ParameterText.text, mem]
  refine ⟨c, List.mem_append_right _ ?_, visible⟩
  rw [is, List.map_cons]
  cases ps.map ParameterText.text with
  | nil => exact first
  | cons other texts =>
    rw [join_cons_cons, List.append_assoc]
    exact List.mem_append_left _ first

theorem declarationsFrom_types (index : Nat) (ps : List ParameterText) :
    (declarationsFrom index ps).map (·.type) = ps.map (·.type.type) := by
  induction ps generalizing index with
  | nil => rfl
  | cons p ps ih => rw [declarationsFrom, List.map_cons, List.map_cons, ih, declaration_type]

def declaredAttributes (declarations : List ASTDeclaration) : List PODAttribute := declarations.map fun arg => ⟨arg.type, arg.name⟩

/-- The POD of some attributes under the name that was read last. -/
def RepParser.parenthesisedPod {sha : Sha1} (p : RepParser sha) (attributes : List PODAttribute) : POD :=
  { name := trimmed (p.value .name), compilerAttribute := trimmed (p.value .attribute), attributes := attributes }

/-- A blank text makes no POD, and a word `ENUM` is an error. -/
theorem pod_eq_iff {sha : Sha1} {isLetterOrNumber : Char → Bool} {p : RepParser sha} {text : QString} (types : p.value .types = text)
    (attributes : List PODAttribute) :
    p.pod isLetterOrNumber = .ok (if trimmed text = [] then p else p.appendPod (p.parenthesisedPod attributes)) ↔
      (trimmed text ≠ [] → declaredAttributes (parseArguments (trimmed text)) = attributes) ∧
        ∀ word ∈ (trimmed text).splitOn ' ', RepParser.startsEnum isLetterOrNumber word = false := by
  rw [RepParser.pod, types]
  by_cases empty : trimmed text = []
  · rw [if_pos empty, empty]
    exact iff_of_true rfl ⟨fun some => absurd rfl some, by simp [RepParser.startsEnum]⟩
  · rw [if_neg empty, if_neg empty]
    by_cases word : ((trimmed text).splitOn ' ').any (RepParser.startsEnum isLetterOrNumber) = true
    · rw [if_pos word]
      refine iff_of_false nofun fun ⟨_, noEnum⟩ => ?_
      obtain ⟨w, mem, starts⟩ := List.any_eq_true.mp word
      exact Bool.noConfusion (starts.symm.trans (noEnum w mem))
    · have noEnum : ∀ w ∈ (trimmed text).splitOn ' ', RepParser.startsEnum isLetterOrNumber w = false := by simpa using word
      rw [if_neg word, and_iff_left noEnum, forall_prop_of_true empty]
      constructor
      · intro same
        have pods := congrArg (fun r => r.ast.pods.map POD.attributes) (Except.ok.inj same)
        simpa [RepParser.appendPod, RepParser.appendPods, RepParser.parenthesisedPod, declaredAttributes] using pods
      · rintro rfl
        rfl

/-- The text is trimmed and read for slots, signals and PODs. A list is read as it is written exactly if it fits, and a POD is not
rejected for a word in it. -/
theorem parameters_text_iff {sha : Sha1} (isLetterOrNumber : Char → Bool) (signal slot pod : RepParser sha) (l : ParameterList)
    (signalArgs : signal.value .args = l.text) (slotArgs : slot.value .args = l.text) (podTypes : pod.value .types = l.text) :
    (signal.signal = { signal with astClass.signalsList := signal.astClass.signalsList ++
      [{ name := trimmed (signal.value .name), params := l.declarations }] } ↔ l.Fits) ∧
    (slot.slot = { slot with astClass.slotsList := slot.astClass.slotsList ++
      [{ returnType := (RepParser.slotName (trimmed (slot.value .type))).1, name := (RepParser.slotName (trimmed (slot.value .type))).2,
         params := l.declarations }] } ↔ l.Fits) ∧
    (pod.pod isLetterOrNumber = .ok (if trimmed l.text = [] then pod else pod.appendPod
      { name := trimmed (pod.value .name), compilerAttribute := trimmed (pod.value .attribute),
        attributes := l.declarations.map fun arg => ⟨arg.type, arg.name⟩ }) ↔
      l.Fits ∧ ∀ word ∈ (trimmed l.text).splitOn ' ', RepParser.startsEnum isLetterOrNumber word = false) := by
  obtain ⟨types, declarations⟩ := parseArguments_readsAs l
  have read_iff : parseArguments (trimmed l.text) = l.declarations ↔ l.Fits := by
    refine ⟨fun same => types.mp ?_, declarations⟩
    rw [same, ParameterList.declarations, declarationsFrom_types]
  refine ⟨?_, ?_, ?_⟩
  · rw [← read_iff, RepParser.signal, signalArgs]
    refine ⟨fun same => ?_, fun same => by rw [same]⟩
    have lists := congrArg (fun r => r.astClass.signalsList) same
    simpa using lists
  · rw [← read_iff, RepParser.slot, slotArgs]
    refine ⟨fun same => ?_, fun same => by rw [same]⟩
    have lists := congrArg (fun r => r.astClass.slotsList) same
    simpa using lists
  · have attributes_iff : (parseArguments (trimmed l.text)).map (fun arg => PODAttribute.mk arg.type arg.name) =
        l.declarations.map (fun arg => PODAttribute.mk arg.type arg.name) ↔ l.Fits := by
      refine ⟨fun same => types.mp ?_, fun fits => by rw [read_iff.mpr fits]⟩
      have first := congrArg (List.map PODAttribute.type) same
      rw [← declarationsFrom_types 0]
      simpa [Function.comp_def, ParameterList.declarations] using first
    refine (pod_eq_iff podTypes _).trans (and_congr_left' ?_)
    rw [← attributes_iff]
    refine ⟨fun same => ?_, fun same _ => same⟩
    by_cases empty : trimmed l.text = []
    · -- only a list without parameters is blank
      obtain none : l.parameters = [] := by
        by_contra some
        obtain ⟨c, mem, visible⟩ := parameterList_visible some
        exact trimmed_ne_nil mem visible empty
      rw [empty]
      simp [ParameterList.declarations, none, declarationsFrom, parseArguments_eq, stripArgs_nil, TypeParser.finish]
    · exact same empty

end Main

section Example

/-- `const T`, a gap, `&` and a gap, `x`. -/
def referenceText (behindType behindReference : Gap) : ParameterText where
  front := []
  constant := some [.space ' ' blank_space]
  type := .single "T".toList (by decide)
  behindType := behindType
  reference := some behindReference
  name := some ("x".toList, [])
  isName := by
    rintro _ ⟨⟩
    decide

/-- `const T &x` -/
def spacedReference : ParameterList := ⟨[], [referenceText [.space ' ' blank_space] []]⟩

def withArgs (text : QString) : RepParser treeSha := { captured := [(.args, text), (.types, text)] }

theorem spaced_reference_read : (withArgs spacedReference.text).signal = { withArgs spacedReference.text with
    astClass.signalsList := (withArgs spacedReference.text).astClass.signalsList ++
      [{ name := trimmed ((withArgs spacedReference.text).value .name), params := spacedReference.declarations }] } ∧
    spacedReference.declarations = [⟨"T".toList, "x".toList, true, true⟩] := by
  have fits : spacedReference.Fits := by
    intro p mem
    obtain rfl := List.mem_singleton.mp mem
    refine ⟨⟨by decide, by decide⟩, ?_, fun _ => .inl (by decide)⟩
    rintro _ ⟨⟩
    decide
  obtain ⟨signal, -⟩ := parameters_text_iff Char.isAlphanum (withArgs spacedReference.text) (withArgs spacedReference.text)
    (withArgs spacedReference.text) spacedReference rfl rfl rfl
  exact ⟨signal.mpr fits, by decide⟩

/-- Without a space the name belongs to the type. -/
theorem run_reference_read : (ParameterList.mk [] [referenceText [] []]).text = "const T&x".toList ∧
    parseArguments "const T&x".toList = [⟨"Tx".toList, "__repc_variable_1".toList, true, true⟩] ∧
    parseArguments (trimmed (ParameterList.mk [] [referenceText [] []]).text) ≠ (ParameterList.mk [] [referenceText [] []]).declarations := by
  decide +kernel

end Example
end RemoteObjects.Repc
