import RemoteObjects.Repc.Layout
import RemoteObjects.Repc.Metadata

/-! Types and names as they usually are in C++, and what the parser of `.rep` files makes of them. -/
namespace RemoteObjects.Repc

/-- A fact of the characters of a text is decided for these, and not for all that there are. -/
instance (priority := 2000) forallMemDecidable {P : Char → Prop} [DecidablePred P] (s : QString) : Decidable (∀ c ∈ s, P c) :=
  List.decidableBAll P s

section Statement

def isIdentifier : QString → Bool
  | [] => false
  | c :: s => isNameStart c && s.all isNamePart

/-- ASCII, without brackets of functions, references, comments and ends of lines. -/
def isPlain (c : Char) : Bool := c.toNat < 128 && !(['(', ')', '&', '/', '\n', '\r'].contains c)

/-- The rest of a type in so many templates; spaces and commas are within templates. -/
def isTypeFrom : Nat → QString → Bool
  | depth, [] => depth = 0
  | depth, c :: s =>
    if c = '<' then isTypeFrom (depth + 1) s
    else if c = '>' then 0 < depth && isTypeFrom (depth - 1) s
    else isPlain c && (0 < depth || !(QChar.isSpace c || c = ',')) && isTypeFrom depth s

def isPlainType (s : QString) : Bool := s ≠ [] && s ≠ "const".toList && isTypeFrom 0 s

end Statement

section Characters
variable {c : Char} {s t : QString}

theorem toNat_of_isNamePart (part : isNamePart c = true) : 48 ≤ c.toNat ∧ c.toNat ≤ 122 := by
  simp only [isNamePart, Char.isAlphanum, isAlpha_iff, Char.isDigit, Bool.or_eq_true, decide_eq_true_eq, Bool.and_eq_true,
    beq_iff_eq, ge_iff_le, UInt32.le_iff_toNat_le] at part
  rcases part with (((⟨low, high⟩ | ⟨low, high⟩) | ⟨low, high⟩) | rfl)
  · exact ⟨Nat.le_trans (by decide) low, Nat.le_trans high (by decide)⟩
  · exact ⟨Nat.le_trans (by decide) low, high⟩
  · exact ⟨low, Nat.le_trans high (by decide)⟩
  · decide

theorem ne_of_isNamePart {d : Char} (part : isNamePart c = true) (other : isNamePart d = false) : c ≠ d := by
  rintro rfl
  rw [part] at other
  exact Bool.noConfusion other

theorem isSpace_of_isNamePart (part : isNamePart c = true) : QChar.isSpace c = false := by
  obtain ⟨low, high⟩ := toNat_of_isNamePart part
  simp only [QChar.isSpace, Char.le_def, UInt32.le_iff_toNat_le, Char.toNat_val, List.mem_cons, List.not_mem_nil, or_false,
    Bool.decide_or, Bool.or_eq_false_iff, beq_eq_false_iff_ne, ne_eq, Bool.and_eq_false_imp, decide_eq_true_eq,
    decide_eq_false_iff_not, Nat.not_le, Char.reduceVal, UInt32.reduceToNat]
  refine ⟨⟨⟨ne_of_isNamePart part (by decide), ?_⟩, ?_⟩, ?_⟩ <;> omega

theorem plain_of_part (part : isNamePart c = true) : c ∉ ['\n', '\r', '/'] := by
  intro mem
  have bad : ∀ d ∈ ['\n', '\r', '/'], isNamePart d = false := by decide
  exact Bool.noConfusion (part.symm.trans (bad c mem))

theorem isNamePart_of_isNameStart (start : isNameStart c = true) : isNamePart c = true := by
  rw [isNameStart, Bool.or_eq_true] at start
  rw [isNamePart, Char.isAlphanum, Bool.or_eq_true, Bool.or_eq_true]
  exact start.imp_left Or.inl

theorem isNamePart_of_mem (identifier : isIdentifier s = true) : ∀ c ∈ s, isNamePart c = true := by
  cases s with
  | nil => exact fun _ mem => absurd mem List.not_mem_nil
  | cons c s =>
    obtain ⟨start, parts⟩ := Bool.and_eq_true_iff.mp identifier
    exact List.forall_mem_cons.mpr ⟨isNamePart_of_isNameStart start, List.all_eq_true.mp parts⟩

theorem isPlain_of_isNamePart (part : isNamePart c = true) : isPlain c = true := by
  obtain ⟨low, high⟩ := toNat_of_isNamePart part
  rw [isPlain, Bool.and_eq_true]
  refine ⟨decide_eq_true (by omega), ?_⟩
  have other : c ∉ ['(', ')', '&', '/', '\n', '\r'] := by
    intro mem
    have bad : ∀ d ∈ ['(', ')', '&', '/', '\n', '\r'], isNamePart d = false := by decide
    exact ne_of_isNamePart part (bad c mem) rfl
  simpa using other

end Characters

section Trimmed
variable {s t : QString} {c d : Char}

theorem trimmed_eq_self (front : ∀ c t, s = c :: t → QChar.isSpace c = false) (back : ∀ t c, s = t ++ [c] → QChar.isSpace c = false) :
    trimmed s = s := by
  have first : s.dropWhile QChar.isSpace = s := by
    cases s with
    | nil => rfl
    | cons c t => exact List.dropWhile_cons_of_neg (by rw [front c t rfl]; exact Bool.false_ne_true)
  rw [trimmed, first]
  cases s using List.reverseRecOn with
  | nil => rfl
  | append_singleton t c => exact List.rdropWhile_concat_neg QChar.isSpace t c fun space => Bool.false_ne_true ((back t c rfl).symm.trans space)

theorem trimmed_cons_space (s : QString) : trimmed (' ' :: s) = trimmed s := by
  rw [trimmed, List.dropWhile_cons_of_pos (by decide), trimmed]

theorem stripArgs_eq_self (plain : ∀ c ∈ s, c ≠ '\n' ∧ c ≠ '\r' ∧ c ≠ '/') : stripArgs s = s := by
  have oneLine : lines s = [s] := by
    induction s with
    | nil => rfl
    | cons c s ih =>
      rw [List.forall_mem_cons] at plain
      rw [lines, ih plain.2]
      · rfl
      · exact plain.1.1
      · exact fun t is _ => plain.1.2.1 is
  have kept : withoutComment s = s := by
    clear oneLine
    induction s with
    | nil => rfl
    | cons c s ih =>
      rw [List.forall_mem_cons] at plain
      rw [withoutComment, ih plain.2]
      exact fun t is _ => plain.1.2.2 is
  rw [stripArgs, oneLine, List.flatMap_cons, kept, List.flatMap_nil, List.append_nil]

end Trimmed

section Types
variable {s t acc : QString} {depth : Nat}

theorem isTypeFrom_cons {c : Char} (type : isTypeFrom depth (c :: s) = true) :
    c = '<' ∧ isTypeFrom (depth + 1) s = true ∨
    c = '>' ∧ 0 < depth ∧ isTypeFrom (depth - 1) s = true ∨
    c ≠ '<' ∧ c ≠ '>' ∧ isPlain c = true ∧ (depth = 0 → QChar.isSpace c = false ∧ c ≠ ',') ∧ isTypeFrom depth s = true := by
  rw [isTypeFrom] at type
  split at type
  case isTrue is => exact .inl ⟨is, type⟩
  case isFalse less =>
    split at type
    case isTrue is =>
      obtain ⟨inside, rest⟩ := Bool.and_eq_true_iff.mp type
      exact .inr (.inl ⟨is, of_decide_eq_true inside, rest⟩)
    case isFalse greater =>
      simp only [Bool.and_eq_true, Bool.or_eq_true, decide_eq_true_eq, Bool.not_eq_true', Bool.or_eq_false_iff,
        decide_eq_false_iff_not] at type
      obtain ⟨⟨plain, inside⟩, rest⟩ := type
      exact .inr (.inr ⟨less, greater, plain, fun outside => inside.resolve_left (by omega), rest⟩)

theorem isBalanced_of_type (type : isTypeFrom depth s = true) : isBalanced isTypePart depth s = true := by
  induction s generalizing depth with
  | nil => exact type
  | cons c s ih =>
    rw [isBalanced]
    rcases isTypeFrom_cons type with ⟨rfl, rest⟩ | ⟨rfl, inside, rest⟩ | ⟨less, greater, plain, outside, rest⟩
    · exact ih rest
    · simp [inside, ih rest]
    · have other : c ≠ '/' ∧ c ≠ '&' := by
        constructor <;> rintro rfl <;> exact absurd plain (by decide)
      have part : 0 < depth ∨ isTypePart c = true := (Nat.eq_zero_or_pos depth).symm.imp_right fun zero => by
        simp [isTypePart, outside zero, other.2]
      rw [if_neg less, if_neg greater, ih rest]
      simpa [other.1] using part

theorem scanType_type (type : isTypeFrom depth s = true) (acc t : QString) :
    scanType (0 < depth) depth acc (s ++ t) = scanType false 0 (acc ++ s) t :=
  scanType_balanced (fun _ => visible_of_isTypePart) (isBalanced_of_type type) acc t

theorem isTypeFrom_mem (type : isTypeFrom depth s = true) : ∀ c ∈ s, isPlain c = true := by
  induction s generalizing depth with
  | nil => exact fun _ mem => absurd mem List.not_mem_nil
  | cons c s ih =>
    rcases isTypeFrom_cons type with ⟨is, rest⟩ | ⟨is, -, rest⟩ | ⟨-, -, plain, -, rest⟩
    · exact List.forall_mem_cons.mpr ⟨by rw [is]; decide, ih rest⟩
    · exact List.forall_mem_cons.mpr ⟨by rw [is]; decide, ih rest⟩
    · exact List.forall_mem_cons.mpr ⟨plain, ih rest⟩

theorem isPlainType_iff : isPlainType s = true ↔ s ≠ [] ∧ s ≠ "const".toList ∧ isTypeFrom 0 s = true := by
  simp only [isPlainType, Bool.and_eq_true, decide_eq_true_eq, and_assoc]

theorem isSpace_of_type {c : Char} (type : isPlainType (c :: s) = true) : QChar.isSpace c = false := by
  rcases isTypeFrom_cons (isPlainType_iff.mp type).2.2 with ⟨is, -⟩ | ⟨-, inside, -⟩ | ⟨-, -, -, outside, -⟩
  · rw [is]
    decide
  · exact absurd inside (Nat.lt_irrefl 0)
  · exact (outside rfl).1

end Types

section Entries

theorem join_cons_cons (separator s t : QString) (texts : List QString) :
    join separator (s :: t :: texts) = s ++ separator ++ join separator (t :: texts) := rfl

variable {type words : QString} {depth : Nat}

/-- Behind a type stand words that are made of letters, digits and underscores. -/
structure IsEntry (entry : QString × QString) : Prop where
  type : isPlainType entry.1 = true
  words : ∀ c ∈ entry.2, isNamePart c = true ∨ c = ' '

def entryText (entry : QString × QString) : QString := entry.1 ++ ' ' :: entry.2

/-- Of the words only the letters remain in the name of an argument. -/
def entryName (entry : QString × QString) : QString := entry.2.filter (· ≠ ' ')

theorem foldl_read_type (type_ : isTypeFrom depth type = true) (p : TypeParser) (templates : p.inTemplate = decide (0 < depth))
    (open_ : p.templateDepth = depth) (reading : p.inVariable = false) :
    type.foldl TypeParser.read p =
      { p with propertyType := p.propertyType ++ type, inTemplate := false, templateDepth := 0 } :=
  foldl_read_balanced (isBalanced_of_type type_) (fun mem => absurd (isTypeFrom_mem type_ '&' mem) (by decide)) templates open_ reading

theorem foldl_read_words (p : TypeParser) (words_ : ∀ c ∈ words, isNamePart c = true ∨ c = ' ') (outside : p.inTemplate = false)
    (behind : p.inVariable = true) (type : p.propertyType ≠ []) (other : p.propertyType ≠ "const".toList) :
    words.foldl TypeParser.read p = { p with variableName := p.variableName ++ words.filter (· ≠ ' ') } := by
  induction words generalizing p with
  | nil => simp
  | cons c words ih =>
    rw [List.forall_mem_cons] at words_
    rw [List.foldl_cons]
    rcases words_.1 with part | rfl
    · have not (d : Char) (bad : isNamePart d = false) : c ≠ d := ne_of_isNamePart part bad
      have step : p.read c = { p with variableName := p.variableName ++ [c] } := by
        rw [TypeParser.read, if_neg (not '<' (by decide)), if_neg (not '>' (by decide)),
          if_neg (by rw [isSpace_of_isNamePart part]; exact Bool.false_ne_true), if_neg (not '&' (by decide)),
          if_neg (not ',' (by decide)), if_pos behind]
      rw [step, ih { p with variableName := p.variableName ++ [c] } words_.2 outside behind type other, List.filter_cons_of_pos (by simpa using not ' ' (by decide))]
      simp
    · have step : p.read ' ' = p := by
        rw [TypeParser.read, if_neg (by decide), if_neg (by decide), if_pos (by decide), if_neg (by rw [outside]; decide),
          if_neg type, if_neg other]
        cases p
        cases behind
        rfl
      rw [step, ih p words_.2 outside behind type other, List.filter_cons_of_neg (by decide)]

theorem trimmed_name (name : ∀ c ∈ words, isNamePart c = true) : trimmed words = words :=
  trimmed_eq_self (fun c t is => isSpace_of_isNamePart (name c (by rw [is]; exact List.mem_cons_self)))
    fun t c is => isSpace_of_isNamePart (name c (by rw [is]; exact List.mem_append_right t List.mem_cons_self))

variable {entry : QString × QString} {entries : List (QString × QString)}

theorem isNamePart_of_entryName (isEntry : IsEntry entry) : ∀ c ∈ entryName entry, isNamePart c = true := by
  intro c mem
  obtain ⟨word, other⟩ := List.mem_filter.mp mem
  exact (isEntry.words c word).resolve_right (of_decide_eq_true other)

theorem foldl_read_entry (isEntry : IsEntry entry) (arguments : List ASTDeclaration) :
    (entryText entry).foldl TypeParser.read { arguments := arguments } =
      { arguments := arguments, propertyType := entry.1, variableName := entryName entry, inVariable := true } := by
  obtain ⟨nonempty, other, type⟩ := isPlainType_iff.mp isEntry.type
  rw [entryText, List.foldl_append, foldl_read_type type _ rfl rfl rfl, List.foldl_cons]
  have space : TypeParser.read { arguments := arguments, propertyType := entry.1 } ' ' =
      { arguments := arguments, propertyType := entry.1, inVariable := true } := by
    rw [TypeParser.read, if_neg (by decide), if_neg (by decide), if_pos (by decide), if_neg Bool.false_ne_true, if_neg nonempty,
      if_neg other]
  exact (congrArg (entry.2.foldl TypeParser.read) space).trans (foldl_read_words _ isEntry.words rfl rfl nonempty other)

def entryDeclaration (entry : QString × QString) : ASTDeclaration := { type := entry.1, name := entryName entry }

/-- The arguments when the text ends. -/
def TypeParser.finish (p : TypeParser) : List ASTDeclaration :=
  (if p.propertyType = [] then p else p.generateFunctionParameter).arguments

theorem finish_entries (all : ∀ entry ∈ entries, IsEntry entry) (named : ∀ entry ∈ entries, entryName entry ≠ [])
    (arguments : List ASTDeclaration) :
    ((join ", ".toList (entries.map entryText)).foldl TypeParser.read { arguments := arguments }).finish =
      arguments ++ entries.map entryDeclaration := by
  have generate (entry : QString × QString) (isEntry : IsEntry entry) (name : entryName entry ≠ [])
      (arguments : List ASTDeclaration) :
      TypeParser.generateFunctionParameter
        { arguments := arguments, propertyType := entry.1, variableName := entryName entry, inVariable := true } =
      { arguments := arguments ++ [entryDeclaration entry], propertyType := entry.1, variableName := entryName entry,
        inVariable := true } := by
    simp only [TypeParser.generateFunctionParameter, name, if_false,
      trimmed_name (isNamePart_of_entryName isEntry), entryDeclaration]
  induction entries generalizing arguments with
  | nil => exact (List.append_nil arguments).symm
  | cons entry entries ih =>
    rw [List.forall_mem_cons] at all named
    cases entries with
    | nil =>
      have nonempty := (isPlainType_iff.mp all.1.type).1
      rw [List.map_cons, List.map_nil, join, foldl_read_entry all.1, TypeParser.finish, if_neg nonempty,
        generate entry all.1 named.1]
      rfl
    | cons next entries =>
      have comma : TypeParser.read
          { arguments := arguments, propertyType := entry.1, variableName := entryName entry, inVariable := true } ',' =
          { arguments := arguments ++ [entryDeclaration entry] } := by
        rw [TypeParser.read, if_neg (by decide), if_neg (by decide), if_neg (by decide), if_neg (by decide), if_pos rfl,
          if_neg Bool.false_ne_true, generate entry all.1 named.1]
      have space : TypeParser.read { arguments := arguments ++ [entryDeclaration entry] } ' ' =
          { arguments := arguments ++ [entryDeclaration entry] } := by
        rw [TypeParser.read, if_neg (by decide), if_neg (by decide), if_pos (by decide), if_neg Bool.false_ne_true, if_pos rfl]
      rw [List.map_cons, List.map_cons, join_cons_cons, List.foldl_append, List.foldl_append, foldl_read_entry all.1]
      rw [show ", ".toList = [',', ' '] from rfl, List.foldl_cons, comma, List.foldl_cons, space, List.foldl_nil,
        ← List.map_cons]
      refine (ih all.2 named.2 _).trans ?_
      rw [List.append_assoc, List.singleton_append, ← List.map_cons]

theorem entryText_mem (isEntry : IsEntry entry) : ∀ c ∈ entryText entry, isPlain c = true := by
  intro c mem
  rcases List.mem_append.mp mem with mem | mem
  · exact isTypeFrom_mem (isPlainType_iff.mp isEntry.type).2.2 c mem
  · rcases List.mem_cons.mp mem with rfl | mem
    · decide
    · rcases isEntry.words c mem with part | rfl
      · exact isPlain_of_isNamePart part
      · decide

theorem join_mem {separator : QString} {texts : List QString} (separate : ∀ c ∈ separator, isPlain c = true)
    (all : ∀ s ∈ texts, ∀ c ∈ s, isPlain c = true) : ∀ c ∈ join separator texts, isPlain c = true := by
  induction texts with
  | nil => exact fun _ mem => absurd mem List.not_mem_nil
  | cons s texts ih =>
    rw [List.forall_mem_cons] at all
    cases texts with
    | nil => exact all.1
    | cons t texts =>
      rw [join_cons_cons]
      intro c mem
      rcases List.mem_append.mp mem with mem | mem
      · exact (List.mem_append.mp mem).elim (all.1 c) (separate c)
      · exact ih all.2 c mem

theorem stripArgs_plain {s : QString} (plain : ∀ c ∈ s, isPlain c = true) : stripArgs s = s := by
  refine stripArgs_eq_self fun c mem => ?_
  have not (d : Char) (bad : isPlain d = false) : c ≠ d := by
    rintro rfl
    rw [plain c mem] at bad
    exact Bool.noConfusion bad
  exact ⟨not _ (by decide), not _ (by decide), not _ (by decide)⟩

/-- Named arguments of plain types are read back. -/
theorem parseArguments_entries (all : ∀ entry ∈ entries, IsEntry entry) (named : ∀ entry ∈ entries, entryName entry ≠ []) :
    parseArguments (join ", ".toList (entries.map entryText)) = entries.map entryDeclaration := by
  have plain : ∀ c ∈ join ", ".toList (entries.map entryText), isPlain c = true := by
    refine join_mem (by decide) fun s mem => ?_
    obtain ⟨entry, isEntry, rfl⟩ := List.mem_map.mp mem
    exact entryText_mem (all entry isEntry)
  have finish := finish_entries all named []
  rw [parseArguments, stripArgs_plain plain]
  exact finish

end Entries

section Unnamed
variable {p : TypeParser} {s : QString}

/-- Every argument has a name, and the name that is being read has no spaces. -/
def TypeParser.Named (p : TypeParser) : Prop :=
  (∀ arg ∈ p.arguments, arg.name ≠ []) ∧ ∀ c ∈ p.variableName, QChar.isSpace c = false

theorem named_generate (named : p.Named) : ∀ arg ∈ p.generateFunctionParameter.arguments, arg.name ≠ [] := by
  intro arg mem
  rcases List.mem_append.mp mem with mem | mem
  · exact named.1 arg mem
  · cases List.mem_singleton.mp mem
    by_cases unnamed : p.variableName = []
    · simp only [unnamed]
      exact List.append_ne_nil_of_left_ne_nil (by decide) _
    · simp only [unnamed, if_false]
      obtain ⟨c, rest, name⟩ := List.exists_cons_of_ne_nil unnamed
      have first : c ∈ p.variableName := by rw [name]; exact List.mem_cons_self
      exact trimmed_ne_nil first (named.2 c first)

theorem named_read (named : p.Named) (c : Char) : (p.read c).Named := by
  rw [TypeParser.read]
  split
  · exact named
  split
  · exact named
  split
  · split
    · exact named
    split
    · exact named
    split
    · exact named
    · exact named
  case isFalse visible =>
    split
    · exact named
    split
    · split
      · exact named
      · exact ⟨named_generate named, fun _ mem => absurd mem List.not_mem_nil⟩
    split
    · refine ⟨named.1, fun d mem => ?_⟩
      rcases List.mem_append.mp mem with mem | mem
      · exact named.2 d mem
      · rw [List.mem_singleton.mp mem]
        exact Bool.eq_false_iff.mpr visible
    · exact named

/-- There are no arguments without names. -/
theorem name_of_mem_parseArguments (s : QString) : ∀ arg ∈ parseArguments s, arg.name ≠ [] := by
  have all (s : QString) (p : TypeParser) (named : p.Named) : (s.foldl TypeParser.read p).Named := by
    induction s generalizing p with
    | nil => exact named
    | cons c s ih => exact ih _ (named_read named c)
  have named := all (stripArgs s) {} ⟨fun _ mem => absurd mem List.not_mem_nil, fun _ mem => absurd mem List.not_mem_nil⟩
  rw [parseArguments]
  split
  · exact named.1
  · exact named_generate named

end Unnamed

section Properties
variable {type name : QString}

theorem entry_ends (isType : isPlainType type = true) {words : QString} (nonempty : words ≠ [])
    (last : ∀ s c, words = s ++ [c] → QChar.isSpace c = false) : trimmed (type ++ ' ' :: words) = type ++ ' ' :: words := by
  have typed := (isPlainType_iff.mp isType).1
  refine trimmed_eq_self (fun c t is => ?_) fun t c is => ?_
  · cases type with
    | nil => exact absurd rfl typed
    | cons d type =>
      cases is
      exact isSpace_of_type isType
  · cases words using List.reverseRecOn with
    | nil => exact absurd rfl nonempty
    | append_singleton s d =>
      rw [← List.cons_append, ← List.append_assoc] at is
      obtain ⟨-, same⟩ := List.append_inj' is rfl
      cases same
      exact last s c rfl

theorem scanType_entry (isType : isPlainType type = true) {words : QString} (nonempty : words ≠ [])
    (last : ∀ s c, words = s ++ [c] → QChar.isSpace c = false) (plain : ∀ c ∈ words, isPlain c = true) :
    scanType false 0 [] (trimmed (stripArgs (type ++ ' ' :: words))) = some (type, ' ' :: words) := by
  have typed := (isPlainType_iff.mp isType).2.2
  have all : ∀ c ∈ type ++ ' ' :: words, isPlain c = true := by
    intro c mem
    rcases List.mem_append.mp mem with mem | mem
    · exact isTypeFrom_mem typed c mem
    · exact (List.mem_cons.mp mem).elim (fun is => by rw [is]; decide) (plain c)
  rw [stripArgs_plain all, entry_ends isType nonempty last]
  exact scanType_type typed [] (' ' :: words)

theorem last_of_identifier (identifier : isIdentifier name = true) : ∀ s c, name = s ++ [c] → QChar.isSpace c = false := by
  intro s c is
  exact isSpace_of_isNamePart (isNamePart_of_mem identifier c (by rw [is]; exact List.mem_append_right s List.mem_cons_self))

theorem identifier_ne_nil (identifier : isIdentifier name = true) : name ≠ [] := by
  rintro rfl
  exact Bool.noConfusion identifier

theorem isSpace_of_part {c : Char} (part : isNamePart c = true) : isSpace c = false := by
  have not : ∀ d ∈ [' ', '\t', '\n', '\r', '\x0b', '\x0c'], isNamePart d = false := by decide
  exact decide_eq_false fun mem => ne_of_isNamePart part (not c mem) rfl

theorem beforeSpace_name {rest : QString} (identifier : isIdentifier name = true) : beforeSpace (name ++ ' ' :: rest) = name := by
  rw [beforeSpace, List.takeWhile_append_of_pos, List.takeWhile_cons_of_neg (by decide), List.append_nil]
  exact fun c mem => by rw [isSpace_of_part (isNamePart_of_mem identifier c mem)]; rfl

theorem behindSpace_name {rest : QString} (identifier : isIdentifier name = true) :
    behindSpace (name ++ ' ' :: rest) = some rest := by
  rw [behindSpace, List.dropWhile_append_of_pos, List.dropWhile_cons_of_neg (by decide), List.tail?_cons]
  exact fun c mem => by rw [isSpace_of_part (isNamePart_of_mem identifier c mem)]; rfl

theorem behindSpace_none (identifier : isIdentifier name = true) : behindSpace name = none := by
  have all : ∀ c ∈ name, (!isSpace c) = true := fun c mem => by rw [isSpace_of_part (isNamePart_of_mem identifier c mem)]; rfl
  rw [behindSpace, List.dropWhile_eq_nil_iff.mpr all]
  rfl

theorem equals_not_mem (identifier : isIdentifier name = true) : '=' ∉ name := fun mem =>
  ne_of_isNamePart (isNamePart_of_mem identifier '=' mem) (by decide : isNamePart '=' = false) rfl

theorem parseProperty_plain (isType : isPlainType type = true) (identifier : isIdentifier name = true) :
    parseProperty (type ++ ' ' :: name) = .ok { type := type, name := name } := by
  have parts := isNamePart_of_mem identifier
  have scan := scanType_entry isType (identifier_ne_nil identifier) (last_of_identifier identifier)
    fun c mem => isPlain_of_isNamePart (parts c mem)
  simp only [parseProperty, scan, trimmed_cons_space, trimmed_name parts, equals_not_mem identifier, if_false, propertyFlags,
    behindSpace_none identifier]
  rfl

theorem parseProperty_constant (isType : isPlainType type = true) (identifier : isIdentifier name = true) :
    parseProperty (type ++ ' ' :: (name ++ " CONSTANT".toList)) = .ok { type := type, name := name, modifier := .constant } := by
  have parts := isNamePart_of_mem identifier
  have keyword : " CONSTANT".toList = ' ' :: "CONSTANT".toList := rfl
  have last : ∀ s c, name ++ " CONSTANT".toList = s ++ [c] → QChar.isSpace c = false := by
    intro s c is
    have same := congrArg List.getLast? is
    rw [List.getLast?_append, List.getLast?_concat] at same
    cases same
    decide
  have scan := scanType_entry isType (List.append_ne_nil_of_left_ne_nil (identifier_ne_nil identifier) _) last fun c mem =>
    (List.mem_append.mp mem).elim (fun mem => isPlain_of_isNamePart (parts c mem)) ((by decide :
      ∀ c ∈ " CONSTANT".toList, isPlain c = true) c)
  have ends : trimmed (name ++ " CONSTANT".toList) = name ++ " CONSTANT".toList := by
    refine trimmed_eq_self (fun c t is => ?_) last
    cases name with
    | nil => exact absurd rfl (identifier_ne_nil identifier)
    | cons d rest =>
      cases is
      exact isSpace_of_isNamePart (parts c List.mem_cons_self)
  have equals : '=' ∉ name ++ " CONSTANT".toList := by
    rw [List.mem_append]
    exact fun mem => mem.elim (equals_not_mem identifier) (by decide)
  have flag : parseModifierFlag (trimmed "CONSTANT".toList) .readPush = .ok (.constant, false) := by decide +kernel
  simp only [parseProperty, scan, trimmed_cons_space, ends, equals, if_false, propertyFlags]
  rw [keyword, behindSpace_name identifier, beforeSpace_name identifier, trimmed_name parts]
  simp only [flag]
  rfl

end Properties

end RemoteObjects.Repc
