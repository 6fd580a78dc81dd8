import RemoteObjects.Repc.Comments
import RemoteObjects.Repc.GeneratedTokens
import RemoteObjects.Text

/-! The two routes from a class that moc describes to what a replica is generated from: through a `.rep`
text, and without one. -/
namespace RemoteObjects.Repc
open Patterns

section Statement

/-- The same classes and PODs, with the same members. -/
def AST.Same {sha : Sha1} (ast ast' : AST sha) : Prop :=
  (ast.pods.map fun pod => (pod.name, pod.attributes)) = (ast'.pods.map fun pod => (pod.name, pod.attributes)) ∧
    (ast.classes.map fun cls => (cls.name, cls.properties.map fun prop => (prop.type, prop.name, prop.modifier),
      cls.signalsList, cls.slotsList)) =
    ast'.classes.map fun cls => (cls.name, cls.properties.map fun prop => (prop.type, prop.name, prop.modifier),
      cls.signalsList, cls.slotsList)

def RoutesAgree (qt : Core) (cls : MocClass) (alwaysGenerateClass : Bool) : Prop :=
  ∃ ast, parse qt (generateClass cls alwaysGenerateClass) = .ok ast ∧ ast.Same (classList2AST qt.toSha1 [cls])

/-- The type of what a function returns; it may have spaces. -/
def isPlainReturn : QString → Bool
  | [] => false
  | c :: s => !QChar.isSpace c && (c :: s).all isPlain

structure MocFunction.Plain (func : MocFunction) : Prop where
  name : isIdentifier func.name = true
  returnType : isPlainReturn func.returnType = true
  types : ∀ arg ∈ func.arguments, isPlainType arg.type = true
  names : ∀ arg ∈ func.arguments, ∀ name, arg.name = some name → isIdentifier name = true

/-- Names are identifiers, types are as they usually are, and a line is not longer than what a token may be. -/
structure MocClass.Plain (cls : MocClass) (alwaysGenerateClass : Bool) : Prop where
  className : isIdentifier cls.className = true
  types : ∀ prop ∈ cls.properties, isPlainType prop.type = true
  names : ∀ prop ∈ cls.properties, isIdentifier prop.name = true
  signals : ∀ func ∈ cls.signals, func.Plain
  slots : ∀ func ∈ cls.slots, func.Plain
  lines : ∀ line ∈ lines (generateClass cls alwaysGenerateClass), line.length < maxMatchLen

/-- A word of the member is taken for an enum. -/
def MocProperty.namesEnum (prop : MocProperty) : Bool :=
  ((prop.type ++ ' ' :: prop.name).splitOn ' ').any (RepParser.startsEnum Char.isAlphanum)

/-- Without signals and slots it is a POD, with members that are no constants. -/
structure PodAgrees (cls : MocClass) : Prop where
  members : cls.properties ≠ []
  nonconstant : ∀ prop ∈ cls.properties, prop.constant = false
  types : ∀ prop ∈ cls.properties, prop.namesEnum = false

/-- With them it is a class: no signal is kept, every property that is kept is constant, and so is one
unless there are none, and the arguments of the slots that are kept have names. -/
structure ClassAgrees (cls : MocClass) (alwaysGenerateClass : Bool) : Prop where
  object : cls.gadget = false ∧ alwaysGenerateClass = false
  signals : cls.signals = [] ∨ cls.properties ≠ [] ∧ ∀ func ∈ cls.signals, cls.notifies func = true ∨ func.notPublic = true
  constant : ∀ prop ∈ cls.properties, prop.notify = none ∨ prop.constant = true
  properties : cls.properties = [] ∨ ∃ prop ∈ cls.properties, prop.constant = true
  slots : ∀ func ∈ cls.slots, (cls.properties = [] → func.notPublic = false) → ∀ arg ∈ func.arguments, arg.name.isSome = true

/-- What the routes need to agree; a name of one letter is not taken for that of a class. -/
def KeysAgree (cls : MocClass) (alwaysGenerateClass : Bool) : Prop :=
  2 ≤ cls.className.length ∧ if cls.silent then PodAgrees cls else ClassAgrees cls alwaysGenerateClass

end Statement

section Texts
variable {s : QString}

theorem getBytes_ascii (ascii : ∀ c ∈ s, c.toNat < 128) : getBytes s = s := by
  induction s with
  | nil => rfl
  | cons c s ih =>
    rw [List.forall_mem_cons] at ascii
    have one : latin1 c = [c.toNat.toUInt8] := if_pos (Nat.lt_trans ascii.1 (by decide))
    have same : Char.ofNat c.toNat.toUInt8.toNat = c := by
      rw [show c.toNat.toUInt8.toNat = c.toNat from Nat.mod_eq_of_lt (Nat.lt_trans ascii.1 (by decide)), Char.ofNat_toNat]
    rw [getBytes, toLatin1, List.flatMap_cons, one, List.singleton_append, List.map_cons, same]
    exact congrArg (c :: ·) (ih ascii.2)

theorem ascii_of_isPlain (plain : ∀ c ∈ s, isPlain c = true) : ∀ c ∈ s, c.toNat < 128 := fun c mem =>
  of_decide_eq_true (Bool.and_eq_true_iff.mp (plain c mem)).1

theorem isPlain_of_identifier (identifier : isIdentifier s = true) : ∀ c ∈ s, isPlain c = true := fun c mem =>
  isPlain_of_isNamePart (isNamePart_of_mem identifier c mem)

theorem isPlain_of_type (type : isPlainType s = true) : ∀ c ∈ s, isPlain c = true :=
  isTypeFrom_mem (isPlainType_iff.mp type).2.2

theorem isPlain_of_return (type : isPlainReturn s = true) : ∀ c ∈ s, isPlain c = true := by
  cases s with
  | nil => exact fun _ mem => absurd mem List.not_mem_nil
  | cons c s => exact List.all_eq_true.mp (Bool.and_eq_true_iff.mp type).2

theorem getBytes_plain (plain : ∀ c ∈ s, isPlain c = true) : getBytes s = s :=
  getBytes_ascii (ascii_of_isPlain plain)

/-- The name of a property as it is written, with its flag. -/
def MocProperty.words (prop : MocProperty) : QString := prop.name ++ if prop.constant then " CONSTANT".toList else []

def MocProperty.entry (prop : MocProperty) : QString × QString := (prop.type, prop.words)

def MocArgument.entry (arg : MocArgument) : QString × QString := (arg.type, arg.name.getD [])

theorem generateProperty_plain {prop : MocProperty} (type : isPlainType prop.type = true) (name : isIdentifier prop.name = true) :
    generateProperty prop = entryText prop.entry := by
  rw [generateProperty, containsKey_read_dot, Bool.and_false, if_neg Bool.false_ne_true, List.append_nil,
    getBytes_plain (isPlain_of_type type), getBytes_plain (isPlain_of_identifier name), entryText, MocProperty.entry,
    MocProperty.words]
  simp only [List.append_assoc, List.cons_append, List.nil_append]

theorem generateArgument_plain {arg : MocArgument} (type : isPlainType arg.type = true)
    (name : ∀ name, arg.name = some name → isIdentifier name = true) : generateArgument arg = entryText arg.entry := by
  have plain : ∀ c ∈ arg.name.getD [], isPlain c = true := by
    cases is : arg.name with
    | none => exact fun _ mem => absurd mem List.not_mem_nil
    | some s => exact isPlain_of_identifier (name s is)
  rw [generateArgument, getBytes_plain (isPlain_of_type type), getBytes_plain plain, List.append_assoc]
  rfl

/-- The commas are those between the arguments. -/
theorem generateArguments_eq (arguments : List MocArgument) :
    generateArguments arguments = join ", ".toList (arguments.map generateArgument) := by
  have commas (arg : MocArgument) (arguments : List MocArgument) :
      ((arg :: arguments).flatMap fun arg => generateArgument arg ++ ", ".toList) =
        join ", ".toList ((arg :: arguments).map generateArgument) ++ [','] ++ [' '] := by
    induction arguments generalizing arg with
    | nil =>
      rw [List.flatMap_cons, List.flatMap_nil, List.append_nil, List.append_assoc]
      rfl
    | cons next arguments ih =>
      rw [List.flatMap_cons, ih, List.map_cons, List.map_cons, List.map_cons, join_cons_cons]
      simp only [List.append_assoc]
  cases arguments with
  | nil => rfl
  | cons arg arguments => rw [generateArguments, commas, List.dropLast_concat, List.dropLast_concat]

/-- What is written between the brackets of a function. -/
def MocFunction.argumentText (func : MocFunction) : QString :=
  join ", ".toList (func.arguments.map fun arg => entryText arg.entry)

def functionLine (type : String) (func : MocFunction) : QString :=
  type.toList ++ '(' :: (func.returnType ++ ' ' :: (func.name ++ '(' :: (func.argumentText ++ "));".toList)))

def propertyLine (s : QString) : QString := "    PROP(".toList ++ (s ++ ");".toList)

def ended (texts : List QString) : QString := texts.flatMap (· ++ ['\n'])

theorem ended_append (texts others : List QString) : ended (texts ++ others) = ended texts ++ ended others :=
  List.flatMap_append

theorem isEntry_argument {func : MocFunction} (plain : func.Plain) : ∀ arg ∈ func.arguments, IsEntry arg.entry := by
  refine fun arg mem => ⟨plain.types arg mem, fun c part => .inl ?_⟩
  cases is : arg.name with
  | none =>
    rw [MocArgument.entry, is] at part
    exact absurd part List.not_mem_nil
  | some name =>
    rw [MocArgument.entry, is] at part
    exact isNamePart_of_mem (plain.names arg mem name is) c part

theorem generateFunction_plain {func : MocFunction} (type : String) (plain : func.Plain) :
    generateFunction type func = functionLine type func ++ ['\n'] := by
  have texts : func.arguments.map generateArgument = func.arguments.map fun arg => entryText arg.entry :=
    List.map_congr_left fun arg mem => generateArgument_plain (plain.types arg mem) (plain.names arg mem)
  rw [generateFunction, generateArguments_eq, texts, getBytes_plain (isPlain_of_return plain.returnType),
    getBytes_plain (isPlain_of_identifier plain.name), functionLine, MocFunction.argumentText,
    show "));\n".toList = "));".toList ++ ['\n'] from rfl]
  simp only [List.append_assoc, List.cons_append, List.nil_append]

theorem generateFunctions_plain {functions : List MocFunction} (type : String) (plain : ∀ func ∈ functions, func.Plain) :
    generateFunctions type functions = ended (functions.map (functionLine type)) := by
  rw [generateFunctions, ended, List.flatMap_map]
  exact List.flatMap_congr fun func mem => generateFunction_plain type (plain func mem)

/-- A separator that ends a line and begins the next one. -/
theorem join_lines (front back : QString) {texts : List QString} (nonempty : texts ≠ []) :
    front ++ join (back ++ '\n' :: front) texts ++ (back ++ ['\n']) = ended (texts.map fun s => front ++ (s ++ back)) := by
  induction texts with
  | nil => exact absurd rfl nonempty
  | cons s texts ih =>
    cases texts with
    | nil =>
      rw [join, List.map_cons, List.map_nil, ended, List.flatMap_cons, List.flatMap_nil]
      simp only [List.append_assoc, List.append_nil]
    | cons t texts =>
      rw [join_cons_cons, List.map_cons, ended, List.flatMap_cons, ← ended, ← ih (List.cons_ne_nil t texts)]
      simp only [List.append_assoc, List.cons_append, List.nil_append]

theorem join_properties {texts : List QString} (nonempty : texts ≠ []) :
    "    PROP(".toList ++ join ");\n    PROP(".toList texts ++ ");\n".toList = ended (texts.map propertyLine) :=
  join_lines "    PROP(".toList ");".toList nonempty

/-- Without a property that is kept there is still a line. -/
def propertyLines (cls : MocClass) : List QString :=
  if cls.properties = [] then []
  else if Moc.generateProperties cls.properties false = [] then [propertyLine []]
  else (Moc.generateProperties cls.properties false).map propertyLine

def MocClass.isPod (cls : MocClass) (alwaysGenerateClass : Bool) : Bool := cls.gadget || alwaysGenerateClass || cls.silent

def classLines (cls : MocClass) : List QString :=
  ["class ".toList ++ cls.className, "\x7b".toList] ++ propertyLines cls ++ (cleanedSlotList cls).map (functionLine "    SLOT") ++
    (cleanedSignalList cls).map (functionLine "    SIGNAL") ++ ["\x7d".toList]

end Texts

section Kept
variable {cls : MocClass} {func : MocFunction}

theorem mem_cleanedSlotList : func ∈ cleanedSlotList cls ↔ func ∈ cls.slots ∧ (cls.properties = [] → func.notPublic = false) := by
  rw [cleanedSlotList]
  by_cases none : cls.properties = []
  · have writes : cls.writes func = false := by
      rw [MocClass.writes, none]
      rfl
    rw [if_neg (not_not_intro none), List.mem_filter, writes]
    simp only [Bool.not_false, Bool.true_and, Bool.not_eq_true', none, true_imp_iff]
  · rw [if_pos none]
    exact (and_iff_left fun h => absurd h none).symm

theorem cleanedSignalList_eq_nil : cleanedSignalList cls = [] ↔
    cls.signals = [] ∨ cls.properties ≠ [] ∧ ∀ func ∈ cls.signals, cls.notifies func = true ∨ func.notPublic = true := by
  rw [cleanedSignalList]
  by_cases none : cls.properties = []
  · rw [if_pos none]
    exact ⟨.inl, fun h => h.resolve_right fun other => other.1 none⟩
  · rw [if_neg none, List.filter_eq_nil_iff]
    have dropped (func : MocFunction) : ¬ (!cls.notifies func && !func.notPublic) = true ↔
        cls.notifies func = true ∨ func.notPublic = true := by
      cases cls.notifies func <;> cases func.notPublic <;> decide
    simp only [dropped]
    constructor
    · exact fun all => .inr ⟨none, all⟩
    · rintro (empty | ⟨-, all⟩)
      · rw [empty]
        exact fun _ mem => absurd mem List.not_mem_nil
      · exact all

theorem mem_cleanedSignalList (mem : func ∈ cleanedSignalList cls) : func ∈ cls.signals := by
  rw [cleanedSignalList] at mem
  split at mem
  · exact mem
  · exact List.mem_of_mem_filter mem

theorem generateProperties_eq_nil : Moc.generateProperties cls.properties false = [] ↔ ∀ prop ∈ cls.properties, prop.skipped = true := by
  rw [Moc.generateProperties, List.map_eq_nil_iff, List.filter_eq_nil_iff]
  exact forall₂_congr fun prop _ => by cases prop.skipped <;> decide

/-- The text of a class is made of lines. -/
theorem generateClass_lines {alwaysGenerateClass : Bool} (plain : cls.Plain alwaysGenerateClass)
    (class_ : cls.isPod alwaysGenerateClass = false) : generateClass cls alwaysGenerateClass = ended (classLines cls) := by
  have properties : (if cls.properties = [] then []
      else "    PROP(".toList ++ join ");\n    PROP(".toList (Moc.generateProperties cls.properties false) ++ ");\n".toList) =
      ended (propertyLines cls) := by
    rw [propertyLines]
    split
    · rfl
    · split
      case isTrue none =>
        rw [none]
        rfl
      case isFalse some => exact join_properties some
  rw [generateClass, if_neg (by rw [← MocClass.isPod, class_]; exact Bool.false_ne_true), properties,
    generateFunctions_plain _ fun func mem => plain.slots func (mem_cleanedSlotList.mp mem).1,
    generateFunctions_plain _ fun func mem => plain.signals func (mem_cleanedSignalList mem),
    getBytes_plain (isPlain_of_identifier plain.className), classLines, ended_append, ended_append, ended_append, ended_append]
  simp only [ended, List.flatMap_cons, List.flatMap_nil, List.append_assoc]
  rfl

end Kept

section Reading
variable {qt : Core} {s u v : State qt} {text text' rest line : QString} {t : Token} {ast : AST qt.toSha1}

/-- A run over the tokens of a text, whatever stands behind it. -/
def State.Reads (s : State qt) (text : QString) (u : State qt) : Prop :=
  ∀ rest, ∃ ts, (scanned (text ++ rest)).1 = ts ++ (scanned rest).1 ∧ (scanned (text ++ rest)).2 = (scanned rest).2 ∧ s.run ts = .ok u

theorem reads_nil (s : State qt) : s.Reads [] s := fun _ => ⟨[], rfl, rfl, rfl⟩

theorem reads_append (first : s.Reads text v) (second : v.Reads text' u) : s.Reads (text ++ text') u := by
  intro rest
  obtain ⟨ts, tokens, all, run⟩ := first (text' ++ rest)
  obtain ⟨ts', tokens', all', run'⟩ := second rest
  rw [List.append_assoc]
  exact ⟨ts ++ ts', by rw [tokens, tokens', List.append_assoc], all.trans all', run_append.mpr ⟨v, run, run'⟩⟩

theorem parse_of_reads (reads : ({} : State qt).Reads text u) (done : u.mode = .global true) : parse qt text = .ok u.parser.ast := by
  obtain ⟨ts, tokens, all, run⟩ := reads []
  rw [List.append_nil] at tokens all
  refine parse_ok_iff.mpr ⟨u, ?_, all, done, rfl⟩
  rw [tokens, show (scanned []).1 = [] from rfl, List.append_nil]
  exact run

/-- A token that cannot come next. -/
theorem not_accepted {ts : List Token} (reads : ({} : State qt).Reads text v) (next : (scanned rest).1 = t :: ts)
    (stuck : v.mode.next t.terminal = none) : parse qt (text ++ rest) ≠ .ok ast := by
  intro accepted
  obtain ⟨last, run, -⟩ := parse_ok_iff.mp accepted
  obtain ⟨front, tokens, -, before⟩ := reads rest
  rw [tokens, next] at run
  obtain ⟨w, before', behind⟩ := run_append.mp run
  cases before.symm.trans before'
  obtain ⟨u, step, -⟩ := run_cons.mp behind
  rw [(step_ok_iff.mp step).2] at stuck
  cases stuck

/-- A line of one token. -/
theorem reads_line (ascii : ∀ c ∈ line, c.toNat < 128) (fits : line.length < maxMatchLen)
    (found : ∀ w, longest (line ++ '\n' :: w) = some (t.terminal, ⟨'\n' :: w, t.captures⟩)) (step : s.step t = .ok v)
    (newline : v.step ⟨.newline, []⟩ = .ok u) : s.Reads (line ++ ['\n']) u := by
  intro rest
  have ascii' : ∀ c ∈ line ++ ['\n'], c.toNat < 128 := fun c mem =>
    (List.mem_append.mp mem).elim (ascii c) fun mem => by rw [List.mem_singleton.mp mem]; decide
  have fits' : (line ++ ['\n']).length ≤ maxMatchLen := by
    rw [List.length_append]
    exact fits
  obtain ⟨tokens, all⟩ := scanned_line ascii' fits' (fun w => by rw [List.append_assoc]; exact found w) rest
  have none (w : QString) : longest (['\n'] ++ [] ++ w) = some (.newline, ⟨[] ++ w, []⟩) := longest_newline w
  obtain ⟨tokens', all'⟩ := scanned_line (by decide) (by decide) none rest
  refine ⟨[t, ⟨.newline, []⟩], ?_, all.trans all', run_cons.mpr ⟨v, step, run_cons.mpr ⟨u, newline, run_nil.mpr rfl⟩⟩⟩
  rw [tokens, show ['\n'] ++ rest = ['\n'] ++ [] ++ rest from rfl, tokens']
  rfl

theorem step_newline (place : v.mode = .cls false ∨ v.mode = .global true ∨ ∃ body, v.mode = .header body) :
    v.step ⟨.newline, []⟩ = .ok v := by
  refine step_ok_iff.mpr ?_
  rcases place with mode | mode | ⟨body, mode⟩
  · rw [mode]
    exact ⟨rfl, rfl⟩
  · rw [mode]
    exact ⟨rfl, rfl⟩
  · rw [mode]
    exact ⟨rfl, rfl⟩

/-- A keyword that begins nothing is a symbol, and those stand in enums and PODs only. -/
theorem stuck_line {front back whole : QString} {captures : Captures} (ascii : ∀ c ∈ front ++ back, c.toNat < 128)
    (fits : (front ++ back).length ≤ maxMatchLen)
    (found : ∀ w, longest (front ++ back ++ w) = some (.symbol, ⟨back ++ w, captures⟩))
    (reads : ({} : State qt).Reads text v) (place : v.mode = .cls false ∨ v.mode = .global false)
    (is : whole = text ++ (front ++ back ++ rest)) : parse qt whole ≠ .ok ast := by
  rw [is]
  refine not_accepted reads (scanned_line ascii fits found rest).1 ?_
  rcases place with mode | mode
  · rw [mode]
    rfl
  · rw [mode]
    rfl

end Reading

section Lines
variable {texts : List QString} {line s : QString}

theorem lines_line (plain : ∀ c ∈ line, c ≠ '\n' ∧ c ≠ '\r') : lines (line ++ '\n' :: s) = line :: lines s := by
  induction line with
  | nil => rfl
  | cons c line ih =>
    rw [List.forall_mem_cons] at plain
    rw [List.cons_append, lines, ih plain.2]
    · rfl
    · exact plain.1.1
    · exact fun t is _ => plain.1.2 is

theorem lines_ended (plain : ∀ line ∈ texts, ∀ c ∈ line, c ≠ '\n' ∧ c ≠ '\r') : lines (ended texts) = texts ++ [[]] := by
  induction texts with
  | nil => rfl
  | cons line texts ih =>
    rw [List.forall_mem_cons] at plain
    rw [ended, List.flatMap_cons, ← ended, List.append_assoc, List.singleton_append, lines_line plain.1, ih plain.2,
      List.cons_append]

end Lines

section Members
variable {qt : Core} {prop : MocProperty} {func : MocFunction} {c : ASTClass} {s : State qt}

/-- Within the braces of the first class. -/
structure Within (c : ASTClass) (s : State qt) : Prop where
  mode : s.mode = .cls false
  astClass : s.parser.astClass = c
  ast : s.parser.ast = {}

/-- What the parser makes of a property. -/
def MocProperty.readBack (prop : MocProperty) : ASTProperty :=
  { type := prop.type, name := prop.name, modifier := if prop.constant then .constant else .readPush }

/-- What the parser makes of a slot. -/
def MocFunction.readBack (func : MocFunction) : ASTFunction :=
  { returnType := func.returnType, name := func.name, params := parseArguments (trimmed func.argumentText) }

theorem not_mem_of_plain {t : QString} (plain : ∀ c ∈ t, isPlain c = true) {d : Char} (bad : isPlain d = false) : d ∉ t := by
  intro mem
  rw [plain d mem] at bad
  cases bad

theorem isEntry_property (type : isPlainType prop.type = true) (name : isIdentifier prop.name = true) : IsEntry prop.entry := by
  refine ⟨type, fun c mem => ?_⟩
  rcases List.mem_append.mp mem with mem | mem
  · exact .inl (isNamePart_of_mem name c mem)
  · cases is : prop.constant with
    | false =>
      rw [is] at mem
      exact absurd mem List.not_mem_nil
    | true =>
      rw [is] at mem
      exact (by decide : ∀ c ∈ " CONSTANT".toList, isNamePart c = true ∨ c = ' ') c mem

theorem parseProperty_entry (type : isPlainType prop.type = true) (name : isIdentifier prop.name = true) :
    parseProperty (entryText prop.entry) = .ok prop.readBack := by
  rw [entryText, MocProperty.entry, MocProperty.words, MocProperty.readBack]
  cases prop.constant with
  | false =>
    have words : (prop.name ++ if false = true then " CONSTANT".toList else []) = prop.name := List.append_nil _
    rw [words]
    exact parseProperty_plain type name
  | true => exact parseProperty_constant type name

theorem entryText_ne_nil (entry : QString × QString) : entryText entry ≠ [] :=
  List.append_ne_nil_of_right_ne_nil _ (List.cons_ne_nil _ _)

theorem wrapped_line (front body back w : QString) : front ++ (body ++ back) ++ '\n' :: w = front ++ (body ++ (back ++ '\n' :: w)) := by
  simp only [List.append_assoc]

theorem longest_propertyLine {body : QString} (plain : ∀ c ∈ body, isPlain c = true) (nonempty : body ≠ []) (w : QString) :
    longest (propertyLine body ++ '\n' :: w) = some (.prop, ⟨'\n' :: w, [(.args, body)]⟩) := by
  have ending : ");".toList ++ '\n' :: w = ");\n".toList ++ w := rfl
  have whole : propertyLine body ++ '\n' :: w = "    PROP(".toList ++ (body ++ (");\n".toList ++ w)) :=
    (wrapped_line "    PROP(".toList body ");".toList w).trans (congrArg (fun s => "    PROP(".toList ++ (body ++ s)) ending)
  have closed : ')' ∉ body := not_mem_of_plain plain (by decide)
  exact (congrArg longest whole).trans (longest_prop nonempty closed w)

theorem reads_property (within : Within c s) (type : isPlainType prop.type = true) (name : isIdentifier prop.name = true)
    (fits : (propertyLine (generateProperty prop)).length < maxMatchLen) :
    ∃ u, s.Reads (propertyLine (generateProperty prop) ++ ['\n']) u ∧
      Within { c with properties := c.properties ++ [prop.readBack] } u := by
  have plain := entryText_mem (isEntry_property type name)
  rw [generateProperty_plain type name] at fits ⊢
  have ascii : ∀ c ∈ propertyLine (entryText prop.entry), c.toNat < 128 :=
    List.forall_mem_append.mpr ⟨by decide, List.forall_mem_append.mpr ⟨ascii_of_isPlain plain, by decide⟩⟩
  let p := s.parser.scan ⟨.prop, [(.args, entryText prop.entry)]⟩
  let u : State qt := ⟨.cls false, { p with
    astClass.properties := p.astClass.properties ++ [prop.readBack]
    astClass.hasPersisted := p.astClass.hasPersisted || false }⟩
  have step : s.step ⟨.prop, [(.args, entryText prop.entry)]⟩ = .ok u := by
    refine step_ok_iff.mpr ⟨?_, by rw [within.mode]; rfl⟩
    have read : parseProperty (p.value .args) = .ok prop.readBack := parseProperty_entry type name
    rw [within.mode]
    change p.prop = _
    rw [RepParser.prop, read]
    rfl
  refine ⟨u, reads_line ascii fits (longest_propertyLine plain (entryText_ne_nil _)) step (step_newline (.inl rfl)), rfl, ?_, within.ast⟩
  rw [← within.astClass]
  simp only [u, p, RepParser.scan, Bool.or_false]
  rfl

theorem reads_properties {props : List MocProperty} (within : Within c s) (types : ∀ prop ∈ props, isPlainType prop.type = true)
    (names : ∀ prop ∈ props, isIdentifier prop.name = true)
    (fits : ∀ prop ∈ props, (propertyLine (generateProperty prop)).length < maxMatchLen) :
    ∃ u, s.Reads (ended (props.map fun prop => propertyLine (generateProperty prop))) u ∧
      Within { c with properties := c.properties ++ props.map MocProperty.readBack } u := by
  induction props generalizing c s with
  | nil => exact ⟨s, reads_nil s, by rw [List.map_nil, List.append_nil]; exact within⟩
  | cons prop props ih =>
    rw [List.forall_mem_cons] at types names fits
    obtain ⟨v, first, within'⟩ := reads_property within types.1 names.1 fits.1
    obtain ⟨u, others, within''⟩ := ih within' types.2 names.2 fits.2
    refine ⟨u, reads_append first others, ?_⟩
    rw [List.map_cons, List.append_cons]
    exact within''

/-- The type and the name of a slot. -/
def MocFunction.head (func : MocFunction) : QString := func.returnType ++ ' ' :: func.name

theorem function_text (front type name args back w : QString) :
    front ++ '(' :: (type ++ ' ' :: (name ++ '(' :: (args ++ back))) ++ '\n' :: w =
      front ++ '(' :: (type ++ ' ' :: (name ++ '(' :: (args ++ (back ++ '\n' :: w)))) := by
  simp only [List.append_assoc, List.cons_append]

theorem argumentText_plain (plain : func.Plain) : ∀ c ∈ func.argumentText, isPlain c = true := by
  refine join_mem (by decide) fun s mem => ?_
  obtain ⟨arg, inside, rfl⟩ := List.mem_map.mp mem
  exact entryText_mem (isEntry_argument plain arg inside)

theorem head_plain (plain : func.Plain) : ∀ c ∈ func.head, isPlain c = true :=
  List.forall_mem_append.mpr ⟨isPlain_of_return plain.returnType,
    List.forall_mem_cons.mpr ⟨by decide, isPlain_of_identifier plain.name⟩⟩

theorem functionLine_forall {holds : Char → Prop} (plain : func.Plain) {type : String} (inside : ∀ c, isPlain c = true → holds c)
    (keyword : ∀ c ∈ type.toList, holds c) (bracket : holds '(') (ending : ∀ c ∈ "));".toList, holds c) :
    ∀ c ∈ functionLine type func, holds c := by
  have returnType : ∀ c ∈ func.returnType, holds c := fun c mem => inside c (isPlain_of_return plain.returnType c mem)
  have name : ∀ c ∈ func.name, holds c := fun c mem => inside c (isPlain_of_identifier plain.name c mem)
  have arguments : ∀ c ∈ func.argumentText, holds c := fun c mem => inside c (argumentText_plain plain c mem)
  exact List.forall_mem_append.mpr ⟨keyword, List.forall_mem_cons.mpr ⟨bracket, List.forall_mem_append.mpr ⟨returnType,
    List.forall_mem_cons.mpr ⟨inside ' ' (by decide), List.forall_mem_append.mpr ⟨name, List.forall_mem_cons.mpr ⟨bracket,
      List.forall_mem_append.mpr ⟨arguments, ending⟩⟩⟩⟩⟩⟩⟩

theorem functionLine_ascii (plain : func.Plain) {type : String} (keyword : ∀ c ∈ type.toList, c.toNat < 128) :
    ∀ c ∈ functionLine type func, c.toNat < 128 :=
  functionLine_forall plain (fun _ is => of_decide_eq_true (Bool.and_eq_true_iff.mp is).1) keyword (by decide) (by decide)

theorem longest_slotLine (plain : func.Plain) (w : QString) :
    longest (functionLine "    SLOT" func ++ '\n' :: w) =
      some (.slot, ⟨'\n' :: w, [(.args, func.argumentText), (.type, func.head)]⟩) := by
  have ending : "));".toList ++ '\n' :: w = "));\n".toList ++ w := rfl
  have whole : functionLine "    SLOT" func ++ '\n' :: w =
      "    SLOT".toList ++ '(' :: (func.returnType ++ ' ' :: (func.name ++ '(' :: (func.argumentText ++ ("));\n".toList ++ w)))) :=
    (function_text "    SLOT".toList func.returnType func.name func.argumentText "));".toList w).trans
      (congrArg (fun s => "    SLOT".toList ++ '(' :: (func.returnType ++ ' ' :: (func.name ++ '(' :: (func.argumentText ++ s)))) ending)
  have opening (s : QString) : "    SLOT".toList ++ '(' :: s = "    SLOT(".toList ++ s := rfl
  have front : func.returnType ++ ' ' :: (func.name ++ '(' :: (func.argumentText ++ ("));\n".toList ++ w))) =
      func.head ++ '(' :: (func.argumentText ++ ("));\n".toList ++ w)) := by
    simp only [MocFunction.head, List.append_assoc, List.cons_append]
  have found := longest_slot (not_mem_of_plain (head_plain plain) (by decide : isPlain '(' = false))
    (not_mem_of_plain (argumentText_plain plain) (by decide : isPlain ')' = false)) w
  rw [whole, opening, front]
  exact found

theorem trimmed_head (plain : func.Plain) : trimmed func.head = func.head := by
  have name := plain.name
  have returnType := plain.returnType
  rw [MocFunction.head]
  refine trimmed_eq_self (fun c t is => ?_) fun t c is => ?_
  · cases type : func.returnType with
    | nil =>
      rw [type] at returnType
      cases returnType
    | cons d rest =>
      rw [type] at is returnType
      cases is
      obtain ⟨visible, -⟩ := Bool.and_eq_true_iff.mp returnType
      rwa [Bool.not_eq_true'] at visible
  · cases same : func.name using List.reverseRecOn with
    | nil => exact absurd same (identifier_ne_nil name)
    | append_singleton s d =>
      rw [same, ← List.cons_append, ← List.append_assoc] at is
      obtain ⟨-, last⟩ := List.append_inj' is rfl
      cases last
      exact last_of_identifier name s c same

/-- The name begins behind the last space. -/
theorem slotName_head (plain : func.Plain) : RepParser.slotName func.head = (func.returnType, func.name) := by
  have letters : ∀ c ∈ func.name, decide (c ≠ ' ') = true := fun c mem =>
    decide_eq_true (ne_of_isNamePart (isNamePart_of_mem plain.name c mem) (by decide))
  have space : ' ' ∈ func.head := List.mem_append_right _ List.mem_cons_self
  have kept : (func.returnType ++ ' ' :: func.name).rdropWhile (· ≠ ' ') = func.returnType ++ [' '] := by
    rw [List.append_cons, List.rdropWhile, List.reverse_append, List.dropWhile_append_of_pos fun c mem => letters c (List.mem_reverse.mp mem),
      List.reverse_concat, List.dropWhile_cons_of_neg (by decide), List.reverse_cons, List.reverse_reverse]
  have taken : (func.returnType ++ ' ' :: func.name).rtakeWhile (· ≠ ' ') = func.name := by
    rw [List.append_cons, List.rtakeWhile, List.reverse_append, List.takeWhile_append_of_pos fun c mem => letters c (List.mem_reverse.mp mem),
      List.reverse_concat, List.takeWhile_cons_of_neg (by decide), List.append_nil, List.reverse_reverse]
  rw [RepParser.slotName, if_pos space, MocFunction.head, kept, taken, List.dropLast_concat]

theorem reads_slot (within : Within c s) (plain : func.Plain) (fits : (functionLine "    SLOT" func).length < maxMatchLen) :
    ∃ u, s.Reads (functionLine "    SLOT" func ++ ['\n']) u ∧
      Within { c with slotsList := c.slotsList ++ [func.readBack] } u := by
  let p := s.parser.scan ⟨.slot, [(.args, func.argumentText), (.type, func.head)]⟩
  let u : State qt := ⟨.cls false, { p with astClass.slotsList := p.astClass.slotsList ++ [func.readBack] }⟩
  have step : s.step ⟨.slot, [(.args, func.argumentText), (.type, func.head)]⟩ = .ok u := by
    refine step_ok_iff.mpr ⟨?_, by rw [within.mode]; rfl⟩
    have type : p.value .type = func.head := rfl
    rw [within.mode]
    change Except.ok p.slot = _
    rw [RepParser.slot, type, trimmed_head plain, slotName_head plain]
    rfl
  refine ⟨u, reads_line (functionLine_ascii plain (by decide)) fits (longest_slotLine plain) step (step_newline (.inl rfl)), rfl, ?_,
    within.ast⟩
  rw [← within.astClass]
  rfl

theorem reads_slots {slots : List MocFunction} (within : Within c s) (plain : ∀ func ∈ slots, func.Plain)
    (fits : ∀ func ∈ slots, (functionLine "    SLOT" func).length < maxMatchLen) :
    ∃ u, s.Reads (ended (slots.map (functionLine "    SLOT"))) u ∧
      Within { c with slotsList := c.slotsList ++ slots.map MocFunction.readBack } u := by
  induction slots generalizing c s with
  | nil => exact ⟨s, reads_nil s, by rw [List.map_nil, List.append_nil]; exact within⟩
  | cons func slots ih =>
    rw [List.forall_mem_cons] at plain fits
    obtain ⟨v, first, within'⟩ := reads_slot within plain.1 fits.1
    obtain ⟨u, others, within''⟩ := ih within' plain.2 fits.2
    refine ⟨u, reads_append first others, ?_⟩
    rw [List.map_cons, List.append_cons]
    exact within''

/-- The name and the opening brace of a class. -/
theorem reads_opening {name : QString} (identifier : isIdentifier name = true) (long : 2 ≤ name.length)
    (fits : ("class ".toList ++ name).length < maxMatchLen) :
    ∃ u, ({} : State qt).Reads (ended ["class ".toList ++ name, "\x7b".toList]) u ∧ Within { name := name } u := by
  let header : State qt := ⟨.header .cls, { captured := [(.name, name)] }⟩
  let u : State qt := ⟨.cls false, { header.parser with astClass := { name := name } }⟩
  have ascii : ∀ c ∈ "class ".toList ++ name, c.toNat < 128 :=
    List.forall_mem_append.mpr ⟨by decide, ascii_of_isPlain (isPlain_of_identifier identifier)⟩
  have found (w : QString) : longest ("class ".toList ++ name ++ '\n' :: w) = some (.cls, ⟨'\n' :: w, [(.name, name)]⟩) :=
    (congrArg longest (List.append_assoc _ _ _)).trans (longest_cls identifier long w)
  have step : ({} : State qt).step ⟨.cls, [(.name, name)]⟩ = .ok header := step_ok_iff.mpr ⟨rfl, rfl⟩
  have first : ({} : State qt).Reads ("class ".toList ++ name ++ ['\n']) header :=
    reads_line ascii fits found step (step_newline (.inr (.inr ⟨.cls, rfl⟩)))
  have start (w : QString) : longest ("\x7b".toList ++ '\n' :: w) = some (.start, ⟨'\n' :: w, []⟩) := longest_start w
  have step' : header.step ⟨.start, []⟩ = .ok u := step_ok_iff.mpr ⟨rfl, rfl⟩
  have second : header.Reads ("\x7b".toList ++ ['\n']) u :=
    reads_line (by decide) (by decide) start step' (step_newline (.inl rfl))
  exact ⟨u, reads_append first (reads_append second (reads_nil u)), rfl, rfl, rfl⟩

theorem reads_stop (within : Within c s) :
    ∃ u, s.Reads (ended ["\x7d".toList]) u ∧ u.mode = .global true ∧ u.parser.ast.pods = [] ∧ u.parser.ast.classes = [c] := by
  let p := s.parser.scan ⟨.stop, []⟩
  let u : State qt := ⟨.global true, p.cls⟩
  have found (w : QString) : longest ("\x7d".toList ++ '\n' :: w) = some (.stop, ⟨'\n' :: w, []⟩) := longest_stop w
  have step : s.step ⟨.stop, []⟩ = .ok u := by
    refine step_ok_iff.mpr ?_
    rw [within.mode]
    exact ⟨rfl, rfl⟩
  have line : s.Reads ("\x7d".toList ++ ['\n']) u :=
    reads_line (by decide) (by decide) found step (step_newline (.inr (.inl rfl)))
  have pods : p.cls.ast.pods = s.parser.ast.pods := rfl
  have classes : p.cls.ast.classes = s.parser.ast.classes ++ [s.parser.astClass] := rfl
  refine ⟨u, reads_append line (reads_nil u), rfl, ?_, ?_⟩
  · rw [pods, within.ast]
  · rw [classes, within.ast, within.astClass]
    rfl

end Members

section Classes
variable {qt : Core} {cls : MocClass} {alwaysGenerateClass : Bool} {ast : AST qt.toSha1} {line : QString}

/-- What is not an end of a line. -/
theorem inline_of_isPlain {c : Char} (plain : isPlain c = true) : c ≠ '\n' ∧ c ≠ '\r' :=
  ⟨fun is => by rw [is] at plain; exact absurd plain (by decide), fun is => by rw [is] at plain; exact absurd plain (by decide)⟩

theorem propertyLine_inline {s : QString} (plain : ∀ c ∈ s, isPlain c = true) : ∀ c ∈ propertyLine s, c ≠ '\n' ∧ c ≠ '\r' :=
  List.forall_mem_append.mpr ⟨by decide, List.forall_mem_append.mpr ⟨fun c mem => inline_of_isPlain (plain c mem), by decide⟩⟩

theorem generateProperties_plain (plain : cls.Plain alwaysGenerateClass) :
    ∀ s ∈ Moc.generateProperties cls.properties false, ∀ c ∈ s, isPlain c = true := by
  intro s mem
  obtain ⟨prop, kept, rfl⟩ := List.mem_map.mp mem
  have inside := List.mem_of_mem_filter kept
  have type := plain.types prop inside
  have name := plain.names prop inside
  rw [generateProperty_plain type name]
  exact entryText_mem (isEntry_property type name)

theorem propertyLines_inline (plain : cls.Plain alwaysGenerateClass) :
    ∀ line ∈ propertyLines cls, ∀ c ∈ line, c ≠ '\n' ∧ c ≠ '\r' := by
  intro line mem
  rw [propertyLines] at mem
  split at mem
  · exact absurd mem List.not_mem_nil
  · split at mem
    · rw [List.mem_singleton.mp mem]
      exact propertyLine_inline fun _ mem => absurd mem List.not_mem_nil
    · obtain ⟨s, inside, rfl⟩ := List.mem_map.mp mem
      exact propertyLine_inline (generateProperties_plain plain s inside)

theorem classLines_inline (plain : cls.Plain alwaysGenerateClass) : ∀ line ∈ classLines cls, ∀ c ∈ line, c ≠ '\n' ∧ c ≠ '\r' := by
  have functions (type : String) (keyword : ∀ c ∈ type.toList, c ≠ '\n' ∧ c ≠ '\r') (list : List MocFunction)
      (all : ∀ func ∈ list, func.Plain) : ∀ line ∈ list.map (functionLine type), ∀ c ∈ line, c ≠ '\n' ∧ c ≠ '\r' := by
    intro line mem
    obtain ⟨func, inside, rfl⟩ := List.mem_map.mp mem
    exact functionLine_forall (all func inside) (fun _ => inline_of_isPlain) keyword (by decide) (by decide)
  have header : ∀ c ∈ "class ".toList ++ cls.className, c ≠ '\n' ∧ c ≠ '\r' :=
    List.forall_mem_append.mpr ⟨by decide, fun c mem => inline_of_isPlain (isPlain_of_identifier plain.className c mem)⟩
  have slots := functions "    SLOT" (by decide) _ fun func mem => plain.slots func (mem_cleanedSlotList.mp mem).1
  have signals := functions "    SIGNAL" (by decide) _ fun func mem => plain.signals func (mem_cleanedSignalList mem)
  refine List.forall_mem_append.mpr ⟨List.forall_mem_append.mpr ⟨List.forall_mem_append.mpr ⟨List.forall_mem_append.mpr
    ⟨List.forall_mem_cons.mpr ⟨header, ?_⟩, propertyLines_inline plain⟩, slots⟩, signals⟩, ?_⟩
  · rw [List.forall_mem_singleton]
    decide
  · rw [List.forall_mem_singleton]
    decide

/-- Its lines are those of the text. -/
theorem classLines_fit (plain : cls.Plain alwaysGenerateClass) (class_ : cls.isPod alwaysGenerateClass = false) :
    ∀ line ∈ classLines cls, line.length < maxMatchLen := by
  intro line mem
  refine plain.lines line ?_
  rw [generateClass_lines plain class_, lines_ended (classLines_inline plain)]
  exact List.mem_append_left _ mem

/-- What the parser makes of a class. -/
def MocClass.readBack (cls : MocClass) : ASTClass where
  name := cls.className
  properties := (cls.properties.filter fun prop => !prop.skipped).map MocProperty.readBack
  slotsList := (cleanedSlotList cls).map MocFunction.readBack

/-- The lines in front of the signals. -/
def frontLines (cls : MocClass) : List QString :=
  ["class ".toList ++ cls.className, "\x7b".toList] ++ propertyLines cls ++ (cleanedSlotList cls).map (functionLine "    SLOT")

theorem reads_front (plain : cls.Plain alwaysGenerateClass) (class_ : cls.isPod alwaysGenerateClass = false)
    (long : 2 ≤ cls.className.length) (some : cls.properties = [] ∨ Moc.generateProperties cls.properties false ≠ []) :
    ∃ u, ({} : State qt).Reads (ended (frontLines cls)) u ∧ Within cls.readBack u := by
  have fits := classLines_fit plain class_
  have inFront : ∀ line ∈ frontLines cls, line.length < maxMatchLen := fun line mem =>
    fits line (List.mem_append_left _ (List.mem_append_left _ mem))
  obtain ⟨v, opening, within⟩ := @reads_opening qt _ plain.className long
    (inFront _ (List.mem_append_left _ (List.mem_append_left _ List.mem_cons_self)))
  have lines : propertyLines cls = (cls.properties.filter fun prop => !prop.skipped).map fun prop => propertyLine (generateProperty prop) := by
    rw [propertyLines]
    split
    case isTrue none =>
      rw [none]
      rfl
    case isFalse nonempty =>
      rw [if_neg (some.resolve_left nonempty), Moc.generateProperties, List.map_map]
      exact congrArg (fun kept : List MocProperty => kept.map fun prop => propertyLine (generateProperty prop))
        (congrArg (cls.properties.filter ·) (funext fun prop => Bool.false_or _))
  obtain ⟨w, properties, within'⟩ := reads_properties within
    (fun prop mem => plain.types prop (List.mem_of_mem_filter mem)) (fun prop mem => plain.names prop (List.mem_of_mem_filter mem))
    fun prop mem => inFront _ (List.mem_append_left _ (List.mem_append_right _ (by rw [lines]; exact List.mem_map_of_mem mem)))
  obtain ⟨u, slots, within''⟩ := reads_slots within' (fun func mem => plain.slots func (mem_cleanedSlotList.mp mem).1)
    fun func mem => inFront _ (List.mem_append_right _ (List.mem_map_of_mem mem))
  refine ⟨u, ?_, within''⟩
  rw [frontLines, ended_append, ended_append, lines]
  exact reads_append (reads_append opening properties) slots

theorem ended_cons (line : QString) (texts : List QString) : ended (line :: texts) = line ++ '\n' :: ended texts := by
  rw [ended, List.flatMap_cons, List.append_assoc]
  rfl

theorem classLines_eq (cls : MocClass) :
    classLines cls = frontLines cls ++ ((cleanedSignalList cls).map (functionLine "    SIGNAL") ++ ["\x7d".toList]) :=
  List.append_assoc _ _ _

theorem parse_class (plain : cls.Plain alwaysGenerateClass) (class_ : cls.isPod alwaysGenerateClass = false)
    (long : 2 ≤ cls.className.length) (some : cls.properties = [] ∨ Moc.generateProperties cls.properties false ≠ [])
    (signals : cleanedSignalList cls = []) :
    ∃ ast, parse qt (generateClass cls alwaysGenerateClass) = .ok ast ∧ ast.pods = [] ∧ ast.classes = [cls.readBack] := by
  obtain ⟨v, front, within⟩ := @reads_front qt _ _ plain class_ long some
  obtain ⟨u, stop, done, pods, classes⟩ := reads_stop within
  refine ⟨u.parser.ast, parse_of_reads ?_ done, pods, classes⟩
  rw [generateClass_lines plain class_, classLines_eq, signals, ended_append]
  exact reads_append front stop

/-- A name of one letter behind a keyword is no class or POD: the keyword is read as a symbol. -/
theorem long_of_keyword {word : String} {name rest : QString} {d : Char} (keyword : isIdentifier word.toList = true)
    (identifier : isIdentifier name = true) (alone : ∀ c ∈ nameStarts, Alone (word.toList ++ [' ', c, d]) [.symbol])
    (ascii : d.toNat < 128) (fits : word.toList.length + 3 ≤ maxMatchLen)
    (accepted : parse qt (word.toList ++ ' ' :: (name ++ d :: rest)) = .ok ast) : 2 ≤ name.length := by
  by_contra short
  cases name with
  | nil => cases identifier
  | cons c others =>
    rw [List.length_cons] at short
    cases List.eq_nil_of_length_eq_zero (by omega : others.length = 0)
    have start : isNameStart c = true := (Bool.and_eq_true_iff.mp identifier).1
    have same : word.toList ++ [' '] ++ [c, d] = word.toList ++ [' ', c, d] := List.append_assoc ..
    have letters : ∀ a ∈ word.toList ++ [' ', c, d], a.toNat < 128 :=
      List.forall_mem_append.mpr ⟨ascii_of_isPlain (isPlain_of_identifier keyword), List.forall_mem_cons.mpr ⟨by decide,
        List.forall_mem_cons.mpr ⟨ascii_of_isPlain (isPlain_of_identifier identifier) c List.mem_cons_self,
          List.forall_mem_singleton.mpr ascii⟩⟩⟩
    have fits' : (word.toList ++ [' ', c, d]).length ≤ maxMatchLen := by
      rw [List.length_append]
      exact fits
    have found (w : QString) : longest (word.toList ++ [' '] ++ [c, d] ++ w) = some (.symbol, ⟨[c, d] ++ w, [(.symbol, word.toList)]⟩) := by
      rw [same]
      exact longest_letter keyword start alone w
    have whole : word.toList ++ ' ' :: ([c] ++ d :: rest) = [] ++ (word.toList ++ [' '] ++ [c, d] ++ rest) := by
      rw [same, List.nil_append, List.append_assoc]
      rfl
    exact stuck_line (same ▸ letters) (same ▸ fits') found (reads_nil ({} : State qt)) (.inr rfl) whole accepted

/-- A class with a name of one letter is none. -/
theorem long_of_accepted (plain : cls.Plain alwaysGenerateClass) (class_ : cls.isPod alwaysGenerateClass = false)
    (accepted : parse qt (generateClass cls alwaysGenerateClass) = .ok ast) : 2 ≤ cls.className.length := by
  have lines : classLines cls = ("class ".toList ++ cls.className) :: (classLines cls).tail := rfl
  have whole : generateClass cls alwaysGenerateClass = "class".toList ++ ' ' :: (cls.className ++ '\n' :: ended (classLines cls).tail) := by
    rw [generateClass_lines plain class_, lines, ended_cons, List.append_assoc]
    rfl
  rw [whole] at accepted
  exact long_of_keyword rfl plain.className alone_letters.1 (by decide) (by decide) accepted

/-- Without a property that is kept the text is not accepted. -/
theorem some_of_accepted (plain : cls.Plain alwaysGenerateClass) (class_ : cls.isPod alwaysGenerateClass = false)
    (accepted : parse qt (generateClass cls alwaysGenerateClass) = .ok ast) :
    cls.properties = [] ∨ Moc.generateProperties cls.properties false ≠ [] := by
  by_contra bad
  obtain ⟨nonempty, none⟩ := not_or.mp bad
  rw [not_ne_iff] at none
  have fits := classLines_fit plain class_ _ List.mem_cons_self
  obtain ⟨v, opening, within⟩ := @reads_opening qt _ plain.className (long_of_accepted plain class_ accepted) fits
  have lines : propertyLines cls = [propertyLine []] := by rw [propertyLines, if_neg nonempty, if_pos none]
  have found (w : QString) : longest ("    PROP".toList ++ "();\n".toList ++ w) =
      some (.symbol, ⟨"();\n".toList ++ w, [(.symbol, "PROP".toList)]⟩) :=
    longest_prop_empty (";\n".toList ++ w)
  have whole : generateClass cls alwaysGenerateClass = ended ["class ".toList ++ cls.className, "\x7b".toList] ++
      ("    PROP".toList ++ "();\n".toList ++ ended ((cleanedSlotList cls).map (functionLine "    SLOT") ++
        (cleanedSignalList cls).map (functionLine "    SIGNAL") ++ ["\x7d".toList])) := by
    have empty : ended [propertyLine []] = "    PROP".toList ++ "();\n".toList := rfl
    rw [generateClass_lines plain class_, classLines, lines, ← empty]
    simp only [ended_append, List.append_assoc]
  exact stuck_line (by decide) (by decide) found opening (.inl within.mode) whole accepted

theorem isSpace_of_return {type t : QString} {c : Char} (plain : isPlainReturn type = true) (is : type = c :: t) : isSpace c = false := by
  have blank : ∀ d ∈ [' ', '\t', '\n', '\r', '\x0b', '\x0c'], QChar.isSpace d = true := by decide
  rw [is] at plain
  obtain ⟨visible, -⟩ := Bool.and_eq_true_iff.mp plain
  refine decide_eq_false fun mem => ?_
  rw [blank c mem] at visible
  cases visible

/-- A signal behind its keyword. -/
def MocFunction.signalText (func : MocFunction) : QString :=
  '(' :: (func.returnType ++ ' ' :: (func.name ++ '(' :: (func.argumentText ++ "));".toList)))

/-- The signals are written with their type, which is no signal. -/
theorem no_signals_of_accepted (plain : cls.Plain alwaysGenerateClass) (class_ : cls.isPod alwaysGenerateClass = false)
    (accepted : parse qt (generateClass cls alwaysGenerateClass) = .ok ast) : cleanedSignalList cls = [] := by
  cases signals : cleanedSignalList cls with
  | nil => rfl
  | cons func others =>
    exfalso
    have kept : func ∈ cleanedSignalList cls := by rw [signals]; exact List.mem_cons_self
    have signal := plain.signals func (mem_cleanedSignalList kept)
    obtain ⟨v, front, within⟩ := @reads_front qt _ _ plain class_ (long_of_accepted plain class_ accepted)
      (some_of_accepted plain class_ accepted)
    have fits := classLines_fit plain class_ (functionLine "    SIGNAL" func)
      (List.mem_append_left _ (List.mem_append_right _ (List.mem_map_of_mem kept)))
    have visible : ∀ c t, func.returnType = c :: t → isSpace c = false := fun c t is => isSpace_of_return signal.returnType is
    have nonempty : func.returnType ≠ [] := fun none => by
      have type := signal.returnType
      rw [none] at type
      cases type
    have open_ : '(' ∉ func.returnType := not_mem_of_plain (isPlain_of_return signal.returnType) (by decide)
    have behind (w : QString) : func.signalText ++ ['\n'] ++ w =
        '(' :: (func.returnType ++ ' ' :: (func.name ++ '(' :: (func.argumentText ++ ("));".toList ++ '\n' :: w)))) := by
      simp only [MocFunction.signalText, List.append_assoc, List.cons_append, List.nil_append]
    have found (w : QString) : longest ("    SIGNAL".toList ++ (func.signalText ++ ['\n']) ++ w) =
        some (.symbol, ⟨func.signalText ++ ['\n'] ++ w, [(.symbol, "SIGNAL".toList)]⟩) := by
      have symbol := longest_signal visible nonempty open_ signal.name (func.argumentText ++ ("));".toList ++ '\n' :: w))
      have opening (s : QString) : "    SIGNAL".toList ++ '(' :: s = "    SIGNAL(".toList ++ s := rfl
      rw [List.append_assoc, behind, opening]
      exact symbol
    have ascii : ∀ c ∈ "    SIGNAL".toList ++ (func.signalText ++ ['\n']), c.toNat < 128 := by
      rw [← List.append_assoc]
      exact List.forall_mem_append.mpr ⟨functionLine_ascii signal (by decide), by decide⟩
    have fits' : ("    SIGNAL".toList ++ (func.signalText ++ ['\n'])).length ≤ maxMatchLen := by
      rw [← List.append_assoc, List.length_append]
      exact fits
    have whole : generateClass cls alwaysGenerateClass = ended (frontLines cls) ++
        ("    SIGNAL".toList ++ (func.signalText ++ ['\n']) ++
          ended (others.map (functionLine "    SIGNAL") ++ ["\x7d".toList])) := by
      have line : functionLine "    SIGNAL" func = "    SIGNAL".toList ++ func.signalText := rfl
      rw [generateClass_lines plain class_, classLines_eq, signals, ended_append, List.map_cons, List.cons_append, ended_cons, line]
      simp only [List.append_assoc, List.cons_append, List.nil_append]
    exact stuck_line ascii fits' found front (.inl within.mode) whole accepted

end Classes

section Functions
variable {func : MocFunction} {entries : List (QString × QString)} {entry : QString × QString}

theorem join_first (separator s : QString) (texts : List QString) : ∃ rest, join separator (s :: texts) = s ++ rest := by
  cases texts with
  | nil => exact ⟨[], (List.append_nil s).symm⟩
  | cons t texts => exact ⟨separator ++ join separator (t :: texts), by rw [join_cons_cons, List.append_assoc]⟩

theorem join_last (separator s : QString) (texts : List QString) : ∃ front, join separator (texts ++ [s]) = front ++ s := by
  induction texts with
  | nil => exact ⟨[], rfl⟩
  | cons t texts ih =>
    obtain ⟨front, is⟩ := ih
    obtain ⟨next, others, more⟩ := List.exists_cons_of_ne_nil (List.append_ne_nil_of_right_ne_nil texts (List.cons_ne_nil s []))
    rw [List.cons_append, more, join_cons_cons, ← more, is]
    exact ⟨t ++ separator ++ front, (List.append_assoc _ _ _).symm⟩

/-- Entries begin with a type, and their last words end with a letter. -/
theorem trimmed_join (all : ∀ entry ∈ entries, IsEntry entry) (nonempty : ∀ entry ∈ entries, entry.2 ≠ [])
    (last : ∀ entry ∈ entries, ∀ s c, entry.2 = s ++ [c] → QChar.isSpace c = false) :
    trimmed (join ", ".toList (entries.map entryText)) = join ", ".toList (entries.map entryText) := by
  refine trimmed_eq_self (fun c t is => ?_) fun t c is => ?_
  · cases entries with
    | nil => cases is
    | cons entry entries =>
      have type := (all entry List.mem_cons_self).type
      obtain ⟨rest, first⟩ := join_first ", ".toList (entryText entry) (entries.map entryText)
      rw [List.map_cons, first, entryText] at is
      cases same : entry.1 with
      | nil => exact absurd same (isPlainType_iff.mp type).1
      | cons d s =>
        rw [same] at is type
        cases is
        exact isSpace_of_type type
  · cases entries using List.reverseRecOn with
    | nil => exact absurd is.symm (List.append_ne_nil_of_right_ne_nil t (List.cons_ne_nil c []))
    | append_singleton entries entry =>
      have mem : entry ∈ entries ++ [entry] := List.mem_append_right _ List.mem_cons_self
      obtain ⟨front, whole⟩ := join_last ", ".toList (entryText entry) (entries.map entryText)
      rw [List.map_append, List.map_cons, List.map_nil, whole, entryText] at is
      cases same : entry.2 using List.reverseRecOn with
      | nil => exact absurd same (nonempty entry mem)
      | append_singleton s d =>
        rw [same, ← List.cons_append, ← List.append_assoc, ← List.append_assoc] at is
        obtain ⟨-, ends⟩ := List.append_inj' is rfl
        cases ends
        exact last entry mem s c same

theorem entryName_identifier {type name : QString} (identifier : isIdentifier name = true) : entryName (type, name) = name :=
  List.filter_eq_self.mpr fun c mem => decide_eq_true (ne_of_isNamePart (isNamePart_of_mem identifier c mem) (by decide))

/-- The argument without a name gets one. -/
theorem readBack_function_iff (plain : func.Plain) : func.readBack = func.ast ↔ ∀ arg ∈ func.arguments, arg.name.isSome = true := by
  have texts : func.argumentText = join ", ".toList ((func.arguments.map MocArgument.entry).map entryText) := by
    rw [List.map_map]
    rfl
  constructor
  · intro same arg mem
    have params : parseArguments (trimmed func.argumentText) = func.arguments.map fun arg => { type := arg.type, name := arg.name.getD [] } :=
      congrArg ASTFunction.params same
    have named := name_of_mem_parseArguments (trimmed func.argumentText) { type := arg.type, name := arg.name.getD [] }
      (by rw [params]; exact List.mem_map.mpr ⟨arg, mem, rfl⟩)
    cases is : arg.name with
    | none =>
      rw [is] at named
      exact absurd rfl named
    | some name => rfl
  · intro named
    have identifier (arg : MocArgument) (mem : arg ∈ func.arguments) : isIdentifier (arg.name.getD []) = true := by
      obtain ⟨name, is⟩ := Option.isSome_iff_exists.mp (named arg mem)
      rw [is]
      exact plain.names arg mem name is
    have entries (arg : MocArgument) (mem : arg ∈ func.arguments) : entryName arg.entry = arg.name.getD [] :=
      entryName_identifier (identifier arg mem)
    have all : ∀ entry ∈ func.arguments.map MocArgument.entry, IsEntry entry := List.forall_mem_map.mpr (isEntry_argument plain)
    have nonempty : ∀ entry ∈ func.arguments.map MocArgument.entry, entry.2 ≠ [] :=
      List.forall_mem_map.mpr fun arg mem => identifier_ne_nil (identifier arg mem)
    have last : ∀ entry ∈ func.arguments.map MocArgument.entry, ∀ s c, entry.2 = s ++ [c] → QChar.isSpace c = false :=
      List.forall_mem_map.mpr fun arg mem => last_of_identifier (identifier arg mem)
    have names : ∀ entry ∈ func.arguments.map MocArgument.entry, entryName entry ≠ [] :=
      List.forall_mem_map.mpr fun arg mem => by rw [entries arg mem]; exact identifier_ne_nil (identifier arg mem)
    have read : parseArguments (trimmed func.argumentText) = func.ast.params := by
      rw [texts, trimmed_join all nonempty last, parseArguments_entries all names, List.map_map]
      exact List.map_congr_left fun arg mem => congrArg (ASTDeclaration.mk arg.type · false false) (entries arg mem)
    rw [MocFunction.readBack, read]
    rfl

end Functions

section Comparison
variable {qt : Core} {cls : MocClass} {alwaysGenerateClass : Bool} {prop : MocProperty}

theorem skipped_eq_false_iff : prop.skipped = false ↔ prop.notify ≠ none ∨ prop.constant = true := by
  have key : prop.containsKey "notify" = prop.notify.isSome := by
    rw [MocProperty.containsKey, MocProperty.keys]
    generalize prop.read.isSome = read
    generalize prop.write.isSome = write
    generalize prop.notify.isSome = notify
    revert read write notify
    decide
  rw [MocProperty.skipped, key]
  cases prop.notify <;> cases prop.constant <;> simp

/-- Without a flag a property is `READPUSH`, which no property is that is built directly. -/
theorem readBack_modifier_iff : prop.readBack.modifier = prop.modifier ↔ prop.constant = true := by
  rw [MocProperty.readBack, MocProperty.modifier]
  cases prop.constant with
  | true => exact ⟨fun _ => rfl, fun _ => rfl⟩
  | false =>
    refine ⟨fun same => ?_, fun h => nomatch h⟩
    rw [if_neg Bool.false_ne_true, if_neg Bool.false_ne_true] at same
    split at same <;> cases same

theorem silent_of_isPod (class_ : cls.isPod alwaysGenerateClass = false) :
    cls.gadget = false ∧ alwaysGenerateClass = false ∧ cls.silent = false := by
  rw [MocClass.isPod, Bool.or_eq_false_iff, Bool.or_eq_false_iff] at class_
  exact ⟨class_.1.1, class_.1.2, class_.2⟩

theorem classList2AST_class {sha : Sha1} (silent : cls.silent = false) :
    (classList2AST sha [cls]).pods = [] ∧ (classList2AST sha [cls]).classes = [cls.ast] := by
  simp only [classList2AST, List.filter_cons, List.filter_nil, silent, Bool.not_false, Bool.false_eq_true, if_true, if_false]
  exact ⟨rfl, rfl⟩

theorem classList2AST_pod {sha : Sha1} (silent : cls.silent = true) :
    (classList2AST sha [cls]).pods = [cls.pod] ∧ (classList2AST sha [cls]).classes = [] := by
  simp only [classList2AST, List.filter_cons, List.filter_nil, silent, Bool.not_true, Bool.false_eq_true, if_true, if_false]
  exact ⟨rfl, rfl⟩

/-- The members that are kept are the same ones, and so is what the parser makes of them. -/
theorem same_class_iff (plain : cls.Plain alwaysGenerateClass) :
    ((cls.readBack.name, cls.readBack.properties.map fun prop => (prop.type, prop.name, prop.modifier), cls.readBack.signalsList,
        cls.readBack.slotsList) =
      (cls.ast.name, cls.ast.properties.map fun prop => (prop.type, prop.name, prop.modifier), cls.ast.signalsList,
        cls.ast.slotsList)) ↔
    (∀ prop ∈ cls.properties, prop.notify = none ∨ prop.constant = true) ∧ cleanedSignalList cls = [] ∧
      ∀ func ∈ cleanedSlotList cls, ∀ arg ∈ func.arguments, arg.name.isSome = true := by
  have properties : ((cls.properties.filter fun prop => !prop.skipped).map fun prop =>
        (prop.readBack.type, prop.readBack.name, prop.readBack.modifier)) =
      ((cls.properties.filter fun prop => !prop.skipped).map fun prop => (prop.type, prop.name, prop.modifier)) ↔
      ∀ prop ∈ cls.properties, prop.notify = none ∨ prop.constant = true := by
    rw [List.map_inj_left]
    simp only [List.mem_filter, Bool.not_eq_true', and_imp, skipped_eq_false_iff]
    refine forall₂_congr fun prop _ => ?_
    have entry : (prop.readBack.type, prop.readBack.name, prop.readBack.modifier) = (prop.type, prop.name, prop.modifier) ↔
        prop.constant = true := by
      rw [← readBack_modifier_iff]
      exact ⟨fun same => (Prod.ext_iff.mp (Prod.ext_iff.mp same).2).2, fun same => by rw [same]; rfl⟩
    rw [entry]
    by_cases constant : prop.constant = true
    · exact ⟨fun _ => .inr constant, fun _ _ => constant⟩
    · exact ⟨fun h => .inl (by_contra fun some => constant (h (.inl some))), fun h some => h.resolve_left fun none => some.elim (· none) constant⟩
  have slots : (cleanedSlotList cls).map MocFunction.readBack = (cleanedSlotList cls).map MocFunction.ast ↔
      ∀ func ∈ cleanedSlotList cls, ∀ arg ∈ func.arguments, arg.name.isSome = true := by
    rw [List.map_inj_left]
    exact forall₂_congr fun func mem => readBack_function_iff (plain.slots func (mem_cleanedSlotList.mp mem).1)
  have signals : ([] : List ASTFunction) = functionList2AstFunctionList (cleanedSignalList cls) ↔ cleanedSignalList cls = [] := by
    rw [functionList2AstFunctionList, eq_comm, List.map_eq_nil_iff]
  rw [← properties, ← slots, ← signals]
  simp only [MocClass.readBack, MocClass.ast, propertyList2AstProperties, List.map_map, Prod.mk.injEq, true_and]
  exact Iff.rfl

theorem routes_agree_class (plain : cls.Plain alwaysGenerateClass) (class_ : cls.isPod alwaysGenerateClass = false) :
    RoutesAgree qt cls alwaysGenerateClass ↔ KeysAgree cls alwaysGenerateClass := by
  obtain ⟨gadget, always, silent⟩ := silent_of_isPod class_
  obtain ⟨pods, classes⟩ := @classList2AST_class cls qt.toSha1 silent
  have some_of (constant : ∀ prop ∈ cls.properties, prop.notify = none ∨ prop.constant = true) :
      Moc.generateProperties cls.properties false ≠ [] ↔ ∃ prop ∈ cls.properties, prop.constant = true := by
    rw [ne_eq, generateProperties_eq_nil]
    constructor
    · intro h
      obtain ⟨prop, bad⟩ := not_forall.mp h
      obtain ⟨mem, kept⟩ := Classical.not_imp.mp bad
      rw [Bool.not_eq_true, skipped_eq_false_iff] at kept
      exact ⟨prop, mem, kept.elim (fun some => (constant prop mem).resolve_left some) id⟩
    · rintro ⟨prop, mem, is⟩ all
      have kept := skipped_eq_false_iff.mpr (Or.inr is)
      rw [all prop mem] at kept
      cases kept
  have slots : (∀ func ∈ cleanedSlotList cls, ∀ arg ∈ func.arguments, arg.name.isSome = true) ↔
      ∀ func ∈ cls.slots, (cls.properties = [] → func.notPublic = false) → ∀ arg ∈ func.arguments, arg.name.isSome = true :=
    forall_congr' fun func => by rw [mem_cleanedSlotList, and_imp]
  rw [KeysAgree, silent, if_neg Bool.false_ne_true]
  constructor
  · rintro ⟨ast, accepted, same⟩
    have long := long_of_accepted plain class_ accepted
    have some := some_of_accepted plain class_ accepted
    have none := no_signals_of_accepted plain class_ accepted
    obtain ⟨_, accepted', pods', classes'⟩ := @parse_class qt _ _ plain class_ long some none
    cases accepted.symm.trans accepted'
    have member := same.2
    rw [classes, classes', List.map_singleton, List.map_singleton] at member
    obtain ⟨constant, -, named⟩ := (same_class_iff plain).mp (List.singleton_inj.mp member)
    exact ⟨long, ⟨gadget, always⟩, cleanedSignalList_eq_nil.mp none, constant, some.imp_right (some_of constant).mp, slots.mp named⟩
  · rintro ⟨long, keys⟩
    have none := cleanedSignalList_eq_nil.mpr keys.signals
    obtain ⟨ast, accepted, pods', classes'⟩ := @parse_class qt _ _ plain class_ long (keys.properties.imp_right (some_of keys.constant).mpr) none
    refine ⟨ast, accepted, ?_, ?_⟩
    · rw [pods, pods']
    · rw [classes, classes', List.map_singleton, List.map_singleton]
      exact congrArg (fun member => [member]) ((same_class_iff plain).mpr ⟨keys.constant, none, slots.mpr keys.slots⟩)

end Comparison

section Words
variable {s word name : QString} {letters : Char → Bool}

theorem startsEnum_ascii (known : ∀ c : Char, c.toNat < 128 → letters c = c.isAlphanum) (ascii : ∀ c ∈ word, c.toNat < 128) :
    RepParser.startsEnum letters word = RepParser.startsEnum Char.isAlphanum word := by
  rw [RepParser.startsEnum, RepParser.startsEnum]
  cases behind : word.drop 4 with
  | nil => rfl
  | cons c rest =>
    have mem : c ∈ word := List.mem_of_mem_drop (by rw [behind]; exact List.mem_cons_self)
    rw [List.head?_cons, Option.any_some, Option.any_some, known c (ascii c mem)]

theorem any_startsEnum_ascii (known : ∀ c : Char, c.toNat < 128 → letters c = c.isAlphanum) (ascii : ∀ c ∈ s, c.toNat < 128) :
    (s.splitOn ' ').any (RepParser.startsEnum letters) = (s.splitOn ' ').any (RepParser.startsEnum Char.isAlphanum) := by
  have all : ∀ word ∈ s.splitOn ' ', RepParser.startsEnum letters word = RepParser.startsEnum Char.isAlphanum word :=
    fun word mem => startsEnum_ascii known fun c inside => ascii c ((Text.mem_splitOn word mem).2 c inside)
  rw [Bool.eq_iff_iff, List.any_eq_true, List.any_eq_true]
  exact exists_congr fun word => and_congr_right fun mem => by rw [all word mem]

/-- A comma behind a name ends the word that is looked for. -/
theorem startsEnum_comma (name : QString) :
    RepParser.startsEnum Char.isAlphanum (name ++ [',']) = RepParser.startsEnum Char.isAlphanum name := by
  have keyword : "ENUM".toList = ['E', 'N', 'U', 'M'] := rfl
  match name with
  | [] => rfl
  | [a] => simp [RepParser.startsEnum, keyword, List.isPrefixOf]
  | [a, b] => simp [RepParser.startsEnum, keyword, List.isPrefixOf]
  | [a, b, c] => simp [RepParser.startsEnum, keyword, List.isPrefixOf]
  | [a, b, c, d] =>
    rw [RepParser.startsEnum, RepParser.startsEnum, keyword]
    simp only [List.cons_append, List.nil_append, List.isPrefixOf, List.drop_succ_cons, List.drop_zero, List.head?_cons,
      List.head?_nil, Option.any_some, Option.any_none]
    rfl
  | a :: b :: c :: d :: e :: rest => rfl

theorem namesEnum_eq {prop : MocProperty} (identifier : isIdentifier prop.name = true) :
    prop.namesEnum = ((prop.type.splitOn ' ').any (RepParser.startsEnum Char.isAlphanum) ||
      RepParser.startsEnum Char.isAlphanum prop.name) := by
  have oneWord : prop.name.splitOn ' ' = [prop.name] :=
    List.splitOn_eq_singleton fun mem => ne_of_isNamePart (isNamePart_of_mem identifier ' ' mem) (by decide : isNamePart ' ' = false) rfl
  rw [MocProperty.namesEnum, List.splitOn_append_cons_self, List.any_append, oneWord, List.any_cons, List.any_nil, Bool.or_false]

/-- The words of the members are those of each of them. -/
theorem any_startsEnum_join {props : List MocProperty} (nonconstant : ∀ prop ∈ props, prop.constant = false)
    (names : ∀ prop ∈ props, isIdentifier prop.name = true) :
    ((join ", ".toList (props.map fun prop => entryText prop.entry)).splitOn ' ').any (RepParser.startsEnum Char.isAlphanum) =
      props.any MocProperty.namesEnum := by
  have text (prop : MocProperty) (variable_ : prop.constant = false) : entryText prop.entry = prop.type ++ ' ' :: prop.name := by
    rw [entryText, MocProperty.entry, MocProperty.words, variable_, if_neg Bool.false_ne_true, List.append_nil]
  induction props with
  | nil => decide
  | cons prop props ih =>
    rw [List.forall_mem_cons] at nonconstant names
    cases props with
    | nil =>
      rw [List.map_cons, List.map_nil, join, text prop nonconstant.1, List.any_cons, List.any_nil, Bool.or_false,
        MocProperty.namesEnum]
    | cons next props =>
      have oneWord : (prop.name ++ [',']).splitOn ' ' = [prop.name ++ [',']] := by
        refine List.splitOn_eq_singleton fun mem => ?_
        rcases List.mem_append.mp mem with mem | mem
        · exact ne_of_isNamePart (isNamePart_of_mem names.1 ' ' mem) (by decide : isNamePart ' ' = false) rfl
        · exact absurd (List.mem_singleton.mp mem) (by decide)
      have split (rest : QString) : prop.type ++ ' ' :: prop.name ++ ", ".toList ++ rest =
          prop.type ++ ' ' :: ((prop.name ++ [',']) ++ ' ' :: rest) := by
        rw [show ", ".toList = [','] ++ [' '] from rfl]
        simp only [List.append_assoc, List.cons_append, List.nil_append]
      have whole : (prop :: next :: props).any MocProperty.namesEnum = (prop.namesEnum || (next :: props).any MocProperty.namesEnum) := rfl
      have others := ih nonconstant.2 names.2
      rw [List.map_cons] at others
      rw [List.map_cons, List.map_cons, join_cons_cons, text prop nonconstant.1, split, List.splitOn_append_cons_self,
        List.any_append, List.splitOn_append_cons_self, List.any_append, oneWord, List.any_cons, List.any_nil, Bool.or_false,
        startsEnum_comma, others, whole, namesEnum_eq names.1, Bool.or_assoc]

end Words

section Pods
variable {qt : Core} {cls : MocClass} {alwaysGenerateClass : Bool} {ast : AST qt.toSha1}

def podBody (cls : MocClass) : QString := join ", ".toList (cls.properties.map fun prop => entryText prop.entry)

def podLine (cls : MocClass) : QString := "POD ".toList ++ (cls.className ++ '(' :: (podBody cls ++ ")".toList))

theorem podLine_eq (cls : MocClass) : podLine cls = "POD ".toList ++ (cls.className ++ '(' :: (podBody cls ++ ")".toList)) := rfl

theorem podBody_plain (plain : cls.Plain alwaysGenerateClass) : ∀ c ∈ podBody cls, isPlain c = true := by
  refine join_mem (by decide) fun s mem => ?_
  obtain ⟨prop, inside, rfl⟩ := List.mem_map.mp mem
  exact entryText_mem (isEntry_property (plain.types prop inside) (plain.names prop inside))

theorem generateClass_pod (plain : cls.Plain alwaysGenerateClass) (pod : cls.isPod alwaysGenerateClass = true) :
    generateClass cls alwaysGenerateClass = podLine cls ++ ['\n'] := by
  have members : Moc.generateProperties cls.properties true = cls.properties.map fun prop => entryText prop.entry := by
    have all : (cls.properties.filter fun prop => true || !prop.skipped) = cls.properties := List.filter_eq_self.mpr fun _ _ => rfl
    rw [Moc.generateProperties, all]
    exact List.map_congr_left fun prop mem => generateProperty_plain (plain.types prop mem) (plain.names prop mem)
  have body : join ", ".toList (Moc.generateProperties cls.properties true) = podBody cls := by rw [members, podBody]
  have isPod : (cls.gadget || alwaysGenerateClass || cls.silent) = true := pod
  have ending : ")\n".toList = ")".toList ++ ['\n'] := rfl
  have parts (keyword name body bracket : QString) :
      keyword ++ name ++ ['('] ++ body ++ (bracket ++ ['\n']) = keyword ++ (name ++ '(' :: (body ++ bracket)) ++ ['\n'] := by
    simp only [List.append_assoc, List.cons_append, List.nil_append]
  calc generateClass cls alwaysGenerateClass
      = generatePod cls := by rw [generateClass, if_pos isPod]
    _ = "POD ".toList ++ getBytes cls.className ++ ['('] ++ join ", ".toList (Moc.generateProperties cls.properties true) ++
          ")\n".toList := rfl
    _ = "POD ".toList ++ cls.className ++ ['('] ++ podBody cls ++ ")\n".toList := by
        rw [body, getBytes_plain (isPlain_of_identifier plain.className)]
    _ = podLine cls ++ ['\n'] := (congrArg _ ending).trans (parts _ _ _ _)

theorem podLine_forall {holds : Char → Prop} (plain : cls.Plain alwaysGenerateClass) (inside : ∀ c, isPlain c = true → holds c)
    (keyword : ∀ c ∈ "POD ".toList, holds c) (bracket : holds '(') (ending : ∀ c ∈ ")".toList, holds c) : ∀ c ∈ podLine cls, holds c := by
  have name : ∀ c ∈ cls.className, holds c := fun c mem => inside c (isPlain_of_identifier plain.className c mem)
  have body : ∀ c ∈ podBody cls, holds c := fun c mem => inside c (podBody_plain plain c mem)
  exact List.forall_mem_append.mpr ⟨keyword, List.forall_mem_append.mpr ⟨name, List.forall_mem_cons.mpr ⟨bracket,
    List.forall_mem_append.mpr ⟨body, ending⟩⟩⟩⟩

theorem podLine_ascii (plain : cls.Plain alwaysGenerateClass) : ∀ c ∈ podLine cls, c.toNat < 128 :=
  podLine_forall plain (fun _ is => of_decide_eq_true (Bool.and_eq_true_iff.mp is).1) (by decide) (by decide) (by decide)

theorem podLine_fits (plain : cls.Plain alwaysGenerateClass) (pod : cls.isPod alwaysGenerateClass = true) :
    (podLine cls).length < maxMatchLen := by
  refine plain.lines _ ?_
  rw [generateClass_pod plain pod, lines_line (podLine_forall plain (fun _ => inline_of_isPlain) (by decide) (by decide) (by decide))]
  exact List.mem_cons_self

theorem longest_podLine (plain : cls.Plain alwaysGenerateClass) (long : 2 ≤ cls.className.length) (w : QString) :
    longest (podLine cls ++ '\n' :: w) = some (.pod, ⟨'\n' :: w, [(.types, podBody cls), (.name, cls.className)]⟩) := by
  have ending : ")".toList ++ '\n' :: w = ")\n".toList ++ w := rfl
  have whole : podLine cls ++ '\n' :: w =
      "POD ".toList ++ (cls.className ++ '(' :: (podBody cls ++ (")".toList ++ '\n' :: w))) := by
    simp only [podLine_eq, List.append_assoc, List.cons_append]
  have found := longest_pod plain.className long (not_mem_of_plain (podBody_plain plain) (by decide : isPlain ')' = false)) w
  rw [whole, ending]
  exact found

/-- The parser at a POD. -/
def podParser (qt : Core) (cls : MocClass) : RepParser qt.toSha1 :=
  { captured := [(.types, podBody cls), (.name, cls.className)] }

theorem parse_pod_iff (plain : cls.Plain alwaysGenerateClass) (pod : cls.isPod alwaysGenerateClass = true)
    (long : 2 ≤ cls.className.length) : parse qt (generateClass cls alwaysGenerateClass) = .ok ast ↔
      ∃ p, (podParser qt cls).pod qt.isLetterOrNumber = .ok p ∧ p.ast = ast := by
  have whole := generateClass_pod plain pod
  have reads (p : RepParser qt.toSha1) (done : (podParser qt cls).pod qt.isLetterOrNumber = .ok p) :
      ({} : State qt).Reads (podLine cls ++ ['\n']) ⟨.global true, p⟩ := by
    have step : ({} : State qt).step ⟨.pod, [(.types, podBody cls), (.name, cls.className)]⟩ = .ok ⟨.global true, p⟩ :=
      step_ok_iff.mpr ⟨done, rfl⟩
    exact reads_line (podLine_ascii plain) (podLine_fits plain pod) (longest_podLine plain long) step (step_newline (.inr (.inl rfl)))
  constructor
  · intro accepted
    obtain ⟨last, run, -⟩ := parse_ok_iff.mp accepted
    have ascii : ∀ c ∈ podLine cls ++ ['\n'], c.toNat < 128 := List.forall_mem_append.mpr ⟨podLine_ascii plain, by decide⟩
    have fits : (podLine cls ++ ['\n']).length ≤ maxMatchLen := by
      rw [List.length_append]
      exact podLine_fits plain pod
    obtain ⟨tokens, -⟩ := scanned_line ascii fits (fun w => by rw [List.append_assoc]; exact longest_podLine plain long w) []
    rw [whole, ← List.append_nil (podLine cls ++ ['\n']), tokens] at run
    obtain ⟨v, step, -⟩ := run_cons.mp run
    have done : (podParser qt cls).pod qt.isLetterOrNumber = .ok v.parser := (step_ok_iff.mp step).1
    have again := parse_of_reads (reads v.parser done) rfl
    rw [← whole, accepted] at again
    exact ⟨v.parser, done, (Except.ok.inj again).symm⟩
  · rintro ⟨p, done, rfl⟩
    rw [whole]
    exact parse_of_reads (reads p done) rfl

theorem long_of_accepted_pod (plain : cls.Plain alwaysGenerateClass) (pod : cls.isPod alwaysGenerateClass = true)
    (accepted : parse qt (generateClass cls alwaysGenerateClass) = .ok ast) : 2 ≤ cls.className.length := by
  have whole : generateClass cls alwaysGenerateClass = "POD".toList ++ ' ' :: (cls.className ++ '(' :: (podBody cls ++ ")".toList ++ ['\n'])) := by
    rw [generateClass_pod plain pod, podLine_eq]
    simp only [List.append_assoc, List.cons_append]
    rfl
  rw [whole] at accepted
  exact long_of_keyword rfl plain.className alone_letters.2 (by decide) (by decide) accepted

/-- A POD without members is left out. -/
theorem pod_empty (letters : Char → Bool) (none : cls.properties = []) : (podParser qt cls).pod letters = .ok (podParser qt cls) := by
  have empty : trimmed ((podParser qt cls).value .types) = [] := by
    rw [show (podParser qt cls).value .types = podBody cls from rfl, podBody, none]
    rfl
  rw [RepParser.pod, if_pos empty]

theorem words_last {prop : MocProperty} (identifier : isIdentifier prop.name = true) :
    prop.words ≠ [] ∧ ∀ s c, prop.words = s ++ [c] → QChar.isSpace c = false := by
  rw [MocProperty.words]
  cases prop.constant with
  | false =>
    rw [if_neg Bool.false_ne_true, List.append_nil]
    exact ⟨identifier_ne_nil identifier, last_of_identifier identifier⟩
  | true =>
    rw [if_pos rfl]
    refine ⟨List.append_ne_nil_of_left_ne_nil (identifier_ne_nil identifier) _, fun s c is => ?_⟩
    have last := congrArg List.getLast? is
    rw [List.getLast?_append, List.getLast?_concat] at last
    cases last
    decide

/-- The flag of a constant member becomes a part of its name. -/
theorem entryName_property {prop : MocProperty} (identifier : isIdentifier prop.name = true) :
    entryName prop.entry = prop.name ++ if prop.constant then "CONSTANT".toList else [] := by
  have name : prop.name.filter (fun c => decide (c ≠ ' ')) = prop.name :=
    List.filter_eq_self.mpr fun c mem => decide_eq_true (ne_of_isNamePart (isNamePart_of_mem identifier c mem) (by decide))
  rw [entryName, MocProperty.entry, MocProperty.words, List.filter_append, name]
  cases prop.constant <;> rfl

/-- What the parser makes of a POD. -/
def MocClass.podReadBack (cls : MocClass) : POD :=
  { name := cls.className, attributes := cls.properties.map fun prop => ⟨prop.type, entryName prop.entry⟩ }

theorem pod_members (plain : cls.Plain alwaysGenerateClass) (letters : Char → Bool) (some : cls.properties ≠ []) :
    (podParser qt cls).pod letters =
      if ((podBody cls).splitOn ' ').any (RepParser.startsEnum letters) then
        .error "ENUMs are only available in PODs using bracket syntax ('\x7b'), not parentheses".toList
      else .ok ((podParser qt cls).appendPod cls.podReadBack) := by
  have entries : podBody cls = join ", ".toList ((cls.properties.map MocProperty.entry).map entryText) := by
    rw [List.map_map]
    rfl
  have all : ∀ entry ∈ cls.properties.map MocProperty.entry, IsEntry entry :=
    List.forall_mem_map.mpr fun prop mem => isEntry_property (plain.types prop mem) (plain.names prop mem)
  have named : ∀ entry ∈ cls.properties.map MocProperty.entry, entryName entry ≠ [] :=
    List.forall_mem_map.mpr fun prop mem => by
      rw [entryName_property (plain.names prop mem)]
      exact List.append_ne_nil_of_left_ne_nil (identifier_ne_nil (plain.names prop mem)) _
  have body : trimmed (podBody cls) = podBody cls := by
    rw [entries]
    exact trimmed_join all (List.forall_mem_map.mpr fun prop mem => (words_last (plain.names prop mem)).1)
      (List.forall_mem_map.mpr fun prop mem => (words_last (plain.names prop mem)).2)
  have nonempty : podBody cls ≠ [] := by
    obtain ⟨prop, props, is⟩ := List.exists_cons_of_ne_nil some
    obtain ⟨rest, first⟩ := join_first ", ".toList (entryText prop.entry) (props.map fun prop => entryText prop.entry)
    rw [podBody, is, List.map_cons, first]
    exact List.append_ne_nil_of_left_ne_nil (entryText_ne_nil _) rest
  have read : parseArguments (podBody cls) = (cls.properties.map MocProperty.entry).map entryDeclaration := by
    rw [entries]
    exact parseArguments_entries all named
  have name : trimmed cls.className = cls.className := trimmed_name (isNamePart_of_mem plain.className)
  have pod : RepParser.appendPods { name := trimmed cls.className, compilerAttribute := trimmed [] } (parseArguments (podBody cls)) =
      cls.podReadBack := by
    rw [read, name, RepParser.appendPods, MocClass.podReadBack, List.map_map, List.map_map]
    rfl
  have types : (podParser qt cls).value .types = podBody cls := rfl
  have captured : (podParser qt cls).value .name = cls.className := rfl
  have uncaptured : (podParser qt cls).value .attribute = [] := rfl
  rw [RepParser.pod]
  simp only [types, captured, uncaptured, body, nonempty, if_false, pod]

theorem routes_agree_pod (letters : ∀ c : Char, c.toNat < 128 → qt.isLetterOrNumber c = c.isAlphanum)
    (plain : cls.Plain alwaysGenerateClass) (pod : cls.isPod alwaysGenerateClass = true) :
    RoutesAgree qt cls alwaysGenerateClass ↔ KeysAgree cls alwaysGenerateClass := by
  have ascii := ascii_of_isPlain (podBody_plain plain)
  have attributes (same : cls.podReadBack.attributes = cls.pod.attributes) : ∀ prop ∈ cls.properties, prop.constant = false := by
    intro prop mem
    have entry := List.map_inj_left.mp same prop mem
    have name := congrArg PODAttribute.name entry
    rw [entryName_property (plain.names prop mem)] at name
    have nothing := List.append_right_eq_self.mp name
    cases is : prop.constant with
    | false => rfl
    | true =>
      rw [is] at nothing
      exact absurd nothing (by decide)
  constructor
  · rintro ⟨ast, accepted, same⟩
    have long := long_of_accepted_pod plain pod accepted
    obtain ⟨p, done, rfl⟩ := (parse_pod_iff plain pod long).mp accepted
    have classes : p.ast.classes = [] := by
      by_cases none : cls.properties = []
      · rw [pod_empty _ none] at done
        cases done
        rfl
      · rw [pod_members plain _ none] at done
        split at done <;> cases done
        rfl
    cases silent : cls.silent with
    | false =>
      have member := same.2
      rw [classes, (classList2AST_class silent).2] at member
      cases member
    | true =>
      refine ⟨long, ?_⟩
      rw [if_pos silent]
      have member := same.1
      rw [(classList2AST_pod silent).1] at member
      by_cases none : cls.properties = []
      · rw [pod_empty _ none] at done
        cases done
        cases member
      · rw [pod_members plain _ none] at done
        split at done
        case isTrue => cases done
        case isFalse noEnum =>
          cases done
          have nonconstant := attributes (Prod.ext_iff.mp (List.singleton_inj.mp member)).2
          refine ⟨none, nonconstant, fun prop mem => ?_⟩
          rw [any_startsEnum_ascii letters ascii, podBody, any_startsEnum_join nonconstant plain.names, Bool.not_eq_true,
            List.any_eq_false] at noEnum
          exact Bool.eq_false_iff.mpr (noEnum prop mem)
  · rintro ⟨long, keys⟩
    cases silent : cls.silent with
    | false =>
      rw [silent, if_neg Bool.false_ne_true] at keys
      rw [MocClass.isPod, keys.object.1, keys.object.2, silent] at pod
      cases pod
    | true =>
      rw [if_pos silent] at keys
      have noEnum : ((podBody cls).splitOn ' ').any (RepParser.startsEnum qt.isLetterOrNumber) = false := by
        rw [any_startsEnum_ascii letters ascii, podBody, any_startsEnum_join keys.nonconstant plain.names]
        exact List.any_eq_false.mpr fun prop mem => Bool.eq_false_iff.mp (keys.types prop mem)
      have done := @pod_members qt _ _ plain qt.isLetterOrNumber keys.members
      rw [noEnum, if_neg Bool.false_ne_true] at done
      refine ⟨_, (parse_pod_iff plain pod long).mpr ⟨_, done, rfl⟩, ?_, ?_⟩
      · have members : cls.podReadBack.attributes = cls.pod.attributes := by
          refine List.map_congr_left fun prop mem => ?_
          rw [entryName_property (plain.names prop mem), keys.nonconstant prop mem, if_neg Bool.false_ne_true, List.append_nil]
        rw [(classList2AST_pod silent).1]
        exact congrArg (fun attributes => [(cls.className, attributes)]) members
      · rw [(classList2AST_pod silent).2]
        rfl

end Pods

section Main
variable {cls : MocClass} {alwaysGenerateClass : Bool}

/-- A constant property and a slot. -/
def sensor : MocClass where
  className := "Sensor".toList
  properties := [{ name := "limit".toList, type := "QMap<int, int>".toList, constant := true }]
  slots := [⟨"reset".toList, "public".toList, "void".toList, [⟨"int".toList, some "to".toList⟩]⟩]

theorem sensor_plain : sensor.Plain false where
  className := by decide
  types := by decide +kernel
  names := by decide +kernel
  signals := fun _ mem => absurd mem List.not_mem_nil
  slots := by
    intro func mem
    cases List.mem_singleton.mp mem
    refine ⟨by decide, by decide, by decide, fun arg mem name is => ?_⟩
    cases List.mem_singleton.mp mem
    cases is
    decide
  lines := by decide +kernel

theorem sensor_keys : KeysAgree sensor false := by
  refine ⟨by decide, ?_⟩
  change ClassAgrees sensor false
  exact ⟨⟨rfl, rfl⟩, .inl rfl, by decide, .inr (by decide), by decide⟩

/-- A property with a change signal. -/
def thermometer : MocClass where
  className := "Thermometer".toList
  properties := [⟨"degrees".toList, "int".toList, false, some "degrees".toList, none, some "degreesChanged".toList, []⟩]
  signals := [⟨"degreesChanged".toList, "public".toList, "void".toList, []⟩]

def readModifiers (text : QString) : Option (List (List ASTProperty.Modifier)) :=
  (parse asciiCore text).toOption.map fun ast => ast.classes.map fun cls => cls.properties.map (·.modifier)

end Main

end RemoteObjects.Repc
