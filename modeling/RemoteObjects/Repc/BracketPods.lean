import RemoteObjects.Repc.Comments
import RemoteObjects.Repc.ParameterTexts

/-! The members of PODs between braces. The parser collects their parameters as one text, which it reads at the closing brace. -/
namespace RemoteObjects.Repc
open Patterns

section Model

/-- A parameter as its tokens spell it, with one space between words. -/
structure PodParameter where
  qualifier : Option QString := none
  type : QString := []
  reference : Bool := false
  name : QString := []
deriving DecidableEq

/-- Behind the name of a type. -/
def ParameterPlace.isBehind : ParameterPlace → Bool
  | .named | .typed | .referenced => true
  | _ => false

/-- What is collected of the members: enums and flags leave only the commas behind them. -/
inductive PodItem
  | parameter (p : PodParameter)
  | comma
deriving DecidableEq

namespace PodParameter

/-- The type without the `const` and the reference around it. -/
def podAttribute (p : PodParameter) : PODAttribute where
  type := (p.qualifier.elim [] fun q => if q = "const".toList then [] else q ++ [' ']) ++ p.type
  name := p.name

/-- The text up to the name. -/
def front (p : PodParameter) : QString :=
  (p.qualifier.elim [] fun q => q ++ [' ']) ++ (p.type ++ if p.reference then " &".toList else [])

def text (p : PodParameter) : QString := p.front ++ ' ' :: p.name

end PodParameter

def PodItem.parameter? : PodItem → Option PodParameter
  | parameter p => some p
  | comma => none

def PodItem.text : PodItem → QString
  | parameter p => p.text
  | comma => [',']

/-- The members that have been read, and the parameter that is being read. -/
structure PodReading where
  items : List PodItem := []
  current : PodParameter := {}

namespace PodReading
variable (r : PodReading)

def addType (s : QString) : PodReading := { r with current.type := r.current.type ++ s }

def named (name : QString) : PodReading := { items := r.items ++ [.parameter { r.current with name := name }] }

def readParameter (t : Token) (place : ParameterPlace) (templates : Nat) : PodReading :=
  match t.terminal with
  | .symbol => if place.isBehind then r.named (captured t.captures .symbol) else r.addType (captured t.captures .symbol)
  | .qualifier => r.addType (captured t.captures .value ++ [' '])
  | .tstart => r.addType ['<']
  | .tstop => r.addType ['>']
  | .comma => r.addType [',']
  | .passbyqual => if templates = 0 then { r with current.reference := true } else r.addType " &".toList
  | _ => r

/-- One more token of a text. -/
def read (t : Token) : GrammarState → PodReading
  | .header _ => {}
  | .pod _ _ => match t.terminal with
    | .comma => { r with items := r.items ++ [.comma] }
    | .qualifier => { r with current := { qualifier := some (captured t.captures .value) } }
    | .symbol => { r with current := { type := captured t.captures .symbol } }
    | _ => r
  | .parameter place templates => r.readParameter t place templates
  | _ => r

end PodReading

/-- What the tokens of a text say about the members of its last POD. -/
def readMembers : GrammarState → PodReading → List Token → PodReading
  | _, r, [] => r
  | m, r, t :: ts => ((m.next t.terminal).map fun n => readMembers n (r.read t m) ts).getD r

/-- The parameters of the POD that ends behind these tokens, and the commas between its members. -/
def podItems (ts : List Token) : List PodItem := (readMembers (.global false) {} ts).items

def podParameters (ts : List Token) : List PodParameter := (podItems ts).filterMap PodItem.parameter?

/-- The parameters as they are written between parentheses. -/
def parenthesised (ps : List PodParameter) : QString := join ", ".toList (ps.map PodParameter.text)

end Model

section Statement

/-- A type without `unsigned` and `signed` in front of it, and without references within templates. -/
structure PodParameter.Fits (p : PodParameter) : Prop where
  qualifier : ∀ q ∈ p.qualifier, q = "const".toList
  type : '&' ∉ p.type

/-- Parameters and commas alternate, and a parameter comes first. -/
def Alternate : List PodItem → Prop
  | [] => True
  | .comma :: _ => False
  | [.parameter _] => True
  | .parameter _ :: .parameter _ :: _ => False
  | .parameter _ :: .comma :: items => Alternate items

end Statement

section Tokens
variable {s rest : QString} {t : Token} {k l : Match Capture} {terminal : Terminal} {m n : Match Capture}

theorem mem_run_literal {word : QString} (mem : l ∈ (Pattern.literal word : Pattern Capture).run k) : k.rest = word ++ l.rest := by
  induction word generalizing k with
  | nil => rw [List.mem_singleton.mp mem, List.nil_append]
  | cons c word ih =>
    obtain ⟨k', first, second⟩ := mem_run_seq.mp mem
    obtain ⟨d, rest, split, same, rfl⟩ := mem_run_one.mp first
    have behind : rest = word ++ l.rest := ih second
    rw [split, eq_of_beq same, behind, List.cons_append]

def qualifiers : List QString := ["const", "unsigned", "signed"].map String.toList

theorem captured_qualifier (read : t.Read) (is : t.terminal = .qualifier) : captured t.captures .value ∈ qualifiers := by
  obtain ⟨s, m, mem, same⟩ := read
  rw [is] at mem
  obtain ⟨k, l, inner, captures⟩ := exists_captured mem (by decide)
  rw [same, captures]
  have word {w : String} (mem : l ∈ (keyword w).run k) : between k.rest l.rest = w.toList := by
    rw [mem_run_literal mem, between_append]
  rcases List.mem_append.mp inner with first | others
  · rw [word first]
    decide
  rcases List.mem_append.mp others with second | third
  · rw [word second]
    decide
  · rw [word third]
    decide

theorem captured_reference (read : t.Read) (is : t.terminal = .passbyqual) : captured t.captures .value = ['&'] := by
  obtain ⟨s, m, mem, same⟩ := read
  rw [is] at mem
  obtain ⟨k, l, inner, captures⟩ := exists_captured mem (by decide)
  rw [same, captures, mem_run_literal inner, between_append]
  rfl

theorem captured_symbol (read : t.Read) (is : t.terminal = .symbol) : isIdentifier (captured t.captures .symbol) = true := by
  obtain ⟨s, m, mem, same⟩ := read
  rw [is] at mem
  obtain ⟨k, l, inner, captures⟩ := exists_captured mem (by decide)
  rw [same, captures]
  obtain ⟨k', first, second⟩ := mem_run_seq.mp inner
  obtain ⟨c, rest, split, start, rfl⟩ := mem_run_one.mp first
  obtain ⟨read, split', part⟩ := reads_many second
  have behind : rest = read ++ l.rest := split'
  have whole : k.rest = (c :: read) ++ l.rest := by rw [split, behind, List.cons_append]
  rw [whole, between_append, isIdentifier, start, Bool.true_and, List.all_eq_true]
  exact part

/-- The winner reads more than each pattern before it in the order. -/
theorem longest_shorter {before behind : List Terminal} (order : terminals = before ++ behind) (late : terminal ∉ before)
    (found : longest s = some (terminal, m)) : ∀ other ∈ before, ∀ n, other.pattern.match? s = some n → m.rest.length < n.rest.length := by
  -- the best match of the first patterns is at least as long as each of them
  have best_mem (these : List Terminal) (best : Option (Terminal × Match Capture)) (a : Terminal × Match Capture)
      (is : these.foldl (fun best terminal => longer best ((terminal.pattern.match? s).map (terminal, ·))) best = some a) :
      a.1 ∈ these ∨ best = some a := by
    induction these generalizing best with
    | nil => exact .inr is
    | cons next these ih =>
      rcases ih _ is with mem | is
      · exact .inl (List.mem_cons_of_mem _ mem)
      · rcases longer_mem is with is | is
        · exact .inr is
        · obtain ⟨n, -, rfl⟩ := Option.map_eq_some_iff.mp is
          exact .inl List.mem_cons_self
  have keeps (these : List Terminal) (a : Terminal × Match Capture) :
      ∃ b, these.foldl (fun best terminal => longer best ((terminal.pattern.match? s).map (terminal, ·))) (some a) = some b ∧
        (b = a ∨ b.2.rest.length < a.2.rest.length) := by
    induction these generalizing a with
    | nil => exact ⟨a, rfl, .inl rfl⟩
    | cons next these ih =>
      rw [List.foldl_cons]
      cases next.pattern.match? s with
      | none => exact ih a
      | some n =>
        rw [Option.map_some, longer]
        split
        case isTrue shorter =>
          obtain ⟨b, is, better⟩ := ih (next, n)
          refine ⟨b, is, .inr ?_⟩
          rcases better with rfl | less
          · exact shorter
          · exact less.trans shorter
        case isFalse => exact ih a
  have least (these : List Terminal) (best : Option (Terminal × Match Capture)) (other : Terminal) (mem : other ∈ these) (n : Match Capture)
      (matched : other.pattern.match? s = some n) :
      ∃ b, these.foldl (fun best terminal => longer best ((terminal.pattern.match? s).map (terminal, ·))) best = some b ∧
        b.2.rest.length ≤ n.rest.length := by
    induction these generalizing best with
    | nil => exact absurd mem List.not_mem_nil
    | cons next these ih =>
      rw [List.foldl_cons]
      rcases List.mem_cons.mp mem with rfl | mem
      · have here : ∃ a, longer best ((other.pattern.match? s).map (other, ·)) = some a ∧ a.2.rest.length ≤ n.rest.length := by
          rw [matched, Option.map_some]
          cases best with
          | none => exact ⟨_, rfl, le_rfl⟩
          | some b =>
            rw [longer]
            split
            case isTrue => exact ⟨_, rfl, le_rfl⟩
            case isFalse longer => exact ⟨_, rfl, Nat.le_of_not_lt longer⟩
        obtain ⟨a, is, short⟩ := here
        rw [is]
        obtain ⟨b, is, better⟩ := keeps these a
        refine ⟨b, is, ?_⟩
        rcases better with rfl | less
        · exact short
        · omega
      · exact ih _ mem
  intro other mem n matched
  rw [longest, order, List.foldl_append] at found
  obtain ⟨a, is, short⟩ := least before none other mem n matched
  rw [is] at found
  obtain ⟨b, is', better⟩ := keeps behind a
  rw [is'] at found
  obtain rfl : b = (terminal, m) := Option.some.inj found
  rcases better with same | less
  · have early := (best_mem before none a is).resolve_right (by rintro ⟨⟩)
    rw [← same] at early
    exact absurd early late
  · exact less.trans_le short

theorem takes_qualifier {front : QString} (blank : ∀ c ∈ front, isBlank c = true) (back : QString) :
    ∃ n : Match Capture, Terminal.qualifier.pattern.match? (front ++ ("const".toList ++ back)) = some n ∧
      n.rest = back.dropWhile isBlank := by
  have first : blanks.Takes ⟨front ++ ("const".toList ++ back), []⟩ ⟨"const".toList ++ back, []⟩ := takes_many blank (by simp [isBlank])
  have word : (Pattern.alt (keyword "const") (.alt (keyword "unsigned") (keyword "signed")) : Pattern Capture).Takes
      ⟨"const".toList ++ back, []⟩ ⟨back, []⟩ := rfl
  have last : blanks.Takes ⟨back.takeWhile isBlank ++ back.dropWhile isBlank, [(.value, "const".toList)]⟩
      ⟨back.dropWhile isBlank, [(.value, "const".toList)]⟩ := by
    refine takes_many (fun c => List.mem_takeWhile_imp) fun c s is => ?_
    have stops := List.head?_dropWhile_not isBlank back
    rw [is, List.head?_cons] at stops
    simpa using stops
  rw [List.takeWhile_append_dropWhile] at last
  exact ⟨_, match?_eq (takes_seq (takes_seq first (takes_group word)) last), rfl⟩

/-- `const` is read as a qualifier, which comes before names in the order. -/
theorem symbol_ne_const (next : nextToken s = some (t, rest)) (is : t.terminal = .symbol) : captured t.captures .symbol ≠ "const".toList := by
  obtain ⟨⟨terminal, m⟩, found, same⟩ := Option.map_eq_some_iff.mp next
  cases same
  cases is
  intro const
  obtain ⟨k, front, last⟩ := mem_run_seq.mp (mem_of_longest found)
  obtain ⟨j, first, middle⟩ := mem_run_seq.mp front
  obtain ⟨l, inner, rfl⟩ := mem_run_group.mp middle
  obtain ⟨blank, split, blanks⟩ := reads_many first
  obtain ⟨read, new, reads⟩ := exists_reads inner
  obtain ⟨blank', behind, blanks'⟩ := reads_many last
  replace behind : l.rest = blank' ++ m.rest := behind
  have word : read = "const".toList := by
    have value : captured m.captures Capture.symbol = between j.rest l.rest := by
      obtain ⟨read', new', reads'⟩ := exists_reads last
      rw [reads'.other (by decide), captured_cons_self]
    rw [← const, value, reads.text, between_append]
  have whole : window maxMatchLen s = blank ++ ("const".toList ++ (blank' ++ m.rest)) := by
    rw [← behind, ← word, ← reads.text]
    exact split
  obtain ⟨n, matched, left⟩ := takes_qualifier blanks (blank' ++ m.rest)
  rw [← whole] at matched
  have shorter := longest_shorter (List.take_append_drop 13 terminals).symm (by decide) found .qualifier (by decide) n matched
  rw [left, List.dropWhile_append_of_pos blanks'] at shorter
  have longer := List.length_dropWhile_le isBlank m.rest
  omega

theorem exists_nextToken (s : QString) : ∀ t ∈ (scanned s).1, ∃ s rest, nextToken s = some (t, rest) := by
  have all (fuel : Nat) (s : QString) : ∀ t ∈ (tokenize fuel s).1, ∃ s rest, nextToken s = some (t, rest) := by
    fun_induction tokenize fuel s with
    | case1 | case2 | case3 => simp
    | case4 fuel s _ t rest next ih => exact List.forall_mem_cons.mpr ⟨⟨s, rest, next⟩, ih⟩
  exact all s.length s

/-- What the words of a token may be. -/
structure Token.Spelled (t : Token) : Prop where
  symbol : t.terminal = .symbol → isIdentifier (captured t.captures .symbol) = true ∧ captured t.captures .symbol ≠ "const".toList
  qualifier : t.terminal = .qualifier → captured t.captures .value ∈ qualifiers
  reference : t.terminal = .passbyqual → captured t.captures .value = ['&']

theorem spelled_of_mem_scanned (s : QString) : ∀ t ∈ (scanned s).1, t.Spelled := by
  intro t mem
  obtain ⟨s', rest, next⟩ := exists_nextToken s t mem
  exact ⟨fun is => ⟨captured_symbol (read_of_nextToken next) is, symbol_ne_const next is⟩, captured_qualifier (read_of_nextToken next),
    captured_reference (read_of_nextToken next)⟩

end Tokens

section Types
variable {type s : QString} {templates : Nat} {c : Char}

/-- A type up to a place within so many templates. It begins with a name, and nothing but a template follows that. -/
structure Opened (templates : Nat) (type : QString) : Prop where
  balanced : ∀ s, isBalanced isTypePart 0 (type ++ s) = isBalanced isTypePart templates s
  begins : ∃ name rest, type = name ++ rest ∧ isIdentifier name = true ∧ name ≠ "const".toList ∧ ∀ c ∈ rest.head?, c = '<'
  oneLine : '\n' ∉ type

theorem isTypePart_of_part (part : isNamePart c = true) : isTypePart c = true := by
  have comma : c ≠ ',' := ne_of_isNamePart part (by decide)
  have sign : c ≠ '&' := ne_of_isNamePart part (by decide)
  simp [isTypePart, isSpace_of_isNamePart part, comma, sign]

theorem isBalanced_part (part : ∀ c ∈ type, isNamePart c = true) (s : QString) :
    isBalanced isTypePart templates (type ++ s) = isBalanced isTypePart templates s := by
  induction type with
  | nil => rfl
  | cons c type ih =>
    rw [List.forall_mem_cons] at part
    have less : c ≠ '<' := ne_of_isNamePart part.1 (by decide)
    have greater : c ≠ '>' := ne_of_isNamePart part.1 (by decide)
    have slash : c ≠ '/' := ne_of_isNamePart part.1 (by decide)
    simp [isBalanced, less, greater, slash, isTypePart_of_part part.1, ih part.2]

theorem isBalanced_within {x : QString} (plain : ∀ c ∈ x, c ∉ ['<', '>', '/']) (s : QString) :
    isBalanced isTypePart (templates + 1) (x ++ s) = isBalanced isTypePart (templates + 1) s := by
  induction x with
  | nil => rfl
  | cons c x ih =>
    rw [List.forall_mem_cons] at plain
    simp only [List.mem_cons, List.not_mem_nil, or_false, not_or] at plain
    simp [isBalanced, plain.1, ih (by simpa using plain.2)]

theorem newline_not_mem_name (isName : isIdentifier type = true) : '\n' ∉ type := fun mem =>
  absurd (isNamePart_of_mem isName _ mem) (by decide)

theorem opened_name (isName : isIdentifier type = true) (const : type ≠ "const".toList) : Opened 0 type :=
  ⟨isBalanced_part (isNamePart_of_mem isName), ⟨type, [], (List.append_nil _).symm, isName, const, nofun⟩, newline_not_mem_name isName⟩

theorem Opened.append (opened : Opened templates type) {x : QString} {templates' : Nat}
    (balanced : ∀ s, isBalanced isTypePart templates (x ++ s) = isBalanced isTypePart templates' s)
    (inside : templates = 0 → x.head? = some '<') (oneLine : '\n' ∉ x) : Opened templates' (type ++ x) := by
  obtain ⟨name, rest, split, isName, const, begins⟩ := opened.begins
  refine ⟨fun s => by rw [List.append_assoc, opened.balanced, balanced],
    ⟨name, rest ++ x, by rw [split, List.append_assoc], isName, const, ?_⟩, by simp [opened.oneLine, oneLine]⟩
  cases rest with
  | cons d rest => exact begins
  | nil =>
    -- the name alone opens no template
    have outside : templates = 0 := by
      have empty := opened.balanced []
      rw [split, List.append_nil, List.append_nil, ← List.append_nil name, isBalanced_part (isNamePart_of_mem isName)] at empty
      exact of_decide_eq_true empty.symm
    rw [List.nil_append, inside outside]
    rintro c ⟨⟩
    rfl

theorem Opened.complete (opened : Opened 0 type) : type ≠ [] ∧ type ≠ "const".toList ∧ isBalanced isTypePart 0 type = true := by
  obtain ⟨name, rest, split, isName, const, begins⟩ := opened.begins
  refine ⟨by simp [split, identifier_ne_nil isName], fun is => ?_, by simpa [isBalanced] using opened.balanced []⟩
  cases rest with
  | nil => exact const (by rw [← is, split, List.append_nil])
  | cons c rest =>
    obtain rfl := begins c rfl
    have mem : '<' ∈ "const".toList := by simp [← is, split]
    exact absurd mem (by decide)

/-- A type contains parts of names. -/
theorem Opened.part (opened : Opened templates type) : ∃ c ∈ type, isNamePart c = true := by
  obtain ⟨name, rest, split, isName, -⟩ := opened.begins
  obtain ⟨c, mem⟩ := List.exists_mem_of_ne_nil _ (identifier_ne_nil isName)
  exact ⟨c, by simp [split, mem], isNamePart_of_mem isName c mem⟩

end Types

section Following
variable {qt : Core} {r : PodReading} {p q : RepParser qt.toSha1} {t : Token} {m n : GrammarState} {place : ParameterPlace} {templates : Nat}

/-- A parameter that has been read whole. -/
structure PodParameter.Complete (p : PodParameter) : Prop where
  qualifier : ∀ q ∈ p.qualifier, q ∈ qualifiers
  type : Opened 0 p.type
  name : isIdentifier p.name = true

/-- What has been read of a parameter at some place in it. -/
structure PodParameter.Begun (place : ParameterPlace) (templates : Nat) (p : PodParameter) : Prop where
  qualifier : ∀ q ∈ p.qualifier, q ∈ qualifiers
  type : if place = .qualified ∧ templates = 0 then p.type = [] else Opened templates p.type
  reference : p.reference = decide (place = .referenced ∧ templates = 0)
  inside : place = .before ∨ place = .comma → templates ≠ 0

def PodReading.text (r : PodReading) : QString := r.items.flatMap PodItem.text

def AllComplete (items : List PodItem) : Prop := ∀ p, .parameter p ∈ items → p.Complete

/-- The text that the parser has collected is that of the members. -/
def Follows (r : PodReading) (p : RepParser qt.toSha1) : GrammarState → Prop
  | .opening .pod | .pod _ _ | .enum (some .pod) _ => p.astPod.attributes = [] ∧ p.argString = r.text ∧ AllComplete r.items
  | .parameter place templates =>
    p.astPod.attributes = [] ∧ p.argString = r.text ++ r.current.front ∧ AllComplete r.items ∧ r.current.Begun place templates
  | _ => True

theorem scan_fields (p : RepParser qt.toSha1) (t : Token) : (p.scan t).astPod = p.astPod ∧ (p.scan t).argString = p.argString ∧
    (t.terminal.pattern.groups ≠ [] → (p.scan t).captured = t.captures) := by
  rw [RepParser.scan]
  split
  case isTrue none => exact ⟨rfl, rfl, fun some => absurd none some⟩
  case isFalse => exact ⟨rfl, rfl, fun _ => rfl⟩

theorem trimmed_identifier {s : QString} (isName : isIdentifier s = true) : trimmed s = s := trimmed_name (isNamePart_of_mem isName)

theorem allComplete_append {items : List PodItem} (all : AllComplete items) {item : PodItem} (one : ∀ p, item = .parameter p → p.Complete) :
    AllComplete (items ++ [item]) := by
  intro p mem
  rcases List.mem_append.mp mem with mem | mem
  · exact all p mem
  · exact one p (List.mem_singleton.mp mem).symm

theorem front_addType (r : PodReading) (x : QString) (unread : r.current.reference = false) :
    (r.addType x).current.front = r.current.front ++ x := by
  simp [PodReading.addType, PodParameter.front, unread]

/-- More of a type. -/
theorem begun_addType (begun : r.current.Begun place templates) (other : place ≠ .qualified ∨ templates ≠ 0) {x : QString}
    {place' : ParameterPlace} {templates' : Nat}
    (balanced : ∀ s, isBalanced isTypePart templates (x ++ s) = isBalanced isTypePart templates' s)
    (inside : templates = 0 → x.head? = some '<') (unread : place ≠ .referenced ∨ templates ≠ 0)
    (outermost : templates' = 0 → place' ≠ .qualified ∧ place' ≠ .referenced) (within : place' = .before ∨ place' = .comma → templates' ≠ 0)
    (oneLine : '\n' ∉ x) : (r.addType x).current.Begun place' templates' ∧ (r.addType x).current.front = r.current.front ++ x := by
  have reference : r.current.reference = false := by
    rw [begun.reference, decide_eq_false_iff_not]
    tauto
  have opened := begun.type
  rw [if_neg (by tauto)] at opened
  refine ⟨⟨begun.qualifier, ?_, ?_, within⟩, front_addType r x reference⟩
  · rw [if_neg (by tauto)]
    exact opened.append balanced inside oneLine
  · rw [show (r.addType x).current.reference = r.current.reference from rfl, reference]
    exact (decide_eq_false (by tauto)).symm

theorem nextTyped_cases {terminal : Terminal} (next : nextTyped templates terminal = some n) :
    terminal = .symbol ∧ templates = 0 ∧ n = .pod .member false ∨
    terminal = .comma ∧ templates ≠ 0 ∧ n = .parameter .comma templates ∨
    terminal = .tstop ∧ templates ≠ 0 ∧ n = .parameter .typed (templates - 1) := by
  fun_cases nextTyped templates terminal
  all_goals simp_all [nextTyped]

theorem nextParameter_cases {terminal : Terminal} (next : nextParameter place templates terminal = some n) :
    terminal = .newline ∧ place = .comma ∧ n = .parameter .comma templates ∨
    terminal = .qualifier ∧ (place = .before ∨ place = .comma) ∧ n = .parameter .qualified templates ∨
    terminal = .symbol ∧ place.isBehind = false ∧ n = .parameter .named templates ∨
    terminal = .tstart ∧ place = .named ∧ n = .parameter .before (templates + 1) ∨
    terminal = .passbyqual ∧ (place = .named ∨ place = .typed) ∧ n = .parameter .referenced templates ∨
    place.isBehind = true ∧ nextTyped templates terminal = some n := by
  fun_cases nextParameter place templates terminal
  all_goals simp_all [nextParameter, ParameterPlace.isBehind]

theorem follows_addText (r : PodReading) {p : RepParser qt.toSha1} {x : QString} (attributes : p.astPod.attributes = [])
    (text : p.argString = r.text ++ r.current.front) (all : AllComplete r.items)
    (more : (r.addType x).current.Begun place templates ∧ (r.addType x).current.front = r.current.front ++ x) :
    Follows (r.addType x) (p.addText x) (.parameter place templates) := by
  refine ⟨attributes, ?_, all, more.1⟩
  rw [more.2]
  change p.argString ++ x = r.text ++ (r.current.front ++ x)
  rw [text, List.append_assoc]

theorem isBalanced_qualifier {word : QString} (mem : word ∈ qualifiers) : ∀ c ∈ word ++ [' '], c ∉ ['<', '>', '/'] := by
  simp only [qualifiers, List.map_cons, List.map_nil, List.mem_cons, List.not_mem_nil, or_false] at mem
  rcases mem with rfl | rfl | rfl <;> simp

theorem newline_not_mem_qualifier {word : QString} (mem : word ∈ qualifiers) : '\n' ∉ word ++ [' '] := by
  have all : ∀ word ∈ qualifiers, '\n' ∉ word ++ [' '] := by decide
  exact all word mem

theorem trimmed_qualifier {word : QString} (mem : word ∈ qualifiers) : trimmed word = word := by
  simp only [qualifiers, List.map_cons, List.map_nil, List.mem_cons, List.not_mem_nil, or_false] at mem
  rcases mem with rfl | rfl | rfl <;> decide

theorem follows_parameter (follows : Follows r p (.parameter place templates)) (spelled : t.Spelled)
    (done : consumeParameter qt (p.scan t) place templates t.terminal = .ok q) (next : nextParameter place templates t.terminal = some n) :
    Follows (r.readParameter t place templates) q n := by
  obtain ⟨attributes, text, all, begun⟩ := follows
  obtain ⟨pod, args, captured_⟩ := scan_fields p t
  rw [← pod] at attributes
  rw [← args] at text
  generalize p.scan t = p at *
  rcases nextParameter_cases next with ⟨is, at_, rfl⟩ | ⟨is, at_, rfl⟩ | ⟨is, at_, rfl⟩ | ⟨is, at_, rfl⟩ | ⟨is, at_, rfl⟩ | ⟨at_, behind⟩
  · rw [is, at_] at done
    cases done
    rw [PodReading.readParameter, is]
    exact ⟨attributes, text, all, at_ ▸ begun⟩
  · have inside : templates ≠ 0 := begun.inside at_
    have word := spelled.qualifier is
    have value : p.value .value = captured t.captures .value := by
      rw [RepParser.value, captured_ (by rw [is]; decide)]
    have added : q = p.addText (captured t.captures .value ++ [' ']) := by
      rw [is] at done
      rw [← trimmed_qualifier word, ← value]
      rcases at_ with rfl | rfl <;> exact (Except.ok.inj done).symm
    rw [PodReading.readParameter, is, added]
    refine follows_addText r attributes text all (begun_addType begun ?_ ?_ ?_ ?_ ?_ ?_ (newline_not_mem_qualifier word))
    · exact .inr inside
    · intro s
      obtain ⟨k, rfl⟩ := Nat.exists_eq_succ_of_ne_zero inside
      exact isBalanced_within (isBalanced_qualifier word) s
    · exact fun outside => absurd outside inside
    · exact .inr inside
    · exact fun outside => absurd outside inside
    · simp
  · obtain ⟨isName, const⟩ := spelled.symbol is
    have symbol : p.readSymbol.symbol = captured t.captures .symbol := by
      change trimmed (captured p.captured .symbol) = _
      rw [captured_ (by rw [is]; decide), trimmed_identifier isName]
    have added : q = p.readSymbol.addText (captured t.captures .symbol) := by
      rw [is] at done
      rw [← symbol]
      cases place with
      | before | comma | qualified => exact (Except.ok.inj done).symm
      | named | typed | referenced => exact Bool.noConfusion at_
    rw [PodReading.readParameter, is, added]
    simp only [at_, Bool.false_eq_true, if_false]
    refine follows_addText (p := p.readSymbol) r attributes text all ?_
    by_cases first : place = .qualified ∧ templates = 0
    · have empty := begun.type
      rw [if_pos first] at empty
      have reference : r.current.reference = false := by rw [begun.reference, first.1]; rfl
      refine ⟨⟨begun.qualifier, ?_, ?_, by simp⟩, front_addType r _ reference⟩
      · rw [if_neg (by simp), first.2]
        change Opened 0 (r.current.type ++ _)
        rw [empty]
        exact opened_name isName const
      · exact reference.trans (by simp)
    · have inside : templates ≠ 0 := by
        cases place with
        | before => exact begun.inside (.inl rfl)
        | comma => exact begun.inside (.inr rfl)
        | qualified => simpa using first
        | named | typed | referenced => exact Bool.noConfusion at_
      refine begun_addType begun (.inr inside) (isBalanced_part (isNamePart_of_mem isName)) (fun outside => absurd outside inside)
        (.inr inside) (by simp) (by simp) (newline_not_mem_name isName)
  · have added : q = p.addText ['<'] := by
      rw [is, at_] at done
      exact (Except.ok.inj done).symm
    rw [PodReading.readParameter, is, added]
    exact follows_addText r attributes text all
      (begun_addType begun (by simp [at_]) (fun s => rfl) (fun _ => rfl) (by simp [at_]) (by simp) (by simp) (by decide))
  · have value : trimmed (p.value .value) = ['&'] := by
      rw [RepParser.value, captured_ (by rw [is]; decide), spelled.reference is]
      decide
    have added : q = p.addText " &".toList := by
      rw [is] at done
      rw [show " &".toList = ' ' :: trimmed (p.value .value) by rw [value]; rfl]
      rcases at_ with rfl | rfl <;> exact (Except.ok.inj done).symm
    have behind : place ≠ .qualified ∧ place ≠ .referenced := by rcases at_ with rfl | rfl <;> simp
    rw [PodReading.readParameter, is, added]
    by_cases outside : templates = 0
    · have unread : r.current.reference = false := by
        rw [begun.reference]
        simp [behind.2]
      have type := begun.type
      rw [if_neg (fun first => behind.1 first.1)] at type
      simp only [outside, if_true]
      refine ⟨attributes, ?_, all, ⟨begun.qualifier, ?_, by simp, by simp⟩⟩
      · change p.argString ++ " &".toList = r.text ++ PodParameter.front { r.current with reference := true }
        rw [text, List.append_assoc]
        simp [PodParameter.front, unread]
      · rw [if_neg (by simp)]
        rw [← outside]
        exact type
    · simp only [outside, if_false]
      refine follows_addText r attributes text all (begun_addType begun (.inr outside) ?_ (fun is => absurd is outside) (.inr outside) ?_ ?_
        (by decide))
      · intro s
        obtain ⟨k, rfl⟩ := Nat.exists_eq_succ_of_ne_zero outside
        exact isBalanced_within (by simp) s
      · exact fun is => absurd is outside
      · simp
  · have other : place ≠ .qualified := by
      rintro rfl
      exact Bool.noConfusion at_
    have type := begun.type
    rw [if_neg (fun first => other first.1)] at type
    rcases nextTyped_cases behind with ⟨is, outside, rfl⟩ | ⟨is, inside, rfl⟩ | ⟨is, inside, rfl⟩
    · obtain ⟨isName, -⟩ := spelled.symbol is
      have symbol : p.readSymbol.symbol = captured t.captures .symbol := by
        change trimmed (captured p.captured .symbol) = _
        rw [captured_ (by rw [is]; decide), trimmed_identifier isName]
      have added : q = p.readSymbol.addText (' ' :: captured t.captures .symbol) := by
        rw [is] at done
        rw [← symbol]
        cases place with
        | before | comma | qualified => exact Bool.noConfusion at_
        | named | typed | referenced => exact (Except.ok.inj done).symm
      rw [PodReading.readParameter, is, added]
      simp only [at_, if_true]
      refine ⟨attributes, ?_, allComplete_append all ?_⟩
      · change p.argString ++ ' ' :: captured t.captures .symbol = (r.named (captured t.captures .symbol)).text
        rw [text]
        simp [PodReading.text, PodReading.named, PodItem.text, PodParameter.text, PodParameter.front]
      · rintro _ ⟨⟩
        exact ⟨begun.qualifier, outside ▸ type, isName⟩
    · have added : q = p.addText [','] := by
        rw [is] at done
        cases place with
        | before | comma | qualified => exact Bool.noConfusion at_
        | named | typed | referenced => exact (Except.ok.inj done).symm
      rw [PodReading.readParameter, is, added]
      refine follows_addText r attributes text all (begun_addType begun (.inr inside) ?_ (fun is => absurd is inside) (.inr inside) ?_ ?_
        (by decide))
      · intro s
        obtain ⟨k, rfl⟩ := Nat.exists_eq_succ_of_ne_zero inside
        exact isBalanced_within (by simp) s
      · simp
      · exact fun _ => inside
    · have added : q = p.addText ['>'] := by
        rw [is] at done
        cases place with
        | before | comma | qualified => exact Bool.noConfusion at_
        | named | typed | referenced => exact (Except.ok.inj done).symm
      rw [PodReading.readParameter, is, added]
      refine follows_addText r attributes text all (begun_addType begun (.inr inside) ?_ (fun is => absurd is inside) (.inr inside) ?_ ?_
        (by decide))
      · intro s
        simp [isBalanced, Nat.pos_of_ne_zero inside]
      · simp
      · simp

/-- Actions that have to do with neither the POD nor the collected text. -/
def SamePod (p q : RepParser qt.toSha1) : Prop := q.astPod.attributes = p.astPod.attributes ∧ q.argString = p.argString

theorem samePod_enumStop (scope : Option Body) (p : RepParser qt.toSha1) : SamePod p (enumStop qt scope p) := by
  rcases scope with _ | _ | _ <;> exact ⟨rfl, rfl⟩

theorem samePod_enum {scope : Option Body} {enumPlace : EnumPlace} {terminal : Terminal} (done : consumeEnum qt p scope enumPlace terminal = .ok q) :
    SamePod p q := by
  revert done
  fun_cases consumeEnum qt p scope enumPlace terminal
  all_goals
    intro done
    cases done
    first
    | exact ⟨rfl, rfl⟩
    | exact samePod_enumStop scope _

theorem samePod_podFlag (done : p.podFlag = .ok q) : SamePod p q := by
  rw [RepParser.podFlag] at done
  split at done
  · cases done
  · cases done
    exact ⟨rfl, rfl⟩

theorem follows_pod {podPlace : PodPlace} {commented : Bool} (follows : Follows r p (.pod podPlace commented)) (spelled : t.Spelled)
    (done : consumePod qt (p.scan t) t.terminal = .ok q) (next : nextPod podPlace commented t.terminal = some n) :
    Follows (r.read t (.pod podPlace commented)) q n := by
  obtain ⟨attributes, text, all⟩ := follows
  obtain ⟨pod, args, captured_⟩ := scan_fields p t
  rw [← pod] at attributes
  rw [← args] at text
  generalize p.scan t = p at *
  rw [PodReading.read]
  cases is : t.terminal with
  | newline | comment | mcomment =>
    rw [is] at done next
    cases done
    cases next
    exact ⟨attributes, text, all⟩
  | enum =>
    rw [is] at done next
    cases done
    cases next
    exact ⟨attributes, text, all⟩
  | flag =>
    rw [is] at done next
    cases next
    obtain ⟨same, same'⟩ := samePod_podFlag done
    exact ⟨same.trans attributes, same'.trans text, all⟩
  | stop =>
    rw [is, nextPod] at next
    split at next
    · cases next
    · cases next
      trivial
  | comma =>
    rw [is] at done
    rw [is, nextPod] at next
    split at next
    · cases done
      cases next
      refine ⟨attributes, ?_, allComplete_append all (by rintro _ ⟨⟩)⟩
      change p.argString ++ [','] = PodReading.text { r with items := r.items ++ [.comma] }
      rw [text]
      simp [PodReading.text, PodItem.text]
    · cases next
  | qualifier =>
    have word := spelled.qualifier is
    have value : trimmed (p.value .value) = captured t.captures .value := by
      rw [RepParser.value, captured_ (by rw [is]; decide), trimmed_qualifier word]
    rw [is] at done
    rw [is, nextPod] at next
    split at next
    · cases next
    · cases next
      cases done
      refine ⟨attributes, ?_, all, ⟨?_, rfl, rfl, by simp⟩⟩
      · change p.argString ++ (trimmed (p.value .value) ++ [' ']) = r.text ++ PodParameter.front { qualifier := some (captured t.captures .value) }
        rw [text, value]
        simp [PodParameter.front]
      · rintro _ ⟨⟩
        exact word
  | symbol =>
    obtain ⟨isName, const⟩ := spelled.symbol is
    have symbol : trimmed (p.value .symbol) = captured t.captures .symbol := by
      rw [RepParser.value, captured_ (by rw [is]; decide), trimmed_identifier isName]
    rw [is] at done
    rw [is, nextPod] at next
    split at next
    · cases next
    · cases next
      cases done
      refine ⟨attributes, ?_, all, ⟨by rintro _ ⟨⟩, ?_, rfl, by simp⟩⟩
      · change p.argString ++ trimmed (p.value .symbol) = r.text ++ PodParameter.front { type := captured t.captures .symbol }
        rw [text, symbol]
        simp [PodParameter.front]
      · rw [if_neg (by simp)]
        exact opened_name isName const
  | _ =>
    rw [is] at next
    cases next

theorem Follows.same (follows : Follows r p m) (same : SamePod p q) : Follows r q m := by
  fun_cases Follows r p m
  all_goals simp_all [Follows, SamePod]

/-- Where nothing is known of the collected text. -/
def GrammarState.outsidePods : GrammarState → Bool
  | .global _ | .header _ | .opening .cls | .cls _ | .enum none _ | .enum (some .cls) _ => true
  | _ => false

/-- Between the members of a POD, within its enums and in front of its brace. -/
def GrammarState.betweenMembers : GrammarState → Bool
  | .opening .pod | .pod _ _ | .enum (some .pod) _ => true
  | _ => false

theorem follows_outside (outside : m.outsidePods = true) : Follows r p m := by
  fun_cases Follows r p m
  all_goals simp_all [GrammarState.outsidePods]

theorem follows_iff (between : m.betweenMembers = true) :
    Follows r p m ↔ p.astPod.attributes = [] ∧ p.argString = r.text ∧ AllComplete r.items := by
  fun_cases Follows r p m
  all_goals simp_all [GrammarState.betweenMembers]

theorem next_outside {terminal : Terminal} (outside : m.outsidePods = true) (next : m.next terminal = some n) :
    n.outsidePods = true ∨ m = .header .pod := by
  cases m with
  | global types =>
    change nextGlobal types terminal = some n at next
    revert next
    fun_cases nextGlobal types terminal
    all_goals
      rintro ⟨⟩
    all_goals exact .inl rfl
  | cls commented =>
    change nextCls commented terminal = some n at next
    revert next
    fun_cases nextCls commented terminal
    all_goals
      rintro ⟨⟩
    all_goals exact .inl rfl
  | header body =>
    cases body with
    | pod => exact .inr rfl
    | cls =>
      change nextHeader .cls terminal = some n at next
      revert next
      fun_cases nextHeader .cls terminal
      all_goals
        rintro ⟨⟩
      all_goals exact .inl rfl
  | opening body =>
    cases body with
    | pod => cases outside
    | cls =>
      change nextOpening .cls terminal = some n at next
      revert next
      fun_cases nextOpening .cls terminal
      all_goals
        rintro ⟨⟩
      all_goals exact .inl rfl
  | enum scope enumPlace =>
    change nextEnum scope enumPlace terminal = some n at next
    have same : (behindEnum scope).outsidePods = true := by rcases scope with _ | _ | _ <;> first | rfl | cases outside
    have others (enumPlace : EnumPlace) : (GrammarState.enum scope enumPlace).outsidePods = true := by
      rcases scope with _ | _ | _ <;> first | rfl | cases outside
    revert next
    fun_cases nextEnum scope enumPlace terminal
    all_goals
      rintro ⟨⟩
    all_goals first | exact .inl same | exact .inl (others _)
  | pod | parameter => cases outside

theorem next_opening {terminal : Terminal} (next : nextOpening .pod terminal = some n) : n.betweenMembers = true := by
  revert next
  fun_cases nextOpening .pod terminal
  all_goals
    rintro ⟨⟩
  all_goals rfl

theorem next_enum {enumPlace : EnumPlace} {terminal : Terminal} (next : nextEnum (some .pod) enumPlace terminal = some n) :
    n.betweenMembers = true := by
  revert next
  fun_cases nextEnum (some .pod) enumPlace terminal
  all_goals
    rintro ⟨⟩
  all_goals rfl

theorem follows_step {s u : State qt} (follows : Follows r s.parser s.mode) (spelled : t.Spelled) (step : s.step t = .ok u) :
    Follows (r.read t s.mode) u.parser u.mode := by
  obtain ⟨done, next⟩ := step_ok_iff.mp step
  have scanned_ : SamePod s.parser (s.parser.scan t) := by
    obtain ⟨pod, args, -⟩ := scan_fields s.parser t
    exact ⟨by rw [pod], args⟩
  by_cases outside : s.mode.outsidePods = true
  · rcases next_outside outside next with outside' | header
    · exact follows_outside outside'
    · rw [header] at done next ⊢
      generalize u.mode = n at next ⊢
      generalize u.parser = q at done ⊢
      cases is : t.terminal with
      | newline =>
        rw [is] at next
        cases next
        trivial
      | comment | mcomment | start =>
        rw [is] at done next
        cases done
        cases next
        exact ⟨rfl, rfl, nofun⟩
      | _ =>
        rw [is] at next
        cases next
  · generalize s.mode = m at *
    cases m with
    | pod podPlace commented => exact follows_pod follows spelled done next
    | parameter place templates => exact follows_parameter follows spelled done next
    | opening body =>
      cases body with
      | cls => exact absurd rfl outside
      | pod =>
        have same := follows.same scanned_
        rw [follows_iff (next_opening next), ← Except.ok.inj done]
        exact same
    | enum scope enumPlace =>
      rcases scope with _ | _ | _
      · exact absurd rfl outside
      · exact absurd rfl outside
      · obtain ⟨pod, args⟩ := samePod_enum done
        have same := follows.same ⟨pod.trans scanned_.1, args.trans scanned_.2⟩
        rw [follows_iff (next_enum next)]
        exact same
    | global | header | cls => exact absurd rfl outside

theorem follows_run {s u : State qt} {ts : List Token} (follows : Follows r s.parser s.mode) (spelled : ∀ t ∈ ts, t.Spelled)
    (run : s.run ts = .ok u) : Follows (readMembers s.mode r ts) u.parser u.mode := by
  induction ts generalizing s r with
  | nil =>
    cases run_nil.mp run
    exact follows
  | cons t ts ih =>
    obtain ⟨v, step, rest⟩ := run_cons.mp run
    rw [List.forall_mem_cons] at spelled
    rw [readMembers, (step_ok_iff.mp step).2]
    exact ih (follows_step follows spelled.1 step) spelled.2 rest

end Following

section Reading
variable {s q : TypeParser} {x y : QString} {depth : Nat} {p : PodParameter} {c : Char}

/-- Within a name or behind it. -/
structure TypeParser.Busy (depth : Nat) (s : TypeParser) : Prop where
  inVariable : s.inVariable = true
  inTemplate : s.inTemplate = decide (0 < depth)
  templateDepth : s.templateDepth = depth
  propertyType : s.propertyType ≠ [] ∧ s.propertyType ≠ "const".toList

/-- What is read behind the type changes neither the parameters before nor the names within the type. -/
structure TypeParser.Behind (s q : TypeParser) : Prop where
  arguments : q.arguments = s.arguments
  variableNameIndex : q.variableNameIndex = s.variableNameIndex
  names : q.propertyType.filter isNamePart = s.propertyType.filter isNamePart

theorem TypeParser.Behind.trans {r : TypeParser} (first : s.Behind q) (second : q.Behind r) : s.Behind r :=
  ⟨second.arguments.trans first.arguments, second.variableNameIndex.trans first.variableNameIndex, second.names.trans first.names⟩

def isNotComma (c : Char) : Bool := c ≠ ','

/-- A character that is no part of a name goes into the type. -/
theorem busy_append (type : QString) (other : isNamePart c = false) :
    (type ++ [c] ≠ [] ∧ type ++ [c] ≠ "const".toList) ∧ (type ++ [c]).filter isNamePart = type.filter isNamePart := by
  refine ⟨⟨by simp, fun is => ?_⟩, by simp [other]⟩
  have last : some c = some 't' := by
    rw [← List.getLast?_concat (l := type) (a := c), is]
    rfl
  rw [Option.some.inj last] at other
  exact absurd other (by decide)

theorem busy_read (busy : s.Busy depth) (balanced : isBalanced isNotComma depth (c :: x) = true) :
    ∃ depth', (s.read c).Busy depth' ∧ isBalanced isNotComma depth' x = true ∧ s.Behind (s.read c) := by
  obtain ⟨reading, templates, open_, type⟩ := busy
  rcases isBalanced_cons balanced with ⟨rfl, rest⟩ | ⟨rfl, inside, rest⟩ | ⟨less, greater, -, outer, rest⟩
  · obtain ⟨type', names⟩ := busy_append s.propertyType (c := '<') (by decide)
    exact ⟨depth + 1, ⟨reading, (decide_eq_true (Nat.succ_pos depth)).symm, by simp [TypeParser.read, open_], type'⟩, rest, rfl, rfl, names⟩
  · obtain ⟨type', names⟩ := busy_append s.propertyType (c := '>') (by decide)
    refine ⟨depth - 1, ⟨reading, ?_, ?_, type'⟩, rest, rfl, rfl, names⟩
    · change (s.inTemplate && decide (s.templateDepth - 1 ≠ 0)) = _
      rw [templates, open_, decide_eq_true inside, Bool.true_and]
      exact decide_eq_decide.mpr (by omega)
    · change s.templateDepth - 1 = _
      rw [open_]
      omega
  · refine ⟨depth, ?_⟩
    rw [and_left_comm]
    refine ⟨rest, ?_⟩
    rw [TypeParser.read, if_neg less, if_neg greater]
    split
    case isTrue space =>
      have other : isNamePart c = false := Bool.eq_false_iff.mpr fun part => by
        rw [isSpace_of_isNamePart part] at space
        exact Bool.noConfusion space
      obtain ⟨type', names⟩ := busy_append s.propertyType other
      split
      · exact ⟨⟨reading, templates, open_, type'⟩, rfl, rfl, names⟩
      · rw [if_neg type.1, if_neg type.2]
        exact ⟨⟨rfl, templates, open_, type⟩, rfl, rfl, rfl⟩
    case isFalse visible =>
      split
      · exact ⟨⟨reading, templates, open_, type⟩, rfl, rfl, rfl⟩
      split
      case isTrue comma =>
        have inside : 0 < depth := Nat.pos_of_ne_zero fun outside => absurd (outer outside) (by rw [comma]; decide)
        obtain ⟨type', names⟩ := busy_append s.propertyType (c := c) (by rw [comma]; decide)
        rw [if_pos (templates.trans (decide_eq_true inside))]
        exact ⟨⟨reading, templates, open_, type'⟩, rfl, rfl, names⟩
      · exact ⟨⟨reading, templates, open_, type⟩, rfl, rfl, rfl⟩

theorem busy_foldl (busy : s.Busy depth) (balanced : isBalanced isNotComma depth x = true) :
    (x.foldl TypeParser.read s).Busy 0 ∧ s.Behind (x.foldl TypeParser.read s) := by
  induction x generalizing s depth with
  | nil =>
    cases of_decide_eq_true balanced
    exact ⟨busy, rfl, rfl, rfl⟩
  | cons c x ih =>
    obtain ⟨depth', busy', rest, behind⟩ := busy_read busy balanced
    obtain ⟨done, behind'⟩ := ih busy' rest
    exact ⟨done, behind.trans behind'⟩

theorem isBalanced_mono {outside outside' : Char → Bool} (more : ∀ c, outside c = true → outside' c = true)
    (balanced : isBalanced outside depth x = true) : isBalanced outside' depth x = true := by
  induction x generalizing depth with
  | nil => exact balanced
  | cons c x ih =>
    rcases isBalanced_cons balanced with ⟨rfl, rest⟩ | ⟨rfl, inside, rest⟩ | ⟨less, greater, slash, outer, rest⟩
    · simpa [isBalanced] using ih rest
    · simpa [isBalanced, inside] using ih rest
    · have here : (0 < depth) ∨ outside' c = true := by
        by_cases outermost : depth = 0
        · exact .inr (more c (outer outermost))
        · exact .inl (Nat.pos_of_ne_zero outermost)
      simpa [isBalanced, less, greater, slash, here] using ih rest

theorem isBalanced_append {outside : Char → Bool} (first : isBalanced outside depth x = true) (second : isBalanced outside 0 y = true) :
    isBalanced outside depth (x ++ y) = true := by
  induction x generalizing depth with
  | nil =>
    cases of_decide_eq_true first
    exact second
  | cons c x ih =>
    rcases isBalanced_cons first with ⟨rfl, rest⟩ | ⟨rfl, inside, rest⟩ | ⟨less, greater, slash, outer, rest⟩
    · simpa [isBalanced] using ih rest
    · simpa [isBalanced, inside] using ih rest
    · have here : (0 < depth) ∨ outside c = true := by
        by_cases outermost : depth = 0
        · exact .inr (outer outermost)
        · exact .inl (Nat.pos_of_ne_zero outermost)
      simpa [isBalanced, less, greater, slash, here] using ih rest

theorem isBalanced_plain {outside : Char → Bool} (plain : ∀ c ∈ x, c ∉ ['<', '>', '/'] ∧ outside c = true) : isBalanced outside 0 x = true := by
  induction x with
  | nil => rfl
  | cons c x ih =>
    rw [List.forall_mem_cons] at plain
    simp only [List.mem_cons, List.not_mem_nil, or_false, not_or] at plain
    simpa [isBalanced, plain.1] using ih (by simpa using plain.2)

theorem isNotComma_of_part (part : isNamePart c = true) : c ∉ ['<', '>', '/'] ∧ isNotComma c = true := by
  have other (d : Char) (bad : isNamePart d = false) : c ≠ d := ne_of_isNamePart part bad
  simp [other '<' (by decide), other '>' (by decide), other '/' (by decide), isNotComma, other ',' (by decide)]

/-- A reference, a space and the name. -/
def PodParameter.tail (p : PodParameter) : QString := (if p.reference then " &".toList else []) ++ ' ' :: p.name

theorem text_eq (p : PodParameter) : p.text = (p.qualifier.elim [] fun q => q ++ [' ']) ++ (p.type ++ p.tail) := by
  simp [PodParameter.text, PodParameter.front, PodParameter.tail]

theorem tail_balanced (isName : isIdentifier p.name = true) : isBalanced isNotComma 0 p.tail = true := by
  have name : isBalanced isNotComma 0 (' ' :: p.name) = true := by
    refine isBalanced_plain fun c mem => ?_
    rcases List.mem_cons.mp mem with rfl | mem
    · decide
    · exact isNotComma_of_part (isNamePart_of_mem isName c mem)
  cases is : p.reference with
  | false => simpa [PodParameter.tail, is] using name
  | true => exact isBalanced_append (x := if p.reference then " &".toList else []) (by rw [is]; decide) name

theorem type_balanced (complete : p.Complete) : isBalanced isNotComma 0 p.type = true :=
  isBalanced_mono (fun _ part => decide_eq_true (isTypePart_cases part).2.1) complete.type.complete.2.2

theorem part_of_qualifier {word : QString} (mem : word ∈ qualifiers) : ∀ c ∈ word, isNamePart c = true := by
  have all : ∀ word ∈ qualifiers, ∀ c ∈ word, isNamePart c = true := by decide
  exact all word mem

theorem text_balanced (complete : p.Complete) : isBalanced isNotComma 0 p.text = true := by
  rw [text_eq]
  refine isBalanced_append ?_ (isBalanced_append (type_balanced complete) (tail_balanced complete.name))
  have qualifier := complete.qualifier
  cases is : p.qualifier with
  | none => rfl
  | some word =>
    refine isBalanced_plain fun c mem => ?_
    rcases List.mem_append.mp mem with mem | mem
    · exact isNotComma_of_part (part_of_qualifier (qualifier word is) c mem)
    · rw [List.mem_singleton.mp mem]
      decide

/-- A parameter that is read within another one. -/
theorem busy_text (busy : s.Busy 0) (complete : p.Complete) :
    (p.text.foldl TypeParser.read s).Busy 0 ∧ s.Behind (p.text.foldl TypeParser.read s) :=
  busy_foldl busy (text_balanced complete)

/-- The first space behind a type. -/
theorem busy_space (outside : s.inTemplate = false) (depth : s.templateDepth = 0) (type : s.propertyType ≠ [])
    (const : s.propertyType ≠ "const".toList) : (s.read ' ').Busy 0 ∧ s.Behind (s.read ' ') := by
  rw [read_space (by decide) outside, if_neg type, if_neg const]
  exact ⟨⟨rfl, outside, depth, type, const⟩, rfl, rfl, rfl⟩

theorem tail_begins (p : PodParameter) : ∃ rest, p.tail = ' ' :: rest := by
  cases is : p.reference with
  | false => exact ⟨p.name, by simp [PodParameter.tail, is]⟩
  | true => exact ⟨'&' :: ' ' :: p.name, by simp [PodParameter.tail, is]⟩

/-- Behind a type everything is a name. -/
theorem busy_tail (outside : s.inTemplate = false) (depth : s.templateDepth = 0) (type : s.propertyType ≠ [])
    (const : s.propertyType ≠ "const".toList) (isName : isIdentifier p.name = true) :
    (p.tail.foldl TypeParser.read s).Busy 0 ∧ s.Behind (p.tail.foldl TypeParser.read s) := by
  have balanced := tail_balanced isName
  obtain ⟨rest, is⟩ := tail_begins p
  rw [is] at balanced ⊢
  obtain ⟨busy, behind⟩ := busy_space outside depth type const
  have balanced' : isBalanced isNotComma 0 rest = true := by simpa [isBalanced, isNotComma] using balanced
  obtain ⟨busy', behind'⟩ := busy_foldl busy balanced'
  exact ⟨busy', behind.trans behind'⟩

def singleSpace : Gap := [.space ' ' blank_space]

/-- A parameter with a `const` or without qualifiers as a text with spaces. -/
def PodParameter.spaced (p : PodParameter) (complete : p.Complete) : ParameterText where
  front := []
  constant := if p.qualifier.isSome then some singleSpace else none
  type := .single p.type complete.type.complete
  behindType := singleSpace
  reference := if p.reference then some singleSpace else none
  name := some (p.name, [])
  isName := by
    rintro _ ⟨⟩
    exact complete.name

theorem spaced_fits (complete : p.Complete) (plain : '&' ∉ p.type) : (p.spaced complete).Fits := by
  refine ⟨⟨complete.type.oneLine, plain⟩, fun g mem => ?_, fun _ => .inl (by simp [PodParameter.spaced, singleSpace, Gap.kept, Spacing.kept])⟩
  cases is : p.qualifier with
  | none => simp [PodParameter.spaced, is] at mem
  | some word =>
    obtain rfl : singleSpace = g := by simpa [PodParameter.spaced, is] using mem
    decide

theorem spaced_kept (complete : p.Complete) (const : ∀ q ∈ p.qualifier, q = "const".toList) :
    (p.spaced complete).kept = p.text ∧ (p.spaced complete).text = p.text := by
  have space : singleSpace.kept = [' '] ∧ singleSpace.text = [' '] := by decide
  have nothing : Gap.kept [] = [] ∧ Gap.text [] = [] := by decide
  rw [text_eq]
  cases is : p.qualifier with
  | none =>
    cases reference : p.reference <;>
      simp [ParameterText.kept, ParameterText.text, PodParameter.spaced, is, reference, space, nothing, TypeText.kept, TypeText.text,
        PodParameter.tail]
  | some word =>
    obtain rfl := const word is
    cases reference : p.reference <;>
      simp [ParameterText.kept, ParameterText.text, PodParameter.spaced, is, reference, space, nothing, TypeText.kept, TypeText.text,
        PodParameter.tail]

theorem podAttribute_eq (const : ∀ q ∈ p.qualifier, q = "const".toList) : p.podAttribute = ⟨p.type, p.name⟩ := by
  cases is : p.qualifier with
  | none => simp [PodParameter.podAttribute, is]
  | some word => simp [PodParameter.podAttribute, is, const word is]

/-- The type of a parameter that begins with another qualifier is that qualifier for the parser. -/
theorem podAttribute_names (complete : p.Complete) {word : QString} (is : p.qualifier = some word) (other : word ≠ "const".toList) :
    (p.podAttribute.type).filter isNamePart ≠ word.filter isNamePart := by
  obtain ⟨c, mem, part⟩ := complete.type.part
  intro same
  have longer := congrArg List.length same
  have some : 0 < (p.type.filter isNamePart).length := List.length_pos_of_mem (List.mem_filter.mpr ⟨mem, part⟩)
  simp only [PodParameter.podAttribute, is, Option.elim_some, other, if_false, List.filter_append, List.length_append] at longer
  omega

/-- A parameter is read whole behind a comma, where `unsigned` and `signed` do not stand in front of its type. -/
theorem fresh_fitting (fresh : s.Fresh) (complete : p.Complete) (plain : '&' ∉ p.type) (const : ∀ q ∈ p.qualifier, q = "const".toList) :
    (p.text.foldl TypeParser.read s).declaration.type = p.type ∧ (p.text.foldl TypeParser.read s).declaration.name = p.name := by
  have fits := spaced_fits complete plain
  obtain ⟨beside, type, rest⟩ := foldl_read_parameter (p := p.spaced complete) fresh ⟨complete.type.oneLine, plain⟩
  have same := declaration_of_fits beside (type.mpr fits) (rest fits)
  rw [(spaced_kept complete const).1] at same
  rw [same]
  exact ⟨rfl, rfl⟩

theorem busy_type (outside : s.inTemplate = false) (depth : s.templateDepth = 0) (reading : s.inVariable = false) (empty : s.propertyType = [])
    (complete : p.Complete) (plain : '&' ∉ p.type) :
    ((p.type ++ p.tail).foldl TypeParser.read s).Busy 0 ∧ ((p.type ++ p.tail).foldl TypeParser.read s).arguments = s.arguments := by
  obtain ⟨nonempty, const, balanced⟩ := complete.type.complete
  rw [List.foldl_append, foldl_read_balanced balanced plain outside depth reading]
  obtain ⟨busy, behind⟩ := busy_tail (p := p)
    (s := { s with propertyType := s.propertyType ++ p.type, inTemplate := false, templateDepth := 0 }) rfl rfl
    (by rw [empty]; exact nonempty) (by rw [empty]; exact const) complete.name
  exact ⟨busy, behind.arguments⟩

/-- What is read of a parameter that begins behind a comma. -/
theorem fresh_text (fresh : s.Fresh) (complete : p.Complete) (plain : '&' ∉ p.type) {q : TypeParser} (run : p.text.foldl TypeParser.read s = q) :
    q.Busy 0 ∧ q.arguments = s.arguments ∧
      ((⟨q.declaration.type, q.declaration.name⟩ : PODAttribute) = p.podAttribute ↔ ∀ q ∈ p.qualifier, q = "const".toList) := by
  have fitting (const : ∀ q ∈ p.qualifier, q = "const".toList) :
      ((⟨q.declaration.type, q.declaration.name⟩ : PODAttribute) = p.podAttribute ↔ ∀ q ∈ p.qualifier, q = "const".toList) := by
    obtain ⟨type, name⟩ := fresh_fitting fresh complete plain const
    rw [run] at type name
    exact iff_of_true (by rw [podAttribute_eq const, type, name]) const
  obtain ⟨type, name, constant, reference, inVariable, inTemplate, depth⟩ := fresh
  have split := run
  rw [text_eq] at split
  cases is : p.qualifier with
  | none =>
    rw [is] at split
    obtain ⟨busy, arguments⟩ := busy_type (p := p) inTemplate depth inVariable type complete plain
    rw [← is, ← split]
    refine ⟨busy, arguments, ?_⟩
    have same := fitting (by simp [is])
    rw [← split] at same
    exact same
  | some word =>
    have first : word.foldl TypeParser.read s = { s with propertyType := word } := by
      rw [foldl_read_part (part_of_qualifier (complete.qualifier word is)), if_neg (by rw [inVariable]; exact Bool.false_ne_true), type]
      rfl
    rw [is, Option.elim_some, List.append_assoc, List.foldl_append, first, List.singleton_append, List.foldl_cons] at split
    by_cases const : word = "const".toList
    · have cleared : TypeParser.read { s with propertyType := word } ' ' = { s with propertyType := [], constant := true } := by
        rw [read_space (by decide), if_neg (by simp [const]), if_pos const]
        exact inTemplate
      rw [cleared] at split
      obtain ⟨busy, arguments⟩ := busy_type (p := p) (s := { s with propertyType := [], constant := true }) inTemplate depth inVariable rfl
        complete plain
      rw [split] at busy arguments
      rw [← is]
      exact ⟨busy, arguments, fitting (by simp [is, const])⟩
    · have nonempty : word ≠ [] := by
        have all : ∀ word ∈ qualifiers, word ≠ [] := by decide
        exact all word (complete.qualifier word is)
      obtain ⟨busy, behind⟩ := busy_space (s := { s with propertyType := word }) inTemplate depth nonempty const
      obtain ⟨busy', behind'⟩ := busy_foldl busy (isBalanced_append (type_balanced complete) (tail_balanced complete.name))
      rw [split] at busy' behind'
      refine ⟨busy', behind'.arguments.trans behind.arguments, iff_of_false (fun same => ?_) (fun all => const (all word rfl))⟩
      have names : q.propertyType.filter isNamePart = word.filter isNamePart := behind'.names.trans behind.names
      refine podAttribute_names complete is const ?_
      rw [← same]
      exact names

end Reading

section Items
variable {s q : TypeParser} {p : PodParameter} {items : List PodItem}

/-- No references within templates. -/
def PlainTypes (items : List PodItem) : Prop := ∀ p, .parameter p ∈ items → '&' ∉ p.type

theorem foldl_items (item : PodItem) (items : List PodItem) (s : TypeParser) :
    ((item :: items).flatMap PodItem.text).foldl TypeParser.read s = (items.flatMap PodItem.text).foldl TypeParser.read (item.text.foldl TypeParser.read s) := by
  rw [List.flatMap_cons, List.foldl_append]

theorem busy_comma (busy : s.Busy 0) : (s.read ',').Fresh ∧ (s.read ',').arguments = s.arguments ++ [s.declaration] := by
  obtain ⟨fresh, arguments, -⟩ := read_comma busy.inTemplate busy.templateDepth
  exact ⟨fresh, arguments⟩

theorem fresh_comma (fresh : s.Fresh) : (s.read ',').Fresh ∧ (s.read ',').arguments = s.arguments ++ [s.declaration] := by
  obtain ⟨fresh', arguments, -⟩ := read_comma fresh.inTemplate fresh.templateDepth
  exact ⟨fresh', arguments⟩

theorem finish_busy (busy : s.Busy 0) : s.finish = s.arguments ++ [s.declaration] := by
  rw [TypeParser.finish, if_neg busy.propertyType.1, generate_arguments]

theorem finish_fresh (fresh : s.Fresh) : s.finish = s.arguments := by
  rw [TypeParser.finish, if_pos fresh.propertyType]

/-- Without empty types there are at most as many declarations as parameters. -/
theorem count_declarations (items : List PodItem) (complete : AllComplete items) (plain : PlainTypes items) :
    (∀ s : TypeParser, s.Fresh → ∃ out, ((items.flatMap PodItem.text).foldl TypeParser.read s).finish = s.arguments ++ out ∧
      ((∀ d ∈ out, d.type ≠ []) → out.length ≤ (items.filterMap PodItem.parameter?).length)) ∧
    ∀ s : TypeParser, s.Busy 0 → ∃ out, ((items.flatMap PodItem.text).foldl TypeParser.read s).finish = s.arguments ++ out ∧
      ((∀ d ∈ out, d.type ≠ []) → out.length ≤ (items.filterMap PodItem.parameter?).length + 1) := by
  induction items with
  | nil =>
    refine ⟨fun s fresh => ⟨[], ?_, fun _ => le_rfl⟩, fun s busy => ⟨[s.declaration], finish_busy busy, fun _ => le_rfl⟩⟩
    rw [List.append_nil]
    exact finish_fresh fresh
  | cons item items ih =>
    obtain ⟨ihFresh, ihBusy⟩ := ih (fun p mem => complete p (List.mem_cons_of_mem _ mem)) (fun p mem => plain p (List.mem_cons_of_mem _ mem))
    simp only [foldl_items]
    cases item with
    | comma =>
      constructor
      · intro s fresh
        obtain ⟨fresh', arguments⟩ := fresh_comma fresh
        obtain ⟨out, finish, -⟩ := ihFresh _ fresh'
        refine ⟨s.declaration :: out, ?_, fun types => absurd fresh.propertyType (types s.declaration List.mem_cons_self)⟩
        rw [List.append_cons, ← arguments]
        exact finish
      · intro s busy
        obtain ⟨fresh', arguments⟩ := busy_comma busy
        obtain ⟨out, finish, count⟩ := ihFresh _ fresh'
        refine ⟨s.declaration :: out, ?_, fun types => ?_⟩
        · rw [List.append_cons, ← arguments]
          exact finish
        · rw [List.forall_mem_cons] at types
          exact Nat.succ_le_succ (count types.2)
    | parameter p =>
      have whole := complete p List.mem_cons_self
      constructor
      · intro s fresh
        obtain ⟨busy, arguments, -⟩ := fresh_text fresh whole (plain p List.mem_cons_self) rfl
        obtain ⟨out, finish, count⟩ := ihBusy _ busy
        refine ⟨out, ?_, count⟩
        rw [← arguments]
        exact finish
      · intro s busy
        obtain ⟨busy', behind⟩ := busy_text busy whole
        obtain ⟨out, finish, count⟩ := ihBusy _ busy'
        refine ⟨out, ?_, fun types => (count types).trans (Nat.le_succ _)⟩
        rw [← behind.arguments]
        exact finish

theorem podAttribute_ne_nil (complete : p.Complete) : p.podAttribute.type ≠ [] :=
  List.append_ne_nil_of_right_ne_nil _ complete.type.complete.1

theorem types_of_attributes {out : List ASTDeclaration} (complete : AllComplete items)
    (same : declaredAttributes out = (items.filterMap PodItem.parameter?).map PodParameter.podAttribute) : ∀ d ∈ out, d.type ≠ [] := by
  intro d mem
  have attribute_ : (⟨d.type, d.name⟩ : PODAttribute) ∈ (items.filterMap PodItem.parameter?).map PodParameter.podAttribute := by
    rw [← same]
    exact List.mem_map_of_mem mem
  obtain ⟨p, mem, is⟩ := List.mem_map.mp attribute_
  obtain ⟨item, mem, is'⟩ := List.mem_filterMap.mp mem
  cases item with
  | comma => cases is'
  | parameter p' =>
    cases is'
    intro empty
    exact podAttribute_ne_nil (complete p mem) ((congrArg PODAttribute.type is).trans empty)

/-- The parameters are read as they are if and only if they fit, and parameters and commas alternate. -/
theorem read_items_iff (fresh : s.Fresh) (complete : AllComplete items) (plain : PlainTypes items) :
    ∃ out, ((items.flatMap PodItem.text).foldl TypeParser.read s).finish = s.arguments ++ out ∧
      (declaredAttributes out = (items.filterMap PodItem.parameter?).map PodParameter.podAttribute ↔
        Alternate items ∧ ∀ p, .parameter p ∈ items → ∀ q ∈ p.qualifier, q = "const".toList) := by
  fun_induction Alternate items generalizing s with
  | case1 => exact ⟨[], by rw [List.append_nil]; exact finish_fresh fresh, by simp [declaredAttributes]⟩
  | case2 items =>
    obtain ⟨fresh', arguments⟩ := fresh_comma fresh
    obtain ⟨out, finish, -⟩ := (count_declarations items (fun p mem => complete p (List.mem_cons_of_mem _ mem))
      fun p mem => plain p (List.mem_cons_of_mem _ mem)).1 _ fresh'
    refine ⟨s.declaration :: out, ?_, iff_of_false (fun same => ?_) fun fits => fits.1⟩
    · rw [List.append_cons, ← arguments, ← finish, foldl_items]
      rfl
    · exact types_of_attributes complete same s.declaration List.mem_cons_self fresh.propertyType
  | case3 p =>
    obtain ⟨busy, arguments, attribute_⟩ := fresh_text fresh (complete p List.mem_cons_self) (plain p List.mem_cons_self) rfl
    refine ⟨[(p.text.foldl TypeParser.read s).declaration], ?_, ?_⟩
    · rw [foldl_items, ← arguments]
      exact finish_busy busy
    · simpa [declaredAttributes, PodItem.parameter?] using attribute_
  | case4 p p' items =>
    obtain ⟨busy, arguments, -⟩ := fresh_text fresh (complete p List.mem_cons_self) (plain p List.mem_cons_self) rfl
    obtain ⟨busy', behind⟩ := busy_text busy (complete p' (by simp))
    obtain ⟨out, finish, count⟩ := (count_declarations items (fun p mem => complete p (by simp [mem]))
      fun p mem => plain p (by simp [mem])).2 _ busy'
    refine ⟨out, ?_, iff_of_false (fun same => ?_) fun fits => fits.1⟩
    · rw [foldl_items, foldl_items, ← arguments, ← behind.arguments]
      exact finish
    · have length := congrArg List.length same
      have fewer := count (types_of_attributes complete same)
      simp only [declaredAttributes, List.length_map, List.filterMap_cons, PodItem.parameter?, List.length_cons] at length
      omega
  | case5 p items ih =>
    obtain ⟨busy, arguments, attribute_⟩ := fresh_text fresh (complete p List.mem_cons_self) (plain p List.mem_cons_self) rfl
    obtain ⟨fresh', arguments'⟩ := busy_comma busy
    obtain ⟨out, finish, same_iff⟩ := ih fresh' (fun p mem => complete p (by simp [mem])) fun p mem => plain p (by simp [mem])
    refine ⟨(p.text.foldl TypeParser.read s).declaration :: out, ?_, ?_⟩
    · rw [foldl_items, foldl_items, List.append_cons, ← arguments, ← arguments']
      exact finish
    · rw [declaredAttributes, List.map_cons, List.filterMap_cons, List.filterMap_cons]
      simp only [PodItem.parameter?, List.map_cons, List.cons.injEq, attribute_]
      rw [← declaredAttributes, same_iff]
      simp only [List.mem_cons, PodItem.parameter.injEq, reduceCtorEq, false_or]
      constructor
      · rintro ⟨first, alternate, others⟩
        refine ⟨alternate, ?_⟩
        rintro p' (rfl | mem)
        · exact first
        · exact others p' mem
      · rintro ⟨alternate, all⟩
        exact ⟨all p (.inl rfl), alternate, fun p' mem => all p' (.inr mem)⟩

end Items

section Main
variable {p : PodParameter} {ps : List PodParameter} {items : List PodItem}

theorem newline_not_mem_text (complete : p.Complete) : '\n' ∉ p.text ∧ ∀ t, p.text ≠ t ++ ['\r'] := by
  have part := isNamePart_of_mem complete.name
  constructor
  · rw [text_eq, PodParameter.tail]
    have name : '\n' ∉ p.name := newline_not_mem_name complete.name
    have qualifier := complete.qualifier
    cases is : p.qualifier with
    | none => simp [complete.type.oneLine, name]
    | some word =>
      have first := newline_not_mem_qualifier (qualifier word is)
      rw [List.mem_append] at first
      simp [complete.type.oneLine, name, not_or.mp first]
  · intro t is
    obtain empty | ⟨front, c, last⟩ := List.eq_nil_or_concat p.name
    · exact identifier_ne_nil complete.name empty
    · have split : (p.front ++ ' ' :: front) ++ [c] = t ++ ['\r'] := by rw [← is, PodParameter.text, last]; simp
      obtain ⟨-, same⟩ := List.append_inj' split rfl
      cases same
      exact absurd (part '\r' (by simp [last])) (by decide)

/-- The collected text has neither comments nor line breaks. -/
theorem stripArgs_items (complete : AllComplete items) : stripArgs (items.flatMap PodItem.text) = items.flatMap PodItem.text := by
  induction items with
  | nil => rfl
  | cons item items ih =>
    rw [List.flatMap_cons]
    have rest := ih fun p mem => complete p (List.mem_cons_of_mem _ mem)
    cases item with
    | comma =>
      have comma := stripArgs_comma (items.flatMap PodItem.text)
      rw [rest] at comma
      exact comma
    | parameter p =>
      have whole := complete p List.mem_cons_self
      obtain ⟨line, ends⟩ := newline_not_mem_text whole
      have slash := isBalanced_mem (text_balanced whole)
      refine (stripArgs_line (fun c mem => ⟨?_, ?_⟩) ends _).trans (congrArg (p.text ++ ·) rest)
      · rintro rfl
        exact line mem
      · rintro rfl
        exact slash mem

/-- The attributes that are appended to the POD are those of its parameters exactly if these fit. -/
theorem parseArguments_items (complete : AllComplete items) :
    declaredAttributes (parseArguments (items.flatMap PodItem.text)) = (items.filterMap PodItem.parameter?).map PodParameter.podAttribute ↔
      Alternate items ∧ ∀ p ∈ items.filterMap PodItem.parameter?, p.Fits := by
  have mem_iff (p : PodParameter) : p ∈ items.filterMap PodItem.parameter? ↔ .parameter p ∈ items := by
    rw [List.mem_filterMap]
    constructor
    · rintro ⟨_ | _, mem, is⟩
      · cases is
        exact mem
      · cases is
    · exact fun mem => ⟨_, mem, rfl⟩
  by_cases plain : PlainTypes items
  · obtain ⟨out, finish, same_iff⟩ := read_items_iff (s := {}) ⟨rfl, rfl, rfl, rfl, rfl, rfl, rfl⟩ complete plain
    have read : parseArguments (items.flatMap PodItem.text) = out := by
      rw [parseArguments_eq, stripArgs_items complete]
      exact finish
    rw [read, same_iff]
    refine and_congr_right fun _ => forall_congr' fun p => ?_
    rw [mem_iff]
    exact forall_congr' fun mem => ⟨fun const => ⟨const, plain p mem⟩, fun fits => fits.qualifier⟩
  · refine iff_of_false (fun same => plain fun p mem reference => ?_) fun fits => plain fun p mem => (fits.2 p ((mem_iff p).mpr mem)).type
    -- the parser takes references out of types
    have attribute_ : p.podAttribute ∈ declaredAttributes (parseArguments (items.flatMap PodItem.text)) := by
      rw [same]
      exact List.mem_map_of_mem ((mem_iff p).mpr mem)
    obtain ⟨arg, read, is⟩ := List.mem_map.mp attribute_
    refine type_of_mem_parseArguments (.inl rfl) _ arg read ?_
    rw [show arg.type = p.podAttribute.type from congrArg PODAttribute.type is]
    exact List.mem_append_right _ reference

/-- One text behind a comma and a space for each of the other parameters. -/
theorem exists_spaced (complete : ∀ p ∈ ps, p.Complete) (fits : ∀ p ∈ ps, p.Fits) :
    ∃ qs : List ParameterText, qs.map ParameterText.text = ps.map (fun p => ' ' :: p.text) ∧ (∀ q ∈ qs, q.Fits) ∧
      ∀ index, declaredAttributes (declarationsFrom index qs) = ps.map PodParameter.podAttribute := by
  induction ps with
  | nil => exact ⟨[], rfl, nofun, fun _ => rfl⟩
  | cons p ps ih =>
    rw [List.forall_mem_cons] at complete fits
    obtain ⟨qs, texts, all, attributes⟩ := ih complete.2 fits.2
    have first := spaced_fits complete.1 fits.1.type
    refine ⟨{ p.spaced complete.1 with front := singleSpace } :: qs, ?_, ?_, fun index => ?_⟩
    · rw [List.map_cons, List.map_cons, texts, ← (spaced_kept complete.1 fits.1.qualifier).2]
      rfl
    · exact List.forall_mem_cons.mpr ⟨⟨first.type, first.constant, first.name⟩, all⟩
    · rw [declarationsFrom, declaredAttributes, List.map_cons, ← declaredAttributes, attributes, List.map_cons, podAttribute_eq fits.1.qualifier]
      rfl

theorem join_spaced (text : QString) (texts : List QString) :
    join [','] (text :: texts.map (' ' :: ·)) = join ", ".toList (text :: texts) := by
  induction texts generalizing text with
  | nil => rfl
  | cons other texts ih =>
    have head (front : QString) (others : List QString) (separator : QString) :
        join separator ((' ' :: front) :: others) = ' ' :: join separator (front :: others) := by cases others <;> rfl
    rw [List.map_cons, join_cons_cons, join_cons_cons, head, ih]
    simp

/-- Between parentheses parameters that fit are read as they are. -/
theorem parseArguments_parenthesised (complete : ∀ p ∈ ps, p.Complete) (fits : ∀ p ∈ ps, p.Fits) :
    declaredAttributes (parseArguments (trimmed (parenthesised ps))) = ps.map PodParameter.podAttribute := by
  cases ps with
  | nil => rfl
  | cons p ps =>
    rw [List.forall_mem_cons] at complete fits
    obtain ⟨qs, texts, all, attributes⟩ := exists_spaced complete.2 fits.2
    have first := spaced_fits complete.1 fits.1.type
    have text : parenthesised (p :: ps) = (ParameterList.mk [] (p.spaced complete.1 :: qs)).text := by
      have others : ps.map (fun p => ' ' :: p.text) = (ps.map PodParameter.text).map (' ' :: ·) := by rw [List.map_map]; rfl
      rw [ParameterList.text, List.map_cons, texts, others, (spaced_kept complete.1 fits.1.qualifier).2, join_spaced]
      rfl
    have reads := parseArguments_readsAs (ParameterList.mk [] (p.spaced complete.1 :: qs))
    rw [text, reads.declarations (List.forall_mem_cons.mpr ⟨first, all⟩), declarationsFrom, declaredAttributes, List.map_cons,
      ← declaredAttributes, attributes, List.map_cons, podAttribute_eq fits.1.qualifier]
    rfl

/-- A POD between braces has its parameters as attributes, and the same ones as between parentheses, exactly if a comma and nothing but it
stands between any two of them, there is none before them and at most one behind them, each fits, and no word begins with `ENUM`. -/
theorem bracketPod_iff {qt : Core} {text : QString} {ts rest : List Token} {close : Token} {s u : State qt} {place : PodPlace}
    {commented : Bool} (parser : RepParser qt.toSha1) (tokens : (scanned text).1 = ts ++ close :: rest) (run : State.run {} ts = .ok s)
    (within : s.mode = .pod place commented) (stop : close.terminal = .stop) (closes : s.step close = .ok u)
    (types : parser.value .types = parenthesised (podParameters ts)) :
    ∃ pod, u.parser.ast.pods = s.parser.ast.pods ++ [pod] ∧
      (pod.attributes = (podParameters ts).map PodParameter.podAttribute ∧
        parser.pod qt.isLetterOrNumber = .ok (if trimmed (parenthesised (podParameters ts)) = [] then parser
          else parser.appendPod (parser.parenthesisedPod pod.attributes)) ↔
      Alternate (podItems ts) ∧ (∀ p ∈ podParameters ts, p.Fits) ∧
        ∀ word ∈ (trimmed (parenthesised (podParameters ts))).splitOn ' ', RepParser.startsEnum qt.isLetterOrNumber word = false) := by
  have spelled : ∀ t ∈ ts, t.Spelled := fun t mem => spelled_of_mem_scanned text t (by simp [tokens, mem])
  have follows := follows_run (r := {}) (s := ({} : State qt)) trivial spelled run
  rw [within] at follows
  obtain ⟨attributes, collected, complete⟩ := follows
  obtain ⟨done, -⟩ := step_ok_iff.mp closes
  rw [within, stop] at done
  obtain ⟨pod, args, -⟩ := scan_fields s.parser close
  have ast : (s.parser.scan close).ast = s.parser.ast := by
    rw [RepParser.scan]
    split <;> rfl
  refine ⟨RepParser.appendPods (s.parser.scan close).astPod (parseArguments (s.parser.scan close).argString), ?_, ?_⟩
  · rw [← Except.ok.inj done, ← ast]
    rfl
  · have appended : (RepParser.appendPods (s.parser.scan close).astPod (parseArguments (s.parser.scan close).argString)).attributes =
        declaredAttributes (parseArguments ((podItems ts).flatMap PodItem.text)) := by
      change (s.parser.scan close).astPod.attributes ++ declaredAttributes (parseArguments (s.parser.scan close).argString) = _
      rw [pod, args, attributes, collected, List.nil_append]
      rfl
    have read := parseArguments_items complete
    have all : ∀ p ∈ podParameters ts, p.Complete := by
      intro p mem
      obtain ⟨item, mem, is⟩ := List.mem_filterMap.mp mem
      cases item with
      | comma => cases is
      | parameter p' =>
        cases is
        exact complete p mem
    rw [appended]
    constructor
    · rintro ⟨same, parenthesised_⟩
      obtain ⟨alternate, fits⟩ := read.mp same
      exact ⟨alternate, fits, ((pod_eq_iff types _).mp parenthesised_).2⟩
    · rintro ⟨alternate, fits, noEnum⟩
      have same := read.mpr ⟨alternate, fits⟩
      refine ⟨same, (pod_eq_iff types _).mpr ⟨fun _ => ?_, noEnum⟩⟩
      exact (parseArguments_parenthesised all fits).trans same.symm

end Main

section Example

def listedPod : QString := "POD Foo\x7bint a, const QString & b\x7d".toList

def listedTokens : List Token :=
  [⟨.pod2, [(.name, "Foo".toList)]⟩, ⟨.start, []⟩, ⟨.symbol, [(.symbol, "int".toList)]⟩, ⟨.symbol, [(.symbol, "a".toList)]⟩, ⟨.comma, []⟩,
    ⟨.qualifier, [(.value, "const".toList)]⟩, ⟨.symbol, [(.symbol, "QString".toList)]⟩, ⟨.passbyqual, [(.value, "&".toList)]⟩,
    ⟨.symbol, [(.symbol, "b".toList)]⟩]

theorem listed_podItems : podItems listedTokens =
    [.parameter ⟨none, "int".toList, false, "a".toList⟩, .comma, .parameter ⟨some "const".toList, "QString".toList, true, "b".toList⟩] := by
  decide +kernel

theorem exists_run (ts : List Token) (mode : GrammarState)
    (leads : ((State.run ({} : State asciiCore) ts).toOption.map State.mode) = some mode) :
    ∃ s : State asciiCore, State.run {} ts = .ok s ∧ s.mode = mode := by
  cases run : State.run ({} : State asciiCore) ts with
  | error e =>
    rw [run] at leads
    cases leads
  | ok s =>
    rw [run] at leads
    exact ⟨s, rfl, Option.some.inj leads⟩

/-- `int a, const QString & b` between braces. -/
theorem listed_read : ∃ (s u : State asciiCore) (pod : POD), State.run {} listedTokens = .ok s ∧
    u.parser.ast.pods = s.parser.ast.pods ++ [pod] ∧ pod.attributes = [⟨"int".toList, "a".toList⟩, ⟨"QString".toList, "b".toList⟩] := by
  have tokens : (scanned listedPod).1 = listedTokens ++ ⟨.stop, []⟩ :: [] := by decide +kernel
  obtain ⟨s, run, mode⟩ := exists_run listedTokens (.pod .member false) (by decide +kernel)
  have closes : ∃ u, s.step ⟨.stop, []⟩ = .ok u :=
    ⟨⟨.global true, (s.parser.scan ⟨.stop, []⟩).pod2⟩, step_ok_iff.mpr (by rw [mode]; exact ⟨rfl, rfl⟩)⟩
  obtain ⟨u, closes⟩ := closes
  have parameters : podParameters listedTokens =
      [⟨none, "int".toList, false, "a".toList⟩, ⟨some "const".toList, "QString".toList, true, "b".toList⟩] := by
    rw [podParameters, listed_podItems]
    rfl
  obtain ⟨pod, pods, fits⟩ := bracketPod_iff { captured := [(.types, parenthesised (podParameters listedTokens))] }
    tokens run mode rfl closes rfl
  refine ⟨s, u, pod, run, pods, ?_⟩
  rw [(fits.mpr ⟨?_, ?_, ?_⟩).1, parameters]
  · decide
  · rw [listed_podItems]
    trivial
  · rw [parameters]
    intro p mem
    simp only [List.mem_cons, List.not_mem_nil, or_false] at mem
    rcases mem with rfl | rfl
    · exact ⟨nofun, by decide⟩
    · exact ⟨by rintro _ ⟨⟩; rfl, by decide⟩
  · rw [parameters]
    decide +kernel

def podAttributes (text : String) : Option (List (List PODAttribute)) :=
  (parse asciiCore text.toList).toOption.map fun ast => ast.pods.map POD.attributes

/-- A comma behind an enum makes a member without a type. -/
theorem enum_comma_not_listed : podAttributes "POD Foo\x7bENUM E \x7ba\x7d, int b\x7d" =
      some [[⟨[], "__repc_variable_1".toList⟩, ⟨"int".toList, "b".toList⟩]] ∧
    podAttributes "POD Foo(int b)" = some [[⟨"int".toList, "b".toList⟩]] := by
  decide +kernel

end Example
end RemoteObjects.Repc
