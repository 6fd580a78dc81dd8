import RemoteObjects.Patterns
import RemoteObjects.Repc.Ast

/-! The tokens of a `.rep` file: the longest match of the patterns of the grammar, of equally long ones
the first in their order, with the texts of the named groups. -/
namespace RemoteObjects.Repc
open Patterns

section Model

/-- The names of groups in the patterns. -/
inductive Capture
  | attribute
  | name
  | types
  | enum
  | cls
  | type
  | args
  | value
  | symbol
  | comment
  | preprocessor_directive
deriving DecidableEq

inductive Terminal
  | semicolon
  | cls
  | pod
  | pod2
  | flag
  | enum
  | prop
  | use_enum
  | signal
  | slot
  | model
  | childrep
  | qualifier
  | passbyqual
  | symbol
  | value
  | start
  | stop
  | comma
  | equals
  | comment
  | mcomment
  | preprocessor_directive
  | newline
  | tstart
  | tstop
deriving DecidableEq

/-- In the order of the grammar. -/
def terminals : List Terminal :=
  [.semicolon, .cls, .pod, .pod2, .flag, .enum, .prop, .use_enum, .signal, .slot, .model, .childrep, .qualifier, .passbyqual,
    .symbol, .value, .start, .stop, .comma, .equals, .comment, .mcomment, .preprocessor_directive, .newline, .tstart, .tstop]

/-- `[ \t]` -/
def isBlank (c : Char) : Bool := c == ' ' || c == '\t'

/-- `[A-Za-z_]` -/
def isNameStart (c : Char) : Bool := c.isAlpha || c == '_'

/-- `[A-Za-z0-9_]` -/
def isNamePart (c : Char) : Bool := c.isAlphanum || c == '_'

/-- `[0-9A-Fa-f]` -/
def isHexDigit (c : Char) : Bool := c.isDigit || ('A' ≤ c && c ≤ 'F') || ('a' ≤ c && c ≤ 'f')

theorem isAlpha_iff {c : Char} :
    c.isAlpha = true ↔ (65 ≤ c.toNat ∧ c.toNat ≤ 90) ∨ (97 ≤ c.toNat ∧ c.toNat ≤ 122) := by
  change (decide (65 ≤ c.val ∧ c.val ≤ 90) || (decide (97 ≤ c.val) && decide (c.val ≤ 122))) = true ↔ _
  simp only [Bool.or_eq_true, Bool.and_eq_true, decide_eq_true_eq]
  rfl

section Parts
open Pattern

def keyword (s : String) : Pattern Capture := literal s.toList

def blanks : Pattern Capture := many isBlank

def someBlanks : Pattern Capture := oneOrMore isBlank

/-- `[A-Za-z_][A-Za-z0-9_]*` -/
def identifier : Pattern Capture := one isNameStart ++ many isNamePart

/-- `[A-Za-z_][A-Za-z0-9_]+`, as names of classes are matched. -/
def longIdentifier : Pattern Capture := one isNameStart ++ oneOrMore isNamePart

def compilerAttribute : Pattern Capture := optional (group .attribute identifier ++ someBlanks)

/-- `[^\)]*` -/
def upToBracket : Pattern Capture := many (· != ')')

/-- `;?[ \t]*` -/
def ending : Pattern Capture := optional (keyword ";") ++ blanks

end Parts

def Terminal.pattern : Terminal → Pattern Capture
  | semicolon => keyword ";"
  | cls => keyword "class" ++ someBlanks ++ compilerAttribute ++ .group .name longIdentifier ++ blanks
  | pod =>
    keyword "POD" ++ blanks ++ compilerAttribute ++ .group .name longIdentifier ++
      (blanks ++ keyword "(" ++ .group .types upToBracket ++ keyword ")" ++ ending)
  | pod2 => keyword "POD" ++ blanks ++ compilerAttribute ++ .group .name longIdentifier ++ blanks
  | flag =>
    blanks ++ keyword "FLAG" ++ blanks ++ keyword "(" ++ blanks ++ .group .name identifier ++ someBlanks ++
      .group .enum identifier ++ blanks ++ keyword ")" ++ blanks
  | enum =>
    blanks ++ keyword "ENUM" ++ someBlanks ++ .optional (.group .cls (keyword "class" ++ someBlanks)) ++ .group .name identifier ++
      blanks ++ .optional (keyword ":" ++ blanks ++
        .group .type (.many (fun c => isNamePart c || c == ' ' || c == ':') ++ .one isNamePart) ++ blanks)
  | prop => blanks ++ keyword "PROP" ++ blanks ++ keyword "(" ++ .group .args (.oneOrMore (· != ')')) ++ keyword ")" ++ ending
  | use_enum => keyword "USE_ENUM" ++ blanks ++ keyword "(" ++ .group .name upToBracket ++ keyword ")" ++ ending
  | signal =>
    blanks ++ keyword "SIGNAL" ++ blanks ++ keyword "(" ++ blanks ++ .group .name (.oneOrMore (!isSpace ·)) ++ blanks ++ keyword "(" ++
      .group .args upToBracket ++ keyword ")" ++ blanks ++ keyword ")" ++ ending
  | slot =>
    blanks ++ keyword "SLOT" ++ blanks ++ keyword "(" ++ .group .type (.many (· != '(')) ++ keyword "(" ++
      .group .args upToBracket ++ keyword ")" ++ blanks ++ keyword ")" ++ ending
  | model =>
    blanks ++ keyword "MODEL" ++ someBlanks ++ .group .name longIdentifier ++ keyword "(" ++ .group .args (.oneOrMore (· != ')')) ++
      keyword ")" ++ blanks ++ ending
  | childrep =>
    blanks ++ keyword "CLASS" ++ someBlanks ++ .group .name longIdentifier ++ keyword "(" ++ .group .type (.oneOrMore (· != ')')) ++
      keyword ")" ++ blanks ++ ending
  | qualifier => blanks ++ .group .value (.alt (keyword "const") (.alt (keyword "unsigned") (keyword "signed"))) ++ blanks
  | passbyqual => blanks ++ .group .value (keyword "&") ++ blanks
  | symbol => blanks ++ .group .symbol identifier ++ blanks
  | value =>
    blanks ++ .group .value (.alt (keyword "-" ++ .oneOrMore Char.isDigit)
      (.alt (keyword "0" ++ .one (fun c => c == 'x' || c == 'X') ++ .oneOrMore isHexDigit) (.oneOrMore Char.isDigit))) ++ blanks
  | start => blanks ++ keyword "\x7b" ++ blanks
  | stop => blanks ++ keyword "\x7d" ++ ending
  | comma => keyword ","
  | equals => keyword "="
  | comment => .group .comment (blanks ++ keyword "//" ++ .many (· != '\n') ++ keyword "\n")
  | mcomment => .group .comment (keyword "/*" ++ .fewest (fun _ => true) ++ keyword "*/")
  | preprocessor_directive => .group .preprocessor_directive (keyword "#" ++ blanks ++ .many (· != '\n') ++ keyword "\n")
  | newline => .optional (keyword "\r") ++ keyword "\n"
  | tstart => keyword "<"
  | tstop => keyword ">" ++ blanks

abbrev Captures := List (Capture × QString)

structure Token where
  terminal : Terminal
  captures : Captures := []
deriving DecidableEq

/-- UTF-16 code units. -/
def units (c : Char) : Nat := if c.toNat < 65536 then 1 else 2

/-- The first characters of a text, at most so many code units. -/
def window : Nat → QString → QString
  | _, [] => []
  | limit, c :: s => if units c ≤ limit then c :: window (limit - units c) s else []

def maxMatchLen : Nat := 4096

/-- The first of two matches unless the second one is longer. -/
def longer : Option (Terminal × Match Capture) → Option (Terminal × Match Capture) → Option (Terminal × Match Capture)
  | best, none => best
  | none, some other => some other
  | some best, some other => if other.2.rest.length < best.2.rest.length then some other else some best

/-- Regular expressions that cannot match are left out by the first character in the source. -/
def longest (s : QString) : Option (Terminal × Match Capture) :=
  terminals.foldl (fun best terminal => longer best ((terminal.pattern.match? s).map (terminal, ·))) none

/-- The next token, and what is behind it. -/
def nextToken (s : QString) : Option (Token × QString) :=
  (longest (window maxMatchLen s)).map fun (terminal, m) =>
    (⟨terminal, m.captures⟩, s.drop ((window maxMatchLen s).length - m.rest.length))

/-- The tokens up to the end of the text, or up to a place where there is none; `true` at the end. -/
def tokenize : Nat → QString → List Token × Bool
  | _, [] => ([], true)
  | 0, _ => ([], false)
  | fuel + 1, s =>
    match nextToken s with
    | none => ([], false)
    | some (t, rest) => (t :: (tokenize fuel rest).1, (tokenize fuel rest).2)

/-- Each token reads a character. -/
def scanned (s : QString) : List Token × Bool := tokenize s.length s

end Model

section Longest
variable {s rest : QString} {t : Token} {terminal : Terminal} {m : Match Capture}

theorem longer_mem {a b : Option (Terminal × Match Capture)} {best : Terminal × Match Capture} (found : longer a b = some best) :
    a = some best ∨ b = some best := by
  cases a with
  | none =>
    cases b with
    | none => exact absurd found (by simp [longer])
    | some b => exact .inr found
  | some a =>
    cases b with
    | none => exact .inl found
    | some b =>
      rw [longer] at found
      split at found
      · exact .inr found
      · exact .inl found

theorem match_mem (found : terminal.pattern.match? s = some m) : m ∈ terminal.pattern.run { rest := s } :=
  List.mem_of_head? found

theorem mem_of_longest (found : longest s = some (terminal, m)) : m ∈ terminal.pattern.run { rest := s } := by
  have all (these : List Terminal) (best : Option (Terminal × Match Capture))
      (before : ∀ terminal m, best = some (terminal, m) → m ∈ terminal.pattern.run { rest := s }) :
      ∀ terminal m, these.foldl (fun best terminal => longer best ((terminal.pattern.match? s).map (terminal, ·))) best =
        some (terminal, m) → m ∈ terminal.pattern.run { rest := s } := by
    induction these generalizing best with
    | nil => exact before
    | cons next these ih =>
      refine ih _ fun terminal m found => ?_
      rcases longer_mem found with found | found
      · exact before terminal m found
      · obtain ⟨n, matched, same⟩ := Option.map_eq_some_iff.mp found
        cases same
        exact match_mem matched
  exact all terminals none (fun _ _ absent => nomatch absent) terminal m found

end Longest

section Tokens
variable {s rest : QString} {t : Token}

/-- A token as its pattern reads it. -/
def Token.Read (t : Token) : Prop := ∃ s m, m ∈ t.terminal.pattern.run { rest := s } ∧ t.captures = m.captures

theorem read_of_nextToken (next : nextToken s = some (t, rest)) : t.Read := by
  obtain ⟨⟨terminal, m⟩, found, same⟩ := Option.map_eq_some_iff.mp next
  cases same
  exact ⟨_, m, mem_of_longest found, rfl⟩

theorem minLength_pos (terminal : Terminal) : 0 < terminal.pattern.minLength := by
  cases terminal <;> decide

theorem window_length (limit : Nat) (s : QString) : (window limit s).length ≤ s.length := by
  induction s generalizing limit with
  | nil => exact Nat.le_refl _
  | cons c s ih =>
    rw [window]
    split
    · exact Nat.succ_le_succ (ih _)
    · exact Nat.zero_le _

theorem nextToken_length (next : nextToken s = some (t, rest)) : rest.length < s.length := by
  obtain ⟨⟨terminal, m⟩, found, same⟩ := Option.map_eq_some_iff.mp next
  cases same
  obtain ⟨read, new, reads⟩ := exists_reads (mem_of_longest found)
  have whole : (window maxMatchLen s).length = read.length + m.rest.length := by
    rw [show window maxMatchLen s = read ++ m.rest from reads.text, List.length_append]
  have least := Nat.lt_of_lt_of_le (minLength_pos terminal) reads.least
  have fits := window_length maxMatchLen s
  rw [List.length_drop]
  omega

theorem tokenize_of_le {fuel : Nat} (enough : s.length ≤ fuel) : tokenize fuel s = scanned s := by
  have all (fuel fuel' : Nat) (s : QString) (enough : s.length ≤ fuel) (enough' : s.length ≤ fuel') :
      tokenize fuel s = tokenize fuel' s := by
    induction fuel generalizing fuel' s with
    | zero =>
      cases List.eq_nil_of_length_eq_zero (Nat.le_zero.mp enough)
      simp only [tokenize]
    | succ fuel ih =>
      cases s with
      | nil => simp only [tokenize]
      | cons c s =>
        cases fuel' with
        | zero => exact absurd enough' (Nat.not_succ_le_zero _)
        | succ fuel' =>
          rw [tokenize, tokenize]
          · cases next : nextToken (c :: s) with
            | none => rfl
            | some found =>
              obtain ⟨t, rest⟩ := found
              have shorter := nextToken_length next
              have same := ih fuel' rest (by omega) (by omega)
              simp only [same]
          all_goals exact fun h => nomatch h
  exact all fuel s.length s enough (Nat.le_refl _)

/-- The tokens are read one after the other. -/
theorem scanned_of_nextToken (next : nextToken s = some (t, rest)) :
    scanned s = (t :: (scanned rest).1, (scanned rest).2) := by
  have shorter := nextToken_length next
  cases s with
  | nil => exact absurd shorter (Nat.not_lt_zero _)
  | cons c s =>
    have rests := tokenize_of_le (Nat.lt_succ_iff.mp shorter)
    simp only [scanned, List.length_cons, tokenize, next, rests]

theorem read_of_mem_scanned (s : QString) : ∀ t ∈ (scanned s).1, t.Read := by
  have all (fuel : Nat) (s : QString) : ∀ t ∈ (tokenize fuel s).1, t.Read := by
    induction fuel generalizing s with
    | zero =>
      intro t mem
      cases s <;> exact absurd mem List.not_mem_nil
    | succ fuel ih =>
      intro t mem
      cases s with
      | nil => exact absurd mem List.not_mem_nil
      | cons c s =>
        cases next : nextToken (c :: s) with
        | none =>
          simp only [tokenize, next] at mem
          exact absurd mem List.not_mem_nil
        | some found =>
          simp only [tokenize, next] at mem
          rcases List.mem_cons.mp mem with rfl | mem
          · exact read_of_nextToken next
          · exact ih _ t mem
  exact all s.length s

end Tokens

section Names
variable {t : Token}

theorem captured_of_not_mem {group : Capture} (read : t.Read) (other : group ∉ t.terminal.pattern.groups) :
    captured t.captures group = [] := by
  obtain ⟨s, m, mem, same⟩ := read
  rw [same]
  exact captured_eq_nil mem rfl other

/-- The name of a class or POD begins with a letter. -/
theorem captured_name (read : t.Read) (header : t.terminal = .cls ∨ t.terminal = .pod2) :
    ∃ c s, captured t.captures .name = c :: s ∧ isNameStart c = true := by
  obtain ⟨s, m, mem, same⟩ := read
  have named : ∃ k l, l ∈ longIdentifier.run k ∧ captured m.captures Capture.name = between k.rest l.rest := by
    rcases header with is | is
    · rw [is] at mem
      exact exists_captured mem (by decide)
    · rw [is] at mem
      exact exists_captured mem (by decide)
  obtain ⟨k, l, inner, captures⟩ := named
  rw [same, captures]
  exact between_of_one inner

end Names

section Example

example : scanned "class Foo // c\n\x7b \x7d".toList =
    ([⟨.cls, [(.name, "Foo".toList)]⟩, ⟨.comment, [(.comment, "// c\n".toList)]⟩, ⟨.start, []⟩, ⟨.stop, []⟩], true) := by
  decide +kernel

example : scanned "ENUM E \x7b a = -1".toList =
    ([⟨.enum, [(.name, "E".toList)]⟩, ⟨.start, []⟩, ⟨.symbol, [(.symbol, "a".toList)]⟩, ⟨.equals, []⟩,
      ⟨.value, [(.value, "-1".toList)]⟩], true) := by
  decide +kernel

end Example

end RemoteObjects.Repc
