import RemoteObjects.Repc.Lexer

/-! The lexer with what it keeps between tokens: the patterns possible for each first character, and the lines counted for error
messages. -/
namespace RemoteObjects.Repc.Scanning
open Patterns

section Model

/-- What `nextToken` returns: `EOF_SYMBOL`, the number of a terminal, or -1. -/
inductive Scanned
  | eof
  | token (t : Terminal)
  | error

structure Lexer where
  buffer : QString
  loc : Nat := 0
  regexCandidates : List (Char × List Terminal) := []
  lastMatchText : QString := []
  lineno : Nat := 1
  errorString : QString := []

/-- A match, or the beginning of one at the end of the text. -/
def candidate (nextChar : Char) (t : Terminal) : Bool :=
  (t.pattern.match? [nextChar]).isSome || (t.pattern.known [nextChar]).isNone

/-- The longest match among these, of equally long ones the first. -/
def longestOf (indices : List Terminal) (text : QString) : Option (Terminal × Match Capture) :=
  indices.foldl (fun best terminal => longer best ((terminal.pattern.match? text).map (terminal, ·))) none

namespace Lexer
variable (s : Lexer)

def rest : QString := s.buffer.drop s.loc

/-- Newlines in the text of the last match. -/
def countLines : Lexer := { s with lineno := s.lineno + s.lastMatchText.count '\n' }

def populate (nextChar : Char) : Lexer :=
  if (s.regexCandidates.lookup nextChar).isSome then s
  else { s with regexCandidates := (nextChar, terminals.filter (candidate nextChar)) :: s.regexCandidates }

def candidates (nextChar : Char) : List Terminal := (s.regexCandidates.lookup nextChar).getD []

def accept (read : QString) : Lexer := { s with loc := s.loc + read.length, lastMatchText := read }

/-- No terminal of this grammar is to be ignored, so the source goes once through its loop. -/
def nextToken : Scanned × Lexer :=
  match s.rest with
  | [] => (.eof, s)
  | nextChar :: _ =>
    let s := s.countLines.populate nextChar
    let text := window maxMatchLen s.rest
    match longestOf (s.candidates nextChar) text with
    | none =>
      let error := "Error generating tokens from file, next characters >".toList ++ window 15 s.rest ++ "<".toList
      (.error, { s with errorString := error })
    | some (terminal, m) => (.token terminal, s.accept (between text m.rest))

end Lexer

/-- A new parser with a text, after so many calls of `nextToken`. -/
def afterCalls (text : QString) : Nat → Lexer
  | 0 => { buffer := text }
  | n + 1 => (afterCalls text n).nextToken.2

/-- What the plain lexer has for this call: a token, or the end or an error for ever. -/
def expected (text : QString) (n : Nat) : Scanned :=
  match (scanned text).1[n]? with
  | some t => .token t.terminal
  | none => if (scanned text).2 then .eof else .error

/-- What is left of a text behind so many tokens, or behind the last one. -/
def behind : Nat → QString → QString
  | 0, text => text
  | n + 1, text =>
    match nextToken text with
    | none => text
    | some (_, rest) => behind n rest

/-- The line on which the token behind so many ones begins. -/
def lineOf (text : QString) (n : Nat) : Nat := 1 + (text.take (text.length - (behind n text).length)).count '\n'

end Model

section Candidates
variable {c : Char} {text : QString} {m : Match Capture} {terminal : Terminal} {s : Lexer}

/-- What matches a text matches its first character, or comes to its end with it. -/
theorem candidate_of_match (found : terminal.pattern.match? (c :: text) = some m) : candidate c terminal = true := by
  cases known : terminal.pattern.known [c] with
  | none => simp [candidate, known]
  | some rests =>
    cases rests with
    | nil =>
      have none := match?_none known text
      rw [List.singleton_append, found] at none
      contradiction
    | cons first rests =>
      obtain ⟨n, here, _⟩ := match?_some (p := terminal.pattern) (s := [c]) (by rw [known]; rfl) []
      rw [List.append_nil] at here
      simp [candidate, here]

/-- Patterns without a match are no loss. -/
theorem longestOf_filter (possible : Terminal → Bool)
    (covers : ∀ terminal m, terminal.pattern.match? text = some m → possible terminal = true) :
    longestOf (terminals.filter possible) text = longest text := by
  have all (these : List Terminal) (best : Option (Terminal × Match Capture)) :
      (these.filter possible).foldl (fun best terminal => longer best ((terminal.pattern.match? text).map (terminal, ·))) best =
        these.foldl (fun best terminal => longer best ((terminal.pattern.match? text).map (terminal, ·))) best := by
    induction these generalizing best with
    | nil => rfl
    | cons terminal these ih =>
      by_cases kept : possible terminal = true
      · rw [List.filter_cons_of_pos kept, List.foldl_cons, List.foldl_cons, ih]
      · have none : terminal.pattern.match? text = none :=
          Option.eq_none_iff_forall_ne_some.mpr fun m found => kept (covers terminal m found)
        have same : longer best .none = best := by cases best <;> rfl
        rw [List.filter_cons_of_neg kept, List.foldl_cons, none, Option.map_none, same, ih]
  exact all terminals none

/-- What is kept for a character are the patterns possible for it. -/
def Cached (s : Lexer) : Prop :=
  ∀ c indices, s.regexCandidates.lookup c = some indices → indices = terminals.filter (candidate c)

/-- Nothing but the kept patterns becomes other, and those of the character are there then. -/
theorem populate_cached (cached : Cached s) (nextChar : Char) : ∃ known, s.populate nextChar = { s with regexCandidates := known } ∧
    Cached (s.populate nextChar) ∧ (s.populate nextChar).candidates nextChar = terminals.filter (candidate nextChar) := by
  rw [Lexer.populate]
  split
  · rename_i kept
    obtain ⟨indices, found⟩ := Option.isSome_iff_exists.mp kept
    refine ⟨s.regexCandidates, rfl, cached, ?_⟩
    rw [Lexer.candidates, found]
    exact cached nextChar indices found
  · refine ⟨_, rfl, fun c indices found => ?_, ?_⟩
    · by_cases same : c = nextChar
      · subst same
        simp only [List.lookup_cons_self, Option.some.injEq] at found
        exact found.symm
      · simp only [List.lookup_cons, beq_false_of_ne same] at found
        exact cached c indices found
    · rw [Lexer.candidates, List.lookup_cons_self]
      rfl

end Candidates

section Calls
variable {s next : Lexer} {t : Token} {text rest : QString} {n : Nat}

/-- What a call of `nextToken` does. -/
inductive Call (s : Lexer) : Scanned → Lexer → Prop
  | eof (atEnd : s.rest = []) : Call s .eof s
  | token {t : Token} {read rest : QString} {known : List (Char × List Terminal)} (found : nextToken s.rest = some (t, rest))
      (split : s.rest = read ++ rest) (cached : Cached { s with regexCandidates := known }) :
      Call s (.token t.terminal) { s.countLines.accept read with regexCandidates := known }
  | error {known : List (Char × List Terminal)} {error : QString} (inside : s.rest ≠ []) (none : nextToken s.rest = none)
      (cached : Cached { s with regexCandidates := known }) :
      Call s .error { s.countLines with regexCandidates := known, errorString := error }

theorem window_append (limit : Nat) (s : QString) : ∃ later, s = window limit s ++ later := by
  induction s generalizing limit with
  | nil => exact ⟨[], rfl⟩
  | cons c s ih =>
    rw [window]
    split
    · obtain ⟨later, split⟩ := ih (limit - units c)
      exact ⟨later, congrArg (c :: ·) split⟩
    · exact ⟨c :: s, rfl⟩

theorem nextToken_of_longest {best : Terminal × Match Capture} (found : longest (window maxMatchLen text) = some best) :
    ∃ read rest, nextToken text = some (⟨best.1, best.2.captures⟩, rest) ∧ text = read ++ rest ∧
      between (window maxMatchLen text) best.2.rest = read := by
  obtain ⟨terminal, m⟩ := best
  obtain ⟨read, new, reads⟩ := exists_reads (mem_of_longest found)
  obtain ⟨later, whole⟩ := window_append maxMatchLen text
  have front : window maxMatchLen text = read ++ m.rest := reads.text
  have left : text = read ++ (m.rest ++ later) := by rw [← List.append_assoc, ← front, ← whole]
  refine ⟨read, m.rest ++ later, ?_, left, ?_⟩
  · have dropped : text.drop ((window maxMatchLen text).length - m.rest.length) = m.rest ++ later := by
      rw [front, List.length_append, Nat.add_sub_cancel, left, List.drop_left]
    rw [nextToken, found, Option.map_some]
    simp only [dropped]
  · rw [front, between_append]

/-- The longest match is among the patterns kept for the first character. -/
theorem longestOf_candidates {c : Char} {later : QString} (inside : text = c :: later) :
    longestOf (terminals.filter (candidate c)) (window maxMatchLen text) = longest (window maxMatchLen text) := by
  have fits : units c ≤ maxMatchLen := by
    rw [units]
    split <;> decide
  rw [inside, window, if_pos fits]
  exact longestOf_filter (candidate c) fun terminal m found => candidate_of_match found

theorem call (cached : Cached s) : Call s s.nextToken.1 s.nextToken.2 := by
  rw [Lexer.nextToken]
  split
  · rename_i atEnd
    exact .eof atEnd
  · rename_i c later inside
    obtain ⟨known, populated, kept, among⟩ := populate_cached (s := s.countLines) cached c
    rw [populated] at kept among ⊢
    dsimp only
    rw [among, show Lexer.rest { s.countLines with regexCandidates := known } = s.rest from rfl, longestOf_candidates inside]
    cases found : longest (window maxMatchLen s.rest) with
    | none =>
      refine .error (by rw [inside]; exact List.cons_ne_nil c later) ?_ kept
      rw [nextToken, found, Option.map_none]
    | some best =>
      obtain ⟨read, rest, next, split, text⟩ := nextToken_of_longest found
      dsimp only
      rw [text]
      exact .token (t := ⟨best.1, best.2.captures⟩) next split kept

end Calls

section Agreement
variable {s : Lexer} {t : Token} {text : QString} {n : Nat}

theorem nextToken_nil : nextToken [] = none := by decide +kernel

theorem scanned_none (inside : text ≠ []) (none : nextToken text = none) : scanned text = ([], false) := by
  cases text with
  | nil => exact absurd rfl inside
  | cons c text => simp only [scanned, List.length_cons, tokenize, none]

/-- The tokens behind the first ones. -/
theorem scanned_behind (n : Nat) (text : QString) : scanned (behind n text) = ((scanned text).1.drop n, (scanned text).2) := by
  induction n generalizing text with
  | zero => rfl
  | succ n ih =>
    cases found : nextToken text with
    | none =>
      simp only [behind, found]
      by_cases inside : text = []
      · subst inside
        rfl
      · rw [scanned_none inside found, List.drop_nil]
    | some first =>
      obtain ⟨t, rest⟩ := first
      simp only [behind, found]
      rw [ih, scanned_of_nextToken found, List.drop_succ_cons]

theorem behind_succ (n : Nat) (text : QString) : behind (n + 1) text = behind 1 (behind n text) := by
  induction n generalizing text with
  | zero => rfl
  | succ n ih =>
    rw [behind]
    cases found : nextToken text with
    | none => simp only [behind, found]
    | some first =>
      obtain ⟨t, rest⟩ := first
      simp only [behind, found]
      exact ih rest

/-- The lexer after so many calls. Its line is that of the last token, as long as there are tokens. -/
structure After (text : QString) (n : Nat) (s : Lexer) : Prop where
  cached : Cached s
  rest : s.rest = behind n text
  lines : ∃ front, text = front ++ (s.lastMatchText ++ s.rest) ∧ (n ≤ (scanned text).1.length → s.lineno = 1 + front.count '\n')

theorem After.line (after : After text n s) (tokens : n ≤ (scanned text).1.length) :
    s.lineno + s.lastMatchText.count '\n' = lineOf text n := by
  obtain ⟨front, whole, lineno⟩ := after.lines
  rw [← List.append_assoc] at whole
  have length : text.length - (behind n text).length = (front ++ s.lastMatchText).length := by
    have all := congrArg List.length whole
    rw [List.length_append, after.rest] at all
    omega
  have read : text.take (front ++ s.lastMatchText).length = front ++ s.lastMatchText := by
    conv => lhs; rw [whole]
    exact List.take_left
  rw [lineOf, length, read, List.count_append, lineno tokens, Nat.add_assoc]

theorem After.step (after : After text n s) : s.nextToken.1 = expected text n ∧ After text (n + 1) s.nextToken.2 ∧
    (n < (scanned text).1.length → s.nextToken.2.lineno = lineOf text n) := by
  obtain ⟨front, whole, lineno⟩ := id after.lines
  have left := scanned_behind n text
  have next := behind_succ n text
  have step := call after.cached
  rw [← after.rest] at left next
  generalize s.nextToken.1 = result, s.nextToken.2 = later at step
  cases step with
  | eof atEnd =>
    rw [atEnd] at left
    have all := List.drop_eq_nil_iff.mp (Prod.mk.inj left).1.symm
    have same : s.rest = behind (n + 1) text := by
      rw [next, atEnd]
      simp only [behind, nextToken_nil]
    refine ⟨?_, ⟨after.cached, same, front, whole, by omega⟩, by omega⟩
    rw [expected, List.getElem?_eq_none all, ← (Prod.mk.inj left).2]
    rfl
  | @token t read rest known found split cached =>
    rw [scanned_of_nextToken found] at left
    have first : (scanned text).1[n]? = some t := by
      rw [← List.head?_drop, ← (Prod.mk.inj left).1]
      rfl
    have inside := (List.getElem?_eq_some_iff.mp first).1
    have line := after.line inside.le
    have unread : Lexer.rest { s.countLines.accept read with regexCandidates := known } = rest := by
      change s.buffer.drop (s.loc + read.length) = rest
      rw [← List.drop_drop, show s.buffer.drop s.loc = s.rest from rfl, split, List.drop_left]
    refine ⟨by rw [expected, first], ⟨cached, ?_, front ++ s.lastMatchText, ?_, fun _ => ?_⟩, fun _ => line⟩
    · rw [unread, next]
      simp only [behind, found]
    · rw [unread, List.append_assoc]
      exact split ▸ whole
    · rw [List.count_append, ← Nat.add_assoc, ← lineno inside.le]
      rfl
  | error inside none cached =>
    rw [scanned_none inside none] at left
    have all := List.drop_eq_nil_iff.mp (Prod.mk.inj left).1.symm
    have same : s.rest = behind (n + 1) text := by
      rw [next]
      simp only [behind, none]
    refine ⟨?_, ⟨cached, same, front, whole, by omega⟩, by omega⟩
    rw [expected, List.getElem?_eq_none all, ← (Prod.mk.inj left).2]
    rfl

theorem after_calls (text : QString) (n : Nat) : After text n (afterCalls text n) := by
  induction n with
  | zero => exact ⟨fun _ _ found => by contradiction, rfl, [], rfl, fun _ => rfl⟩
  | succ n ih => exact ih.step.2.1

/-- The lexer with the patterns it keeps for each first character returns the tokens that all patterns give, and then the end or
an error at each further call. Behind a token its line is the one on which the token begins. -/
theorem nextToken_agrees (text : QString) (n : Nat) : (afterCalls text n).nextToken.1 = expected text n ∧
    (n < (scanned text).1.length → (afterCalls text (n + 1)).lineno = lineOf text n) :=
  ⟨(after_calls text n).step.1, (after_calls text n).step.2.2⟩

end Agreement

end RemoteObjects.Repc.Scanning
