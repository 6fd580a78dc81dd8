import Mathlib.Data.List.Forall2
import Mathlib.Tactic.FinCases
import RemoteObjects.Repc.Grammar
import RemoteObjects.Repc.SignatureReferences

/-! Comments and newlines between the tokens of a `.rep` file, and what they change. -/
namespace RemoteObjects.Repc
open Patterns

section Statement

def Terminal.isComment (t : Terminal) : Bool := t = .comment ∨ t = .mcomment

/-- Tokens that read the same, the texts of comments aside. -/
def Token.Alike (t t' : Token) : Prop :=
  t.terminal = t'.terminal ∧ (t.terminal.isComment = false → t.captures = t'.captures)

/-- Two texts of which the second one has one more comment or newline between its tokens. -/
structure Insertion (text text' : QString) where
  before : List Token
  after : List Token
  before' : List Token
  inserted : Token
  after' : List Token
  first : (scanned text).1 = before ++ after
  second : (scanned text').1 = before' ++ inserted :: after'
  alike_before : List.Forall₂ Token.Alike before before'
  alike_after : List.Forall₂ Token.Alike after after'
  terminal : inserted.terminal = .newline ∨ inserted.terminal.isComment = true

/-- The token that comes next, newlines aside. -/
def firstVisible (ts : List Token) : Option Terminal := ((ts.filter fun t => t.terminal ≠ .newline).head?).map (·.terminal)

def lastVisible (ts : List Token) : Option Terminal := ((ts.filter fun t => t.terminal ≠ .newline).getLast?).map (·.terminal)

def Body.terminal : Body → Terminal
  | cls => .cls
  | pod => .pod2

variable {text text' : QString}

/-- A comment between the name of a class or POD and its brace, where there was none. -/
def Insertion.AtHeader (i : Insertion text text') : Prop :=
  i.inserted.terminal.isComment = true ∧ (∃ body : Body, lastVisible i.before = some body.terminal) ∧
    firstVisible i.after = some .start

end Statement

section GrammarStates
variable {m m' n n' : GrammarState} {t : Terminal} {body : Body}

/-- Without the flags of modes, which decide only what is accepted. -/
def GrammarState.canonical : GrammarState → GrammarState
  | global _ => global true
  | cls _ => cls false
  | pod place _ => pod place false
  | enum scope (.opening _) => enum scope (.opening true)
  | m => m

theorem next_canonical (next : m.next t = some n) : ∃ k, m.canonical.next t = some k ∧ k.canonical = n.canonical := by
  cases m with
  | global types => cases t <;> cases next <;> exact ⟨_, rfl, rfl⟩
  | header body => exact ⟨n, next, rfl⟩
  | opening body => exact ⟨n, next, rfl⟩
  | cls commented => cases t <;> cases next <;> exact ⟨_, rfl, rfl⟩
  | pod place commented =>
    cases t <;> cases place <;> cases commented <;> cases next <;> exact ⟨_, rfl, rfl⟩
  | parameter place templates => exact ⟨n, next, rfl⟩
  | enum scope place =>
    cases place with
    | opening commented => cases t <;> cases commented <;> cases next <;> exact ⟨_, rfl, rfl⟩
    | before => exact ⟨n, next, rfl⟩
    | named => exact ⟨n, next, rfl⟩
    | equals => exact ⟨n, next, rfl⟩
    | done => exact ⟨n, next, rfl⟩

theorem next_alike (same : m.canonical = m'.canonical) (next : m.next t = some n) (next' : m'.next t = some n') :
    n.canonical = n'.canonical := by
  obtain ⟨k, step, eq⟩ := next_canonical next
  obtain ⟨k', step', eq'⟩ := next_canonical next'
  rw [same] at step
  cases step.symm.trans step'
  exact eq.symm.trans eq'

theorem canonical_eq_header (same : m.canonical = .header body) : m = .header body := by
  cases m with
  | enum scope place => cases place <;> cases same
  | header body => exact same
  | _ => cases same

theorem canonical_eq_global (same : m.canonical = .global true) : ∃ types, m = .global types := by
  cases m with
  | enum scope place => cases place <;> cases same
  | global types => exact ⟨types, rfl⟩
  | _ => cases same

theorem canonical_eq_enum {scope : Option Body} {place : EnumPlace} (unflagged : ∀ commented, place ≠ .opening commented)
    (same : m.canonical = .enum scope place) : m = .enum scope place := by
  cases m with
  | enum _ here =>
    cases here with
    | opening commented =>
      cases same
      exact absurd rfl (unflagged true)
    | _ => exact same
  | _ => cases same

/-- A class or POD begins with its name, and newlines change nothing. -/
theorem next_header (next : m.next t = some (.header body)) :
    (t = .newline ∧ m = .header body) ∨ (t = body.terminal ∧ ∃ types, m = .global types) := by
  cases m with
  | global types => cases t <;> cases next <;> exact .inr ⟨rfl, types, rfl⟩
  | header b =>
    cases t <;> cases b <;> cases next <;> exact .inl ⟨rfl, rfl⟩
  | opening b => cases t <;> cases b <;> cases next
  | cls commented => cases t <;> cases next
  | pod place commented => cases t <;> cases place <;> cases commented <;> cases next
  | parameter place templates =>
    cases place <;> cases t <;> first | cases next | (cases templates <;> cases next)
  | enum scope place =>
    cases place with
    | opening commented => cases t <;> cases commented <;> cases next
    | _ => cases t <;> first | cases next | (rcases scope with _ | _ | _ <;> cases next)

theorem next_terminal (next : m.next body.terminal = some n) : n = .header body := by
  cases m with
  | global types => cases body <;> cases next <;> rfl
  | header b => cases body <;> cases next
  | opening b => cases body <;> cases next
  | cls commented => cases body <;> cases next
  | pod place commented => cases body <;> cases next
  | parameter place templates => cases place <;> cases body <;> cases next
  | enum scope place =>
    cases place with
    | opening commented => cases body <;> cases commented <;> cases next
    | _ => cases body <;> cases next

end GrammarStates

section Captures
variable {qt : Core} {p q p' q' : RepParser qt.toSha1} {t t' : Token} {m m' n n' : GrammarState} {terminal : Terminal} {body : Body}

/-- All that the parser knows but the captures. -/
def RepParser.forget (p : RepParser qt.toSha1) : RepParser qt.toSha1 := { p with captured := [] }

@[simp] theorem forget_scan (p : RepParser qt.toSha1) (t : Token) : (p.scan t).forget = p.forget := by
  rw [RepParser.scan]
  split <;> rfl

theorem ast_eq_of_forget (same : p.forget = p'.forget) : p.ast = p'.ast := by
  rw [show p.ast = p.forget.ast from rfl, same]
  rfl

/-- Tokens behind which no action reads captures, except those that begin a class or POD. -/
def Terminal.isSilent (t : Terminal) : Bool := t.isComment || t.pattern.groups = []

theorem scan_silent (unnamed : t.terminal.pattern.groups = []) : p.scan t = p := if_pos unnamed

/-- A token with captures sets them, so that what was captured before is forgotten. -/
theorem scan_eq_of_loud (alike : t.Alike t') (loud : t.terminal.isSilent = false) (same : p.forget = p'.forget) :
    p.scan t = p'.scan t' := by
  have comment : t.terminal.isComment = false := by
    rw [Terminal.isSilent, Bool.or_eq_false_iff] at loud
    exact loud.1
  have named : ¬ t.terminal.pattern.groups = [] := by
    rw [Terminal.isSilent, Bool.or_eq_false_iff] at loud
    exact of_decide_eq_false loud.2
  rw [RepParser.scan, if_neg named, RepParser.scan, ← alike.1, if_neg named, ← alike.2 comment]
  exact congrArg (fun q => { q with captured := t.captures }) same

theorem consume_canonical (next : m.next terminal = some n) : consume qt p m terminal = consume qt p m.canonical terminal := by
  cases m with
  | cls commented =>
    cases terminal <;> first | rfl | cases next
  | enum scope place => cases place <;> rfl
  | _ => rfl

theorem consume_alike (same : m.canonical = m'.canonical) (next : m.next terminal = some n) (next' : m'.next terminal = some n') :
    consume qt p m terminal = consume qt p m' terminal := by
  rw [consume_canonical next, same, consume_canonical next']

/-- The action of a silent token does the same whatever was captured. -/
theorem consume_silent (silent : terminal.isSilent = true) (headless : ∀ body, m ≠ .header body)
    (done : consume qt p m terminal = .ok q) : consume qt p.forget m terminal = .ok q.forget := by
  have few : terminal ∈ [.semicolon, .start, .stop, .comma, .equals, .comment, .mcomment, .newline, .tstart, .tstop] := by
    revert silent
    cases terminal <;> decide
  cases m with
  | header body => exact absurd rfl (headless body)
  | global types => fin_cases few <;> cases done <;> rfl
  | opening body => fin_cases few <;> cases done <;> rfl
  | cls commented => fin_cases few <;> cases done <;> rfl
  | pod place commented => fin_cases few <;> cases done <;> rfl
  | parameter place templates => fin_cases few <;> cases place <;> cases done <;> rfl
  | enum scope place =>
    cases place with
    | named => fin_cases few <;> rcases scope with _ | _ | _ <;> cases done <;> rfl
    | done => fin_cases few <;> rcases scope with _ | _ | _ <;> cases done <;> rfl
    | _ => fin_cases few <;> cases done <;> rfl

/-- A class or POD without a name. -/
def Body.blank : Body → RepParser qt.toSha1 → RepParser qt.toSha1
  | cls, p => { p with astClass := { name := [] } }
  | pod, p => { p with astPod := {}, argString := [] }

/-- Behind a comment there are neither names nor attributes among the captures. -/
theorem begin_scan_comment (body : Body) (read : t.Read) (comment : t.terminal.isComment = true) :
    (body.begin qt (p.scan t)).forget = (body.blank p).forget := by
  have kind : t.terminal = .comment ∨ t.terminal = .mcomment := of_decide_eq_true comment
  have noCapture (group : Capture) (other : group ≠ .comment) : captured t.captures group = [] := by
    refine captured_of_not_mem read ?_
    rcases kind with is | is <;> rw [is] <;> revert other <;> cases group <;> decide
  have scan : p.scan t = { p with captured := t.captures } := by
    rcases kind with is | is <;> exact if_neg (by rw [is]; decide)
  rw [scan]
  cases body with
  | cls =>
    simp only [Body.begin, RepParser.classStart, RepParser.value, noCapture .name (by decide), noCapture .attribute (by decide)]
    rfl
  | pod =>
    simp only [Body.begin, RepParser.podStart, RepParser.value, noCapture .name (by decide), noCapture .attribute (by decide)]
    rfl

theorem blank_forget (same : p.forget = p'.forget) : (body.blank p).forget = (body.blank p').forget := by
  have blank (p : RepParser qt.toSha1) : (body.blank p).forget = body.blank p.forget := by cases body <;> rfl
  rw [blank, same, blank]

end Captures

section Agreement
variable {qt : Core} {s s' u u' : State qt} {t t' : Token} {ts ts' : List Token} {body : Body}

/-- Two parsers that differ in captures at most, which no action reads before the next ones are there. -/
structure Agree (s s' : State qt) : Prop where
  mode : s.mode.canonical = s'.mode.canonical
  parser : s.parser.forget = s'.parser.forget
  header : ∀ body, s.mode = .header body → s.parser = s'.parser

theorem agree_refl (s : State qt) : Agree s s := ⟨rfl, rfl, fun _ _ => rfl⟩

theorem agree_of_equal (mode : s.mode.canonical = s'.mode.canonical) (step : s.step t = .ok u) (step' : s'.step t' = .ok u')
    (same : t.terminal = t'.terminal) (parser : s.parser.scan t = s'.parser.scan t') : Agree u u' := by
  obtain ⟨done, next⟩ := step_ok_iff.mp step
  obtain ⟨done', next'⟩ := step_ok_iff.mp step'
  rw [← same] at done' next'
  rw [consume_alike mode next next', parser] at done
  have equal : u.parser = u'.parser := Except.ok.inj (done.symm.trans done')
  exact ⟨next_alike mode next next', by rw [equal], fun _ _ => equal⟩

theorem step_header_comment (header : s.mode = .header body) (comment : t.terminal.isComment = true) (step : s.step t = .ok u) :
    u.mode = .opening body ∧ u.parser = body.begin qt (s.parser.scan t) := by
  obtain ⟨done, next⟩ := step_ok_iff.mp step
  have kind : t.terminal = .comment ∨ t.terminal = .mcomment := of_decide_eq_true comment
  rcases kind with is | is
  · rw [is, header] at done next
    exact ⟨(Option.some.inj next).symm, (Except.ok.inj done).symm⟩
  · rw [is, header] at done next
    exact ⟨(Option.some.inj next).symm, (Except.ok.inj done).symm⟩

theorem Agree.step (agree : Agree s s') (alike : t.Alike t') (read : t.Read) (read' : t'.Read) (step : s.step t = .ok u)
    (step' : s'.step t' = .ok u') : Agree u u' := by
  obtain ⟨done, next⟩ := step_ok_iff.mp step
  obtain ⟨done', next'⟩ := step_ok_iff.mp step'
  cases silent : t.terminal.isSilent with
  | false => exact agree_of_equal agree.mode step step' alike.1 (scan_eq_of_loud alike silent agree.parser)
  | true =>
    by_cases inHeader : ∃ body, s.mode = .header body
    · obtain ⟨body, header⟩ := inHeader
      have header' : s'.mode = .header body := canonical_eq_header (by rw [← agree.mode, header]; rfl)
      cases comment : t.terminal.isComment with
      | false =>
        -- The captures are those of the class or POD in both.
        have unnamed : t.terminal.pattern.groups = [] := by
          rw [Terminal.isSilent, comment, Bool.false_or] at silent
          exact of_decide_eq_true silent
        refine agree_of_equal agree.mode step step' alike.1 ?_
        rw [scan_silent unnamed, scan_silent (by rw [← alike.1]; exact unnamed), agree.header body header]
      | true =>
        have comment' : t'.terminal.isComment = true := by rw [← alike.1]; exact comment
        obtain ⟨mode, parser⟩ := step_header_comment header comment step
        obtain ⟨mode', parser'⟩ := step_header_comment header' comment' step'
        refine ⟨by rw [mode, mode'], ?_, fun b same => nomatch mode.symm.trans same⟩
        rw [parser, parser', begin_scan_comment body read comment, begin_scan_comment body read' comment',
          agree.header body header]
    · have headless (body : Body) : s.mode ≠ .header body := fun header => inHeader ⟨body, header⟩
      refine ⟨?_, ?_, fun body header => ?_⟩
      · rw [← alike.1] at next'
        exact next_alike agree.mode next next'
      · rw [← alike.1] at done' next'
        rw [← consume_alike agree.mode next next'] at done'
        have forgot := consume_silent silent headless done
        have forgot' := consume_silent silent headless done'
        rw [forget_scan, agree.parser, ← forget_scan s'.parser t'] at forgot
        exact Except.ok.inj (forgot.symm.trans forgot')
      · rw [header] at next
        rcases next_header next with ⟨-, same⟩ | ⟨same, -⟩
        · exact absurd same (headless body)
        · rw [same] at silent
          cases body <;> exact absurd silent (by decide)

theorem Agree.run (agree : Agree s s') (alike : List.Forall₂ Token.Alike ts ts') (read : ∀ t ∈ ts, t.Read)
    (read' : ∀ t ∈ ts', t.Read) (run : s.run ts = .ok u) (run' : s'.run ts' = .ok u') : Agree u u' := by
  induction alike generalizing s s' with
  | nil =>
    cases run_nil.mp run
    cases run_nil.mp run'
    exact agree
  | cons here _ ih =>
    obtain ⟨v, step, rest⟩ := run_cons.mp run
    obtain ⟨v', step', rest'⟩ := run_cons.mp run'
    rw [List.forall_mem_cons] at read read'
    exact ih (agree.step here read.1 read'.1 step step') read.2 read'.2 rest rest'

end Agreement

section Inserted
variable {qt : Core} {s s' u u' v : State qt} {t t' : Token} {m n : GrammarState} {terminal : Terminal} {body : Body}

/-- Most comments and newlines change nothing but the flags of the mode. -/
theorem passes (qt : Core) (kind : terminal = .newline ∨ terminal.isComment = true ∧ ∀ body, m ≠ .header body)
    (settled : ∀ scope, m ≠ .enum scope .named) (next : m.next terminal = some n) :
    n.canonical = m.canonical ∧ ∀ p : RepParser qt.toSha1, consume qt p m terminal = .ok p := by
  have few : terminal ∈ [.newline, .comment, .mcomment] ∧ (terminal = .newline ∨ ∀ body, m ≠ .header body) := by
    rcases kind with rfl | ⟨comment, headless⟩
    · exact ⟨by decide, .inl rfl⟩
    · rcases (of_decide_eq_true comment : terminal = .comment ∨ terminal = .mcomment) with rfl | rfl
      · exact ⟨by decide, .inr headless⟩
      · exact ⟨by decide, .inr headless⟩
  obtain ⟨few, headless⟩ := few
  cases m with
  | header body =>
    rcases headless with rfl | headless
    · cases next
      exact ⟨rfl, fun _ => rfl⟩
    · exact absurd rfl (headless body)
  | global types => fin_cases few <;> cases next <;> exact ⟨rfl, fun _ => rfl⟩
  | opening body => fin_cases few <;> cases next <;> exact ⟨rfl, fun _ => rfl⟩
  | cls commented => fin_cases few <;> cases next <;> exact ⟨rfl, fun _ => rfl⟩
  | pod place commented => fin_cases few <;> cases next <;> exact ⟨rfl, fun _ => rfl⟩
  | parameter place templates =>
    fin_cases few <;> cases place <;> cases next
    exact ⟨rfl, fun _ => rfl⟩
  | enum scope place =>
    cases place with
    | named => exact absurd rfl (settled scope)
    | opening commented => fin_cases few <;> cases commented <;> cases next <;> exact ⟨rfl, fun _ => rfl⟩
    | _ => fin_cases few <;> cases next <;> exact ⟨rfl, fun _ => rfl⟩

/-- One parser has read an enumerator that the other one has still to reduce. -/
def Ahead (s s' : State qt) : Prop :=
  ∃ scope, s.mode = .enum scope .named ∧ Agree ⟨.enum scope .done, s.parser.enumParam⟩ s'

/-- One parser has begun a class or POD without a name, where the other one keeps the name. -/
def Blank (s s' : State qt) : Prop :=
  ∃ body : Body, s.mode = .header body ∧ s'.mode = .opening body ∧ (body.blank s.parser).forget = s'.parser.forget

theorem inserted_cases (agree : Agree s s') (kind : t.terminal = .newline ∨ t.terminal.isComment = true) (read : t.Read)
    (step : s'.step t = .ok v) :
    (Agree s v ∨ Ahead s v) ∧ ((∃ body, s.mode = .header body) → t.terminal = .newline) ∨
      Blank s v ∧ t.terminal.isComment = true := by
  obtain ⟨done, next⟩ := step_ok_iff.mp step
  by_cases blank : t.terminal.isComment = true ∧ ∃ body, s.mode = .header body
  · obtain ⟨comment, body, header⟩ := blank
    have header' : s'.mode = .header body := canonical_eq_header (by rw [← agree.mode, header]; rfl)
    obtain ⟨mode, parser⟩ := step_header_comment header' comment step
    refine .inr ⟨⟨body, header, mode, ?_⟩, comment⟩
    rw [parser, begin_scan_comment body read comment]
    exact blank_forget agree.parser
  · have newline (header : ∃ body, s.mode = .header body) : t.terminal = .newline :=
      kind.resolve_right fun comment => blank ⟨comment, header⟩
    have headless : t.terminal = .newline ∨ t.terminal.isComment = true ∧ ∀ body, s'.mode ≠ .header body := by
      refine kind.imp_right fun comment => ⟨comment, fun body header' => blank ⟨comment, body, ?_⟩⟩
      exact canonical_eq_header (by rw [agree.mode, header']; rfl)
    refine .inl ⟨?_, newline⟩
    by_cases settled : ∀ scope, s'.mode ≠ .enum scope .named
    · obtain ⟨mode, same⟩ := passes qt headless settled next
      have parser : s'.parser.scan t = v.parser := Except.ok.inj ((same _).symm.trans done)
      refine .inl ⟨agree.mode.trans mode.symm, ?_, fun body header => ?_⟩
      · rw [← parser, forget_scan, agree.parser]
      · rw [← parser, scan_silent (by rw [newline ⟨body, header⟩]; decide), agree.header body header]
    · obtain ⟨scope, named'⟩ := not_forall_not.mp settled
      have named : s.mode = .enum scope .named :=
        canonical_eq_enum (fun _ other => nomatch other) (by rw [agree.mode, named']; rfl)
      rw [named'] at done next
      have is : t.terminal = .newline := by
        refine kind.resolve_right fun comment => ?_
        rcases (of_decide_eq_true comment : t.terminal = .comment ∨ t.terminal = .mcomment) with is | is
        · rw [is] at next
          cases next
        · rw [is] at next
          cases next
      rw [is] at done next
      refine .inr ⟨scope, named, ?_, ?_, fun body header => nomatch header⟩
      · exact congrArg GrammarState.canonical (Option.some.inj next)
      · rw [← Except.ok.inj done, scan_silent (by rw [is]; decide)]
        exact congrArg RepParser.enumParam agree.parser

/-- The next token makes the other one read the enumerator as well. -/
theorem Ahead.step (ahead : Ahead s s') (alike : t.Alike t') (read : t.Read) (read' : t'.Read) (step : s.step t = .ok u)
    (step' : s'.step t' = .ok u') : Agree u u' := by
  obtain ⟨scope, named, agree⟩ := ahead
  refine agree.step alike read read' (step_ok_iff.mpr ?_) step'
  obtain ⟨done, next⟩ := step_ok_iff.mp step
  have mode' : s'.mode = .enum scope .done := canonical_eq_enum (fun _ other => nomatch other) agree.mode.symm
  have next' := (step_ok_iff.mp step').2
  rw [named] at done next
  rw [mode', ← alike.1] at next'
  have few : t.terminal = .newline ∨ t.terminal = .comma ∨ t.terminal = .stop := by
    cases is : t.terminal <;> rw [is] at next' <;> first | cases next' | decide
  rcases few with is | is | is
  all_goals
    have scan (p : RepParser qt.toSha1) : p.scan t = p := scan_silent (by rw [is]; decide)
    rw [scan, is] at done
    rw [is] at next
    rw [scan, is]
    exact ⟨done, next⟩

/-- Up to the next token that is no newline. -/
theorem Blank.step (blank : Blank s s') (alike : t.Alike t') (read : t.Read) (step : s.step t = .ok u) (step' : s'.step t' = .ok u') :
    t.terminal = .newline ∧ Blank u u' ∨ t.terminal.isComment = true ∧ Agree u u' ∨ t.terminal = .start ∧
      ∃ body : Body, s.mode = .header body ∧ u.mode = body.mode ∧ u'.mode = body.mode ∧ u.parser = body.begin qt s.parser ∧
        u'.parser.forget = (body.blank s.parser).forget := by
  obtain ⟨body, header, opening, parser⟩ := blank
  obtain ⟨done, next⟩ := step_ok_iff.mp step
  obtain ⟨done', next'⟩ := step_ok_iff.mp step'
  rw [header] at done next
  rw [opening, ← alike.1] at done' next'
  have same' : s'.parser.scan t' = u'.parser := Except.ok.inj done'
  have kept : u'.parser.forget = (body.blank s.parser).forget := by
    rw [← same', forget_scan, parser]
  cases is : t.terminal with
  | newline =>
    rw [is] at done next next'
    have same : s.parser.scan t = u.parser := Except.ok.inj done
    rw [scan_silent (by rw [is]; decide)] at same
    exact .inl ⟨rfl, body, (Option.some.inj next).symm, (Option.some.inj next').symm, by rw [kept, same]⟩
  | start =>
    rw [is] at done next next'
    have same : body.begin qt (s.parser.scan t) = u.parser := Except.ok.inj done
    rw [scan_silent (by rw [is]; decide)] at same
    exact .inr (.inr ⟨rfl, body, header, (Option.some.inj next).symm, (Option.some.inj next').symm, same.symm, kept⟩)
  | comment | mcomment =>
    have comment : t.terminal.isComment = true := by rw [is]; decide
    obtain ⟨mode, begun⟩ := step_header_comment header comment step
    rw [is] at next'
    refine .inr (.inl ⟨by decide, ?_, ?_, fun other same => nomatch mode.symm.trans same⟩)
    · exact congrArg GrammarState.canonical (mode.trans (Option.some.inj next'))
    · rw [begun, begin_scan_comment body read comment, kept]
  | _ =>
    rw [is] at next
    cases next

end Inserted

section Heads
variable {qt : Core}

/-- The names of the classes or PODs that are complete, and the name of the one that was begun last. -/
def RepParser.heads (p : RepParser qt.toSha1) : Body → List QString × QString
  | .cls => (p.ast.classes.map (·.name), p.astClass.name)
  | .pod => (p.ast.pods.map (·.name), p.astPod.name)

def GrammarState.body : GrammarState → Option Body
  | global _ | header _ => none
  | opening body => some body
  | cls _ => some .cls
  | pod _ _ | parameter _ _ => some .pod
  | enum scope _ => scope

/-- All names, that of a class or POD whose members are being read as well. -/
def GrammarState.names (m : GrammarState) (p : RepParser qt.toSha1) (body : Body) : List QString :=
  (p.heads body).1 ++ if m.body = some body then [(p.heads body).2] else []

/-- The names that an action adds. -/
def added (p : RepParser qt.toSha1) (body : Body) : GrammarState → Terminal → List QString
  | .header b, .comment | .header b, .mcomment | .header b, .start => if b = body then [((b.begin qt p).heads body).2] else []
  | .global _, .pod => if body = .pod ∧ trimmed (p.value .types) ≠ [] then [trimmed (p.value .name)] else []
  | _, _ => []

end Heads

section Names
variable {qt : Core} {s s' u u' : State qt} {p q : RepParser qt.toSha1} {t t' : Token} {terminal : Terminal}
  {m n : GrammarState} {b body : Body}

theorem heads_scan (p : RepParser qt.toSha1) (t : Token) : (p.scan t).heads = p.heads := by
  rw [RepParser.scan]
  split
  · rfl
  · funext body
    cases body <;> rfl

theorem heads_prop (done : p.prop = .ok q) : q.heads = p.heads := by
  rw [RepParser.prop] at done
  cases read : parseProperty (p.value .args) with
  | error e =>
    rw [read] at done
    cases done
  | ok property =>
    rw [read] at done
    cases done
    funext body
    cases body <;> rfl

theorem heads_classFlag (done : p.classFlag = .ok q) : q.heads = p.heads := by
  rw [RepParser.classFlag] at done
  split at done
  · cases done
  · cases done
    funext body
    cases body <;> rfl

theorem heads_podFlag (done : p.podFlag = .ok q) : q.heads = p.heads := by
  rw [RepParser.podFlag] at done
  split at done
  · cases done
  · cases done
    funext body
    cases body <;> rfl

theorem heads_flag (done : p.flag = .ok q) : q.heads = p.heads := by
  rw [RepParser.flag] at done
  split at done
  · cases done
  · cases done
    funext body
    cases body <;> rfl

theorem heads_preprocessorDirective (p : RepParser qt.toSha1) : p.preprocessorDirective.heads = p.heads := by
  rw [RepParser.preprocessorDirective]
  funext body
  split
  · cases body <;> rfl
  · split <;> cases body <;> rfl

theorem heads_pod_token {letters : Char → Bool} (done : p.pod letters = .ok q) (body : Body) :
    (q.heads body).1 = (p.heads body).1 ++
      if body = .pod ∧ trimmed (p.value .types) ≠ [] then [trimmed (p.value .name)] else [] := by
  rw [RepParser.pod] at done
  split at done
  case isTrue nothing =>
    cases done
    rw [if_neg (fun h => h.2 nothing), List.append_nil]
  case isFalse some =>
    split at done
    · cases done
    · cases done
      cases body with
      | cls => rw [if_neg (fun h => nomatch h.1), List.append_nil]; rfl
      | pod =>
        rw [if_pos ⟨rfl, some⟩]
        exact List.map_append

theorem heads_global (done : consumeGlobal qt p terminal = .ok q) (other : terminal ≠ .pod) : q.heads = p.heads := by
  cases terminal with
  | pod => exact absurd rfl other
  | flag => exact heads_flag done
  | preprocessor_directive =>
    cases done
    exact heads_preprocessorDirective p
  | prop =>
    rw [consumeGlobal] at done
    cases read : p.prop <;> rw [read] at done <;> cases done
  | _ =>
    cases done
    try (funext body; cases body <;> rfl)

theorem heads_cls {commented : Bool} (done : consumeCls qt p commented terminal = .ok q) (other : terminal ≠ .stop)
    (next : nextCls commented terminal = some n) : q.heads = p.heads ∧ n.body = some .cls := by
  cases terminal with
  | stop => exact absurd rfl other
  | prop => cases next; exact ⟨heads_prop done, rfl⟩
  | flag => cases next; exact ⟨heads_classFlag done, rfl⟩
  | signal | slot | model | childrep | enum | newline | comment | mcomment =>
    cases done
    cases next
    exact ⟨by funext body; cases body <;> rfl, rfl⟩
  | _ => cases next

theorem heads_pod {place : PodPlace} {commented : Bool} (done : consumePod qt p terminal = .ok q) (other : terminal ≠ .stop)
    (next : nextPod place commented terminal = some n) : q.heads = p.heads ∧ n.body = some .pod := by
  cases terminal with
  | stop => exact absurd rfl other
  | flag => cases next; exact ⟨heads_podFlag done, rfl⟩
  | comma | qualifier | symbol | enum | newline | comment | mcomment =>
    cases done
    refine ⟨by funext body; cases body <;> rfl, ?_⟩
    cases place <;> cases commented <;> cases next <;> rfl
  | _ => cases next

theorem heads_parameter {place : ParameterPlace} {templates : Nat} (done : consumeParameter qt p place templates terminal = .ok q)
    (next : nextParameter place templates terminal = some n) : q.heads = p.heads ∧ n.body = some .pod := by
  constructor
  · cases place <;> cases terminal <;> cases done <;> funext body <;> cases body <;> rfl
  · cases place <;> cases terminal <;> first | (cases next; rfl) | (cases templates <;> cases next <;> rfl)

theorem heads_enumStop (scope : Option Body) (p : RepParser qt.toSha1) : (enumStop qt scope p).heads = p.heads := by
  funext body
  rcases scope with _ | _ | _ <;> cases body <;> rfl

theorem heads_enum {scope : Option Body} {place : EnumPlace} (done : consumeEnum qt p scope place terminal = .ok q)
    (next : nextEnum scope place terminal = some n) : q.heads = p.heads ∧ n.body = scope := by
  constructor
  · cases place <;> cases terminal <;> cases done <;>
      first | exact heads_enumStop scope _ | (funext body; cases body <;> rfl)
  · rcases place with commented | _ | _ | _ | _
    · cases commented <;> cases terminal <;> cases next <;> rfl
    all_goals
      cases terminal <;> first | (cases next; rfl) | (rcases scope with _ | _ | _ <;> cases next <;> rfl)

theorem names_of_none (outside : m.body = none) (p : RepParser qt.toSha1) (body : Body) : m.names p body = (p.heads body).1 := by
  rw [GrammarState.names, outside, if_neg (fun h => nomatch h), List.append_nil]

theorem names_kept (heads : q.heads = p.heads) (inside : n.body = m.body) (nothing : added p body m terminal = []) :
    n.names q body = m.names p body ++ added p body m terminal := by
  rw [nothing, List.append_nil, GrammarState.names, heads, inside, GrammarState.names]

theorem heads_begin (p : RepParser qt.toSha1) (b body : Body) : ((b.begin qt p).heads body).1 = (p.heads body).1 := by
  cases b <;> cases body <;> rfl

theorem heads_stop_cls (p : RepParser qt.toSha1) (body : Body) :
    (p.cls.heads body).1 = (p.heads body).1 ++ if Body.cls = body then [(p.heads body).2] else [] := by
  cases body with
  | cls => exact List.map_append
  | pod => exact (List.append_nil _).symm

theorem heads_stop_pod (p : RepParser qt.toSha1) (body : Body) :
    (p.pod2.heads body).1 = (p.heads body).1 ++ if Body.pod = body then [(p.heads body).2] else [] := by
  cases body with
  | cls => exact (List.append_nil _).symm
  | pod => exact List.map_append

/-- The brace at the end of a class or POD makes the name that was begun a name of the list. -/
theorem names_stop (heads : ∀ body, (q.heads body).1 = (p.heads body).1 ++ if b = body then [(p.heads body).2] else [])
    (inside : m.body = some b) (outside : n.body = none) (nothing : added p body m terminal = []) :
    n.names q body = m.names p body ++ added p body m terminal := by
  rw [nothing, List.append_nil, names_of_none outside, heads, GrammarState.names, inside]
  simp only [Option.some.injEq]

/-- An action adds the name that begins, and the braces of a class or POD keep its name. -/
theorem consume_names (body : Body) (done : consume qt p m terminal = .ok q) (next : m.next terminal = some n) :
    n.names q body = m.names p body ++ added p body m terminal := by
  cases m with
  | global types =>
    have outside : n.body = none := by
      cases terminal <;> cases next <;> rfl
    rw [names_of_none outside, names_of_none rfl]
    by_cases pod : terminal = .pod
    · rw [pod] at done ⊢
      exact heads_pod_token done body
    · rw [heads_global done pod]
      cases terminal <;> first | exact absurd rfl pod | exact (List.append_nil _).symm
  | header b =>
    cases terminal with
    | newline =>
      cases done
      cases next
      exact names_kept rfl rfl rfl
    | comment | mcomment | start =>
      cases done
      cases next
      have inside : ∀ n : GrammarState, n = .opening b ∨ n = b.mode → n.body = some b := by
        rintro n (rfl | rfl)
        · rfl
        · cases b <;> rfl
      rw [names_of_none (m := .header b) rfl, GrammarState.names, heads_begin, inside _ (by first | exact .inl rfl | exact .inr rfl)]
      simp only [Option.some.injEq]
      rfl
    | _ => cases next
  | opening b =>
    have inside : n.body = some b := by
      cases terminal <;> cases next <;> first | rfl | (cases b <;> rfl)
    cases done
    exact names_kept rfl inside rfl
  | cls commented =>
    by_cases stop : terminal = .stop
    · rw [stop] at done next ⊢
      cases done
      cases next
      exact names_stop (heads_stop_cls p) rfl rfl rfl
    · obtain ⟨heads, inside⟩ := heads_cls done stop next
      exact names_kept heads inside rfl
  | pod place commented =>
    by_cases stop : terminal = .stop
    · rw [stop] at done next ⊢
      have outside : n = .global true := by
        cases place <;> cases next <;> rfl
      cases done
      cases outside
      exact names_stop (heads_stop_pod p) rfl rfl rfl
    · obtain ⟨heads, inside⟩ := heads_pod done stop next
      exact names_kept heads inside rfl
  | parameter place templates =>
    obtain ⟨heads, inside⟩ := heads_parameter done next
    exact names_kept heads inside rfl
  | enum scope place =>
    obtain ⟨heads, inside⟩ := heads_enum done next
    exact names_kept heads inside rfl

end Names

section Different
variable {qt : Core} {s s' u u' : State qt} {t t' : Token} {ts ts' : List Token} {body : Body}

def State.names (s : State qt) (body : Body) : List QString := s.mode.names s.parser body

/-- Two parsers in the same place, with different names of classes or PODs. -/
structure Differ (body : Body) (s s' : State qt) : Prop where
  mode : s.mode.canonical = s'.mode.canonical
  names : s.names body ≠ s'.names body

theorem step_names (step : s.step t = .ok u) (body : Body) :
    u.names body = s.names body ++ added (s.parser.scan t) body s.mode t.terminal := by
  obtain ⟨done, next⟩ := step_ok_iff.mp step
  rw [State.names, consume_names body done next, State.names, GrammarState.names, heads_scan, GrammarState.names]

theorem added_eq_nil {p : RepParser qt.toSha1} {m : GrammarState} {terminal : Terminal} (headless : ∀ b, m ≠ .header b)
    (inside : ∀ types, m ≠ .global types) : added p body m terminal = [] := by
  cases m with
  | header b => exact absurd rfl (headless b)
  | global types => exact absurd rfl (inside types)
  | _ => rfl

/-- The number of names that a token adds does not depend on the parser. -/
theorem length_added {m m' : GrammarState} (p p' : RepParser qt.toSha1) (same : m.canonical = m'.canonical) (alike : t.Alike t') :
    (added (p.scan t) body m t.terminal).length = (added (p'.scan t') body m' t'.terminal).length := by
  rw [← alike.1]
  by_cases isHeader : ∃ b, m = .header b
  · obtain ⟨b, rfl⟩ := isHeader
    rw [canonical_eq_header same.symm]
    cases t.terminal with
    | comment | mcomment | start =>
      simp only [added]
      split <;> rfl
    | _ => rfl
  by_cases isGlobal : ∃ types, m = .global types
  · obtain ⟨types, rfl⟩ := isGlobal
    obtain ⟨types', rfl⟩ := canonical_eq_global same.symm
    by_cases pod : t.terminal = .pod
    · have captures (p : RepParser qt.toSha1) {t : Token} (pod : t.terminal = .pod) :
          (p.scan t).value .types = captured t.captures .types := by
        rw [RepParser.scan, if_neg (by rw [pod]; decide), RepParser.value]
      simp only [pod, added, captures p pod, captures p' (alike.1.symm.trans pod), alike.2 (by rw [pod]; decide)]
      split <;> rfl
    · cases is : t.terminal <;> first | exact absurd is pod | rfl
  have headless (b : Body) : m ≠ .header b := fun is => isHeader ⟨b, is⟩
  have inside (types : Bool) : m ≠ .global types := fun is => isGlobal ⟨types, is⟩
  have headless' (b : Body) : m' ≠ .header b := fun is => headless b (canonical_eq_header (by rw [same, is]; rfl))
  have inside' (types : Bool) : m' ≠ .global types := by
    rintro rfl
    obtain ⟨types, is⟩ := canonical_eq_global (m := m) same
    exact inside types is
  rw [added_eq_nil headless inside, added_eq_nil headless' inside']

theorem Differ.step (differ : Differ body s s') (alike : t.Alike t') (step : s.step t = .ok u) (step' : s'.step t' = .ok u') :
    Differ body u u' := by
  have next := (step_ok_iff.mp step).2
  have next' := (step_ok_iff.mp step').2
  rw [← alike.1] at next'
  refine ⟨next_alike differ.mode next next', fun same => differ.names ?_⟩
  rw [step_names step, step_names step'] at same
  exact List.append_inj_left' same (length_added _ _ differ.mode alike)

theorem Differ.run (differ : Differ body s s') (alike : List.Forall₂ Token.Alike ts ts') (run : s.run ts = .ok u)
    (run' : s'.run ts' = .ok u') : Differ body u u' := by
  induction alike generalizing s s' with
  | nil =>
    cases run_nil.mp run
    cases run_nil.mp run'
    exact differ
  | cons here _ ih =>
    obtain ⟨v, step, rest⟩ := run_cons.mp run
    obtain ⟨v', step', rest'⟩ := run_cons.mp run'
    exact ih (differ.step here step step') rest rest'

theorem toNat_of_isNameStart {c : Char} (start : isNameStart c = true) : 65 ≤ c.toNat ∧ c.toNat ≤ 122 := by
  rw [isNameStart, Bool.or_eq_true, isAlpha_iff, beq_iff_eq] at start
  rcases start with (⟨low, high⟩ | ⟨low, high⟩) | rfl
  · exact ⟨low, Nat.le_trans high (by decide)⟩
  · exact ⟨Nat.le_trans (by decide) low, high⟩
  · decide

theorem isSpace_of_isNameStart {c : Char} (start : isNameStart c = true) : QChar.isSpace c = false := by
  obtain ⟨low, high⟩ := toNat_of_isNameStart start
  have below (d : Char) (small : d.toNat < 65) : c ≠ d := by
    rintro rfl
    omega
  simp only [QChar.isSpace, Char.le_def, UInt32.le_iff_toNat_le, Char.toNat_val, List.mem_cons, List.not_mem_nil, or_false,
    Bool.decide_or, Bool.or_eq_false_iff, beq_eq_false_iff_ne, ne_eq, Bool.and_eq_false_imp, decide_eq_true_eq,
    decide_eq_false_iff_not, not_le, Char.reduceVal, UInt32.reduceToNat]
  refine ⟨⟨⟨below ' ' (by decide), ?_⟩, ?_⟩, ?_⟩ <;> omega

/-- A class or POD that is about to begin has a name. -/
def Named (s : State qt) : Prop := ∀ body : Body, s.mode = .header body → ((body.begin qt s.parser).heads body).2 ≠ []

theorem named_step (named : Named s) (read : t.Read) (step : s.step t = .ok u) : Named u := by
  intro body header
  obtain ⟨done, next⟩ := step_ok_iff.mp step
  rw [header] at next
  rcases next_header next with ⟨newline, before⟩ | ⟨begins, types, before⟩
  · rw [newline, before, scan_silent (by rw [newline]; decide)] at done
    rw [← Except.ok.inj done]
    exact named body before
  · have is : t.terminal = .cls ∨ t.terminal = .pod2 := by cases body <;> [exact .inl begins; exact .inr begins]
    obtain ⟨c, rest, captured_name, letter⟩ := captured_name read is
    rw [before, begins, RepParser.scan, if_neg (by rw [begins]; cases body <;> decide)] at done
    cases body with
    | cls =>
      rw [← Except.ok.inj done]
      exact fun empty => List.cons_ne_nil c rest (captured_name.symm.trans empty)
    | pod =>
      rw [← Except.ok.inj done]
      change trimmed (captured t.captures .name) ≠ []
      rw [captured_name]
      exact trimmed_ne_nil List.mem_cons_self (isSpace_of_isNameStart letter)

theorem named_run (named : Named s) (read : ∀ t ∈ ts, t.Read) (run : s.run ts = .ok u) : Named u := by
  induction ts generalizing s with
  | nil =>
    cases run_nil.mp run
    exact named
  | cons t ts ih =>
    obtain ⟨v, step, rest⟩ := run_cons.mp run
    rw [List.forall_mem_cons] at read
    exact ih (named_step named read.1 step) read.2 rest

theorem firstVisible_newline (is : t.terminal = .newline) : firstVisible (t :: ts) = firstVisible ts := by
  rw [firstVisible, List.filter_cons_of_neg (by simpa using is)]
  rfl

theorem firstVisible_other (is : t.terminal ≠ .newline) : firstVisible (t :: ts) = some t.terminal := by
  rw [firstVisible, List.filter_cons_of_pos (by simpa using is)]
  rfl

theorem lastVisible_newline (is : t.terminal = .newline) : lastVisible (ts ++ [t]) = lastVisible ts := by
  rw [lastVisible, List.filter_append, List.filter_cons_of_neg (by simpa using is), List.filter_nil, List.append_nil]
  rfl

theorem lastVisible_other (is : t.terminal ≠ .newline) : lastVisible (ts ++ [t]) = some t.terminal := by
  rw [lastVisible, List.filter_append, List.filter_cons_of_pos (by simpa using is), List.filter_nil, List.getLast?_concat]
  rfl

/-- Where a class or POD is about to begin, its first token was the last one that is no newline. -/
theorem header_iff (run : State.run {} ts = .ok s) (body : Body) :
    s.mode = .header body ↔ lastVisible ts = some body.terminal := by
  induction ts using List.reverseRecOn generalizing s with
  | nil =>
    cases run_nil.mp run
    exact ⟨fun h => (nomatch h), fun h => nomatch h⟩
  | append_singleton ts t ih =>
    obtain ⟨v, front, back⟩ := run_append.mp run
    obtain ⟨w, step, done⟩ := run_cons.mp back
    cases run_nil.mp done
    have next := (step_ok_iff.mp step).2
    by_cases newline : t.terminal = .newline
    · rw [lastVisible_newline newline, ← ih front]
      constructor
      · intro header
        rw [header] at next
        rcases next_header next with ⟨-, before⟩ | ⟨begins, -⟩
        · exact before
        · exact absurd (begins.symm.trans newline) (by cases body <;> decide)
      · intro header
        rw [header, newline] at next
        exact (Option.some.inj next).symm
    · rw [lastVisible_other newline]
      constructor
      · intro header
        rw [header] at next
        rcases next_header next with ⟨is, -⟩ | ⟨begins, -⟩
        · exact absurd is newline
        · rw [begins]
      · intro begins
        rw [Option.some.inj begins] at next
        exact next_terminal next

/-- The names differ from the brace on, if no other comment comes before it. -/
theorem Blank.run (blank : Blank s s') (named : Named s) (alike : List.Forall₂ Token.Alike ts ts') (read : ∀ t ∈ ts, t.Read)
    (read' : ∀ t ∈ ts', t.Read) (run : s.run ts = .ok u) (run' : s'.run ts' = .ok u') (done : u.mode = .global true) :
    if firstVisible ts = some .start then ∃ body, Differ body u u' else Agree u u' := by
  induction alike generalizing s s' with
  | nil =>
    cases run_nil.mp run
    obtain ⟨body, header, -⟩ := blank
    exact nomatch header.symm.trans done
  | @cons t t' ts ts' here later ih =>
    obtain ⟨v, step, rest⟩ := run_cons.mp run
    obtain ⟨v', step', rest'⟩ := run_cons.mp run'
    rw [List.forall_mem_cons] at read read'
    rcases blank.step here read.1 step step' with
      ⟨is, blank⟩ | ⟨comment, agree⟩ | ⟨is, body, header, mode, mode', parser, parser'⟩
    · rw [firstVisible_newline is]
      exact ih blank (named_step named read.1 step) read.2 read'.2 rest rest'
    · have other : firstVisible (t :: ts) ≠ some .start := by
        rcases (of_decide_eq_true comment : t.terminal = .comment ∨ t.terminal = .mcomment) with is | is <;>
          rw [firstVisible_other (by rw [is]; decide), is] <;> decide
      rw [if_neg other]
      exact agree.run later read.2 read'.2 rest rest'
    · rw [if_pos (by rw [firstVisible_other (by rw [is]; decide), is])]
      refine ⟨body, Differ.run ⟨by rw [mode, mode'], fun same => named body header ?_⟩ later rest rest'⟩
      have inside : GrammarState.body body.mode = some body := by cases body <;> rfl
      have blankHeads : v'.parser.heads body = ((s.parser.heads body).1, []) := by
        rw [show v'.parser.heads body = v'.parser.forget.heads body by cases body <;> rfl, parser']
        cases body <;> rfl
      rw [State.names, State.names, GrammarState.names, GrammarState.names, mode, mode', inside, if_pos rfl, if_pos rfl, parser, blankHeads,
        heads_begin] at same
      exact List.singleton_inj.mp (List.append_cancel_left same)

end Different

section Main
variable {qt : Core} {text text' : QString} {ast ast' : AST qt.toSha1} {s s' u u' : State qt} {ts ts' : List Token} {body : Body}

theorem Ahead.run (ahead : Ahead s s') (alike : List.Forall₂ Token.Alike ts ts') (read : ∀ t ∈ ts, t.Read)
    (read' : ∀ t ∈ ts', t.Read) (run : s.run ts = .ok u) (run' : s'.run ts' = .ok u') (done : u.mode = .global true) :
    Agree u u' := by
  cases alike with
  | nil =>
    cases run_nil.mp run
    obtain ⟨scope, named, -⟩ := ahead
    exact nomatch named.symm.trans done
  | cons here later =>
    obtain ⟨v, step, rest⟩ := run_cons.mp run
    obtain ⟨v', step', rest'⟩ := run_cons.mp run'
    rw [List.forall_mem_cons] at read read'
    exact (ahead.step here read.1 read'.1 step step').run later read.2 read'.2 rest rest'

theorem Differ.ast_ne (differ : Differ body s s') (done : s.mode = .global true) (done' : s'.mode = .global true) :
    s.parser.ast ≠ s'.parser.ast := by
  intro same
  refine differ.names ?_
  rw [State.names, State.names, names_of_none (by rw [done]; rfl), names_of_none (by rw [done']; rfl)]
  cases body with
  | cls => exact congrArg (fun ast : AST qt.toSha1 => ast.classes.map (·.name)) same
  | pod => exact congrArg (fun ast : AST qt.toSha1 => ast.pods.map (·.name)) same

/-- One more comment or newline is not seen unless the name of a class or POD gets lost. -/
theorem inserted_transparent_iff (qt : Core) (i : Insertion text text') {ast ast' : AST qt.toSha1} (accepted : parse qt text = .ok ast)
    (accepted' : parse qt text' = .ok ast') : ast' = ast ↔ ¬ i.AtHeader := by
  obtain ⟨last, run, -, done, rfl⟩ := parse_ok_iff.mp accepted
  obtain ⟨last', run', -, done', rfl⟩ := parse_ok_iff.mp accepted'
  have read := read_of_mem_scanned text
  have read' := read_of_mem_scanned text'
  rw [i.first] at run read
  rw [i.second] at run' read'
  rw [List.forall_mem_append] at read read'
  rw [List.forall_mem_cons] at read'
  obtain ⟨s, front, back⟩ := run_append.mp run
  obtain ⟨s', front', back'⟩ := run_append.mp run'
  obtain ⟨v', step, rest⟩ := run_cons.mp back'
  have agree := (agree_refl {}).run i.alike_before read.1 read'.1 front front'
  have named : Named s := by
    refine named_run ?_ read.1 front
    intro body header
    cases header
  rcases inserted_cases agree i.terminal read'.2.1 step with ⟨same, newline⟩ | ⟨blank, comment⟩
  · have here : ¬ i.AtHeader := by
      rintro ⟨comment, ⟨body, last⟩, -⟩
      have is := newline ⟨body, (header_iff front body).mpr last⟩
      rw [is] at comment
      exact absurd comment (by decide)
    refine iff_of_true (ast_eq_of_forget ?_) here
    rcases same with agree | ahead
    · exact (agree.run i.alike_after read.2 read'.2.2 back rest).parser.symm
    · exact (ahead.run i.alike_after read.2 read'.2.2 back rest done).parser.symm
  · obtain ⟨body, header, -⟩ := id blank
    have result := blank.run named i.alike_after read.2 read'.2.2 back rest done
    split at result
    case isTrue start =>
      obtain ⟨body', differ⟩ := result
      exact iff_of_false (differ.ast_ne done done').symm
        (not_not.mpr ⟨comment, ⟨body, (header_iff front body).mp header⟩, start⟩)
    case isFalse other => exact iff_of_true (ast_eq_of_forget result.parser.symm) fun here => other here.2.2

end Main

section Example

def asciiCore : Core := { treeSha with isLetterOrNumber := Char.isAlphanum }

theorem alike_self (ts : List Token) : List.Forall₂ Token.Alike ts ts :=
  List.forall₂_same.mpr fun _ _ => ⟨rfl, fun _ => rfl⟩

def foo : Token := ⟨.cls, [(.name, "Foo".toList)]⟩

def braces : List Token := [⟨.start, []⟩, ⟨.stop, []⟩]

def lineBreak : Insertion "class Foo \x7b \x7d".toList "class Foo \n\x7b \x7d".toList where
  before := [foo]
  after := braces
  before' := [foo]
  inserted := ⟨.newline, []⟩
  after' := braces
  first := by decide +kernel
  second := by decide +kernel
  alike_before := alike_self _
  alike_after := alike_self _
  terminal := .inl rfl

def classNames (text : QString) : Option (List QString) :=
  (parse asciiCore text).toOption.map fun ast => ast.classes.map (·.name)

theorem exists_of_classNames {text : QString} {names : List QString} (read : classNames text = some names) :
    ∃ ast, parse asciiCore text = .ok ast ∧ ast.classes.map (·.name) = names := by
  rw [classNames] at read
  cases result : parse asciiCore text with
  | error e =>
    rw [result] at read
    cases read
  | ok ast =>
    rw [result] at read
    exact ⟨ast, rfl, Option.some.inj read⟩

theorem lineBreak_transparent : ∃ ast, parse asciiCore "class Foo \x7b \x7d".toList = .ok ast ∧
    parse asciiCore "class Foo \n\x7b \x7d".toList = .ok ast := by
  obtain ⟨ast, accepted, -⟩ := exists_of_classNames
    (show classNames "class Foo \x7b \x7d".toList = some ["Foo".toList] by decide +kernel)
  obtain ⟨ast', accepted', -⟩ := exists_of_classNames
    (show classNames "class Foo \n\x7b \x7d".toList = some ["Foo".toList] by decide +kernel)
  have same := (inserted_transparent_iff asciiCore lineBreak accepted accepted').mpr fun here => nomatch here.1
  rw [same] at accepted'
  exact ⟨ast, accepted, accepted'⟩

/-- The class has no name any more. -/
theorem comment_not_transparent : ∃ ast ast', parse asciiCore "class Foo \x7b \x7d".toList = .ok ast ∧
    parse asciiCore "class Foo // c\n\x7b \x7d".toList = .ok ast' ∧ ast.classes.map (·.name) = ["Foo".toList] ∧
    ast'.classes.map (·.name) = [[]] ∧ ast' ≠ ast := by
  obtain ⟨ast, accepted, names⟩ := exists_of_classNames
    (show classNames "class Foo \x7b \x7d".toList = some ["Foo".toList] by decide +kernel)
  obtain ⟨ast', accepted', names'⟩ := exists_of_classNames
    (show classNames "class Foo // c\n\x7b \x7d".toList = some [[]] by decide +kernel)
  refine ⟨ast, ast', accepted, accepted', names, names', fun same => ?_⟩
  rw [same, names] at names'
  exact absurd names' (by decide)

end Example

end RemoteObjects.Repc
