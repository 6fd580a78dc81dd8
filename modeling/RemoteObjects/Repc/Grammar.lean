import RemoteObjects.Repc.Parser

/-! The grammar of `.rep` files as the places that its rules tell apart, and a run of the parser over the
tokens of a text. A rule is reduced with its last token if that token cannot belong to another rule, and
otherwise with the next one, so that its action sees the captures of that one. Newlines and comments at
the end of a rule have no actions of their own: there the action is that of the token before them. -/
namespace RemoteObjects.Repc

section Model

/-- What has braces. -/
inductive Body
  | cls
  | pod
deriving DecidableEq

/-- What has been read within the braces of a POD. -/
inductive PodPlace
  | empty
  | member
  | comma
deriving DecidableEq

inductive ParameterPlace
  | before
  | comma
  | qualified
  | named
  | typed
  | referenced
deriving DecidableEq

inductive EnumPlace
  | opening (commented : Bool)
  | before
  | named
  | equals
  | done
deriving DecidableEq

/-- Between two tokens. A flag `commented` says that comments stand there which belong to the next rule. -/
inductive GrammarState
  | global (types : Bool)
  | header (body : Body)
  | opening (body : Body)
  | cls (commented : Bool)
  | pod (place : PodPlace) (commented : Bool)
  | parameter (place : ParameterPlace) (templates : Nat)
  | enum (scope : Option Body) (place : EnumPlace)
deriving DecidableEq

def Body.mode : Body → GrammarState
  | cls => .cls false
  | pod => .pod .empty false

def behindEnum : Option Body → GrammarState
  | none => .global true
  | some .cls => .cls false
  | some .pod => .pod .member false

section Next

def nextGlobal (types : Bool) : Terminal → Option GrammarState
  | .newline => some (.global types)
  | .comment | .mcomment | .preprocessor_directive | .pod | .use_enum | .flag => some (.global true)
  | .cls => some (.header .cls)
  | .pod2 => some (.header .pod)
  | .enum => some (.enum none (.opening false))
  | _ => none

def nextHeader (body : Body) : Terminal → Option GrammarState
  | .newline => some (.header body)
  | .comment | .mcomment => some (.opening body)
  | .start => some body.mode
  | _ => none

def nextOpening (body : Body) : Terminal → Option GrammarState
  | .newline | .comment | .mcomment => some (.opening body)
  | .start => some body.mode
  | _ => none

def nextCls (commented : Bool) : Terminal → Option GrammarState
  | .newline => some (.cls commented)
  | .comment | .mcomment => some (.cls true)
  | .prop | .signal | .slot | .model | .childrep | .flag => some (.cls false)
  | .enum => some (.enum (some .cls) (.opening false))
  | .stop => some (.global true)
  | _ => none

/-- Comments belong to an enum or a flag, or stand in front of the brace. -/
def nextPod (place : PodPlace) (commented : Bool) : Terminal → Option GrammarState
  | .newline => some (.pod place commented)
  | .comment | .mcomment => some (.pod place true)
  | .flag => some (.pod .member false)
  | .enum => some (.enum (some .pod) (.opening false))
  | .stop => if place = .comma then none else some (.global true)
  | .comma => if commented = false ∧ place = .member then some (.pod .comma false) else none
  | .qualifier => if commented then none else some (.parameter .qualified 0)
  | .symbol => if commented then none else some (.parameter .named 0)
  | _ => none

/-- Behind a type. -/
def nextTyped (templates : Nat) : Terminal → Option GrammarState
  | .symbol => if templates = 0 then some (.pod .member false) else none
  | .comma => if templates = 0 then none else some (.parameter .comma templates)
  | .tstop => if templates = 0 then none else some (.parameter .typed (templates - 1))
  | _ => none

def nextParameter : ParameterPlace → Nat → Terminal → Option GrammarState
  | .comma, templates, .newline => some (.parameter .comma templates)
  | .before, templates, .qualifier | .comma, templates, .qualifier => some (.parameter .qualified templates)
  | .before, templates, .symbol | .comma, templates, .symbol | .qualified, templates, .symbol => some (.parameter .named templates)
  | .named, templates, .tstart => some (.parameter .before (templates + 1))
  | .named, templates, .passbyqual | .typed, templates, .passbyqual => some (.parameter .referenced templates)
  | .named, templates, t | .typed, templates, t | .referenced, templates, t => nextTyped templates t
  | _, _, _ => none

def nextEnum (scope : Option Body) : EnumPlace → Terminal → Option GrammarState
  | .opening _, .comment | .opening _, .mcomment | .opening true, .newline => some (.enum scope (.opening true))
  | .opening _, .start | .before, .newline | .before, .comment | .before, .mcomment => some (.enum scope .before)
  | .before, .symbol => some (.enum scope .named)
  | .named, .equals => some (.enum scope .equals)
  | .equals, .value | .named, .newline | .done, .newline => some (.enum scope .done)
  | .named, .comma | .done, .comma => some (.enum scope .before)
  | .named, .stop | .done, .stop => some (behindEnum scope)
  | _, _ => none

def GrammarState.next : GrammarState → Terminal → Option GrammarState
  | global types, t => nextGlobal types t
  | header body, t => nextHeader body t
  | opening body, t => nextOpening body t
  | cls commented, t => nextCls commented t
  | pod place commented, t => nextPod place commented t
  | parameter place templates, t => nextParameter place templates t
  | enum scope place, t => nextEnum scope place t

end Next

section Actions
variable (qt : Core) (p : RepParser qt.toSha1)

/-- The message of a member outside of a class. -/
def outsideClass (keyword : String) : QString := keyword.toList ++ ": Can only be used in class scope".toList

def consumeGlobal : Terminal → Except QString (RepParser qt.toSha1)
  | .preprocessor_directive => .ok p.preprocessorDirective
  | .pod => p.pod qt.isLetterOrNumber
  | .use_enum => .ok p.useEnum
  | .flag => p.flag
  | .enum => .ok p.enumStart
  | .signal => .error (outsideClass "SIGNAL")
  | .slot => .error (outsideClass "SLOT")
  | .prop => p.prop.bind fun _ => .error (outsideClass "PROP")
  | .model => .error (outsideClass "MODEL")
  | .childrep => .error (outsideClass "CLASS")
  | _ => .ok p

/-- `ClassStart` and `PodStart` -/
def Body.begin : Body → RepParser qt.toSha1
  | cls => p.classStart
  | pod => p.podStart

/-- The token behind a class, which is not a newline. -/
def consumeHeader (body : Body) : Terminal → Except QString (RepParser qt.toSha1)
  | .comment | .mcomment | .start => .ok (body.begin qt p)
  | _ => .ok p

def consumeCls (commented : Bool) : Terminal → Except QString (RepParser qt.toSha1)
  | .prop => p.prop
  | .signal => .ok p.signal
  | .slot => .ok p.slot
  | .model => .ok p.model
  | .childrep => .ok p.childRep
  | .flag => p.classFlag
  | .enum => .ok p.enumStart
  | .stop => .ok p.cls
  | .cls => if commented then .ok p else .error "class: Cannot be nested".toList
  | .pod =>
    if commented then .ok p
    else (p.pod qt.isLetterOrNumber).bind fun _ => .error "POD: Can only be used in global scope".toList
  | .use_enum => if commented then .ok p else .error "USE_ENUM: Can only be used in global scope".toList
  | _ => .ok p

/-- `Qualified` -/
def RepParser.qualified : RepParser qt.toSha1 := p.addText (trimmed (p.value .value) ++ [' '])

/-- `SimpleType` and `TemplateTypename` -/
def RepParser.typeName : RepParser qt.toSha1 := p.readSymbol.addText p.readSymbol.symbol

def RepParser.parameterName : RepParser qt.toSha1 := p.readSymbol.addText (' ' :: p.readSymbol.symbol)

def RepParser.passByReference : RepParser qt.toSha1 := p.addText (' ' :: trimmed (p.value .value))

def consumePod : Terminal → Except QString (RepParser qt.toSha1)
  | .flag => p.podFlag
  | .enum => .ok p.enumStart
  | .stop => .ok p.pod2
  | .comma => .ok (p.addText [','])
  | .qualifier => .ok (p.qualified qt)
  | .symbol => .ok (p.typeName qt)
  | _ => .ok p

/-- Within a POD, between the first token of a parameter and its name. -/
def consumeParameter : ParameterPlace → Nat → Terminal → Except QString (RepParser qt.toSha1)
  | _, _, .qualifier => .ok (p.qualified qt)
  | .before, _, .symbol | .comma, _, .symbol | .qualified, _, .symbol => .ok (p.typeName qt)
  | _, _, .symbol => .ok (p.parameterName qt)
  | _, _, .tstart => .ok (p.addText ['<'])
  | _, _, .tstop => .ok (p.addText ['>'])
  | _, _, .passbyqual => .ok (p.passByReference qt)
  | _, _, .comma => .ok (p.addText [','])
  | _, _, _ => .ok p

def enumStop : Option Body → RepParser qt.toSha1 → RepParser qt.toSha1
  | none, p => p.globalEnum
  | some .cls, p => p.classEnum
  | some .pod, p => p.podEnum

/-- An enumerator without a value is read when something else than `=` follows. -/
def consumeEnum (scope : Option Body) : EnumPlace → Terminal → Except QString (RepParser qt.toSha1)
  | .before, .symbol => .ok p.readSymbol
  | .named, .newline | .named, .comma => .ok p.enumParam
  | .named, .stop => .ok (enumStop qt scope p.enumParam)
  | .equals, .value => .ok p.readValue.enumParamValue
  | .done, .stop => .ok (enumStop qt scope p)
  | _, _ => .ok p

def consume : GrammarState → Terminal → Except QString (RepParser qt.toSha1)
  | .global _, t => consumeGlobal qt p t
  | .header body, t => consumeHeader qt p body t
  | .opening _, _ => .ok p
  | .cls commented, t => consumeCls qt p commented t
  | .pod _ _, t => consumePod qt p t
  | .parameter place templates, t => consumeParameter qt p place templates t
  | .enum scope place, t => consumeEnum qt p scope place t

end Actions

section Run

structure State (qt : Core) where
  mode : GrammarState := .global false
  parser : RepParser qt.toSha1 := {}

variable {qt : Core}

def unknownToken : QString := "Unknown token encountered".toList

def State.step (s : State qt) (t : Token) : Except QString (State qt) := do
  let parser ← consume qt (s.parser.scan t) s.mode t.terminal
  match s.mode.next t.terminal with
  | none => throw unknownToken
  | some mode => return ⟨mode, parser⟩

def State.run (s : State qt) (ts : List Token) : Except QString (State qt) := ts.foldlM State.step s

/-- `parse` of a text, with `ast` or with `errorString`. -/
def parse (qt : Core) (s : QString) : Except QString (AST qt.toSha1) := do
  let last ← State.run {} (scanned s).1
  if (scanned s).2 ∧ last.mode = .global true then return last.parser.ast
  else throw unknownToken

end Run

end Model

section Runs
variable {qt : Core} {s u : State qt} {t : Token} {ts us : List Token} {text : QString} {ast : AST qt.toSha1}

theorem step_ok_iff : s.step t = .ok u ↔
    consume qt (s.parser.scan t) s.mode t.terminal = .ok u.parser ∧ s.mode.next t.terminal = some u.mode := by
  rw [State.step]
  cases consume qt (s.parser.scan t) s.mode t.terminal with
  | error e => exact ⟨fun h => (nomatch h), fun h => nomatch h.1⟩
  | ok parser =>
    cases s.mode.next t.terminal with
    | none => exact ⟨fun h => (nomatch h), fun h => nomatch h.2⟩
    | some mode =>
      constructor
      · intro h
        cases h
        exact ⟨rfl, rfl⟩
      · rintro ⟨same, same'⟩
        cases same
        cases same'
        rfl

theorem run_nil : s.run [] = .ok u ↔ s = u :=
  ⟨fun h => by cases h; rfl, fun h => congrArg Except.ok h⟩

theorem run_cons : s.run (t :: ts) = .ok u ↔ ∃ v, s.step t = .ok v ∧ v.run ts = .ok u := by
  rw [State.run, List.foldlM_cons]
  cases s.step t with
  | error e => exact ⟨fun h => (nomatch h), fun ⟨_, h, _⟩ => nomatch h⟩
  | ok v =>
    constructor
    · exact fun h => ⟨v, rfl, h⟩
    · rintro ⟨_, same, h⟩
      cases same
      exact h

theorem run_append : s.run (ts ++ us) = .ok u ↔ ∃ v, s.run ts = .ok v ∧ v.run us = .ok u := by
  induction ts generalizing s with
  | nil => exact ⟨fun h => ⟨s, rfl, h⟩, fun ⟨_, same, h⟩ => by cases same; exact h⟩
  | cons t ts ih =>
    rw [List.cons_append, run_cons]
    constructor
    · rintro ⟨v, step, rest⟩
      obtain ⟨w, front, back⟩ := ih.mp rest
      exact ⟨w, run_cons.mpr ⟨v, step, front⟩, back⟩
    · rintro ⟨w, front, back⟩
      obtain ⟨v, step, rest⟩ := run_cons.mp front
      exact ⟨v, step, ih.mpr ⟨w, rest, back⟩⟩

/-- A text is accepted when its tokens lead to the end of a type. -/
theorem parse_ok_iff : parse qt text = .ok ast ↔
    ∃ last : State qt, State.run {} (scanned text).1 = .ok last ∧ (scanned text).2 = true ∧ last.mode = .global true ∧
      last.parser.ast = ast := by
  rw [parse]
  cases State.run {} (scanned text).1 with
  | error e => exact ⟨fun h => (nomatch h), fun ⟨_, h, _⟩ => nomatch h⟩
  | ok last =>
    by_cases done : (scanned text).2 ∧ last.mode = .global true
    · rw [show (Except.ok last >>= fun last => if (scanned text).2 ∧ last.mode = .global true then pure last.parser.ast
        else throw unknownToken : Except QString (AST qt.toSha1)) = .ok last.parser.ast from if_pos done]
      constructor
      · intro h
        cases h
        exact ⟨last, rfl, done.1, done.2, rfl⟩
      · rintro ⟨_, same, -, -, h⟩
        cases same
        exact congrArg Except.ok h
    · rw [show (Except.ok last >>= fun last => if (scanned text).2 ∧ last.mode = .global true then pure last.parser.ast
        else throw unknownToken : Except QString (AST qt.toSha1)) = .error unknownToken from if_neg done]
      refine ⟨fun h => (nomatch h), ?_⟩
      rintro ⟨_, same, all, mode, -⟩
      cases same
      exact absurd ⟨all, mode⟩ done

end Runs

end RemoteObjects.Repc
