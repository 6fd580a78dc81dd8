import RemoteObjects.ContextFree
import RemoteObjects.Repc.Grammar
import RemoteObjects.Transition

/-! The productions of `.rep` files. What the places of the grammar accept is the language that they generate. -/
namespace RemoteObjects.Repc.Productions
open ContextFree Transition

section Model

inductive NonTerminal
  | topLevel
  | types
  | newlines
  | comments
  | comment
  | type
  | comma
  | equals
  | preprocessorDirective
  | pod
  | cls
  | classContent
  | classTypes
  | classType
  | pod2
  | podContent
  | podTypes
  | podType
  | parameter
  | decoratedParameterType
  | parameterType
  | templateType
  | templateTypename
  | tStart
  | tStop
  | qualified
  | passByReference
  | parameterTypes
  | captureComma
  | simpleType
  | parameterName
  | decoratedSlot
  | decoratedSignal
  | decoratedProp
  | decoratedModel
  | decoratedClass
  | decoratedEnumParam
  | decoratedClassFlag
  | decoratedPODFlag
  | decoratedEnum
  | start
  | stop
  | enum
  | enumStart
  | enumParams
  | enumParam
  | symbol
  | value
  | classFlag
  | podFlag
  | prop
  | signal
  | slot
  | model
  | childRep
  | classStart
  | podStart
  | useEnum
  | flag
deriving DecidableEq

abbrev Rule := ContextFreeRule Terminal NonTerminal

abbrev Output := List (Symbol Terminal NonTerminal)

/-- A token. -/
abbrev tok (t : Terminal) : Symbol Terminal NonTerminal := .terminal t

abbrev ref (n : NonTerminal) : Symbol Terminal NonTerminal := .nonterminal n

/-- `X | X Newlines` -/
def thenNewlines (X : Symbol Terminal NonTerminal) : List Output := [[X], [X, ref .newlines]]

/-- `X | Comments X | X Newlines | Comments X Newlines` -/
def decorated (X : Symbol Terminal NonTerminal) : List Output :=
  [[X], [ref .comments, X], [X, ref .newlines], [ref .comments, X, ref .newlines]]

/-- What stands between braces, for classes and for PODs. -/
def content (inner : NonTerminal) : List Output :=
  [[ref inner], [ref inner, ref .comments], [ref .newlines, ref inner], [ref .newlines, ref inner, ref .comments],
    [ref .comments], [ref .newlines], [ref .newlines, ref .comments], [ref .comments, ref .newlines],
    [ref .newlines, ref .comments, ref .newlines]]

/-- The rules of each nonterminal, without those whose actions only set an error. -/
def alternatives : NonTerminal → List Output
  | .topLevel => [[ref .types], [ref .newlines, ref .types]]
  | .types => [[ref .type], [ref .types, ref .type]]
  | .newlines => [[tok .newline], [ref .newlines, tok .newline]]
  | .comments => [[ref .comment], [ref .comments, ref .comment]]
  | .comment => thenNewlines (tok .comment) ++ thenNewlines (tok .mcomment)
  | .type =>
    thenNewlines (ref .preprocessorDirective) ++ thenNewlines (ref .pod) ++ [[ref .pod2], [ref .cls]] ++ thenNewlines (ref .useEnum) ++
      thenNewlines (ref .comment) ++ [[ref .enum]] ++ thenNewlines (ref .flag)
  | .comma => thenNewlines (tok .comma)
  | .equals => [[tok .equals]]
  | .preprocessorDirective => [[tok .preprocessor_directive]]
  | .pod => [[tok .pod]]
  | .cls => [[ref .classStart, ref .start, ref .classContent, ref .stop], [ref .classStart, ref .start, ref .stop]]
  | .classContent => content .classTypes
  | .classTypes => [[ref .classType], [ref .classTypes, ref .classType]]
  | .classType =>
    [[ref .decoratedProp], [ref .decoratedSignal], [ref .decoratedSlot], [ref .decoratedModel], [ref .decoratedClass],
      [ref .decoratedClassFlag], [ref .decoratedEnum]]
  | .pod2 => [[ref .podStart, ref .start, ref .podContent, ref .stop], [ref .podStart, ref .start, ref .stop]]
  | .podContent => content .podTypes
  | .podTypes => [[ref .podType], [ref .podTypes, ref .captureComma, ref .podType], [ref .podTypes, ref .podType]]
  | .podType => [[ref .decoratedPODFlag], [ref .decoratedEnum]] ++ thenNewlines (ref .parameter)
  | .parameter => [[ref .decoratedParameterType, ref .parameterName]]
  | .decoratedParameterType =>
    [[ref .parameterType], [ref .qualified, ref .parameterType], [ref .parameterType, ref .passByReference],
      [ref .qualified, ref .parameterType, ref .passByReference]]
  | .parameterType => [[ref .simpleType], [ref .templateType]]
  | .templateType => [[ref .templateTypename, ref .tStart, ref .parameterTypes, ref .tStop]]
  | .templateTypename => [[ref .symbol]]
  | .tStart => [[tok .tstart]]
  | .tStop => [[tok .tstop]]
  | .qualified => [[tok .qualifier]]
  | .passByReference => [[tok .passbyqual]]
  | .parameterTypes => [[ref .decoratedParameterType], [ref .parameterTypes, ref .captureComma, ref .decoratedParameterType]]
  | .captureComma => thenNewlines (tok .comma)
  | .simpleType => [[ref .symbol]]
  | .parameterName => [[ref .symbol]]
  | .decoratedSlot => decorated (ref .slot)
  | .decoratedSignal => decorated (ref .signal)
  | .decoratedProp => decorated (ref .prop)
  | .decoratedModel => decorated (ref .model)
  | .decoratedClass => decorated (ref .childRep)
  | .decoratedEnumParam => decorated (ref .enumParam)
  | .decoratedClassFlag => decorated (ref .classFlag)
  | .decoratedPODFlag => decorated (ref .podFlag)
  | .decoratedEnum => decorated (ref .enum)
  | .start => decorated (tok .start)
  | .stop => thenNewlines (tok .stop)
  | .enum => [[ref .enumStart, ref .start, ref .enumParams, ref .stop]]
  | .enumStart => [[tok .enum]]
  | .enumParams => [[ref .decoratedEnumParam], [ref .enumParams, ref .comma, ref .decoratedEnumParam]]
  | .enumParam => [[ref .symbol], [ref .symbol, ref .equals, ref .value]]
  | .symbol => [[tok .symbol]]
  | .value => [[tok .value]]
  | .classFlag => [[tok .flag]]
  | .podFlag => [[tok .flag]]
  | .prop => [[tok .prop]]
  | .signal => [[tok .signal]]
  | .slot => [[tok .slot]]
  | .model => [[tok .model]]
  | .childRep => [[tok .childrep]]
  | .classStart => [[tok .cls, ref .newlines], [tok .cls]]
  | .podStart => [[tok .pod2], [tok .pod2, ref .newlines]]
  | .useEnum => [[tok .use_enum]]
  | .flag => [[tok .flag]]

def nonTerminals : List NonTerminal :=
  [.topLevel, .types, .newlines, .comments, .comment, .type, .comma, .equals, .preprocessorDirective, .pod, .cls, .classContent,
    .classTypes, .classType, .pod2, .podContent, .podTypes, .podType, .parameter, .decoratedParameterType, .parameterType,
    .templateType, .templateTypename, .tStart, .tStop, .qualified, .passByReference, .parameterTypes, .captureComma, .simpleType,
    .parameterName, .decoratedSlot, .decoratedSignal, .decoratedProp, .decoratedModel, .decoratedClass, .decoratedEnumParam,
    .decoratedClassFlag, .decoratedPODFlag, .decoratedEnum, .start, .stop, .enum, .enumStart, .enumParams, .enumParam, .symbol,
    .value, .classFlag, .podFlag, .prop, .signal, .slot, .model, .childRep, .classStart, .podStart, .useEnum, .flag]

def productions : List Rule := nonTerminals.flatMap fun n => (alternatives n).map fun output => ⟨n, output⟩

def repGrammar : ContextFreeGrammar Terminal := ⟨NonTerminal, .topLevel, productions.toFinset⟩

theorem mem_productions {rule : Rule} : rule ∈ productions ↔ rule.output ∈ alternatives rule.input := by
  constructor
  · intro mem
    obtain ⟨n, _, within⟩ := List.mem_flatMap.mp mem
    obtain ⟨output, there, rfl⟩ := List.mem_map.mp within
    exact there
  · intro there
    have listed : rule.input ∈ nonTerminals := by cases rule.input <;> decide
    exact List.mem_flatMap.mpr ⟨rule.input, listed, List.mem_map.mpr ⟨rule.output, there, rfl⟩⟩

end Model

section Places

/-- The nonterminals that lead from one place to another like one token. -/
def NonTerminal.likeToken : NonTerminal → Option Terminal
  | newlines => some .newline
  | comments | comment => some .comment
  | comma | captureComma => some .comma
  | equals => some .equals
  | preprocessorDirective => some .preprocessor_directive
  | pod => some .pod
  | templateTypename | simpleType | parameterName | symbol => some .symbol
  | tStart => some .tstart
  | tStop => some .tstop
  | qualified => some .qualifier
  | passByReference => some .passbyqual
  | slot | decoratedSlot => some .slot
  | signal | decoratedSignal => some .signal
  | prop | decoratedProp => some .prop
  | model | decoratedModel => some .model
  | childRep | decoratedClass => some .childrep
  | flag | classFlag | decoratedClassFlag | podFlag | decoratedPODFlag => some .flag
  | start => some .start
  | stop => some .stop
  | enumStart => some .enum
  | value => some .value
  | classStart => some .cls
  | podStart => some .pod2
  | useEnum => some .use_enum
  | _ => none

/-- The templates around a place where a type of a parameter may begin, or where one may that is not qualified yet. -/
def typeBegins : GrammarState → Option Nat
  | .pod _ false => some 0
  | .parameter .before templates | .parameter .comma templates => some templates
  | _ => none

def qualifiedBegins : GrammarState → Option Nat
  | .parameter .qualified templates => some templates
  | s => typeBegins s

def decoratedTypeEnds (templates : Nat) : List GrammarState :=
  [.parameter .named templates, .parameter .typed templates, .parameter .referenced templates]

def enumEnds : GrammarState → List GrammarState
  | .global _ => [.global true]
  | .cls _ => [.cls false]
  | .pod _ _ => [.pod .member false]
  | _ => []

/-- The places that the words of a nonterminal may lead to, none if it cannot stand there. -/
def behind (n : NonTerminal) (s : GrammarState) : List GrammarState :=
  match n.likeToken with
  | some t => (s.next t).toList
  | none =>
    match n, s with
    | .topLevel, .global false => [.global true]
    | .types, .global _ | .type, .global _ | .cls, .global _ | .pod2, .global _ => [.global true]
    | .classContent, .cls false => [.cls false, .cls true]
    | .classTypes, .cls false | .classType, .cls false => [.cls false]
    | .podContent, .pod .empty false => [.pod .empty false, .pod .empty true, .pod .member false, .pod .member true]
    | .podTypes, .pod .empty false => [.pod .member false]
    | .podType, .pod _ false | .parameter, .pod _ false => [.pod .member false]
    | .decoratedParameterType, s => (typeBegins s).elim [] decoratedTypeEnds
    | .parameterType, s => (qualifiedBegins s).elim [] fun templates => [.parameter .named templates, .parameter .typed templates]
    | .templateType, s => (qualifiedBegins s).elim [] fun templates => [.parameter .typed templates]
    | .parameterTypes, .parameter .before (templates + 1) => decoratedTypeEnds (templates + 1)
    | .enum, s | .decoratedEnum, s => enumEnds s
    | .enumParams, .enum scope .before | .enumParam, .enum scope .before | .decoratedEnumParam, .enum scope .before =>
      [.enum scope .named, .enum scope .done]
    | _, _ => []

def symbolBehind : Symbol Terminal NonTerminal → GrammarState → List GrammarState
  | .terminal t, s => (s.next t).toList
  | .nonterminal n, s => behind n s

/-- What an output leads to is among these places. -/
def Covers : List (Symbol Terminal NonTerminal) → GrammarState → List GrammarState → Prop
  | [], s, targets => s ∈ targets
  | X :: rest, s, targets => symbolBehind X s ≠ [] ∧ ∀ next ∈ symbolBehind X s, Covers rest next targets

def Covered (s : GrammarState) (rule : Rule) : Prop := behind rule.input s ≠ [] → Covers rule.output s (behind rule.input s)

instance decidableCovers : ∀ output s targets, Decidable (Covers output s targets)
  | [], s, targets => inferInstanceAs (Decidable (s ∈ targets))
  | X :: rest, s, targets =>
    have (next : GrammarState) : Decidable (Covers rest next targets) := decidableCovers rest next targets
    inferInstanceAs (Decidable (symbolBehind X s ≠ [] ∧ ∀ next ∈ symbolBehind X s, Covers rest next targets))

instance (s : GrammarState) (rule : Rule) : Decidable (Covered s rule) :=
  inferInstanceAs (Decidable (_ → _))

theorem covered_global : ∀ types, ∀ rule ∈ productions, Covered (.global types) rule := by decide +kernel

theorem covered_header : ∀ body ∈ [Body.cls, .pod], ∀ rule ∈ productions, Covered (.header body) rule ∧ Covered (.opening body) rule := by
  decide +kernel

theorem covered_cls : ∀ commented, ∀ rule ∈ productions, Covered (.cls commented) rule := by decide +kernel

theorem covered_pod : ∀ place ∈ [PodPlace.empty, .member, .comma], ∀ commented, ∀ rule ∈ productions, Covered (.pod place commented) rule := by
  decide +kernel

theorem covered_enum : ∀ scope ∈ [none, some Body.cls, some Body.pod],
    ∀ place ∈ [EnumPlace.opening false, .opening true, .before, .named, .equals, .done],
    ∀ rule ∈ productions, Covered (.enum scope place) rule := by
  decide +kernel

/-- The nonterminals that can stand within a parameter. -/
def withinParameter : List NonTerminal :=
  [.newlines, .comma, .decoratedParameterType, .parameterType, .templateType, .templateTypename, .tStart, .tStop, .qualified,
    .passByReference, .parameterTypes, .captureComma, .simpleType, .parameterName, .symbol]

theorem behind_parameter (n : NonTerminal) (place : ParameterPlace) (templates : Nat) (foreign : n ∉ withinParameter) :
    behind n (.parameter place templates) = [] := by
  cases n <;> first | (cases place <;> rfl) | exact absurd foreign (by decide)

theorem covered_untemplated : ∀ place ∈ [ParameterPlace.before, .comma, .qualified, .named, .typed, .referenced],
    ∀ rule ∈ productions, Covered (.parameter place 0) rule := by
  decide +kernel

theorem covered_templated (place : ParameterPlace) (templates : Nat) :
    ∀ n ∈ withinParameter, ∀ output ∈ alternatives n, Covered (.parameter place (templates + 1)) ⟨n, output⟩ := by
  simp only [withinParameter, alternatives, thenNewlines, List.forall_mem_cons]
  and_intros
  all_goals
    cases place <;> simp [Covered, Covers, symbolBehind, behind, NonTerminal.likeToken, GrammarState.next, nextParameter,
      nextTyped, typeBegins, qualifiedBegins, decoratedTypeEnds]

theorem covered_parameter (place : ParameterPlace) (templates : Nat) : ∀ rule ∈ productions, Covered (.parameter place templates) rule := by
  intro rule inGrammar
  cases templates with
  | zero => exact covered_untemplated place (by cases place <;> decide) rule inGrammar
  | succ templates =>
    intro possible
    have within : rule.input ∈ withinParameter := by
      by_contra foreign
      exact possible (behind_parameter rule.input place _ foreign)
    exact covered_templated place templates rule.input within rule.output (mem_productions.mp inGrammar) possible

/-- From each place, what a rule leads to is what its nonterminal leads to. -/
theorem covered (s : GrammarState) : ∀ rule ∈ productions, Covered s rule := by
  cases s with
  | global types => exact covered_global types
  | header body => exact fun rule inGrammar => (covered_header body (by cases body <;> decide) rule inGrammar).1
  | opening body => exact fun rule inGrammar => (covered_header body (by cases body <;> decide) rule inGrammar).2
  | cls commented => exact covered_cls commented
  | pod place commented => exact covered_pod place (by cases place <;> decide) commented
  | parameter place templates => exact covered_parameter place templates
  | enum scope place =>
    refine covered_enum scope ?_ place ?_
    · obtain _ | _ | _ := scope <;> decide
    · obtain (_ | _) | _ | _ | _ | _ := place <;> decide

end Places

section Generated
variable {s : GrammarState} {targets : List GrammarState}

/-- What leads from a place to one of the others. -/
def leads (s : GrammarState) (targets : List GrammarState) : Language Terminal := {w | ∃ t ∈ targets, exec GrammarState.next s w = some t}

def meaning (n : NonTerminal) : Language Terminal := {w | ∀ s, behind n s ≠ [] → w ∈ leads s (behind n s)}

theorem mem_leads_symbol {X : Symbol Terminal NonTerminal} {w : List Terminal} (mem : w ∈ symbolWords meaning X)
    (possible : symbolBehind X s ≠ []) : w ∈ leads s (symbolBehind X s) := by
  cases X with
  | terminal t =>
    obtain rfl : w = [t] := mem
    obtain ⟨next, to_next⟩ := Option.ne_none_iff_exists'.mp fun none => possible (congrArg Option.toList none)
    exact ⟨next, Option.mem_toList.mpr to_next, exec_cons.mpr ⟨next, to_next, rfl⟩⟩
  | nonterminal n => exact mem s possible

theorem outputWords_le_leads {output : List (Symbol Terminal NonTerminal)} (covers : Covers output s targets) :
    outputWords meaning output ≤ leads s targets := by
  induction output generalizing s with
  | nil =>
    intro w mem
    obtain rfl := (Language.mem_one w).mp mem
    exact ⟨s, covers, rfl⟩
  | cons X rest ih =>
    intro w mem
    rw [outputWords_cons] at mem
    obtain ⟨u, at_X, v, at_rest, rfl⟩ := Language.mem_mul.mp mem
    obtain ⟨next, between, first⟩ := mem_leads_symbol at_X covers.1
    obtain ⟨t, target, last⟩ := ih (covers.2 next between) at_rest
    exact ⟨t, target, exec_append.mpr ⟨next, first, last⟩⟩

theorem meaning_solves : Solves repGrammar meaning := by
  intro rule inGrammar w mem s possible
  have inProductions : rule ∈ productions := (List.mem_toFinset (α := Rule)).mp inGrammar
  exact outputWords_le_leads (covered s rule inProductions possible) mem

theorem generated_leads : repGrammar.language ≤ leads (.global false) [.global true] := by
  intro w generated
  exact words_le meaning_solves .topLevel generated (.global false) (List.cons_ne_nil _ _)

end Generated
end RemoteObjects.Repc.Productions
