import RemoteObjects.Repc.Sentences
import RemoteObjects.Repc.ShiftReduce

/-! The table-driven parser with the rules of `.rep` files: what it accepts, the places of the grammar accept, and it returns for
every text. -/
namespace RemoteObjects.Repc.TableParser
open ContextFree Transition Productions ShiftReduce

section Model

/-- The end of the text is a symbol of the tables. -/
def embed : Symbol Terminal NonTerminal → Symbol (Option Terminal) NonTerminal
  | .terminal t => .terminal (some t)
  | .nonterminal n => .nonterminal n

/-- The rules for what stands in the wrong place. Their actions set an error. -/
def misplaced : NonTerminal → List Output
  | .classType => [[ref .classStart], [ref .pod], [ref .useEnum]]
  | .type => [[ref .signal], [ref .slot], [ref .prop], [ref .model], [ref .childRep]]
  | _ => []

variable (table : Tables (Option Terminal) NonTerminal) (consumeRule : List (Event (Option Terminal)) → Nat → Bool)

/-- The tables are those of the grammar, and the actions for what is misplaced refuse it. -/
structure OfGrammar : Prop where
  eof : table.eofSymbol = none
  rules : ∀ rule ∈ table.rules, ∃ output, rule.output = output.map embed ∧
    (output ∈ alternatives rule.input ∨ output ∈ misplaced rule.input)
  refuses : ∀ r rule output, table.rules[r]? = some rule → rule.output = output.map embed → output ∈ misplaced rule.input →
    ∀ log, consumeRule log r = false

/-- How far above the tokens a symbol stands, over rules with one symbol. -/
def rank : Symbol (Option Terminal) NonTerminal → Nat
  | .terminal _ => 0
  | .nonterminal n =>
    match n with
    | .comments | .templateTypename | .simpleType | .parameterName | .enumParam | .type | .decoratedSlot | .decoratedSignal
    | .decoratedProp | .decoratedModel | .decoratedClass | .decoratedClassFlag | .decoratedPODFlag | .decoratedEnum => 2
    | .types | .parameterType | .decoratedEnumParam | .classType | .podType => 3
    | .topLevel | .decoratedParameterType | .enumParams | .classTypes | .podTypes => 4
    | .classContent | .podContent | .parameterTypes => 5
    | _ => 1

end Model

section Grammar
variable {table : Tables (Option Terminal) NonTerminal} {consumeRule : List (Event (Option Terminal)) → Nat → Bool}

def endedGrammar : ContextFreeGrammar (Option Terminal) :=
  ⟨NonTerminal, .topLevel, (productions.map fun rule => ⟨rule.input, rule.output.map embed⟩).toFinset⟩

def withoutEnd (n : NonTerminal) : Language (Option Terminal) := {w | ∃ u ∈ phrases n, w = u.map some}

theorem withoutEnd_output (output : Output) {w : List (Option Terminal)} (mem : w ∈ outputWords withoutEnd (output.map embed)) :
    ∃ u ∈ outputWords phrases output, w = u.map some := by
  induction output generalizing w with
  | nil =>
    obtain rfl := (Language.mem_one w).mp mem
    exact ⟨[], Language.nil_mem_one, rfl⟩
  | cons X rest ih =>
    rw [List.map_cons, outputWords_cons] at mem
    obtain ⟨first, at_X, last, at_rest, rfl⟩ := Language.mem_mul.mp mem
    obtain ⟨v, within, rfl⟩ := ih at_rest
    obtain ⟨u, phrase, rfl⟩ : ∃ u ∈ symbolWords phrases X, first = u.map some := by
      cases X with
      | terminal t => exact ⟨[t], rfl, at_X⟩
      | nonterminal n => exact at_X
    refine ⟨u ++ v, ?_, (List.map_append ..).symm⟩
    rw [outputWords_cons]
    exact Language.append_mem_mul phrase within

/-- What is generated with the embedded rules has no end within. -/
theorem words_ended (n : NonTerminal) : words endedGrammar n ≤ withoutEnd n := by
  apply words_le (g := endedGrammar)
  intro rule inGrammar w mem
  obtain ⟨original, known, rfl⟩ := List.mem_map.mp ((List.mem_toFinset (α := ContextFreeRule (Option Terminal) NonTerminal)).mp inGrammar)
  obtain ⟨u, within, rfl⟩ := withoutEnd_output original.output mem
  exact ⟨u, produces (mem_productions.mp known) within, rfl⟩

theorem ranked (grammar : OfGrammar table consumeRule) : Ranked table.rules rank 5 := by
  have known : ∀ n ∈ nonTerminals, ∀ output ∈ alternatives n ++ misplaced n, output ≠ [] ∧
      ∀ X ∈ output.head?, output.length = 1 → rank (embed X) < rank (.nonterminal n) := by
    decide +kernel
  have listed : ∀ rule ∈ table.rules, ∃ output, rule.output = output.map embed ∧ output ≠ [] ∧
      ∀ X ∈ output.head?, output.length = 1 → rank (embed X) < rank (.nonterminal rule.input) := by
    intro rule there
    obtain ⟨output, same, alternative⟩ := grammar.rules rule there
    obtain ⟨symbols, up⟩ := known rule.input (by cases rule.input <;> decide) output (List.mem_append.mpr alternative)
    exact ⟨output, same, symbols, up⟩
  constructor
  · intro rule there empty
    obtain ⟨output, same, symbols, _⟩ := listed rule there
    exact symbols (List.map_eq_nil_iff.mp (same.symm.trans empty))
  · intro rule there X single
    obtain ⟨output, same, _, up⟩ := listed rule there
    obtain ⟨Y, rfl, rfl⟩ := List.map_eq_singleton_iff.mp (same.symm.trans single)
    exact up Y rfl rfl
  · intro X
    obtain _ | n := X
    · exact Nat.zero_le 5
    · cases n <;> decide

theorem mem_consumed {T : Type} {log : List (Event T)} {r : Nat} (mem : r ∈ consumed log) :
    ∃ before after, log = before ++ .consumeRule r :: after := by
  obtain ⟨event, there, same⟩ := List.mem_filterMap.mp mem
  obtain ⟨before, after, rfl⟩ := List.append_of_mem there
  cases event with
  | nextToken _ => contradiction
  | consumeRule other =>
    obtain rfl := Option.some.inj same
    exact ⟨before, after, rfl⟩

/-- Rules whose actions have agreed are rules of the grammar. -/
theorem rule_known (grammar : OfGrammar table consumeRule) {log : List (Event (Option Terminal))} (approved : Approved consumeRule log)
    {r : Nat} (ran : r ∈ consumed log) {rule : ContextFreeRule (Option Terminal) NonTerminal} (there : table.rules[r]? = some rule) :
    rule ∈ endedGrammar.rules := by
  obtain ⟨before, after, split⟩ := mem_consumed ran
  obtain ⟨output, same, alternative | wrong⟩ := grammar.rules rule (List.mem_of_getElem? there)
  · apply (List.mem_toFinset (α := ContextFreeRule (Option Terminal) NonTerminal)).mpr
    refine List.mem_map.mpr ⟨⟨rule.input, output⟩, mem_productions.mpr alternative, ?_⟩
    rw [← same]
  · have agreed := approved before r after split
    rw [grammar.refuses r rule output there same wrong before] at agreed
    contradiction

theorem ended_words (meaning : NonTerminal → Language (Option Terminal)) (t : Option Terminal) :
    outputWords meaning [.nonterminal .topLevel, .terminal t] = meaning .topLevel * {[t]} := by
  rw [outputWords_cons, outputWords_singleton]
  rfl

theorem eof_inner (grammar : OfGrammar table consumeRule) (ts : List Terminal) : table.eofSymbol ∉ ts.map some := by
  rw [grammar.eof]
  intro mem
  obtain ⟨_, _, same⟩ := List.mem_map.mp mem
  contradiction

end Grammar

section Results
variable {table : Tables (Option Terminal) NonTerminal} {consumeRule : List (Event (Option Terminal)) → Nat → Bool}
variable {items : Nat → Option Nat → Nat → Prop} {stackSize : Nat} {ts : List Terminal} {atEnd : Bool}

/-- What the parser accepts with any tables for the grammar leads through the places of the grammar to the end of a type. -/
theorem accepted_places (grammar : OfGrammar table consumeRule) (canonical : Canonical table .topLevel items) (room : 0 < stackSize)
    {n : Nat} {s : Parser (Option Terminal)}
    (accepted : Parser.run table consumeRule n (.start stackSize (ts.map some) atEnd) = .accepted s) :
    exec GrammarState.next (.global false) ts = some (.global true) := by
  have inner := eof_inner grammar ts
  have good : Good table .topLevel items consumeRule (ts.map some) (.start stackSize (ts.map some) atEnd) [] [] :=
    good_start stackSize room (ts.map some) atEnd
  have fine := good.run canonical inner n
  rw [accepted] at fine
  have reduced := Reduces.mem_outputWords (g := endedGrammar) fine.reduces fun r ran rule there => rule_known grammar fine.approved ran there
  have sentence := (ended_words (words endedGrammar) table.eofSymbol).le reduced
  obtain ⟨w, generated, last, ends, split⟩ := Language.mem_mul.mp sentence
  obtain rfl : last = [table.eofSymbol] := ends
  obtain ⟨rfl, _⟩ := List.append_inj' split rfl
  obtain ⟨u, phrase, same⟩ := words_ended .topLevel generated
  obtain rfl : ts = u := List.map_injective_iff.mpr (Option.some_injective _) same
  exact run_of_generated phrase

/-- For every text, the parser returns, and has never left its stack then. -/
theorem parser_returns (grammar : OfGrammar table consumeRule) (canonical : Canonical table .topLevel items) (room : 0 < stackSize)
    {n : Nat} (enough : 12 * (ts.length + 2) ≤ n) :
    (∃ s, Parser.run table consumeRule n (.start stackSize (ts.map some) atEnd) = .accepted s) ∨
      ∃ s, Parser.run table consumeRule n (.start stackSize (ts.map some) atEnd) = .rejected s :=
  returns canonical (ranked grammar) room (eof_inner grammar ts) (by rw [List.length_map]; exact enough)

/-- The part of the tables that a `USE_ENUM` alone needs. -/
def useEnumTables : Tables (Option Terminal) NonTerminal where
  rules := [⟨.useEnum, [.terminal (some .use_enum)]⟩, ⟨.type, [.nonterminal .useEnum]⟩, ⟨.types, [.nonterminal .type]⟩,
    ⟨.topLevel, [.nonterminal .types]⟩]
  reads q := q = 0 ∨ q = 5
  t_action q token :=
    if q = 0 ∧ token = some (some .use_enum) then 1
    else if 1 ≤ q ∧ q ≤ 4 then -q
    else if q = 5 ∧ token = some none then 6
    else 0
  nt_action _
    | .useEnum => 2
    | .type => 3
    | .types => 4
    | _ => 5
  acceptState := 6
  eofSymbol := none

def useEnumItems (q : Nat) (rule : Option Nat) (dot : Nat) : Prop :=
  (q, rule, dot) ∈ [(0, none, 0), (0, some 3, 0), (0, some 2, 0), (0, some 1, 0), (0, some 0, 0), (1, some 0, 1), (2, some 1, 1),
    (3, some 2, 1), (4, some 3, 1), (5, none, 1), (6, none, 2)]

theorem canonical_useEnum : Canonical useEnumTables .topLevel useEnumItems := by
  constructor
  · intro rule dot item
    simp [useEnumItems] at item
    omega
  · intro q item
    simp [useEnumItems] at item
    exact item
  · intro q t action
    dsimp only [useEnumTables] at action ⊢
    split_ifs at action ⊢ <;> first | omega | (constructor <;> simp_all [useEnumItems, outputOf])
  · intro q
    dsimp only [useEnumTables]
    split_ifs <;> simp_all
  · intro q r rule item there
    simp [useEnumItems] at item
    obtain ⟨rfl, rfl⟩ | ⟨rfl, rfl⟩ | ⟨rfl, rfl⟩ | ⟨rfl, rfl⟩ := item <;>
    · obtain rfl := Option.some.inj there
      constructor <;> simp_all [useEnumItems, outputOf, useEnumTables]
  · intro q token _ action
    dsimp only [useEnumTables] at action ⊢
    split_ifs at action ⊢ with shifts reduces ends
    · contradiction
    · obtain rfl | rfl | rfl | rfl : q = 1 ∨ q = 2 ∨ q = 3 ∨ q = 4 := by omega
      · exact ⟨0, _, rfl, rfl, by simp [useEnumItems]⟩
      · exact ⟨1, _, rfl, rfl, by simp [useEnumItems]⟩
      · exact ⟨2, _, rfl, rfl, by simp [useEnumItems]⟩
      · exact ⟨3, _, rfl, rfl, by simp [useEnumItems]⟩
    · contradiction
    · contradiction
  · simp [useEnumItems, useEnumTables]
  · intro q action
    dsimp only [useEnumTables] at action ⊢
    split_ifs at action ⊢
    · simp_all
    · omega
    · rfl
    · contradiction

theorem useEnum_ofGrammar : OfGrammar useEnumTables (fun _ _ => true) := by
  constructor
  · rfl
  · intro rule there
    simp [useEnumTables] at there
    obtain rfl | rfl | rfl | rfl := there
    · exact ⟨[tok .use_enum], rfl, .inl (by decide)⟩
    · exact ⟨[ref .useEnum], rfl, .inl (by decide)⟩
    · exact ⟨[ref .type], rfl, .inl (by decide)⟩
    · exact ⟨[ref .types], rfl, .inl (by decide)⟩
  · intro r rule output there same wrong
    have listed := List.mem_of_getElem? there
    simp [useEnumTables] at listed
    obtain rfl | rfl | rfl | rfl := listed <;> simp [misplaced] at wrong
    obtain rfl | rfl | rfl | rfl | rfl := wrong <;> simp [embed] at same

theorem accepted_places_example : exec GrammarState.next (.global false) [.use_enum] = some (.global true) :=
  accepted_places useEnum_ofGrammar canonical_useEnum (show 0 < 2 by decide)
    (show Parser.run useEnumTables (fun _ _ => true) 8 (.start 2 [some .use_enum] true) = .accepted _ from rfl)

theorem parser_returns_example :
    (∃ s, Parser.run useEnumTables (fun _ _ => true) 36 (.start 2 [some .use_enum] true) = .accepted s) ∨
      ∃ s, Parser.run useEnumTables (fun _ _ => true) 36 (.start 2 [some .use_enum] true) = .rejected s :=
  parser_returns useEnum_ofGrammar canonical_useEnum (show 0 < 2 by decide) (show 12 * ([Terminal.use_enum].length + 2) ≤ 36 by decide)

end Results
end RemoteObjects.Repc.TableParser
