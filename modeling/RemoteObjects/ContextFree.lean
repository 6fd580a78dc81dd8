import Mathlib.Computability.ContextFreeGrammar
import Mathlib.Order.CompletePartialOrder

/-! The words that each nonterminal of a context-free grammar derives: they are the least languages that its rules are
true of. -/
namespace RemoteObjects.ContextFree
variable {T N : Type*}

section Model

/-- What a symbol stands for where each nonterminal stands for a language. -/
def symbolWords (meaning : N → Language T) : Symbol T N → Language T
  | .terminal t => {[t]}
  | .nonterminal n => meaning n

def outputWords (meaning : N → Language T) (output : List (Symbol T N)) : Language T :=
  (output.map (symbolWords meaning)).prod

variable (g : ContextFreeGrammar T)

def Solves (meaning : g.NT → Language T) : Prop :=
  ∀ rule ∈ g.rules, outputWords meaning rule.output ≤ meaning rule.input

def words (n : g.NT) : Language T := {w | g.Derives [.nonterminal n] (w.map .terminal)}

end Model

section Outputs
variable {meaning : N → Language T} {first last : List (Symbol T N)} {X : Symbol T N}

theorem outputWords_nil : outputWords meaning [] = 1 := rfl

theorem outputWords_cons : outputWords meaning (X :: last) = symbolWords meaning X * outputWords meaning last := by
  rw [outputWords, List.map_cons, List.prod_cons]
  rfl

theorem outputWords_append : outputWords meaning (first ++ last) = outputWords meaning first * outputWords meaning last := by
  rw [outputWords, List.map_append, List.prod_append]
  rfl

theorem outputWords_singleton : outputWords meaning [X] = symbolWords meaning X := by
  rw [outputWords_cons, outputWords_nil, mul_one]

theorem mem_terminals (w : List T) : w ∈ outputWords meaning (w.map .terminal) := by
  induction w with
  | nil => exact Language.nil_mem_one
  | cons t w ih =>
    rw [List.map_cons, outputWords_cons]
    exact Language.append_mem_mul (a := [t]) rfl ih

end Outputs

section Solutions
variable {g : ContextFreeGrammar T}

theorem derives_of_mem_outputWords {output : List (Symbol T g.NT)} {w : List T} (mem : w ∈ outputWords (words g) output) :
    g.Derives output (w.map .terminal) := by
  induction output generalizing w with
  | nil =>
    obtain rfl := (Language.mem_one w).mp mem
    exact .refl _
  | cons X rest ih =>
    rw [outputWords_cons] at mem
    obtain ⟨u, at_X, v, at_rest, rfl⟩ := Language.mem_mul.mp mem
    have head : g.Derives [X] (u.map .terminal) := by
      cases X with
      | terminal t =>
        obtain rfl : u = [t] := at_X
        exact .refl _
      | nonterminal n => exact at_X
    rw [List.map_append]
    exact (head.append_right rest).trans ((ih at_rest).append_left (u.map .terminal))

/-- The rules are true of the words. -/
theorem words_solves (g : ContextFreeGrammar T) : Solves g (words g) := by
  intro rule inGrammar w mem
  have rewrites : g.Produces [.nonterminal rule.input] rule.output := ⟨rule, inGrammar, .input_output⟩
  exact rewrites.trans_derives (derives_of_mem_outputWords mem)

theorem Solves.mem_outputWords {meaning : g.NT → Language T} (solves : Solves g meaning) {form : List (Symbol T g.NT)} {w : List T}
    (derives : g.Derives form (w.map .terminal)) : w ∈ outputWords meaning form := by
  induction derives using Relation.ReflTransGen.head_induction_on with
  | refl => exact mem_terminals w
  | head step _ ih =>
    obtain ⟨rule, inGrammar, rewrites⟩ := step
    obtain ⟨front, back, rfl, rfl⟩ := rewrites.exists_parts
    have below : outputWords meaning (front ++ rule.output ++ back)
        ≤ outputWords meaning (front ++ [.nonterminal rule.input] ++ back) := by
      simp only [outputWords_append, outputWords_singleton]
      gcongr
      exact solves rule inGrammar
    exact below ih

/-- They are the least such languages. -/
theorem words_le {meaning : g.NT → Language T} (solves : Solves g meaning) (n : g.NT) : words g n ≤ meaning n := by
  intro w derives
  have mem := solves.mem_outputWords derives
  rw [outputWords_singleton] at mem
  exact mem

end Solutions

section Absorbing
variable {g : ContextFreeGrammar T} {absorbing : g.NT → Bool} {t : T} {m : g.NT}

def endsIn (absorbing : N → Bool) : Option (Symbol T N) → Bool
  | some (.nonterminal last) => absorbing last
  | _ => false

/-- What is read for the rule can go on with `t`: its last symbol takes that in, or a rule like it has `m` behind, or one
has its nonterminal and `t`. -/
def RuleAbsorbs (rules : List (ContextFreeRule T N)) (absorbing : N → Bool) (m : N) (t : T) (rule : ContextFreeRule T N) : Prop :=
  endsIn absorbing rule.output.getLast? = true ∨ ⟨rule.input, rule.output ++ [.nonterminal m]⟩ ∈ rules ∨
    ⟨rule.input, [.nonterminal rule.input, .terminal t]⟩ ∈ rules

instance [DecidableEq T] [DecidableEq N] (rules : List (ContextFreeRule T N)) (absorbing : N → Bool) (m : N) (t : T)
    (rule : ContextFreeRule T N) : Decidable (RuleAbsorbs rules absorbing m t rule) :=
  inferInstanceAs (Decidable (_ ∨ _ ∨ _))

theorem outputWords_mono {meaning larger : N → Language T} (le : ∀ n, meaning n ≤ larger n) (output : List (Symbol T N)) :
    outputWords meaning output ≤ outputWords larger output := by
  induction output with
  | nil => exact le_refl _
  | cons X rest ih =>
    rw [outputWords_cons, outputWords_cons]
    refine mul_le_mul' ?_ ih
    cases X with
    | terminal t => exact le_refl _
    | nonterminal n => exact le n

/-- A set of nonterminals whose rules all can go on with `t` consists of such nonterminals. -/
theorem words_absorb {rules : List (ContextFreeRule T g.NT)} (same : ∀ rule, rule ∈ rules ↔ rule ∈ g.rules)
    (closed : ∀ rule ∈ rules, absorbing rule.input = true → RuleAbsorbs rules absorbing m t rule) (at_m : [t] ∈ words g m)
    {n : g.NT} (absorbs : absorbing n = true) : words g n * {[t]} ≤ words g n := by
  let meaning (n : g.NT) : Language T := {w | w ∈ words g n ∧ (absorbing n = true → w ++ [t] ∈ words g n)}
  have below : ∀ n, meaning n ≤ words g n := fun _ _ mem => mem.1
  have solves : Solves g meaning := by
    intro rule inGrammar w mem
    have here : w ∈ outputWords (words g) rule.output := outputWords_mono below rule.output mem
    refine ⟨words_solves g rule inGrammar here, fun absorbs => ?_⟩
    obtain ending | longer | again := closed rule ((same rule).mpr inGrammar) absorbs
    · cases at_end : rule.output.getLast? with
      | none =>
        rw [at_end] at ending
        contradiction
      | some X =>
        cases X with
        | terminal _ =>
          rw [at_end] at ending
          contradiction
        | nonterminal last =>
          rw [at_end] at ending
          obtain ⟨front, output⟩ := List.getLast?_eq_some_iff.mp at_end
          rw [output, outputWords_append, outputWords_singleton] at mem
          obtain ⟨u, before, v, behind, rfl⟩ := Language.mem_mul.mp mem
          apply words_solves g rule inGrammar
          rw [output, outputWords_append, outputWords_singleton, List.append_assoc]
          exact Language.append_mem_mul (outputWords_mono below front before) (behind.2 ending)
    · have mem := words_solves g _ ((same _).mp longer)
      rw [outputWords_append, outputWords_singleton] at mem
      exact mem (Language.append_mem_mul here at_m)
    · have mem := words_solves g _ ((same _).mp again)
      rw [outputWords_cons, outputWords_singleton] at mem
      exact mem (Language.append_mem_mul (words_solves g rule inGrammar here) rfl)
  intro w mem
  obtain ⟨u, at_n, v, last, rfl⟩ := Language.mem_mul.mp mem
  obtain rfl : v = [t] := last
  exact (words_le solves n at_n).2 absorbs

end Absorbing

section ShiftReduce

/-- The rules, the first one first, rewrite the rightmost nonterminal of a form each, and lead to the other form. -/
inductive Rightmost (rules : List (ContextFreeRule T N)) : List Nat → List (Symbol T N) → List (Symbol T N) → Prop
  | refl (form : List (Symbol T N)) : Rightmost rules [] form form
  | step {r : Nat} {rule : ContextFreeRule T N} {log : List Nat} {front last : List (Symbol T N)} {v : List T}
      (there : rules[r]? = some rule) (rest : Rightmost rules log (front ++ rule.output ++ v.map .terminal) last) :
      Rightmost rules (r :: log) (front ++ [.nonterminal rule.input] ++ v.map .terminal) last

/-- The tokens have been shifted, and the rules of the log reduced at the end each, the last one last: this is the form. -/
inductive Reduces (rules : List (ContextFreeRule T N)) : List T → List Nat → List (Symbol T N) → Prop
  | nil : Reduces rules [] [] []
  | shift {w : List T} {log : List Nat} {form : List (Symbol T N)} (before : Reduces rules w log form) (t : T) :
      Reduces rules (w ++ [t]) log (form ++ [.terminal t])
  | reduce {w : List T} {log : List Nat} {form : List (Symbol T N)} {r : Nat} {rule : ContextFreeRule T N} (there : rules[r]? = some rule) (before : Reduces rules w log (form ++ rule.output)) :
      Reduces rules w (log ++ [r]) (form ++ [.nonterminal rule.input])

variable {rules : List (ContextFreeRule T N)} {w v : List T} {log : List Nat} {form : List (Symbol T N)}

/-- What is reduced is a rightmost derivation backwards, also with more tokens behind. -/
theorem Reduces.rightmost (reduces : Reduces rules w log form) (v : List T) :
    Rightmost rules log.reverse (form ++ v.map .terminal) ((w ++ v).map .terminal) := by
  induction reduces generalizing v with
  | nil => exact .refl _
  | @shift w _ form _ t ih =>
    have shifted := ih (t :: v)
    rw [List.map_cons, List.append_cons form, List.append_cons w] at shifted
    exact shifted
  | reduce there _ ih =>
    rw [List.reverse_append]
    exact .step there (ih v)

variable {g : ContextFreeGrammar T} {gRules : List (ContextFreeRule T g.NT)} {gForm : List (Symbol T g.NT)}

theorem Reduces.mem_outputWords (reduces : Reduces gRules w log gForm) (known : ∀ r ∈ log, ∀ rule, gRules[r]? = some rule → rule ∈ g.rules) :
    w ∈ outputWords (words g) gForm := by
  induction reduces with
  | nil => exact Language.nil_mem_one
  | shift _ t ih =>
    rw [outputWords_append, outputWords_singleton]
    exact Language.append_mem_mul (ih known) rfl
  | @reduce _ _ _ r rule there _ ih =>
    have before := ih fun r mem => known r (List.mem_append_left [_] mem)
    rw [outputWords_append] at before ⊢
    rw [outputWords_singleton]
    have solved := words_solves g rule (known r (List.mem_append_right _ (List.mem_singleton_self r)) rule there)
    exact mul_le_mul' le_rfl solved before

end ShiftReduce
end RemoteObjects.ContextFree
