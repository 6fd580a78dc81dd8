import RemoteObjects.ContextFree

/-! The loop of the parser over its stack of states, with the tables that a generator makes from the rules. An index outside the
stack is an outcome of its own. -/
namespace RemoteObjects.Repc.ShiftReduce
open ContextFree

section Model
variable (T N : Type)

/-- What the loop looks up. It reads no token for states without `reads`, which do the same whatever comes. -/
structure Tables where
  rules : List (ContextFreeRule T N)
  reads : Nat → Bool
  t_action : Nat → Option T → Int
  nt_action : Nat → N → Nat
  acceptState : Nat
  eofSymbol : T

inductive Event
  | nextToken (t : T)
  | consumeRule (r : Nat)

/-- `token` is `-1` while there is none. The lexer has tokens for the `buffer` yet, and then it is at the end of the text or
stuck. What has happened is in `log`. The stack of values is not used by the rules. -/
structure Parser where
  stateStack : List Nat
  tos : Nat
  act : Nat
  token : Option T
  buffer : List T
  atEnd : Bool
  log : List (Event T)

inductive Outcome
  | running (s : Parser T)
  | accepted (s : Parser T)
  | rejected (s : Parser T)
  | outOfBounds

variable {T N}

namespace Parser
variable (s : Parser T) (table : Tables T N) (consumeRule : List (Event T) → Nat → Bool)

/-- `stackSize` is what the stack had before, 128 for a new parser. -/
def start (stackSize : Nat) (buffer : List T) (atEnd : Bool) : Parser T :=
  ⟨(List.replicate (2 * stackSize) 0).set 1 0, 1, 0, none, buffer, atEnd, []⟩

def reallocateStack : Parser T := { s with stateStack := s.stateStack ++ List.replicate s.stateStack.length 0 }

def nextToken : Parser T :=
  match s.buffer with
  | t :: buffer => { s with token := some t, buffer, log := s.log ++ [.nextToken t] }
  | [] => if s.atEnd then { s with token := some table.eofSymbol, log := s.log ++ [.nextToken table.eofSymbol] } else s

def lookAhead : Parser T := if s.token.isNone ∧ table.reads s.act then s.nextToken table else s

def setTop (state : Nat) : Outcome T :=
  if s.tos < s.stateStack.length then .running { s with stateStack := s.stateStack.set s.tos state, act := state } else .outOfBounds

def shift (state : Nat) : Outcome T :=
  let s := { s with tos := s.tos + 1 }
  let s := if s.tos = s.stateStack.length then s.reallocateStack else s
  { s with token := none }.setTop state

def reduce (r : Nat) : Outcome T :=
  match table.rules[r]? with
  | none => .outOfBounds
  | some rule =>
    if s.tos < rule.output.length then .outOfBounds
    else match s.stateStack[s.tos - rule.output.length]? with
      | none => .outOfBounds
      | some act =>
        if consumeRule s.log r then
          { s with tos := s.tos - rule.output.length + 1, log := s.log ++ [Event.consumeRule r] }.setTop (table.nt_action act rule.input)
        else .rejected s

/-- Once through the loop. -/
def step : Outcome T :=
  let s := s.lookAhead table
  let act := table.t_action s.act s.token
  match s.stateStack[s.tos]? with
  | none => .outOfBounds
  | some state =>
    if state = table.acceptState then .accepted s
    else if 0 < act then s.shift act.toNat
    else if act < 0 then s.reduce table consumeRule (-act - 1).toNat
    else .rejected s

def run : Nat → Parser T → Outcome T
  | 0, s => .running s
  | n + 1, s =>
    match s.step table consumeRule with
    | .running s => run n s
    | outcome => outcome

end Parser

/-- The rules whose actions have run. -/
def consumed (log : List (Event T)) : List Nat :=
  log.filterMap fun
    | .consumeRule r => some r
    | .nextToken _ => none

/-- Each action has agreed. -/
def Approved (consumeRule : List (Event T) → Nat → Bool) (log : List (Event T)) : Prop :=
  ∀ before r after, log = before ++ .consumeRule r :: after → consumeRule before r = true

end Model

section Items
variable {T N : Type} (table : Tables T N) (first : N) (items : Nat → Option Nat → Nat → Prop)

/-- `none` stands for the rule `$accept: TopLevel $end`. -/
def outputOf : Option Nat → List (Symbol T N)
  | none => [.nonterminal first, .terminal table.eofSymbol]
  | some r => (table.rules[r]?).elim [] fun rule => rule.output

/-- The items of the second state come from those of the first one with the symbol, or are new there. -/
structure Linked (q : Nat) (X : Symbol T N) (q' : Nat) : Prop where
  later : q' ≠ 0
  items : ∀ rule dot, items q' rule dot → dot = 0 ∨ ∃ k, dot = k + 1 ∧ (outputOf table first rule)[k]? = some X ∧ items q rule k

/-- The states of the tables stand for sets of items, rules with a dot, like those of an LR automaton. -/
structure Canonical : Prop where
  initial : ∀ rule dot, items 0 rule dot → dot = 0
  goal : ∀ q, items q none 0 → q = 0
  shift : ∀ q t, 0 < table.t_action q (some t) → Linked table first items q (.terminal t) (table.t_action q (some t)).toNat
  unread : ∀ q, table.t_action q none ≤ 0
  goto : ∀ q r rule, items q (some r) 0 → table.rules[r]? = some rule →
    Linked table first items q (.nonterminal rule.input) (table.nt_action q rule.input)
  reduce : ∀ q token, q ≠ table.acceptState → table.t_action q token < 0 →
    ∃ (r : Nat) (rule : ContextFreeRule T N), table.t_action q token = -((r : Int) + 1) ∧ table.rules[r]? = some rule ∧ items q (some r) rule.output.length
  accept : items table.acceptState none 2
  shift_eof : ∀ q, 0 < table.t_action q (some table.eofSymbol) → (table.t_action q (some table.eofSymbol)).toNat = table.acceptState

end Items

section Paths
variable {T N : Type} {table : Tables T N} {first : N} {items : Nat → Option Nat → Nat → Prop}

/-- The state above these symbols and states, the last one first. -/
def top : List (Symbol T N × Nat) → Nat
  | [] => 0
  | (_, q) :: _ => q

inductive Path (table : Tables T N) (first : N) (items : Nat → Option Nat → Nat → Prop) : List (Symbol T N × Nat) → Prop
  | nil : Path table first items []
  | cons {frames : List (Symbol T N × Nat)} {X : Symbol T N} {q : Nat} (path : Path table first items frames)
      (linked : Linked table first items (top frames) X q) : Path table first items ((X, q) :: frames)

theorem Path.suffix {popped frames : List (Symbol T N × Nat)} (path : Path table first items (popped ++ frames)) :
    Path table first items frames := by
  induction popped with
  | nil => exact path
  | cons frame popped ih =>
    cases path with
    | cons path _ => exact ih path

/-- What stands before the dot of an item is on the stack. -/
theorem Path.pop (canonical : Canonical table first items) {frames : List (Symbol T N × Nat)} (path : Path table first items frames)
    {rule : Option Nat} {dot : Nat} (item : items (top frames) rule dot) :
    ∃ popped rest, frames = popped ++ rest ∧ (popped.map Prod.fst).reverse = (outputOf table first rule).take dot ∧
      popped.length = dot ∧ items (top rest) rule 0 := by
  induction dot generalizing frames with
  | zero => exact ⟨[], frames, rfl, rfl, rfl, item⟩
  | succ dot ih =>
    cases path with
    | nil => exact absurd (canonical.initial rule _ item) (Nat.succ_ne_zero dot)
    | @cons frames X q path linked =>
      obtain none | ⟨k, same, next, before⟩ := linked.items rule (dot + 1) item
      · contradiction
      · obtain rfl := Nat.succ.inj same
        obtain ⟨popped, rest, rfl, symbols, length, start⟩ := ih path before
        refine ⟨(X, q) :: popped, rest, rfl, ?_, congrArg (· + 1) length, start⟩
        rw [List.map_cons, List.reverse_cons, symbols, List.take_add_one, next]
        rfl

theorem Path.top_eq_zero {frames : List (Symbol T N × Nat)} (path : Path table first items frames) (bottom : top frames = 0) : frames = [] := by
  cases path with
  | nil => rfl
  | cons _ linked => exact absurd bottom linked.later

end Paths

section Invariant
variable {T N : Type} {table : Tables T N} {first : N} {items : Nat → Option Nat → Nat → Prop}
variable {consumeRule : List (Event T) → Nat → Bool} {s t : Parser T} {ts : List T} {atEnd : Bool}

/-- Where the tokens are: shifted, looked at, or not read yet. The last two cases are those of the end of the text. -/
inductive Stream (table : Tables T N) (ts : List T) (s : Parser T) (state : Nat) : List T → Prop
  | within {shifted : List T} (all : shifted ++ (s.token.toList ++ s.buffer) = ts) : Stream table ts s state shifted
  | ending (read : s.buffer = []) (atEnd : s.atEnd = true) (last : s.token = some table.eofSymbol) : Stream table ts s state ts
  | ended (atEnd : s.atEnd = true) (accepts : state = table.acceptState) : Stream table ts s state (ts ++ [table.eofSymbol])

/-- The stack of states is the path of a form, to which the shifted tokens have been reduced. -/
structure Good (table : Tables T N) (first : N) (items : Nat → Option Nat → Nat → Prop) (consumeRule : List (Event T) → Nat → Bool)
    (ts : List T) (s : Parser T) (frames : List (Symbol T N × Nat)) (shifted : List T) : Prop where
  path : Path table first items frames
  stack : ∃ bottom, s.stateStack.take (s.tos + 1) = bottom :: 0 :: (frames.map Prod.snd).reverse
  height : s.tos = frames.length + 1
  inside : s.tos < s.stateStack.length
  act : s.act = top frames
  reduces : Reduces table.rules shifted (consumed s.log) (frames.map Prod.fst).reverse
  approved : Approved consumeRule s.log
  stream : Stream table ts s (top frames) shifted

theorem take_set {l : List Nat} {i v : Nat} (inside : i < l.length) : (l.set i v).take (i + 1) = l.take i ++ [v] := by
  rw [List.take_add_one, List.getElem?_set_self inside, List.take_set_of_le (le_refl i)]
  rfl

theorem frames_at (bottom : Nat) (popped rest : List (Symbol T N × Nat)) :
    (bottom :: 0 :: ((popped ++ rest).map Prod.snd).reverse)[rest.length + 1]? = some (top rest) := by
  rw [List.map_append, List.reverse_append]
  cases rest with
  | nil => rfl
  | cons frame rest =>
    rw [List.map_cons, List.reverse_cons, List.append_assoc]
    simp only [List.length_cons, List.getElem?_cons_succ]
    rw [List.getElem?_append_right (by simp)]
    simp only [List.length_reverse, List.length_map, Nat.sub_self]
    rfl

theorem Good.at_height {frames rest : List (Symbol T N × Nat)} {shifted : List T}
    (good : Good table first items consumeRule ts s frames shifted) (popped : List (Symbol T N × Nat)) (split : frames = popped ++ rest) :
    s.stateStack[s.tos - popped.length]? = some (top rest) := by
  obtain ⟨bottom, stack⟩ := good.stack
  have index : s.tos - popped.length = rest.length + 1 := by
    rw [good.height, split, List.length_append]
    omega
  have found := frames_at bottom popped rest
  rw [← split, ← stack, ← index, List.getElem?_take_of_lt (by omega)] at found
  exact found

theorem Approved.append {log : List (Event T)} {event : Event T} (approved : Approved consumeRule log)
    (agrees : ∀ r, event = .consumeRule r → consumeRule log r = true) : Approved consumeRule (log ++ [event]) := by
  intro before r after split
  obtain rfl | ⟨front, last, rfl⟩ := List.eq_nil_or_concat after
  · obtain ⟨rfl, same⟩ := List.append_inj' split rfl
    exact agrees r (List.cons.inj same).1
  · rw [List.concat_eq_append, ← List.cons_append, ← List.append_assoc] at split
    obtain ⟨same, _⟩ := List.append_inj' split rfl
    exact approved before r front same

theorem Approved.snoc {log : List (Event T)} {r : Nat} (approved : Approved consumeRule log) (agrees : consumeRule log r = true) :
    Approved consumeRule (log ++ [.consumeRule r]) :=
  approved.append (by rintro _ ⟨⟩; exact agrees)

theorem Approved.read {log : List (Event T)} {u : T} (approved : Approved consumeRule log) : Approved consumeRule (log ++ [.nextToken u]) :=
  approved.append (by rintro _ ⟨⟩)

theorem consumed_append (log more : List (Event T)) : consumed (log ++ more) = consumed log ++ consumed more :=
  List.filterMap_append

/-- A token that is read is looked at. -/
theorem Good.read {frames : List (Symbol T N × Nat)} {shifted : List T} (good : Good table first items consumeRule ts s frames shifted)
    (none : s.token = none) : Good table first items consumeRule ts (s.nextToken table) frames shifted := by
  have reduces (u : T) : Reduces table.rules shifted (consumed (s.log ++ [.nextToken u])) (frames.map Prod.fst).reverse := by
    rw [consumed_append]
    exact (List.append_nil _).symm ▸ good.reduces
  rw [Parser.nextToken]
  split
  · rename_i u rest buffer
    refine ⟨good.path, good.stack, good.height, good.inside, good.act, reduces u, good.approved.read, ?_⟩
    cases good.stream with
    | within all =>
      rw [none, buffer] at all
      exact .within all
    | ending read _ _ =>
      rw [read] at buffer
      contradiction
    | ended atEnd accepts => exact .ended atEnd accepts
  · rename_i buffer
    split
    · rename_i atEnd
      refine ⟨good.path, good.stack, good.height, good.inside, good.act, reduces _, good.approved.read, ?_⟩
      cases good.stream with
      | within all =>
        rw [none, buffer] at all
        obtain rfl : shifted = ts := (List.append_nil shifted).symm.trans all
        exact .ending buffer atEnd rfl
      | ending read atEnd _ => exact .ending read atEnd rfl
      | ended atEnd accepts => exact .ended atEnd accepts
    · exact good

theorem Good.lookAhead {frames : List (Symbol T N × Nat)} {shifted : List T} (good : Good table first items consumeRule ts s frames shifted) :
    Good table first items consumeRule ts (s.lookAhead table) frames shifted := by
  rw [Parser.lookAhead]
  split
  · rename_i reads
    exact good.read (Option.isNone_iff_eq_none.mp reads.1)
  · exact good

/-- Growing the stack keeps what is in it. -/
theorem shift_room (s : Parser T) (inside : s.tos < s.stateStack.length) (state : Nat) : ∃ stateStack : List Nat,
    s.shift state = .running { s with stateStack := stateStack.set (s.tos + 1) state, tos := s.tos + 1, act := state, token := none } ∧
      s.tos + 1 < stateStack.length ∧ stateStack.take (s.tos + 1) = s.stateStack.take (s.tos + 1) := by
  rw [Parser.shift]
  by_cases full : s.tos + 1 = s.stateStack.length
  · refine ⟨s.stateStack ++ List.replicate s.stateStack.length 0, ?_, ?_, ?_⟩
    · have room : s.tos + 1 < (s.stateStack ++ List.replicate s.stateStack.length 0).length := by
        rw [List.length_append, List.length_replicate]
        omega
      simp only [full, if_true, Parser.setTop, Parser.reallocateStack]
      rw [if_pos (full ▸ room)]
    · rw [List.length_append, List.length_replicate]
      omega
    · exact List.take_append_of_le_length full.le
  · refine ⟨s.stateStack, ?_, by omega, rfl⟩
    simp only [full, if_false, Parser.setTop]
    rw [if_pos (by omega)]

/-- The parser has read all, reduced it to the first nonterminal, and then the end. -/
structure Accepts (table : Tables T N) (first : N) (consumeRule : List (Event T) → Nat → Bool) (ts : List T) (s : Parser T) : Prop where
  atEnd : s.atEnd = true
  reduces : Reduces table.rules (ts ++ [table.eofSymbol]) (consumed s.log) [.nonterminal first, .terminal table.eofSymbol]
  approved : Approved consumeRule s.log

theorem shifted_last {rules : List (ContextFreeRule T N)} {w : List T} {log : List Nat} {form : List (Symbol T N)} {u : T}
    (reduces : Reduces rules w log (form ++ [.terminal u])) : ∃ before, w = before ++ [u] := by
  generalize whole : form ++ [.terminal u] = all at reduces
  cases reduces with
  | nil => exact absurd whole (List.append_ne_nil_of_right_ne_nil _ (List.cons_ne_nil _ _))
  | @shift w _ _ _ v =>
    obtain ⟨_, same⟩ := List.append_inj' whole rfl
    cases same
    exact ⟨w, rfl⟩
  | reduce _ _ =>
    obtain ⟨_, same⟩ := List.append_inj' whole rfl
    cases same

theorem Good.accepts {frames : List (Symbol T N × Nat)} {shifted : List T} (good : Good table first items consumeRule ts s frames shifted)
    (canonical : Canonical table first items) (inner : table.eofSymbol ∉ ts) (accepting : top frames = table.acceptState) :
    Accepts table first consumeRule ts s := by
  obtain ⟨popped, rest, rfl, symbols, _, goal⟩ := good.path.pop canonical (accepting ▸ canonical.accept)
  obtain rfl := good.path.suffix.top_eq_zero (canonical.goal _ goal)
  have reduces := good.reduces
  rw [List.append_nil] at reduces
  rw [symbols] at reduces
  change Reduces table.rules shifted (consumed s.log) ([.nonterminal first] ++ [.terminal table.eofSymbol]) at reduces
  obtain ⟨before, last⟩ := shifted_last reduces
  cases good.stream with
  | within all =>
    rw [last, List.append_assoc] at all
    exact absurd (all ▸ List.mem_append_right before (List.mem_cons_self ..)) inner
  | ending _ _ _ => exact absurd (last ▸ List.mem_append_right before (List.mem_cons_self ..)) inner
  | ended atEnd _ => exact ⟨atEnd, reduces, good.approved⟩

/-- A symbol more, or a nonterminal instead of the output of its rule. -/
inductive Moves (rules : List (ContextFreeRule T N)) :
    List (Symbol T N × Nat) → List T → List (Symbol T N × Nat) → List T → Prop
  | shift (frames : List (Symbol T N × Nat)) (shifted : List T) (u : T) (q : Nat) :
      Moves rules frames shifted ((.terminal u, q) :: frames) (shifted ++ [u])
  | reduce (popped rest : List (Symbol T N × Nat)) (shifted : List T) {rule : ContextFreeRule T N} (known : rule ∈ rules)
      (output : (popped.map Prod.fst).reverse = rule.output) (q : Nat) :
      Moves rules (popped ++ rest) shifted ((.nonterminal rule.input, q) :: rest) shifted

/-- What a step leads to. Only a rule without symbols can make the stack too small. -/
def Outcome.Fine (table : Tables T N) (first : N) (items : Nat → Option Nat → Nat → Prop) (consumeRule : List (Event T) → Nat → Bool)
    (ts : List T) (goesOn : List (Symbol T N × Nat) → List T → Prop) : Outcome T → Prop
  | .running s => ∃ frames shifted, Good table first items consumeRule ts s frames shifted ∧ goesOn frames shifted
  | .accepted s => Accepts table first consumeRule ts s
  | .rejected _ => True
  | .outOfBounds => ∃ rule ∈ table.rules, rule.output = []

theorem Good.shift {frames : List (Symbol T N × Nat)} {shifted : List T} (good : Good table first items consumeRule ts s frames shifted)
    (canonical : Canonical table first items) (action : 0 < table.t_action (top frames) s.token)
    (goes : top frames ≠ table.acceptState) :
    (s.shift (table.t_action s.act s.token).toNat).Fine table first items consumeRule ts (Moves table.rules frames shifted) := by
  obtain ⟨u, token⟩ : ∃ u, s.token = some u := by
    cases token : s.token with
    | none =>
      rw [token] at action
      exact absurd action (not_lt.mpr (canonical.unread _))
    | some u => exact ⟨u, rfl⟩
  obtain ⟨stateStack, shift, room, same⟩ := shift_room s good.inside (table.t_action s.act s.token).toNat
  obtain ⟨bottom, stack⟩ := good.stack
  rw [token] at action
  rw [shift]
  refine ⟨(.terminal u, (table.t_action s.act s.token).toNat) :: frames, shifted ++ [u], ?_, .shift frames shifted u _⟩
  rw [good.act, token]
  constructor
  · exact .cons good.path (canonical.shift _ u action)
  · refine ⟨bottom, ?_⟩
    rw [take_set room, same, stack, List.map_cons, List.reverse_cons]
    rfl
  · exact congrArg (· + 1) good.height
  · exact (List.length_set ..).symm ▸ room
  · rfl
  · rw [List.map_cons, List.reverse_cons]
    exact good.reduces.shift u
  · exact good.approved
  · cases good.stream with
    | within all =>
      rw [token] at all
      refine .within ?_
      rw [← all, List.append_assoc]
      rfl
    | ending read atEnd last =>
      obtain rfl := Option.some.inj (token.symm.trans last)
      exact .ended atEnd (canonical.shift_eof _ action)
    | ended _ accepts => exact absurd accepts goes

theorem Good.reduce {frames : List (Symbol T N × Nat)} {shifted : List T} (good : Good table first items consumeRule ts s frames shifted)
    (canonical : Canonical table first items) {r : Nat} {rule : ContextFreeRule T N} (there : table.rules[r]? = some rule)
    (complete : items (top frames) (some r) rule.output.length) (goes : top frames ≠ table.acceptState) :
    (s.reduce table consumeRule r).Fine table first items consumeRule ts (Moves table.rules frames shifted) := by
  obtain ⟨popped, rest, split, symbols, length, begins⟩ := good.path.pop canonical complete
  have output : (popped.map Prod.fst).reverse = rule.output := by
    rw [symbols, outputOf, there]
    exact List.take_length
  have height : s.tos = popped.length + rest.length + 1 := by rw [good.height, split, List.length_append]
  have below := good.at_height popped split
  rw [length] at below
  simp only [Parser.reduce, there, if_neg (show ¬ s.tos < rule.output.length by omega), below]
  split
  · rename_i agrees
    rw [Parser.setTop]
    split
    · rename_i room
      have base : s.tos - rule.output.length + 1 = rest.length + 2 := by omega
      refine ⟨(.nonterminal rule.input, table.nt_action (top rest) rule.input) :: rest, shifted, ?_,
        split ▸ .reduce popped rest shifted (List.mem_of_getElem? there) output _⟩
      obtain ⟨bottom, stack⟩ := good.stack
      constructor
      · exact .cons (split ▸ good.path).suffix (canonical.goto _ r rule begins there)
      · refine ⟨bottom, ?_⟩
        have lower : s.stateStack.take (rest.length + 2) = bottom :: 0 :: (rest.map Prod.snd).reverse := by
          have cut := congrArg (List.take (rest.length + 2)) stack
          rw [List.take_take, min_eq_left (by omega), split, List.map_append, List.reverse_append] at cut
          rw [cut]
          simp only [List.take_succ_cons]
          rw [List.take_append_of_le_length (by simp), List.take_of_length_le (by simp)]
        dsimp only at room ⊢
        rw [take_set room, base, lower, List.map_cons, List.reverse_cons]
        rfl
      · exact base
      · exact (List.length_set ..).symm ▸ room
      · rfl
      · rw [consumed_append, List.map_cons, List.reverse_cons]
        refine .reduce there ?_
        have reduces := good.reduces
        rw [split, List.map_append, List.reverse_append, output] at reduces
        exact reduces
      · exact good.approved.snoc agrees
      · cases good.stream with
        | within all => exact .within all
        | ending read atEnd last => exact .ending read atEnd last
        | ended _ accepts => exact absurd accepts goes
    · rename_i narrow
      refine ⟨rule, List.mem_of_getElem? there, List.eq_nil_of_length_eq_zero ?_⟩
      have inside := good.inside
      dsimp only at narrow
      omega
  · trivial

theorem Good.step {frames : List (Symbol T N × Nat)} {shifted : List T} (good : Good table first items consumeRule ts s frames shifted)
    (canonical : Canonical table first items) (inner : table.eofSymbol ∉ ts) :
    (s.step table consumeRule).Fine table first items consumeRule ts (Moves table.rules frames shifted) := by
  have good := good.lookAhead
  rw [Parser.step]
  generalize s.lookAhead table = s at good
  have found := good.at_height [] rfl
  dsimp only [List.length_nil, Nat.sub_zero] at found ⊢
  rw [found]
  dsimp only
  split
  · rename_i accepting
    exact good.accepts canonical inner accepting
  · rename_i goes
    split
    · rename_i action
      rw [good.act] at action
      exact good.shift canonical action goes
    · split
      · rename_i action
        rw [good.act] at action ⊢
        obtain ⟨r, rule, same, there, complete⟩ := canonical.reduce _ s.token goes action
        have index : (-table.t_action (top frames) s.token - 1).toNat = r := by omega
        rw [index]
        exact good.reduce canonical there complete goes
      · trivial

theorem Good.run {frames : List (Symbol T N × Nat)} {shifted : List T} (good : Good table first items consumeRule ts s frames shifted)
    (canonical : Canonical table first items) (inner : table.eofSymbol ∉ ts) (n : Nat) :
    (Parser.run table consumeRule n s).Fine table first items consumeRule ts (fun _ _ => True) := by
  induction n generalizing s frames shifted with
  | zero => exact ⟨frames, shifted, good, trivial⟩
  | succ n ih =>
    have fine := good.step canonical inner
    rw [Parser.run]
    cases stepped : s.step table consumeRule with
    | running t =>
      rw [stepped] at fine
      obtain ⟨frames, shifted, good, _⟩ := fine
      exact ih good
    | accepted _ | rejected _ | outOfBounds =>
      rw [stepped] at fine
      exact fine

theorem good_start (stackSize : Nat) (room : 0 < stackSize) (ts : List T) (atEnd : Bool) :
    Good table first items consumeRule ts (.start stackSize ts atEnd) [] [] := by
  obtain ⟨size, rfl⟩ : ∃ size, stackSize = size + 1 := ⟨stackSize - 1, by omega⟩
  constructor
  · exact .nil
  · refine ⟨0, ?_⟩
    rw [Parser.start, show 2 * (size + 1) = 2 * size + 1 + 1 by omega]
    rfl
  · rfl
  · rw [Parser.start, List.length_set, List.length_replicate]
    dsimp only
    omega
  · rfl
  · exact .nil
  · intro before r after split
    exact absurd split.symm (List.append_ne_nil_of_right_ne_nil _ (List.cons_ne_nil _ _))
  · exact .within rfl

/-- Whatever the tokens are and the actions answer, the parser accepts only after it has read all of the text, and the rules
whose actions ran are, backwards, a rightmost derivation of it. -/
theorem accepted_derivation (canonical : Canonical table first items) {stackSize : Nat} (room : 0 < stackSize)
    (inner : table.eofSymbol ∉ ts) {n : Nat} (accepted : Parser.run table consumeRule n (.start stackSize ts atEnd) = .accepted s) :
    s.atEnd = true ∧ Approved consumeRule s.log ∧
      Rightmost table.rules (consumed s.log).reverse [.nonterminal first, .terminal table.eofSymbol]
        ((ts ++ [table.eofSymbol]).map .terminal) := by
  have fine := (good_start stackSize room ts atEnd : Good table first items consumeRule ts _ [] []).run canonical inner n
  rw [accepted] at fine
  refine ⟨fine.atEnd, fine.approved, ?_⟩
  have rightmost := fine.reduces.rightmost []
  rw [List.append_nil] at rightmost
  exact rightmost

/-- Tables for the one sentence that is a token: `true` is the token, and `false` the end. -/
def oneToken : Tables Bool Unit where
  rules := [⟨(), [.terminal true]⟩]
  reads q := q = 0 ∨ q = 2
  t_action q token := if q = 0 ∧ token = some true then 1 else if q = 1 then -1 else if q = 2 ∧ token = some false then 3 else 0
  nt_action _ _ := 2
  acceptState := 3
  eofSymbol := false

def oneTokenItems (q : Nat) (rule : Option Nat) (dot : Nat) : Prop :=
  (q, rule, dot) ∈ [(0, none, 0), (0, some 0, 0), (1, some 0, 1), (2, none, 1), (3, none, 2)]

theorem canonical_oneToken : Canonical oneToken () oneTokenItems := by
  constructor
  · intro rule dot item
    simp [oneTokenItems] at item
    omega
  · intro q item
    simp [oneTokenItems] at item
    exact item
  · intro q t action
    dsimp only [oneToken] at action ⊢
    split_ifs at action ⊢ <;> first | contradiction | (constructor <;> simp_all [oneTokenItems, outputOf])
  · intro q
    dsimp only [oneToken]
    split_ifs <;> simp_all
  · intro q r rule item there
    simp [oneTokenItems] at item
    obtain ⟨rfl, rfl⟩ := item
    obtain rfl := Option.some.inj there
    constructor <;> simp_all [oneTokenItems, outputOf, oneToken]
  · intro q token _ action
    dsimp only [oneToken] at action ⊢
    split_ifs at action ⊢ <;> first | contradiction | (refine ⟨0, _, rfl, rfl, ?_⟩; simp_all [oneTokenItems])
  · simp [oneTokenItems, oneToken]
  · intro q action
    dsimp only [oneToken] at action ⊢
    split_ifs at action ⊢ <;> simp_all

set_option maxRecDepth 4000 in
theorem accepted_derivation_example : ∃ s, Parser.run oneToken (fun _ _ => true) 4 (.start 128 [true] true) = .accepted s ∧
    Rightmost oneToken.rules (consumed s.log).reverse [.nonterminal (), .terminal false] [.terminal true, .terminal false] := by
  refine ⟨_, rfl, ?_⟩
  have derivation := accepted_derivation canonical_oneToken (show 0 < 128 by decide) (show oneToken.eofSymbol ∉ [true] by decide)
    (show Parser.run oneToken (fun _ _ => true) 4 (.start 128 [true] true) = .accepted _ from rfl)
  exact derivation.2.2

end Invariant

section Returns
variable {T N : Type} {table : Tables T N} {first : N} {items : Nat → Option Nat → Nat → Prop}
variable {consumeRule : List (Event T) → Nat → Bool} {s : Parser T} {ts : List T} {atEnd : Bool}

/-- No rule is without symbols, and a rule with one symbol only leads up. -/
structure Ranked (rules : List (ContextFreeRule T N)) (rank : Symbol T N → Nat) (height : Nat) : Prop where
  symbols : ∀ rule ∈ rules, rule.output ≠ []
  up : ∀ rule ∈ rules, ∀ X, rule.output = [X] → rank X < rank (.nonterminal rule.input)
  bounded : ∀ X, rank X ≤ height

def rankTop (rank : Symbol T N → Nat) : List (Symbol T N × Nat) → Nat
  | [] => 0
  | (X, _) :: _ => rank X

/-- What the parser can do yet. -/
def potential (rank : Symbol T N → Nat) (height : Nat) (ts : List T) (frames : List (Symbol T N × Nat)) (shifted : List T) : Nat :=
  (height + 1) * (2 * (ts.length + 1 - shifted.length) + frames.length) + (height - rankTop rank frames)

theorem Good.shifted_le {frames : List (Symbol T N × Nat)} {shifted : List T}
    (good : Good table first items consumeRule ts s frames shifted) : shifted.length ≤ ts.length + 1 := by
  cases good.stream with
  | within all =>
    rw [← all, List.length_append]
    omega
  | ending _ _ _ => exact Nat.le_succ _
  | ended _ _ => exact (List.length_append ..).le

theorem potential_lower {rank : Symbol T N → Nat} {height : Nat} {frames later : List (Symbol T N × Nat)} {shifted shifted' : List T}
    (bounded : rankTop rank later ≤ height) (lower : 2 * (ts.length + 1 - shifted'.length) + later.length + 1 ≤
      2 * (ts.length + 1 - shifted.length) + frames.length) :
    potential rank height ts later shifted' < potential rank height ts frames shifted := by
  have product := Nat.mul_le_mul_left (height + 1) lower
  rw [Nat.mul_add_one] at product
  unfold potential
  omega

theorem Moves.potential_lt {rank : Symbol T N → Nat} {height : Nat} (ranked : Ranked table.rules rank height)
    {frames later : List (Symbol T N × Nat)} {shifted shifted' : List T} (moves : Moves table.rules frames shifted later shifted')
    (room : shifted'.length ≤ ts.length + 1) : potential rank height ts later shifted' < potential rank height ts frames shifted := by
  cases moves with
  | shift _ _ u q =>
    apply potential_lower (ranked.bounded _)
    rw [List.length_append, List.length_singleton] at room ⊢
    rw [List.length_cons]
    omega
  | @reduce popped rest _ rule known output q =>
    obtain _ | ⟨⟨X, q'⟩, _ | ⟨frame, popped⟩⟩ := popped
    · exact absurd output.symm (ranked.symbols rule known)
    · -- The stack is as high as before, but with a symbol of a higher rank.
      have higher := ranked.up rule known X output.symm
      have bounded := ranked.bounded (.nonterminal rule.input)
      change (height + 1) * _ + (height - rank (.nonterminal rule.input)) < (height + 1) * _ + (height - rank X)
      rw [List.singleton_append, List.length_cons, List.length_cons]
      omega
    · apply potential_lower (ranked.bounded _)
      rw [List.length_cons, List.length_append, List.length_cons, List.length_cons]
      omega

theorem Good.returns {rank : Symbol T N → Nat} {height : Nat} {frames : List (Symbol T N × Nat)} {shifted : List T}
    (good : Good table first items consumeRule ts s frames shifted) (canonical : Canonical table first items)
    (ranked : Ranked table.rules rank height) (inner : table.eofSymbol ∉ ts) {n : Nat} (enough : potential rank height ts frames shifted < n) :
    ∀ t, Parser.run table consumeRule n s ≠ .running t := by
  induction n generalizing s frames shifted with
  | zero => exact absurd enough (Nat.not_lt_zero _)
  | succ n ih =>
    have fine := good.step canonical inner
    rw [Parser.run]
    cases stepped : s.step table consumeRule with
    | running t =>
      rw [stepped] at fine
      obtain ⟨later, shifted', good, moves⟩ := fine
      exact ih good (by have less := moves.potential_lt ranked good.shifted_le; omega)
    | accepted _ | rejected _ | outOfBounds =>
      intro t running
      contradiction

/-- With such rules the parser returns for every text, after a number of steps that is linear in its tokens. -/
theorem returns (canonical : Canonical table first items) {rank : Symbol T N → Nat} {height : Nat}
    (ranked : Ranked table.rules rank height) {stackSize : Nat} (room : 0 < stackSize) (inner : table.eofSymbol ∉ ts) {n : Nat}
    (enough : 2 * (height + 1) * (ts.length + 2) ≤ n) :
    (∃ s, Parser.run table consumeRule n (.start stackSize ts atEnd) = .accepted s) ∨
      ∃ s, Parser.run table consumeRule n (.start stackSize ts atEnd) = .rejected s := by
  have good : Good table first items consumeRule ts (.start stackSize ts atEnd) [] [] := good_start stackSize room ts atEnd
  have steps : potential rank height ts [] [] < n := by
    have product : 2 * (height + 1) * (ts.length + 2) = (height + 1) * (2 * (ts.length + 1)) + 2 * (height + 1) := by
      rw [show ts.length + 2 = ts.length + 1 + 1 from rfl, Nat.mul_add_one, Nat.mul_comm 2 (height + 1), Nat.mul_assoc]
    unfold potential
    simp only [List.length_nil, Nat.sub_zero, Nat.add_zero]
    omega
  have ends := good.returns canonical ranked inner steps
  have fine := good.run canonical inner n
  cases outcome : Parser.run table consumeRule n (.start stackSize ts atEnd) with
  | running t => exact absurd outcome (ends t)
  | accepted s => exact .inl ⟨s, rfl⟩
  | rejected s => exact .inr ⟨s, rfl⟩
  | outOfBounds =>
    rw [outcome] at fine
    obtain ⟨rule, known, empty⟩ := fine
    exact absurd empty (ranked.symbols rule known)

end Returns
end RemoteObjects.Repc.ShiftReduce
