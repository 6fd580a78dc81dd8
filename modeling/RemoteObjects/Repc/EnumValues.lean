import Mathlib.Data.List.Basic
import RemoteObjects.Repc.Comments
import RemoteObjects.Repc.PlainTexts

/-! The values of enumerators: what the parser counts in an `int` over the tokens of an `ENUM`, and what they are in C++. -/
namespace RemoteObjects.Repc

section Model

/-- An enumerator of a body, with the text of its value where it has one. -/
structure Enumerator where
  name : QString
  value : Option QString
deriving DecidableEq

def valueText : List Token → Option QString
  | v :: _ => if v.terminal = .value then some (Patterns.captured v.captures .value) else none
  | [] => none

/-- The text of a symbol's value, in the tokens behind it. -/
def explicitValue : List Token → Option QString
  | e :: ts => if e.terminal = .equals then valueText ts else none
  | [] => none

def enumerators : List Token → List Enumerator
  | [] => []
  | t :: ts =>
    if t.terminal = .symbol then ⟨trimmed (Patterns.captured t.captures .symbol), explicitValue ts⟩ :: enumerators ts else enumerators ts

/-- The values of an `int`. -/
def IsInt (n : Int) : Prop := -2147483648 ≤ n ∧ n ≤ 2147483647

instance (n : Int) : Decidable (IsInt n) := inferInstanceAs (Decidable (_ ∧ _))

/-- `-param.value`, which is computed for negative values. -/
def negations (value : Int) : List Int := if value < 0 then [-value] else []

/-- The results of the operations on `int` in the action for a token. -/
def State.intResults {qt : Core} (s : State qt) (t : Token) : List Int :=
  match s.mode, t.terminal with
  | .enum _ .named, .newline | .enum _ .named, .comma | .enum _ .named, .stop => [(s.parser.scan t).astEnumValue + 1]
  | .enum _ .equals, .value => negations (s.parser.scan t).readValue.astEnumValue
  | _, _ => []

/-- No operation of a run leaves the values of an `int`. -/
def State.NoOverflow {qt : Core} : State qt → List Token → Prop
  | _, [] => True
  | s, t :: ts => (∀ n ∈ s.intResults t, IsInt n) ∧ ∀ u, s.step t = .ok u → u.NoOverflow ts

/-- The tokens of an `ENUM` from its header to its closing brace, accepted behind `s`. -/
structure EnumDeclaration {qt : Core} (s opened closed : State qt) (header : Token) (body : List Token) (stop : Token) : Prop where
  starts : header.terminal = .enum
  opens : s.step header = .ok opened
  inside : ∀ t ∈ body, t.terminal ≠ .stop
  stops : stop.terminal = .stop
  accepted : opened.run (body ++ [stop]) = .ok closed

end Model

section Statement

/-- Digits without a leading zero, which would make them octal. -/
def IsDecimal (s : QString) : Prop := s ≠ [] ∧ (∀ c ∈ s, c.isDigit = true) ∧ (s.head? = some '0' → s = ['0'])

/-- The value of a literal in C++. -/
inductive Literal : QString → Int → Prop
  | decimal {s : QString} : IsDecimal s → Literal s (digits 10 s)
  | negative {s : QString} : IsDecimal s → Literal ('-' :: s) (-digits 10 s)
  | hexadecimal {s : QString} {x : Char} : x = 'x' ∨ x = 'X' → s ≠ [] → (∀ c ∈ s, isHexDigit c = true) →
      Literal ('0' :: x :: s) (digits 16 s)

/-- The values of the enumerators behind one with the value `previous`, or behind none with `-1`. -/
inductive CppValues : Int → List Enumerator → List Int → Prop
  | nil {previous : Int} : CppValues previous [] []
  | implicit {previous : Int} {name : QString} {es : List Enumerator} {values : List Int} :
      CppValues (previous + 1) es values → CppValues previous (⟨name, none⟩ :: es) ((previous + 1) :: values)
  | explicit {previous value : Int} {name text : QString} {es : List Enumerator} {values : List Int} :
      Literal text value → CppValues value es values → CppValues previous (⟨name, some text⟩ :: es) (value :: values)

/-- The parser's enum has the enumerators of the body with their values in C++, as patterns of 32 bits. -/
structure FollowsCpp {qt : Core} (opened closed : State qt) (tokens : List Token) (es : List Enumerator) (values : List Int) : Prop where
  names : closed.parser.astEnum.params.map (·.name) = es.map (·.name)
  patterns : closed.parser.astEnum.params.map (fun param => BitVec.ofInt 32 param.value) = values.map (BitVec.ofInt 32)
  noOverflow : opened.NoOverflow tokens
  max : ∀ param ∈ closed.parser.astEnum.params, (param.value.natAbs : Int) ≤ closed.parser.astEnum.max
  isSigned : closed.parser.astEnum.isSigned = true ↔ ∃ param ∈ closed.parser.astEnum.params, param.value < 0

/-- The explicit values are those of an `int` other than the least one, and no enumerator without a value follows the greatest one. -/
structure Countable (previous : Int) (es : List Enumerator) (values : List Int) : Prop where
  explicit : ∀ entry ∈ es.zip values, entry.1.value ≠ none → -2147483648 < entry.2 ∧ entry.2 ≤ 2147483647
  implicit : ∀ entry ∈ es.zip (previous :: values), entry.1.value = none → entry.2 ≠ 2147483647

end Statement

section Counting
variable {c value : Int} {s text name : QString} {e : Enumerator} {es : List Enumerator} {values : List Int} {en : ASTEnum}

/-- The counter at an enumerator, by the counter before it. -/
def Enumerator.counter (c : Int) (e : Enumerator) : Int :=
  match e.value with
  | none => c + 1
  | some text => toInt (trimmed text)

def counters : Int → List Enumerator → List Int
  | _, [] => []
  | c, e :: es => e.counter c :: counters (e.counter c) es

/-- An enumerator added to the parser's enum, with the counter behind it. -/
def Enumerator.declare (state : ASTEnum × Int) (e : Enumerator) : ASTEnum × Int :=
  let value := e.counter state.2
  let size := if e.value.isSome ∧ value < 0 then -value else value
  ({ state.1 with
      isSigned := state.1.isSigned || (e.value.isSome && value < 0)
      max := if state.1.max < size then size else state.1.max
      params := state.1.params ++ [⟨e.name, value⟩] }, value)

def Enumerator.intResults (c : Int) (e : Enumerator) : List Int :=
  match e.value with
  | none => [c + 1]
  | some text => negations (toInt (trimmed text))

/-- No operation for the enumerators leaves the values of an `int`. -/
def Counts : Int → List Enumerator → Prop
  | _, [] => True
  | c, e :: es => (∀ n ∈ e.intResults c, IsInt n) ∧ Counts (e.counter c) es

/-- What the sizes and signs of the enumerators so far say about the enum; without any, the counter is `-1`. -/
structure Tracks (state : ASTEnum × Int) : Prop where
  max : ∀ param ∈ state.1.params, (param.value.natAbs : Int) ≤ state.1.max
  isSigned : state.1.isSigned = true ↔ ∃ param ∈ state.1.params, param.value < 0
  counter : state.2 < -1 → -state.2 ≤ state.1.max ∧ state.1.isSigned = true

/-- A counter below zero comes from a negative value, which has set the flag and the size. -/
theorem Tracks.size {state : ASTEnum × Int} (tracks : Tracks state) (e : Enumerator) :
    ((e.counter state.2).natAbs : Int) ≤ (e.declare state).1.max ∧ state.1.max ≤ (e.declare state).1.max ∧
      ((e.declare state).1.isSigned = true ↔ state.1.isSigned = true ∨ e.counter state.2 < 0) := by
  obtain ⟨en, c⟩ := state
  have counter : c < -1 → -c ≤ en.max ∧ en.isSigned = true := tracks.counter
  obtain ⟨name, text⟩ := e
  cases text with
  | none =>
    have grows : (Enumerator.declare (en, c) ⟨name, none⟩).1.max = if en.max < c + 1 then c + 1 else en.max := rfl
    have same : (Enumerator.declare (en, c) ⟨name, none⟩).1.isSigned = en.isSigned := Bool.or_false _
    have next : (⟨name, none⟩ : Enumerator).counter c = c + 1 := rfl
    rw [grows, same, next]
    dsimp only
    refine ⟨by split <;> omega, by split <;> omega, ?_⟩
    constructor
    · exact .inl
    · rintro (signed | negative)
      · exact signed
      · exact (counter (by omega)).2
  | some text =>
    simp only [Enumerator.declare, Option.isSome_some, true_and, Bool.true_and, Bool.or_eq_true, decide_eq_true_eq]
    refine ⟨?_, ?_, trivial⟩ <;> split <;> split <;> omega

theorem Tracks.declare {state : ASTEnum × Int} (tracks : Tracks state) (e : Enumerator) : Tracks (e.declare state) := by
  obtain ⟨bound, grows, signed⟩ := tracks.size e
  have params : (e.declare state).1.params = state.1.params ++ [⟨e.name, e.counter state.2⟩] := rfl
  have value : (e.declare state).2 = e.counter state.2 := rfl
  refine ⟨fun param mem => ?_, ?_, fun below => ?_⟩
  · simp only [params, List.mem_append, List.mem_singleton] at mem
    rcases mem with old | rfl
    · exact Int.le_trans (tracks.max param old) grows
    · exact bound
  · simp only [signed, tracks.isSigned, params, List.mem_append, List.mem_singleton, or_and_right, exists_or, exists_eq_left]
  · rw [value] at below ⊢
    exact ⟨by omega, signed.mpr (.inr (by omega))⟩

theorem declared_names (es : List Enumerator) (state : ASTEnum × Int) :
    (es.foldl Enumerator.declare state).1.params.map (·.name) = state.1.params.map (·.name) ++ es.map (·.name) := by
  induction es generalizing state with
  | nil => simp
  | cons e es ih => simp [ih, Enumerator.declare]

theorem declared_values (es : List Enumerator) (state : ASTEnum × Int) :
    (es.foldl Enumerator.declare state).1.params.map (·.value) = state.1.params.map (·.value) ++ counters state.2 es := by
  induction es generalizing state with
  | nil => simp [counters]
  | cons e es ih => simp [ih, Enumerator.declare, counters]

theorem Tracks.declared {state : ASTEnum × Int} (tracks : Tracks state) (es : List Enumerator) :
    Tracks (es.foldl Enumerator.declare state) := by
  induction es generalizing state with
  | nil => exact tracks
  | cons e es ih => exact ih (tracks.declare e)

end Counting

section Literals
variable {s text name : QString} {value : Int}

theorem isNamePart_of_isHexDigit {c : Char} (digit : isHexDigit c = true) : isNamePart c = true := by
  simp only [isHexDigit, isNamePart, Char.isAlphanum, isAlpha_iff, Bool.or_eq_true, Bool.and_eq_true, decide_eq_true_eq,
    Char.le_def, UInt32.le_iff_toNat_le] at digit ⊢
  rcases digit with (digit | ⟨low, high⟩) | ⟨low, high⟩
  · exact .inl (.inr digit)
  · exact .inl (.inl (.inl ⟨low, Nat.le_trans high (by decide)⟩))
  · exact .inl (.inl (.inr ⟨low, Nat.le_trans high (by decide)⟩))

theorem isNamePart_of_isDigit {c : Char} (digit : c.isDigit = true) : isNamePart c = true := by simp [isNamePart, Char.isAlphanum, digit]

theorem trimmed_literal (literal : Literal s value) : trimmed s = s := by
  cases literal with
  | decimal decimal => exact trimmed_name fun c mem => isNamePart_of_isDigit (decimal.2.1 c mem)
  | negative decimal =>
    refine trimmed_eq_self (fun c t is => ?_) fun t c is => ?_
    · obtain ⟨rfl, -⟩ := List.cons.inj is
      decide
    · cases t with
      | nil => exact absurd (List.cons.inj is).2 decimal.1
      | cons d t =>
        refine isSpace_of_isNamePart (isNamePart_of_isDigit (decimal.2.1 c ?_))
        simp [(List.cons.inj is).2]
  | hexadecimal x _ digits =>
    refine trimmed_name fun c mem => ?_
    simp only [List.mem_cons] at mem
    rcases mem with rfl | rfl | mem
    · decide
    · rcases x with rfl | rfl <;> decide
    · exact isNamePart_of_isHexDigit (digits c mem)

theorem toInt_literal (literal : Literal s value) : toInt s = ofRange value := by
  cases literal with
  | decimal decimal =>
    obtain ⟨nonempty, digits, zero⟩ := decimal
    cases s with
    | nil => exact absurd rfl nonempty
    | cons c s =>
      rw [toInt]
      · rintro t is
        obtain ⟨rfl, -⟩ := List.cons.inj is
        exact absurd (digits '-' List.mem_cons_self) (by decide)
      · rintro t is
        cases is
        exact absurd (zero rfl) (by simp)
      · rintro t is
        cases is
        exact absurd (zero rfl) (by simp)
  | negative decimal => rfl
  | hexadecimal x _ digits => rcases x with rfl | rfl <;> rfl

end Literals

section Counting
variable {c : Int} {es : List Enumerator} {values : List Int}

theorem countable_implicit {name : QString} :
    Countable c (⟨name, none⟩ :: es) ((c + 1) :: values) ↔ c ≠ 2147483647 ∧ Countable (c + 1) es values := by
  constructor
  · rintro ⟨explicit, implicit⟩
    simp only [List.zip_cons_cons, List.forall_mem_cons] at explicit implicit
    exact ⟨implicit.1 trivial, explicit.2, implicit.2⟩
  · rintro ⟨below, explicit, implicit⟩
    refine ⟨?_, ?_⟩ <;> simp only [List.zip_cons_cons, List.forall_mem_cons]
    · exact ⟨fun some => absurd rfl some, explicit⟩
    · exact ⟨fun _ => below, implicit⟩

theorem countable_explicit {name text : QString} {value : Int} :
    Countable c (⟨name, some text⟩ :: es) (value :: values) ↔
      (-2147483648 < value ∧ value ≤ 2147483647) ∧ Countable value es values := by
  constructor
  · rintro ⟨explicit, implicit⟩
    simp only [List.zip_cons_cons, List.forall_mem_cons] at explicit implicit
    exact ⟨explicit.1 nofun, explicit.2, implicit.2⟩
  · rintro ⟨bounds, explicit, implicit⟩
    refine ⟨?_, ?_⟩ <;> simp only [List.zip_cons_cons, List.forall_mem_cons]
    · exact ⟨fun _ => bounds, explicit⟩
    · exact ⟨nofun, implicit⟩

/-- A value that `toInt` cannot represent has another pattern than the zero that stands for it. -/
theorem pattern_of_ofRange {value : Int} (least : -2147483648 ≤ value) (greatest : value < 4294967296)
    (same : BitVec.ofInt 32 (ofRange value) = BitVec.ofInt 32 value) : value ≤ 2147483647 := by
  by_contra beyond
  rw [ofRange, if_neg (by omega)] at same
  have zero := congrArg BitVec.toNat same
  simp only [BitVec.toNat_ofInt] at zero
  omega

theorem negations_inside {value : Int} (inside : IsInt value) : (∀ n ∈ negations value, IsInt n) ↔ -2147483648 < value := by
  obtain ⟨least, greatest⟩ := inside
  rw [negations]
  split
  · simp only [List.mem_singleton, forall_eq, IsInt]
    omega
  · simp only [List.not_mem_nil, false_imp_iff, implies_true, true_iff]
    omega

/-- The values are those of C++ as long as the counter is. -/
theorem counts_iff (cpp : CppValues c es values) (inside : IsInt c)
    (fit : ∀ entry ∈ es.zip values, entry.1.value ≠ none → -2147483648 ≤ entry.2 ∧ entry.2 < 4294967296) :
    Counts c es ∧ (counters c es).map (BitVec.ofInt 32) = values.map (BitVec.ofInt 32) ↔ Countable c es values := by
  induction cpp with
  | nil => exact iff_of_true ⟨trivial, rfl⟩ ⟨nofun, nofun⟩
  | @implicit c name es values cpp ih =>
    have bounds : IsInt c := inside
    simp only [List.zip_cons_cons, List.forall_mem_cons] at fit
    simp only [countable_implicit, Counts, counters, Enumerator.intResults, Enumerator.counter, List.mem_singleton, forall_eq,
      List.map_cons, List.cons.injEq, true_and]
    by_cases below : c = 2147483647
    · refine iff_of_false (fun h => ?_) fun h => h.1 below
      have := h.1.1.2
      omega
    · have next : IsInt (c + 1) := ⟨by have := inside.1; omega, by have := inside.2; omega⟩
      simp only [next, true_and, ih next fit.2, below, ne_eq, not_false_eq_true]
  | @explicit c value name text es values literal cpp ih =>
    simp only [List.zip_cons_cons, List.forall_mem_cons] at fit
    obtain ⟨least, greatest⟩ := fit.1 nofun
    simp only [countable_explicit, Counts, counters, Enumerator.intResults, Enumerator.counter, trimmed_literal literal,
      toInt_literal literal, List.map_cons, List.cons.injEq]
    by_cases small : value ≤ 2147483647
    · have int : IsInt value := ⟨least, small⟩
      have same : ofRange value = value := if_pos int
      rw [same, negations_inside int, ← ih int fit.2]
      tauto
    · exact iff_of_false (fun h => small (pattern_of_ofRange least greatest h.2.1)) fun h => small h.1.2

end Counting

section Runs
variable {qt : Core} {s u : State qt} {t : Token} {ts : List Token} {scope : Option Body} {place : EnumPlace}

/-- The enumerators that a state and the tokens behind it declare. -/
def State.pending (s : State qt) (ts : List Token) : List Enumerator :=
  match s.mode with
  | .enum _ .named => ⟨s.parser.symbol, explicitValue ts⟩ :: enumerators ts
  | .enum _ .equals => ⟨s.parser.symbol, valueText ts⟩ :: enumerators ts
  | _ => enumerators ts

def State.counting (s : State qt) : ASTEnum × Int := (s.parser.astEnum, s.parser.astEnumValue)

/-- Where a token leads within the braces. -/
theorem nextEnum_cases {terminal : Terminal} {m : GrammarState} (next : nextEnum scope place terminal = some m) (inside : terminal ≠ .stop) :
    place = .before ∧ terminal = .symbol ∧ m = .enum scope .named ∨
      place = .named ∧ terminal = .equals ∧ m = .enum scope .equals ∨
      place = .equals ∧ terminal = .value ∧ m = .enum scope .done ∨
      place = .named ∧ (terminal = .newline ∨ terminal = .comma) ∧ (∃ place', m = .enum scope place' ∧ place' ≠ .named ∧ place' ≠ .equals) ∨
      (place ≠ .named ∧ place ≠ .equals ∧ terminal ≠ .symbol) ∧ ∃ place', m = .enum scope place' ∧ place' ≠ .named ∧ place' ≠ .equals := by
  rcases place with (_ | _) | _ | _ | _ | _ <;> cases terminal <;> simp_all [nextEnum, eq_comm]

theorem scan_astEnum (p : RepParser qt.toSha1) : (p.scan t).astEnum = p.astEnum ∧ (p.scan t).astEnumValue = p.astEnumValue ∧
    (p.scan t).symbol = p.symbol := by
  rw [RepParser.scan]
  split <;> exact ⟨rfl, rfl, rfl⟩

theorem scan_value (p : RepParser qt.toSha1) (group : Capture) (groups : t.terminal.pattern.groups ≠ []) :
    (p.scan t).value group = Patterns.captured t.captures group := by
  rw [RepParser.scan, if_neg groups, RepParser.value]

/-- A token within the braces adds an enumerator, or it leaves the enum. -/
theorem step_pending (mode : s.mode = .enum scope place) (step : s.step t = .ok u) (inside : t.terminal ≠ .stop) (ts : List Token) :
    (∃ place', u.mode = .enum scope place') ∧
      (s.pending (t :: ts) = u.pending ts ∧ u.counting = s.counting ∧ s.intResults t = [] ∨
        ∃ e : Enumerator, s.pending (t :: ts) = e :: u.pending ts ∧ u.counting = e.declare s.counting ∧
          s.intResults t = e.intResults s.parser.astEnumValue) := by
  obtain ⟨acted, moved⟩ := step_ok_iff.mp step
  obtain ⟨mode', p⟩ := s
  obtain ⟨mode'', q⟩ := u
  cases mode
  obtain ⟨en, value, symbol⟩ := scan_astEnum (t := t) p
  rcases nextEnum_cases moved inside with ⟨rfl, is, there⟩ | ⟨rfl, is, there⟩ | ⟨rfl, is, there⟩ | ⟨rfl, is, place', there, other⟩ |
    ⟨⟨here, here', other⟩, place', there, other⟩
  all_goals cases there
  all_goals refine ⟨⟨_, rfl⟩, ?_⟩
  · have acted : (Except.ok (p.scan t).readSymbol : Except QString _) = .ok q := by simpa [consume, consumeEnum, is] using acted
    cases acted
    have read := scan_value (t := t) p .symbol (by simp [is]; decide)
    refine .inl ⟨?_, ?_, ?_⟩
    · simp [State.pending, enumerators, is, RepParser.readSymbol, read]
    · simp [State.counting, RepParser.readSymbol, en, value]
    · simp [State.intResults]
  · have acted : (Except.ok (p.scan t) : Except QString _) = .ok q := by simpa [consume, consumeEnum, is] using acted
    cases acted
    refine .inl ⟨?_, ?_, ?_⟩
    · simp [State.pending, explicitValue, enumerators, is, symbol]
    · simp [State.counting, en, value]
    · simp [State.intResults, is]
  · have acted : (Except.ok (p.scan t).readValue.enumParamValue : Except QString _) = .ok q := by
      simpa [consume, consumeEnum, is] using acted
    cases acted
    have read := scan_value (t := t) p .value (by simp [is]; decide)
    refine .inr ⟨⟨p.symbol, some (Patterns.captured t.captures .value)⟩, ?_, ?_, ?_⟩
    · simp [State.pending, valueText, enumerators, is]
    · simp [State.counting, RepParser.readValue, RepParser.enumParamValue, Enumerator.declare, Enumerator.counter, en, read, symbol]
      rfl
    · simp [State.intResults, Enumerator.intResults, is, RepParser.readValue, read]
  · have acted : (Except.ok (p.scan t).enumParam : Except QString _) = .ok q := by
      rcases is with is | is <;> simpa [consume, consumeEnum, is] using acted
    cases acted
    refine .inr ⟨⟨p.symbol, none⟩, ?_, ?_, ?_⟩
    · rcases is with is | is <;> cases place' <;> simp_all [State.pending, explicitValue, enumerators]
    · simp [State.counting, RepParser.enumParam, Enumerator.declare, Enumerator.counter, en, value, symbol]
    · rcases is with is | is <;> simp [State.intResults, Enumerator.intResults, is, value]
  · have acted : (Except.ok (p.scan t) : Except QString _) = .ok q := by
      cases place <;> simp_all [consume, consumeEnum]
    cases acted
    refine .inl ⟨?_, ?_, ?_⟩
    · cases place <;> cases place' <;> simp_all [State.pending, enumerators]
    · simp [State.counting, en, value]
    · cases place <;> simp_all [State.intResults]

/-- The brace adds the enumerator in front of it, where that has no value. -/
theorem step_stop (mode : s.mode = .enum scope place) (step : s.step t = .ok u) (stop : t.terminal = .stop) :
    (∃ scope', u.parser.astEnum = { ((s.pending []).foldl Enumerator.declare s.counting).1 with scope := scope' }) ∧
      ((∀ n ∈ s.intResults t, IsInt n) ↔ Counts s.parser.astEnumValue (s.pending [])) := by
  obtain ⟨acted, moved⟩ := step_ok_iff.mp step
  obtain ⟨mode', p⟩ := s
  obtain ⟨mode'', q⟩ := u
  cases mode
  obtain ⟨en, value, symbol⟩ := scan_astEnum (t := t) p
  have closed (r : RepParser qt.toSha1) : ∃ scope', (enumStop qt scope r).astEnum = { r.astEnum with scope := scope' } := by
    rcases scope with _ | _ | _ <;> exact ⟨_, rfl⟩
  have places : place = .named ∨ place = .done := by
    rcases place with _ | _ | _ | _ | _ <;> simp_all [GrammarState.next, nextEnum]
  rcases places with rfl | rfl
  · have acted : (Except.ok (enumStop qt scope (p.scan t).enumParam) : Except QString _) = .ok q := by
      simpa [consume, consumeEnum, stop] using acted
    cases acted
    obtain ⟨scope', same⟩ := closed (p.scan t).enumParam
    refine ⟨⟨scope', same.trans ?_⟩, ?_⟩
    · simp [State.pending, State.counting, RepParser.enumParam, explicitValue, enumerators, Enumerator.declare, Enumerator.counter,
        en, value, symbol]
    · simp [State.intResults, State.pending, Counts, Enumerator.intResults, explicitValue, enumerators, stop, value]
  · have acted : (Except.ok (enumStop qt scope (p.scan t)) : Except QString _) = .ok q := by
      simpa [consume, consumeEnum, stop] using acted
    cases acted
    obtain ⟨scope', same⟩ := closed (p.scan t)
    refine ⟨⟨scope', same.trans ?_⟩, ?_⟩
    · simp [State.pending, State.counting, enumerators, en]
    · simp [State.intResults, State.pending, Counts, enumerators]

/-- The tokens up to the closing brace add the enumerators one after the other. -/
theorem run_pending {body : List Token} (mode : s.mode = .enum scope place) (inside : ∀ t ∈ body, t.terminal ≠ .stop)
    (stop : t.terminal = .stop) (run : s.run (body ++ [t]) = .ok u) :
    (∃ scope', u.parser.astEnum = { ((s.pending body).foldl Enumerator.declare s.counting).1 with scope := scope' }) ∧
      (s.NoOverflow (body ++ [t]) ↔ Counts s.parser.astEnumValue (s.pending body)) := by
  induction body generalizing s place with
  | nil =>
    obtain ⟨v, step, same⟩ := run_cons.mp run
    cases run_nil.mp same
    obtain ⟨declared, counts⟩ := step_stop mode step stop
    exact ⟨declared, by simp [State.NoOverflow, counts]⟩
  | cons next body ih =>
    obtain ⟨v, step, rest⟩ := run_cons.mp run
    rw [List.forall_mem_cons] at inside
    obtain ⟨⟨place', mode'⟩, effect⟩ := step_pending mode step inside.1 body
    obtain ⟨declared, counts⟩ := ih mode' inside.2 rest
    have overflow : s.NoOverflow (next :: (body ++ [t])) ↔
        (∀ n ∈ s.intResults next, IsInt n) ∧ v.NoOverflow (body ++ [t]) := by
      simp [State.NoOverflow, step]
    rw [List.cons_append, overflow, counts]
    rcases effect with ⟨pending, counting, results⟩ | ⟨e, pending, counting, results⟩
    · have value : v.parser.astEnumValue = s.parser.astEnumValue := congrArg Prod.snd counting
      rw [pending, results, value, ← counting]
      exact ⟨declared, by simp⟩
    · have value : v.parser.astEnumValue = e.counter s.parser.astEnumValue := congrArg Prod.snd counting
      rw [pending, results, value, List.foldl_cons, ← counting]
      exact ⟨declared, Iff.rfl⟩

end Runs

section Main
variable {qt : Core} {s opened closed : State qt} {header stop : Token} {body : List Token} {values : List Int}

theorem EnumDeclaration.start (declaration : EnumDeclaration s opened closed header body stop) :
    ∃ scope, opened = ⟨.enum scope (.opening false), (s.parser.scan header).enumStart⟩ := by
  obtain ⟨acted, moved⟩ := step_ok_iff.mp declaration.opens
  obtain ⟨mode, p⟩ := s
  obtain ⟨mode', q⟩ := opened
  rw [declaration.starts] at acted moved
  cases mode with
  | header body | opening body => exact nomatch moved
  | parameter place templates => cases place <;> exact nomatch moved
  | enum scope place => cases place <;> exact nomatch moved
  | global _ | cls _ | pod _ _ =>
    cases acted
    cases moved
    exact ⟨_, rfl⟩

/-- The parser's values are those of C++ exactly if its counter can take them all. -/
theorem followsCpp_iff (declaration : EnumDeclaration s opened closed header body stop) (cpp : CppValues (-1) (enumerators body) values)
    (fit : ∀ entry ∈ (enumerators body).zip values, entry.1.value ≠ none → -2147483648 ≤ entry.2 ∧ entry.2 < 4294967296) :
    FollowsCpp opened closed (body ++ [stop]) (enumerators body) values ↔ Countable (-1) (enumerators body) values := by
  obtain ⟨scope, rfl⟩ := declaration.start
  obtain ⟨⟨scope', closing⟩, overflow⟩ := run_pending rfl declaration.inside declaration.stops declaration.accepted
  generalize begin : (⟨.enum scope (.opening false), (s.parser.scan header).enumStart⟩ : State qt) = opened at closing overflow ⊢
  have pending : opened.pending body = enumerators body := by simp [← begin, State.pending]
  have counter : opened.counting.2 = -1 := by simp [← begin, State.counting, RepParser.enumStart]
  have params : opened.counting.1.params = [] := by simp [← begin, State.counting, RepParser.enumStart]
  have unsigned : opened.counting.1.isSigned = false := by simp [← begin, State.counting, RepParser.enumStart]
  have fresh : Tracks opened.counting := ⟨by simp [params], by simp [params, unsigned], by simp [counter]⟩
  have tracks := fresh.declared (enumerators body)
  have names := declared_names (enumerators body) opened.counting
  have declared := declared_values (enumerators body) opened.counting
  simp only [params, counter, List.map_nil, List.nil_append] at names declared
  rw [pending, show opened.parser.astEnumValue = -1 from counter] at overflow
  rw [pending] at closing
  have patterns : closed.parser.astEnum.params.map (fun param => BitVec.ofInt 32 param.value) =
      (counters (-1) (enumerators body)).map (BitVec.ofInt 32) := by
    rw [← declared, List.map_map, closing]
    rfl
  rw [← counts_iff cpp (by decide) fit, ← overflow, ← patterns]
  constructor
  · exact fun follows => ⟨follows.noOverflow, follows.patterns⟩
  · rintro ⟨noOverflow, same⟩
    refine ⟨?_, same, noOverflow, ?_, ?_⟩
    all_goals rw [closing]
    · exact names
    · exact tracks.max
    · exact tracks.isSigned

end Main

section Example

def enumHeader : Token := ⟨.enum, [(.name, "E".toList)]⟩

def enumBody (value : String) (next : List Token) : List Token :=
  [⟨.start, []⟩, ⟨.symbol, [(.symbol, "a".toList)]⟩, ⟨.equals, []⟩, ⟨.value, [(.value, value.toList)]⟩] ++ next

def enumEnd : Token := ⟨.stop, []⟩

/-- `ENUM E \x7b a = -1, b \x7d` -/
theorem negative_followsCpp : ∃ opened closed : State asciiCore,
    EnumDeclaration {} opened closed enumHeader (enumBody "-1" [⟨.comma, []⟩, ⟨.symbol, [(.symbol, "b".toList)]⟩]) enumEnd ∧
      FollowsCpp opened closed (enumBody "-1" [⟨.comma, []⟩, ⟨.symbol, [(.symbol, "b".toList)]⟩] ++ [enumEnd])
        [⟨"a".toList, some "-1".toList⟩, ⟨"b".toList, none⟩] [-1, 0] := by
  obtain ⟨opened, closed, declared⟩ : ∃ opened closed : State asciiCore, EnumDeclaration {} opened closed enumHeader
      (enumBody "-1" [⟨.comma, []⟩, ⟨.symbol, [(.symbol, "b".toList)]⟩]) enumEnd := ⟨_, _, rfl, rfl, by decide, rfl, rfl⟩
  refine ⟨opened, closed, declared, (followsCpp_iff declared ?_ (by decide)).mpr ⟨by decide, by decide⟩⟩
  exact .explicit (.negative (s := ['1']) ⟨by simp, by decide, by decide⟩) (.implicit .nil)

/-- `toInt` cannot represent the value. -/
theorem mask_not_followsCpp : ∃ opened closed : State asciiCore,
    scanned "ENUM E \x7ba=0xffffffff\x7d".toList = (enumHeader :: enumBody "0xffffffff" [] ++ [enumEnd], true) ∧
      EnumDeclaration {} opened closed enumHeader (enumBody "0xffffffff" []) enumEnd ∧
      CppValues (-1) (enumerators (enumBody "0xffffffff" [])) [4294967295] ∧ closed.parser.astEnum.params = [⟨"a".toList, 0⟩] ∧
      ¬ FollowsCpp opened closed (enumBody "0xffffffff" [] ++ [enumEnd]) (enumerators (enumBody "0xffffffff" [])) [4294967295] := by
  refine ⟨_, _, by decide +kernel, ⟨rfl, rfl, by decide, rfl, rfl⟩, ?_, by decide +kernel, fun follows => ?_⟩
  · exact .explicit (.hexadecimal (s := "ffffffff".toList) (x := 'x') (.inl rfl) (by simp) (by decide)) .nil
  · exact absurd follows.patterns (by decide +kernel)

end Example
end RemoteObjects.Repc
