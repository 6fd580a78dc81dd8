import Mathlib.Data.List.Basic

/-! Regular expressions with captures, as a backtracking matcher runs them from a fixed place on. -/
namespace RemoteObjects.Patterns

section Model
variable {Group : Type*}

/-- Of the quantifiers only repetitions of one character, greedy and reluctant. -/
inductive Pattern (Group : Type*)
  | empty
  | one (accepts : Char → Bool)
  | many (accepts : Char → Bool)
  | fewest (accepts : Char → Bool)
  | seq (first second : Pattern Group)
  | alt (first second : Pattern Group)
  | group (name : Group) (body : Pattern Group)

instance : Append (Pattern Group) := ⟨.seq⟩

namespace Pattern

def oneOrMore (accepts : Char → Bool) : Pattern Group := one accepts ++ many accepts

def optional (p : Pattern Group) : Pattern Group := .alt p .empty

def literal : List Char → Pattern Group
  | [] => .empty
  | c :: s => .one (· == c) ++ literal s

end Pattern

/-- What is behind a match, and its captures, the last one first. -/
structure Match (Group : Type*) where
  rest : List Char
  captures : List (Group × List Char) := []

/-- What repetitions of a character leave, the longest one first. -/
def repetitions (accepts : Char → Bool) : List Char → List (List Char)
  | [] => [[]]
  | c :: s => if accepts c then repetitions accepts s ++ [c :: s] else [c :: s]

/-- What has been read between two places. -/
def between (text rest : List Char) : List Char := text.take (text.length - rest.length)

/-- All matches, in the order in which the matcher tries them. -/
def Pattern.run : Pattern Group → Match Group → List (Match Group)
  | .empty, m => [m]
  | .one accepts, m =>
    match m.rest with
    | [] => []
    | c :: s => if accepts c then [{ m with rest := s }] else []
  | .many accepts, m => (repetitions accepts m.rest).map fun rest => { m with rest := rest }
  | .fewest accepts, m => (repetitions accepts m.rest).reverse.map fun rest => { m with rest := rest }
  | .seq p q, m => (p.run m).flatMap q.run
  | .alt p q, m => p.run m ++ q.run m
  | .group name p, m =>
    (p.run m).map fun n => { n with captures := (name, between m.rest n.rest) :: n.captures }

def Pattern.match? (p : Pattern Group) (text : List Char) : Option (Match Group) := (p.run { rest := text }).head?

/-- The matches in a text with the places where they start, for a pattern that reads something: none overlaps the one before. -/
def Pattern.globalMatchFrom (p : Pattern Group) : Nat → Nat → List Char → List (Nat × Match Group)
  | _, _, [] => []
  | start, behind + 1, _ :: s => p.globalMatchFrom (start + 1) behind s
  | start, 0, c :: s =>
    match p.match? (c :: s) with
    | none => p.globalMatchFrom (start + 1) 0 s
    | some m => (start, m) :: p.globalMatchFrom (start + 1) (s.length - m.rest.length) s

def Pattern.globalMatch (p : Pattern Group) (text : List Char) : List (Nat × Match Group) := p.globalMatchFrom 0 0 text

/-- The names of the groups. -/
def Pattern.groups : Pattern Group → List Group
  | .seq p q | .alt p q => p.groups ++ q.groups
  | .group name p => name :: p.groups
  | _ => []

/-- A lower bound on what is read. -/
def Pattern.minLength : Pattern Group → Nat
  | .one _ => 1
  | .seq p q => p.minLength + q.minLength
  | .alt p q => min p.minLength q.minLength
  | .group _ p => p.minLength
  | _ => 0

/-- `repetitions` of a text of which only the front is known: nothing where they go on to its end. -/
def knownRepetitions (accepts : Char → Bool) : List Char → Option (List (List Char))
  | [] => none
  | c :: s => if accepts c then (knownRepetitions accepts s).map (· ++ [c :: s]) else some [c :: s]

/-- What the matches leave of a known front, if no match needs more than it. -/
def Pattern.known : Pattern Group → List Char → Option (List (List Char))
  | .empty, s => some [s]
  | .one _, [] => none
  | .one accepts, c :: s => some (if accepts c then [s] else [])
  | .many accepts, s => knownRepetitions accepts s
  | .fewest accepts, s => (knownRepetitions accepts s).map List.reverse
  | .seq p q, s => (p.known s).bind fun rests => (rests.mapM q.known).map List.flatten
  | .alt p q, s => (p.known s).bind fun rests => (q.known s).map (rests ++ ·)
  | .group _ p, s => p.known s

/-- What a group has captured, the empty text where it has no match. -/
def captured [DecidableEq Group] (captures : List (Group × List Char)) (name : Group) : List Char :=
  ((captures.find? fun entry => entry.1 = name).map (·.2)).getD []

end Model

section Runs
variable {Group : Type*} {p q : Pattern Group} {accepts : Char → Bool} {m n : Match Group} {name : Group}

theorem mem_run_seq : n ∈ (p ++ q).run m ↔ ∃ k ∈ p.run m, n ∈ q.run k :=
  List.mem_flatMap

theorem mem_run_group : n ∈ (Pattern.group name p).run m ↔
    ∃ k ∈ p.run m, n = { k with captures := (name, between m.rest k.rest) :: k.captures } := by
  rw [Pattern.run, List.mem_map]
  exact exists_congr fun k => and_congr_right fun _ => eq_comm

theorem mem_run_one : n ∈ (Pattern.one accepts).run m ↔ ∃ c s, m.rest = c :: s ∧ accepts c = true ∧ n = { m with rest := s } := by
  obtain ⟨rest, captures⟩ := m
  cases rest with
  | nil => simp [Pattern.run]
  | cons c s => simp [Pattern.run]

theorem repetitions_append {text rest : List Char} (mem : rest ∈ repetitions accepts text) :
    ∃ read, text = read ++ rest ∧ ∀ c ∈ read, accepts c = true := by
  induction text with
  | nil => exact ⟨[], (List.mem_singleton.mp mem).symm, fun _ mem => absurd mem List.not_mem_nil⟩
  | cons c s ih =>
    have here : rest = c :: s → ∃ read, c :: s = read ++ rest ∧ ∀ d ∈ read, accepts d = true := by
      rintro rfl
      exact ⟨[], rfl, fun _ mem => absurd mem List.not_mem_nil⟩
    rw [repetitions] at mem
    split at mem
    case isFalse => exact here (List.mem_singleton.mp mem)
    case isTrue accepted =>
      rcases List.mem_append.mp mem with later | stop
      · obtain ⟨read, rfl, all⟩ := ih later
        exact ⟨c :: read, rfl, List.forall_mem_cons.mpr ⟨accepted, all⟩⟩
      · exact here (List.mem_singleton.mp stop)

theorem reads_many (mem : n ∈ (Pattern.many accepts).run m) :
    ∃ read, m.rest = read ++ n.rest ∧ ∀ c ∈ read, accepts c = true := by
  obtain ⟨rest, left, rfl⟩ := List.mem_map.mp mem
  exact repetitions_append left

theorem between_append (read rest : List Char) : between (read ++ rest) rest = read := by
  simp [between]

/-- A match reads a front part of the text, and adds captures of the groups of its pattern. -/
structure Reads (p : Pattern Group) (m n : Match Group) (read : List Char) (new : List (Group × List Char)) : Prop where
  text : m.rest = read ++ n.rest
  captures : n.captures = new ++ m.captures
  least : p.minLength ≤ read.length
  names : ∀ entry ∈ new, entry.1 ∈ p.groups

theorem reads_nothing (text : m.rest = n.rest) (captures : n.captures = m.captures) (least : p.minLength = 0) :
    Reads p m n [] [] :=
  ⟨text, captures, Nat.le_of_eq least, fun _ mem => absurd mem List.not_mem_nil⟩

theorem exists_reads (mem : n ∈ p.run m) : ∃ read new, Reads p m n read new := by
  induction p generalizing m n with
  | empty =>
    cases List.mem_singleton.mp mem
    exact ⟨[], [], reads_nothing rfl rfl rfl⟩
  | one accepts =>
    obtain ⟨c, s, text, -, rfl⟩ := mem_run_one.mp mem
    exact ⟨[c], [], text, rfl, Nat.le_refl _, fun _ mem => absurd mem List.not_mem_nil⟩
  | many accepts =>
    obtain ⟨read, text, -⟩ := reads_many mem
    obtain ⟨rest, left, rfl⟩ := List.mem_map.mp mem
    exact ⟨read, [], text, rfl, Nat.zero_le _, fun _ mem => absurd mem List.not_mem_nil⟩
  | fewest accepts =>
    obtain ⟨rest, left, rfl⟩ := List.mem_map.mp mem
    obtain ⟨read, text, -⟩ := repetitions_append (List.mem_reverse.mp left)
    exact ⟨read, [], text, rfl, Nat.zero_le _, fun _ mem => absurd mem List.not_mem_nil⟩
  | seq p q ihp ihq =>
    obtain ⟨k, first, second⟩ := List.mem_flatMap.mp mem
    obtain ⟨read, new, reads⟩ := ihp first
    obtain ⟨read', new', reads'⟩ := ihq second
    refine ⟨read ++ read', new' ++ new, ?_, ?_, ?_, ?_⟩
    · rw [reads.text, reads'.text, List.append_assoc]
    · rw [reads'.captures, reads.captures, List.append_assoc]
    · rw [List.length_append]
      exact Nat.add_le_add reads.least reads'.least
    · intro entry mem
      rcases List.mem_append.mp mem with mem | mem
      · exact List.mem_append_right _ (reads'.names entry mem)
      · exact List.mem_append_left _ (reads.names entry mem)
  | alt p q ihp ihq =>
    rcases List.mem_append.mp mem with mem | mem
    · obtain ⟨read, new, reads⟩ := ihp mem
      exact ⟨read, new, reads.text, reads.captures, Nat.le_trans (Nat.min_le_left _ _) reads.least,
        fun entry mem => List.mem_append_left _ (reads.names entry mem)⟩
    · obtain ⟨read, new, reads⟩ := ihq mem
      exact ⟨read, new, reads.text, reads.captures, Nat.le_trans (Nat.min_le_right _ _) reads.least,
        fun entry mem => List.mem_append_right _ (reads.names entry mem)⟩
  | group name p ih =>
    obtain ⟨k, inner, rfl⟩ := mem_run_group.mp mem
    obtain ⟨read, new, reads⟩ := ih inner
    refine ⟨read, (name, between m.rest k.rest) :: new, reads.text, ?_, reads.least, ?_⟩
    · rw [reads.captures, List.cons_append]
    · intro entry mem
      rcases List.mem_cons.mp mem with rfl | mem
      · exact List.mem_cons_self
      · exact List.mem_cons_of_mem _ (reads.names entry mem)

end Runs

section Captures
variable {Group : Type*} [DecidableEq Group] {p q body : Pattern Group} {accepts : Char → Bool} {m n : Match Group}
  {name : Group} {captures new : List (Group × List Char)}

theorem captured_cons_self (value : List Char) : captured ((name, value) :: captures) name = value := by
  simp [captured]

theorem captured_append_of_not_mem (other : ∀ entry ∈ new, entry.1 ≠ name) :
    captured (new ++ captures) name = captured captures name := by
  rw [captured, List.find?_append, List.find?_eq_none.mpr fun entry mem => by simpa using other entry mem, Option.none_or]
  rfl

theorem Reads.other {read : List Char} (reads : Reads p m n read new) (fresh : name ∉ p.groups) :
    captured n.captures name = captured m.captures name := by
  rw [reads.captures]
  refine captured_append_of_not_mem fun entry mem same => fresh ?_
  rw [← same]
  exact reads.names entry mem

/-- A group that the pattern lacks has no capture. -/
theorem captured_eq_nil (mem : n ∈ p.run m) (fresh : m.captures = []) (other : name ∉ p.groups) : captured n.captures name = [] := by
  obtain ⟨read, new, reads⟩ := exists_reads mem
  rw [reads.other other, fresh]
  rfl

/-- A group in a row captures what its body reads, where it does not come again. -/
theorem exists_captured (mem : n ∈ (p ++ .group name body ++ q).run m) (once : name ∉ q.groups) :
    ∃ k l, l ∈ body.run k ∧ captured n.captures name = between k.rest l.rest := by
  obtain ⟨l', front, back⟩ := mem_run_seq.mp mem
  obtain ⟨k, -, inner⟩ := mem_run_seq.mp front
  obtain ⟨l, here, rfl⟩ := mem_run_group.mp inner
  obtain ⟨read, new, reads⟩ := exists_reads back
  refine ⟨k, l, here, ?_⟩
  rw [reads.other once, captured_cons_self]

omit [DecidableEq Group] in
/-- A text that begins with a character that a pattern requires. -/
theorem between_of_one (mem : n ∈ (.one accepts ++ p).run m) :
    ∃ c s, between m.rest n.rest = c :: s ∧ accepts c = true := by
  obtain ⟨k, first, second⟩ := mem_run_seq.mp mem
  obtain ⟨c, s, text, accepted, rfl⟩ := mem_run_one.mp first
  obtain ⟨read, new, reads⟩ := exists_reads second
  refine ⟨c, read, ?_, accepted⟩
  rw [text, show s = read ++ n.rest from reads.text, ← List.cons_append, between_append]

end Captures

section First
variable {Group : Type*} {p q body : Pattern Group} {accepts : Char → Bool} {m k n : Match Group} {name : Group}
  {read rest text : List Char} {captures : List (Group × List Char)}

/-- The match that the matcher finds first. -/
def Pattern.Takes (p : Pattern Group) (m n : Match Group) : Prop := (p.run m).head? = some n

theorem match?_eq (takes : p.Takes { rest := text } n) : p.match? text = some n :=
  takes

theorem takes_seq (first : p.Takes m k) (second : q.Takes k n) : (p ++ q).Takes m n := by
  obtain ⟨others, whole⟩ := List.head?_eq_some_iff.mp first
  rw [Pattern.Takes, show (p ++ q).run m = (p.run m).flatMap q.run from rfl, whole, List.flatMap_cons, List.head?_append, second]
  rfl

theorem takes_group (inner : body.Takes ⟨read ++ rest, captures⟩ ⟨rest, captures⟩) :
    (Pattern.group name body).Takes ⟨read ++ rest, captures⟩ ⟨rest, (name, read) :: captures⟩ := by
  rw [Pattern.Takes, Pattern.run, List.head?_map, inner, Option.map_some, between_append]

theorem repetitions_head (all : ∀ c ∈ read, accepts c = true) (stop : ∀ c s, rest = c :: s → accepts c = false) :
    (repetitions accepts (read ++ rest)).head? = some rest := by
  induction read with
  | nil =>
    cases rest with
    | nil => rfl
    | cons c s =>
      rw [List.nil_append, repetitions, if_neg (by rw [stop c s rfl]; exact Bool.false_ne_true)]
      rfl
  | cons c read ih =>
    rw [List.forall_mem_cons] at all
    rw [List.cons_append, repetitions, if_pos all.1, List.head?_append, ih all.2]
    rfl

/-- A repetition goes on as far as it can. -/
theorem takes_many (all : ∀ c ∈ read, accepts c = true) (stop : ∀ c s, rest = c :: s → accepts c = false) :
    (Pattern.many accepts).Takes ⟨read ++ rest, captures⟩ ⟨rest, captures⟩ := by
  rw [Pattern.Takes, Pattern.run, List.head?_map, repetitions_head all stop]
  rfl

theorem takes_one {c : Char} (accepted : accepts c = true) : (Pattern.one accepts).Takes ⟨c :: rest, captures⟩ ⟨rest, captures⟩ := by
  have step : (Pattern.one accepts : Pattern Group).run ⟨c :: rest, captures⟩ = [⟨rest, captures⟩] := if_pos accepted
  rw [Pattern.Takes, step]
  rfl

theorem takes_oneOrMore (nonempty : read ≠ []) (all : ∀ c ∈ read, accepts c = true)
    (stop : ∀ c s, rest = c :: s → accepts c = false) :
    (Pattern.oneOrMore accepts).Takes ⟨read ++ rest, captures⟩ ⟨rest, captures⟩ := by
  cases read with
  | nil => exact absurd rfl nonempty
  | cons c read =>
    rw [List.forall_mem_cons] at all
    exact takes_seq (takes_one all.1) (takes_many all.2 stop)

theorem takes_optional (fails : p.run m = []) : p.optional.Takes m m := by
  rw [Pattern.Takes, Pattern.optional, Pattern.run, fails]
  rfl

theorem run_seq_eq_nil (fails : ∀ k ∈ p.run m, q.run k = []) : (p ++ q).run m = [] :=
  List.flatMap_eq_nil_iff.mpr fails

theorem run_seq_eq_nil_left (fails : p.run m = []) : (p ++ q).run m = [] :=
  run_seq_eq_nil fun k mem => absurd mem (by rw [fails]; exact List.not_mem_nil)

theorem run_one_eq_nil (stop : ∀ c s, rest = c :: s → accepts c = false) : (Pattern.one accepts).run ⟨rest, captures⟩ = [] := by
  cases rest with
  | nil => rfl
  | cons c s => exact if_neg (by rw [stop c s rfl]; exact Bool.false_ne_true)

end First

section Known
variable {Group : Type*} {p : Pattern Group} {accepts : Char → Bool} {s w : List Char} {rests : List (List Char)}

theorem repetitions_known (known : knownRepetitions accepts s = some rests) :
    repetitions accepts (s ++ w) = rests.map (· ++ w) := by
  induction s generalizing rests with
  | nil => cases known
  | cons c s ih =>
    rw [knownRepetitions] at known
    rw [List.cons_append, repetitions]
    split at known
    case isTrue accepted =>
      obtain ⟨others, inner, rfl⟩ := Option.map_eq_some_iff.mp known
      rw [if_pos accepted, ih inner, List.map_append]
      rfl
    case isFalse refused =>
      cases known
      exact if_neg refused

theorem rests_flatMap {q : Pattern Group} {found : List (Match Group)} {middles : List (List Char)}
    {parts : List (List (List Char))}
    (second : ∀ {s : List Char} {rests : List (List Char)}, q.known s = some rests → ∀ captures,
      (q.run ⟨s ++ w, captures⟩).map (·.rest) = rests.map (· ++ w))
    (known : middles.mapM q.known = some parts) (first : found.map (·.rest) = middles.map (· ++ w)) :
    (found.flatMap q.run).map (·.rest) = parts.flatten.map (· ++ w) := by
  induction middles generalizing found parts with
  | nil =>
    cases known
    cases List.map_eq_nil_iff.mp first
    rfl
  | cons middle middles ih =>
    rw [List.mapM_cons] at known
    obtain ⟨part, here, others⟩ := Option.bind_eq_some_iff.mp known
    obtain ⟨rest, later, same⟩ := Option.bind_eq_some_iff.mp others
    cases same
    cases found with
    | nil => cases first
    | cons m found =>
      obtain ⟨text, first⟩ := List.cons.inj first
      have run : (q.run m).map (·.rest) = part.map (· ++ w) := by
        rw [← second here m.captures, ← show m.rest = middle ++ w from text]
      rw [List.flatMap_cons, List.map_append, run, ih later first, List.flatten_cons, List.map_append]

/-- Behind a known front the text does not matter. -/
theorem run_known (known : p.known s = some rests) (w : List Char) (captures : List (Group × List Char)) :
    (p.run ⟨s ++ w, captures⟩).map (·.rest) = rests.map (· ++ w) := by
  induction p generalizing s rests captures with
  | empty =>
    cases known
    rfl
  | one accepts =>
    cases s with
    | nil => cases known
    | cons c s =>
      cases known
      change List.map (·.rest) (if accepts c = true then [(⟨s ++ w, captures⟩ : Match Group)] else []) = _
      split <;> rfl
  | many accepts =>
    rw [Pattern.run, List.map_map, repetitions_known known]
    exact List.map_id _
  | fewest accepts =>
    obtain ⟨others, inner, rfl⟩ := Option.map_eq_some_iff.mp known
    rw [Pattern.run, List.map_map, repetitions_known inner, ← List.map_reverse]
    exact List.map_id _
  | seq p q ihp ihq =>
    obtain ⟨middles, first, second⟩ := Option.bind_eq_some_iff.mp known
    obtain ⟨parts, inner, rfl⟩ := Option.map_eq_some_iff.mp second
    exact rests_flatMap (fun known captures => ihq known captures) inner (ihp first captures)
  | alt p q ihp ihq =>
    obtain ⟨left, first, second⟩ := Option.bind_eq_some_iff.mp known
    obtain ⟨right, inner, rfl⟩ := Option.map_eq_some_iff.mp second
    rw [Pattern.run, List.map_append, ihp first, ihq inner, List.map_append]
  | group name p ih =>
    rw [Pattern.run, List.map_map]
    exact ih known captures

theorem exists_run {rest : List Char} (first : (p.known s).bind List.head? = some rest) (w : List Char)
    (captures : List (Group × List Char)) : ∃ n others, p.run ⟨s ++ w, captures⟩ = n :: others ∧ n.rest = rest ++ w := by
  obtain ⟨rests, known, head⟩ := Option.bind_eq_some_iff.mp first
  obtain ⟨later, rfl⟩ := List.head?_eq_some_iff.mp head
  have run := run_known known w captures
  cases found : p.run ⟨s ++ w, captures⟩ with
  | nil =>
    rw [found] at run
    cases run
  | cons n others =>
    rw [found] at run
    exact ⟨n, others, rfl, (List.cons.inj run).1⟩

/-- A pattern without groups reads a known front. -/
theorem takes_of_known (rest : List Char) (first : (p.known s).bind List.head? = some rest) (groups : p.groups = []) (w : List Char)
    (captures : List (Group × List Char)) : p.Takes ⟨s ++ w, captures⟩ ⟨rest ++ w, captures⟩ := by
  obtain ⟨n, others, found, left⟩ := exists_run first w captures
  obtain ⟨read, new, reads⟩ := exists_reads (show n ∈ p.run ⟨s ++ w, captures⟩ by rw [found]; exact List.mem_cons_self)
  have none : new = [] := List.eq_nil_iff_forall_not_mem.mpr fun entry mem =>
    absurd (reads.names entry mem) (by rw [groups]; exact List.not_mem_nil)
  rw [Pattern.Takes, found, List.head?_cons]
  obtain ⟨_, _⟩ := n
  cases left
  cases reads.captures
  rw [none]
  rfl

theorem match?_none (known : p.known s = some []) (w : List Char) : p.match? (s ++ w) = none := by
  have none : p.run ⟨s ++ w, []⟩ = [] := List.map_eq_nil_iff.mp (run_known known w [])
  rw [Pattern.match?, none]
  rfl

theorem match?_some {rest : List Char} (first : (p.known s).bind List.head? = some rest) (w : List Char) :
    ∃ n, p.match? (s ++ w) = some n ∧ n.rest = rest ++ w := by
  obtain ⟨n, others, found, left⟩ := exists_run first w []
  exact ⟨n, by rw [Pattern.match?, found]; rfl, left⟩

end Known

section Global
variable {Group : Type*} {p : Pattern Group} {start : Nat} {text : List Char} {m : Match Group} {c : Char}

/-- What a match has read is passed over. -/
theorem globalMatchFrom_behind (p : Pattern Group) (start : Nat) (read rest : List Char) :
    p.globalMatchFrom start read.length (read ++ rest) = p.globalMatchFrom (start + read.length) 0 rest := by
  induction read generalizing start with
  | nil => rfl
  | cons c read ih =>
    rw [List.length_cons, List.cons_append, Pattern.globalMatchFrom, ih, Nat.add_right_comm, Nat.add_assoc]

theorem globalMatchFrom_none (none : p.match? (c :: text) = none) :
    p.globalMatchFrom start 0 (c :: text) = p.globalMatchFrom (start + 1) 0 text := by
  rw [Pattern.globalMatchFrom, none]

theorem globalMatchFrom_some {read : List Char} (nonempty : read ≠ []) (some : p.match? (read ++ m.rest) = some m) :
    p.globalMatchFrom start 0 (read ++ m.rest) = (start, m) :: p.globalMatchFrom (start + read.length) 0 m.rest := by
  obtain ⟨c, read, rfl⟩ := List.exists_cons_of_ne_nil nonempty
  rw [List.cons_append] at some ⊢
  rw [Pattern.globalMatchFrom, some]
  dsimp only
  rw [List.length_append, Nat.add_sub_cancel, globalMatchFrom_behind, List.length_cons, Nat.add_right_comm, Nat.add_assoc]

end Global

end RemoteObjects.Patterns
