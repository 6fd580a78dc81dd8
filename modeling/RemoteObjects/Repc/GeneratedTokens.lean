import RemoteObjects.Repc.PlainTexts

/-! The tokens of generated `.rep` texts. -/
namespace RemoteObjects.Repc
open Patterns

section Longest
variable {s t w : QString} {terminal : Terminal} {m : Match Capture} {captures : Captures} {limit : Nat}

/-- Another pattern that does not match, or reads less. -/
def Loses (s : QString) (m : Match Capture) (other : Terminal) : Prop :=
  other.pattern.match? s = none ∨ ∃ n, other.pattern.match? s = some n ∧ m.rest.length < n.rest.length

theorem longest_eq (matched : terminal.pattern.match? s = some m) (others : ∀ other, other ≠ terminal → Loses s m other) :
    longest s = some (terminal, m) := by
  have longer_loses (best : Option (Terminal × Match Capture)) (other : Terminal) (loses : Loses s m other)
      (before : best = some (terminal, m)) :
      longer best ((other.pattern.match? s).map (other, ·)) = some (terminal, m) := by
    rw [before]
    rcases loses with none | ⟨n, some, shorter⟩
    · rw [none]
      rfl
    · rw [some]
      exact if_neg (Nat.lt_asymm shorter)
  have all (these : List Terminal) (best : Option (Terminal × Match Capture))
      (before : best = some (terminal, m) ∨ terminal ∈ these ∧ ∀ b, best = some b → m.rest.length < b.2.rest.length) :
      these.foldl (fun best other => longer best ((other.pattern.match? s).map (other, ·))) best = some (terminal, m) := by
    induction these generalizing best with
    | nil => exact before.resolve_right fun h => List.not_mem_nil h.1
    | cons other these ih =>
      refine ih _ ?_
      by_cases same : other = terminal
      · refine .inl ?_
        simp only [same, matched, Option.map_some]
        rcases before with before | ⟨-, worse⟩
        · rw [before]
          exact if_neg (Nat.lt_irrefl _)
        · cases best with
          | none => rfl
          | some b => exact if_pos (worse b rfl)
      · have loses := others other same
        rcases before with before | ⟨mem, worse⟩
        · exact .inl (longer_loses best other loses before)
        · refine .inr ⟨(List.mem_cons.mp mem).resolve_left (Ne.symm same), fun b found => ?_⟩
          rcases longer_mem found with found | found
          · exact worse b found
          · rcases loses with none | ⟨n, some, shorter⟩
            · rw [none] at found
              cases found
            · rw [some] at found
              cases found
              exact shorter
  exact all terminals none (.inr ⟨by cases terminal <;> decide, fun _ found => nomatch found⟩)

theorem window_append (ascii : ∀ c ∈ s, c.toNat < 128) (fits : s.length ≤ limit) :
    window limit (s ++ t) = s ++ window (limit - s.length) t := by
  induction s generalizing limit with
  | nil => rfl
  | cons c s ih =>
    rw [List.forall_mem_cons] at ascii
    have one : units c = 1 := if_pos (Nat.lt_trans ascii.1 (by decide))
    rw [List.length_cons] at fits ⊢
    rw [List.cons_append, window, one, if_pos (by omega), ih ascii.2 (by omega), List.cons_append]
    congr 3
    omega

/-- A token at the front of a line, whatever comes behind the line. -/
theorem nextToken_line {front back : QString} (ascii : ∀ c ∈ front ++ back, c.toNat < 128)
    (fits : (front ++ back).length ≤ maxMatchLen)
    (found : ∀ w, longest (front ++ back ++ w) = some (terminal, ⟨back ++ w, captures⟩)) (rest : QString) :
    nextToken (front ++ back ++ rest) = some (⟨terminal, captures⟩, back ++ rest) := by
  rw [nextToken, window_append ascii fits, found, Option.map_some]
  congr 2
  simp only [List.length_append, List.append_assoc]
  rw [Nat.add_sub_cancel, List.drop_left]

/-- Its line has one more token. -/
theorem scanned_line {front back : QString} (ascii : ∀ c ∈ front ++ back, c.toNat < 128)
    (fits : (front ++ back).length ≤ maxMatchLen)
    (found : ∀ w, longest (front ++ back ++ w) = some (terminal, ⟨back ++ w, captures⟩)) (rest : QString) :
    (scanned (front ++ back ++ rest)).1 = ⟨terminal, captures⟩ :: (scanned (back ++ rest)).1 ∧
      (scanned (front ++ back ++ rest)).2 = (scanned (back ++ rest)).2 := by
  rw [scanned_of_nextToken (nextToken_line ascii fits found rest)]
  exact ⟨rfl, rfl⟩

end Longest

section Known
variable {s w : QString} {terminal : Terminal} {m : Match Capture}

/-- No other pattern, these apart, matches a text with this front. -/
def Alone (front : QString) (these : List Terminal) : Prop :=
  ∀ other ∈ terminals, other ∈ these ∨ other.pattern.known front = some []

instance (front : QString) (these : List Terminal) : Decidable (Alone front these) :=
  inferInstanceAs (Decidable (∀ other ∈ terminals, other ∈ these ∨ other.pattern.known front = some []))

theorem longest_of_alone (these : List Terminal) (alone : Alone s (terminal :: these))
    (matched : terminal.pattern.match? (s ++ w) = some m) (others : ∀ other ∈ these, Loses (s ++ w) m other) :
    longest (s ++ w) = some (terminal, m) := by
  refine longest_eq matched fun other different => ?_
  rcases alone other (by cases other <;> decide) with mem | none
  · exact others other ((List.mem_cons.mp mem).resolve_left different)
  · exact .inl (match?_none none w)

theorem loses_of_known {other : Terminal} (rest : QString) (known : (other.pattern.known s).bind List.head? = some rest)
    (shorter : m.rest.length < (rest ++ w).length) : Loses (s ++ w) m other := by
  obtain ⟨n, found, left⟩ := match?_some known w
  exact .inr ⟨n, found, by rw [left]; exact shorter⟩

/-- The fronts of the lines in generated texts: the patterns that can match each of them, and what patterns leave of the texts at
which they stand there. -/
structure Fronts : Prop where
  newline : Alone "\n".toList [.newline]
  start : Alone "\x7b\n".toList [.start]
  stop : Alone "\x7d\n".toList [.stop]
  prop : Alone "    PROP(".toList [.prop, .symbol]
  emptyProp : Alone "    PROP()".toList [.symbol]
  signal : Alone "    SIGNAL(".toList [.symbol, .signal]
  slot : Alone "    SLOT(".toList [.slot, .symbol]
  cls : Alone "class ".toList [.cls, .symbol]
  pod : Alone "POD ".toList [.pod, .pod2, .symbol]
  ending : (ending.known ";\n".toList).bind List.head? = some "\n".toList
  podEnding : (Repc.ending.known "\n".toList).bind List.head? = some "\n".toList
  propOpening : ((blanks ++ keyword "PROP" ++ blanks ++ keyword "(").known "    PROP(".toList).bind List.head? = some []
  slotOpening : ((blanks ++ keyword "SLOT" ++ blanks ++ keyword "(").known "    SLOT(".toList).bind List.head? = some []
  signalOpening : (blanks ++ keyword "SIGNAL" ++ blanks ++ keyword "(").known "    SIGNAL(".toList = some [[]]
  propSymbol : (Terminal.symbol.pattern.known "    PROP(".toList).bind List.head? = some "(".toList
  slotSymbol : (Terminal.symbol.pattern.known "    SLOT(".toList).bind List.head? = some "(".toList
  bracket : ((keyword "(").known "(".toList).bind List.head? = some []
  closingEnd : ((keyword ")").known ");\n".toList).bind List.head? = some ";\n".toList
  closings : ((keyword ")").known "));\n".toList).bind List.head? = some ");\n".toList
  podClosing : ((keyword ")").known ")\n".toList).bind List.head? = some "\n".toList
  bracketNoBlanks : (blanks.known "(".toList).bind List.head? = some "(".toList
  closingNoBlanks : (blanks.known ");\n".toList).bind List.head? = some ");\n".toList
  newlineNoBlanks : (blanks.known "\n".toList).bind List.head? = some "\n".toList
  classWord : ((keyword "class").known "class ".toList).bind List.head? = some " ".toList
  classNoIndent : (blanks.known "class ".toList).bind List.head? = some "class ".toList
  podWord : ((keyword "POD").known "POD ".toList).bind List.head? = some " ".toList
  podNoIndent : (blanks.known "POD ".toList).bind List.head? = some "POD ".toList

theorem fronts : Fronts := by
  constructor <;> decide +kernel

end Known

section Lines
variable {name rest w : QString}

theorem longest_newline (w : QString) : longest ("\n".toList ++ w) = some (.newline, ⟨w, []⟩) :=
  longest_of_alone [] (Fronts.newline fronts) rfl fun _ mem => absurd mem List.not_mem_nil

theorem longest_start (w : QString) : longest ("\x7b\n".toList ++ w) = some (.start, ⟨'\n' :: w, []⟩) :=
  longest_of_alone [] (Fronts.start fronts) rfl fun _ mem => absurd mem List.not_mem_nil

theorem longest_stop (w : QString) : longest ("\x7d\n".toList ++ w) = some (.stop, ⟨'\n' :: w, []⟩) :=
  longest_of_alone [] (Fronts.stop fronts) rfl fun _ mem => absurd mem List.not_mem_nil

theorem isSpace_of_isBlank {c : Char} (blank : isBlank c = true) : isSpace c = true := by
  rw [isBlank, Bool.or_eq_true, beq_iff_eq, beq_iff_eq] at blank
  rcases blank with rfl | rfl <;> rfl

theorem isBlank_of_isNamePart {c : Char} (part : isNamePart c = true) : isBlank c = false := by
  have space := ne_of_isNamePart part (d := ' ') (by decide)
  have tab := ne_of_isNamePart part (d := '\t') (by decide)
  rw [isBlank, beq_false_of_ne space, beq_false_of_ne tab]
  rfl

theorem takes_identifier {rest : QString} {captures : Captures} (identifier : isIdentifier name = true)
    (stop : ∀ c t, rest = c :: t → isNamePart c = false) : Repc.identifier.Takes ⟨name ++ rest, captures⟩ ⟨rest, captures⟩ := by
  cases name with
  | nil => exact absurd rfl (identifier_ne_nil identifier)
  | cons c name =>
    obtain ⟨start, parts⟩ := Bool.and_eq_true_iff.mp identifier
    exact takes_seq (takes_one start) (takes_many (List.all_eq_true.mp parts) stop)

theorem takes_longIdentifier {rest : QString} {captures : Captures} (identifier : isIdentifier name = true)
    (long : 2 ≤ name.length) (stop : ∀ c t, rest = c :: t → isNamePart c = false) :
    longIdentifier.Takes ⟨name ++ rest, captures⟩ ⟨rest, captures⟩ := by
  cases name with
  | nil => exact absurd rfl (identifier_ne_nil identifier)
  | cons c name =>
    obtain ⟨start, parts⟩ := Bool.and_eq_true_iff.mp identifier
    have more : name ≠ [] := by
      rintro rfl
      exact absurd long (Nat.lt_irrefl 1)
    exact takes_seq (takes_one start) (takes_oneOrMore more (List.all_eq_true.mp parts) stop)

/-- The name of a class is no attribute, since nothing stands behind it. -/
theorem attribute_fails {rest : QString} {captures : Captures} (parts : ∀ c ∈ name, isNamePart c = true)
    (stop : ∀ c t, rest = c :: t → isNamePart c = false ∧ isBlank c = false) :
    (Pattern.group Capture.attribute identifier ++ someBlanks).run ⟨name ++ rest, captures⟩ = [] := by
  refine run_seq_eq_nil fun k mem => run_seq_eq_nil_left (run_one_eq_nil fun c t is => ?_)
  obtain ⟨k, inner, rfl⟩ := mem_run_group.mp mem
  obtain ⟨l, first, others⟩ := mem_run_seq.mp inner
  obtain ⟨d, s, text, start, rfl⟩ := mem_run_one.mp first
  obtain ⟨left, reps, rfl⟩ := List.mem_map.mp others
  obtain ⟨read, rfl, all⟩ := repetitions_append reps
  have whole : name ++ rest = (d :: read) ++ c :: t := by
    rw [show name ++ rest = d :: (read ++ left) from text, show left = c :: t from is, List.cons_append]
  have isPart : ∀ e ∈ d :: read, isNamePart e = true := List.forall_mem_cons.mpr ⟨isNamePart_of_isNameStart start, all⟩
  rcases List.append_eq_append_iff.mp whole with ⟨more, same, behind⟩ | ⟨more, same, behind⟩
  · cases more with
    | nil => exact (stop c t behind).2
    | cons e more =>
      have part := isPart e (by rw [same]; exact List.mem_append_right name List.mem_cons_self)
      rw [(stop e _ behind).1] at part
      exact Bool.noConfusion part
  · cases more with
    | nil => exact (stop c t behind.symm).2
    | cons e more =>
      cases behind
      exact isBlank_of_isNamePart (parts c (by rw [same]; exact List.mem_append_right _ List.mem_cons_self))

theorem identifier_not_blank {rest : QString} (identifier : isIdentifier name = true) :
    ∀ c t, name ++ rest = c :: t → isBlank c = false := by
  intro c t is
  cases name with
  | nil => exact absurd rfl (identifier_ne_nil identifier)
  | cons d name =>
    cases is
    exact isBlank_of_isNamePart (isNamePart_of_mem identifier c List.mem_cons_self)

theorem takes_space {rest : QString} (stop : ∀ c t, rest = c :: t → isBlank c = false) (captures : Captures) :
    blanks.Takes ⟨' ' :: rest, captures⟩ ⟨rest, captures⟩ := by
  have one : (Pattern.many isBlank).Takes ⟨[' '] ++ rest, captures⟩ ⟨rest, captures⟩ := takes_many (by decide) stop
  exact one

theorem takes_upTo {stop : Char} {body : QString} (outside : stop ∉ body) (capture : Capture) (w : QString) (captures : Captures) :
    (Pattern.group capture (.many (· != stop))).Takes ⟨body ++ stop :: w, captures⟩ ⟨stop :: w, (capture, body) :: captures⟩ := by
  refine takes_group (takes_many (fun c mem => ?_) fun c t is => ?_)
  · exact bne_iff_ne.mpr fun is => outside (is ▸ mem)
  · cases is
    exact bne_self_eq_false stop

/-- The end of a member. -/
theorem takes_ending (w : QString) (captures : Captures) : ending.Takes ⟨";\n".toList ++ w, captures⟩ ⟨'\n' :: w, captures⟩ :=
  takes_of_known "\n".toList (Fronts.ending fronts) rfl _ _

theorem longest_prop {body : QString} (nonempty : body ≠ []) (closed : ')' ∉ body) (w : QString) :
    longest ("    PROP(".toList ++ (body ++ (");\n".toList ++ w))) = some (.prop, ⟨'\n' :: w, [(.args, body)]⟩) := by
  refine longest_of_alone [.symbol] (Fronts.prop fronts) ?_ ?_
  · have opening : (blanks ++ keyword "PROP" ++ blanks ++ keyword "(").Takes
        ⟨"    PROP(".toList ++ (body ++ (");\n".toList ++ w)), []⟩ ⟨body ++ (");\n".toList ++ w), []⟩ :=
      takes_of_known [] (Fronts.propOpening fronts) rfl _ _
    have args : (Pattern.group Capture.args (.oneOrMore (· != ')'))).Takes ⟨body ++ (");\n".toList ++ w), []⟩
        ⟨");\n".toList ++ w, [(.args, body)]⟩ := by
      refine takes_group (takes_oneOrMore nonempty (fun c mem => ?_) fun c t is => ?_)
      · exact bne_iff_ne.mpr fun is => closed (is ▸ mem)
      · cases is
        rfl
    have closing : (keyword ")").Takes ⟨");\n".toList ++ w, [(.args, body)]⟩ ⟨";\n".toList ++ w, [(.args, body)]⟩ :=
      takes_of_known ";\n".toList (Fronts.closingEnd fronts) rfl _ _
    exact match?_eq (takes_seq (takes_seq (takes_seq opening args) closing) (takes_ending w _))
  · intro other mem
    cases List.mem_singleton.mp mem
    refine loses_of_known "(".toList (Fronts.propSymbol fronts) ?_
    simp only [List.length_cons, List.length_append, show (");\n".toList).length = 3 from rfl, show ("(".toList).length = 1 from rfl]
    omega

/-- A keyword that begins nothing else is a symbol. -/
theorem takes_symbol {name : QString} (identifier : isIdentifier name = true) (w : QString) :
    Terminal.symbol.pattern.Takes ⟨"    ".toList ++ (name ++ '(' :: w), []⟩ ⟨'(' :: w, [(.symbol, name)]⟩ := by
  have indent : blanks.Takes ⟨"    ".toList ++ (name ++ '(' :: w), []⟩ ⟨name ++ '(' :: w, []⟩ :=
    takes_many (by decide) (identifier_not_blank identifier)
  have letters : Repc.identifier.Takes ⟨name ++ '(' :: w, []⟩ ⟨'(' :: w, []⟩ :=
    takes_identifier identifier fun c t is => by cases is; rfl
  have noBlanks : blanks.Takes ⟨'(' :: w, [(.symbol, name)]⟩ ⟨'(' :: w, [(.symbol, name)]⟩ :=
    takes_of_known (s := "(".toList) "(".toList (Fronts.bracketNoBlanks fronts) rfl _ _
  exact takes_seq (takes_seq indent (takes_group letters)) noBlanks

/-- Without a property there is no such member. -/
theorem longest_prop_empty (w : QString) :
    longest ("    PROP()".toList ++ w) = some (.symbol, ⟨"()".toList ++ w, [(.symbol, "PROP".toList)]⟩) :=
  longest_of_alone [] (Fronts.emptyProp fronts) (match?_eq (@takes_symbol "PROP".toList rfl (')' :: w)))
    fun _ mem => absurd mem List.not_mem_nil

/-- In front of the first bracket of a function there is a space within its type and its name. -/
theorem bracket_not_behind {type name word spaces v w : QString} (open_ : '(' ∉ type) (identifier : isIdentifier name = true)
    (noSpace : ∀ c ∈ word, isSpace c = false) (blank : ∀ c ∈ spaces, isBlank c = true) :
    type ++ ' ' :: (name ++ '(' :: w) ≠ word ++ (spaces ++ '(' :: v) := by
  intro same
  have parts := isNamePart_of_mem identifier
  obtain ⟨front, rfl, tail⟩ : ∃ front, type = word ++ front ∧ spaces ++ '(' :: v = front ++ ' ' :: (name ++ '(' :: w) := by
    rcases List.append_eq_append_iff.mp same with ⟨more, longer, behind⟩ | ⟨front, shorter, behind⟩
    · cases more with
      | nil => exact ⟨[], by rw [longer, List.append_nil, List.append_nil], behind.symm⟩
      | cons c more =>
        obtain ⟨rfl, -⟩ := List.cons.inj behind
        exact absurd (noSpace ' ' (by rw [longer]; exact List.mem_append_right _ List.mem_cons_self)) (by decide)
    · exact ⟨front, shorter, behind⟩
  rw [show front ++ ' ' :: (name ++ '(' :: w) = (front ++ ' ' :: name) ++ '(' :: w by simp] at tail
  have name_not_blank : ¬ ∀ c ∈ name, isBlank c = true := by
    intro all
    cases name with
    | nil => exact identifier_ne_nil identifier rfl
    | cons c name =>
      have other := all c List.mem_cons_self
      rw [isBlank_of_isNamePart (parts c List.mem_cons_self)] at other
      exact Bool.noConfusion other
  rcases List.append_eq_append_iff.mp tail with ⟨more, longer, behind⟩ | ⟨more, shorter, -⟩
  · cases more with
    | nil => exact name_not_blank fun c mem => blank c (by
        rw [List.append_nil] at longer
        rw [← longer]
        exact List.mem_append_right _ (List.mem_cons_of_mem _ mem))
    | cons c more =>
      cases behind
      have bracket : '(' ∈ front ++ ' ' :: name := by
        rw [longer]
        exact List.mem_append_right _ List.mem_cons_self
      rcases List.mem_append.mp bracket with mem | mem
      · exact open_ (List.mem_append_right _ mem)
      · rcases List.mem_cons.mp mem with is | mem
        · exact absurd is (by decide)
        · exact ne_of_isNamePart (parts _ mem) (by decide : isNamePart '(' = false) rfl
  · exact name_not_blank fun c mem => blank c (by
      rw [shorter]
      exact List.mem_append_left _ (List.mem_append_right _ (List.mem_cons_of_mem _ mem)))

/-- A return type keeps a signal from being one. -/
theorem signal_none {type name : QString} (visible : ∀ c t, type = c :: t → isSpace c = false) (nonempty : type ≠ [])
    (open_ : '(' ∉ type) (identifier : isIdentifier name = true) (w : QString) :
    Terminal.signal.pattern.match? ("    SIGNAL(".toList ++ (type ++ ' ' :: (name ++ '(' :: w))) = none := by
  have fails : (blanks ++ keyword "SIGNAL" ++ blanks ++ keyword "(" ++ blanks ++ Pattern.group Capture.name (.oneOrMore (!isSpace ·)) ++
      blanks ++ keyword "(").run ⟨"    SIGNAL(".toList ++ (type ++ ' ' :: (name ++ '(' :: w)), []⟩ = [] := by
    refine List.eq_nil_iff_forall_not_mem.mpr fun n mem => ?_
    obtain ⟨k, mem, bracket⟩ := mem_run_seq.mp mem
    obtain ⟨l, mem, spaces⟩ := mem_run_seq.mp mem
    obtain ⟨m, mem, word⟩ := mem_run_seq.mp mem
    obtain ⟨i, opening, indent⟩ := mem_run_seq.mp mem
    have start : i.rest = type ++ ' ' :: (name ++ '(' :: w) := by
      have left := List.mem_map_of_mem (f := (·.rest)) opening
      rw [run_known (Fronts.signalOpening fronts)] at left
      exact List.mem_singleton.mp left
    obtain ⟨indented, noIndent, blank⟩ := reads_many indent
    have none : indented = [] := by
      cases indented with
      | nil => rfl
      | cons c indented =>
        obtain ⟨d, rest, rfl⟩ := List.exists_cons_of_ne_nil nonempty
        obtain ⟨rfl, -⟩ := List.cons.inj (start.symm.trans noIndent)
        have space := isSpace_of_isBlank (blank d List.mem_cons_self)
        rw [visible d rest rfl] at space
        exact Bool.noConfusion space
    obtain ⟨j, inner, rfl⟩ := mem_run_group.mp word
    obtain ⟨j', first, others⟩ := mem_run_seq.mp inner
    obtain ⟨c, s, begins, accepted, rfl⟩ := mem_run_one.mp first
    obtain ⟨read, rfl, all⟩ := reads_many others
    obtain ⟨between_, behind, blank'⟩ := reads_many spaces
    obtain ⟨_, one, -⟩ := mem_run_seq.mp bracket
    obtain ⟨d, v, text, same, -⟩ := mem_run_one.mp one
    have text' : k.rest = '(' :: v := by
      rw [text, show d = '(' from beq_iff_eq.mp same]
    refine @bracket_not_behind type name (c :: read) between_ v w open_ identifier ?_ blank' ?_
    · exact List.forall_mem_cons.mpr ⟨by simpa using accepted, fun d mem => by simpa using all d mem⟩
    · rw [← start, noIndent, none, List.nil_append, begins, ← text', ← behind]
      rfl
  rw [Pattern.match?, Terminal.pattern]
  rw [run_seq_eq_nil_left (run_seq_eq_nil_left (run_seq_eq_nil_left (run_seq_eq_nil_left (run_seq_eq_nil_left fails))))]
  rfl

theorem longest_signal {type name : QString} (visible : ∀ c t, type = c :: t → isSpace c = false) (nonempty : type ≠ [])
    (open_ : '(' ∉ type) (identifier : isIdentifier name = true) (w : QString) :
    longest ("    SIGNAL(".toList ++ (type ++ ' ' :: (name ++ '(' :: w))) =
      some (.symbol, ⟨'(' :: (type ++ ' ' :: (name ++ '(' :: w)), [(.symbol, "SIGNAL".toList)]⟩) := by
  refine longest_of_alone [.signal] (Fronts.signal fronts) (match?_eq (@takes_symbol "SIGNAL".toList rfl _)) ?_
  intro other mem
  cases List.mem_singleton.mp mem
  exact .inl (signal_none visible nonempty open_ identifier w)

theorem longest_slot {head body : QString} (open_ : '(' ∉ head) (closed : ')' ∉ body) (w : QString) :
    longest ("    SLOT(".toList ++ (head ++ '(' :: (body ++ ("));\n".toList ++ w)))) =
      some (.slot, ⟨'\n' :: w, [(.args, body), (.type, head)]⟩) := by
  refine longest_of_alone [.symbol] (Fronts.slot fronts) ?_ ?_
  · have opening : (blanks ++ keyword "SLOT" ++ blanks ++ keyword "(").Takes
        ⟨"    SLOT(".toList ++ (head ++ '(' :: (body ++ ("));\n".toList ++ w))), []⟩
        ⟨head ++ '(' :: (body ++ ("));\n".toList ++ w)), []⟩ :=
      takes_of_known [] (Fronts.slotOpening fronts) rfl _ _
    have type : (Pattern.group Capture.type (.many (· != '('))).Takes ⟨head ++ '(' :: (body ++ ("));\n".toList ++ w)), []⟩
        ⟨'(' :: (body ++ ("));\n".toList ++ w)), [(.type, head)]⟩ := takes_upTo open_ .type _ _
    have bracket : (keyword "(").Takes ⟨'(' :: (body ++ ("));\n".toList ++ w)), [(.type, head)]⟩
        ⟨body ++ ("));\n".toList ++ w), [(.type, head)]⟩ :=
      takes_of_known (s := "(".toList) [] (Fronts.bracket fronts) rfl _ _
    have args := takes_upTo closed .args (");\n".toList ++ w) [(.type, head)]
    have closing : (keyword ")").Takes ⟨"));\n".toList ++ w, [(.args, body), (.type, head)]⟩
        ⟨");\n".toList ++ w, [(.args, body), (.type, head)]⟩ :=
      takes_of_known ");\n".toList (Fronts.closings fronts) rfl _ _
    have noBlanks : blanks.Takes ⟨");\n".toList ++ w, [(.args, body), (.type, head)]⟩
        ⟨");\n".toList ++ w, [(.args, body), (.type, head)]⟩ :=
      takes_of_known ");\n".toList (Fronts.closingNoBlanks fronts) rfl _ _
    have last : (keyword ")").Takes ⟨");\n".toList ++ w, [(.args, body), (.type, head)]⟩
        ⟨";\n".toList ++ w, [(.args, body), (.type, head)]⟩ :=
      takes_of_known ";\n".toList (Fronts.closingEnd fronts) rfl _ _
    exact match?_eq (takes_seq (takes_seq (takes_seq (takes_seq (takes_seq (takes_seq (takes_seq opening type) bracket) args)
      closing) noBlanks) last) (takes_ending w _))
  · intro other mem
    cases List.mem_singleton.mp mem
    refine loses_of_known "(".toList (Fronts.slotSymbol fronts) ?_
    simp only [List.length_cons, List.length_append, show ("));\n".toList).length = 4 from rfl, show ("(".toList).length = 1 from rfl]
    omega

/-- A class begins with its name. -/
theorem longest_cls (identifier : isIdentifier name = true) (long : 2 ≤ name.length) (w : QString) :
    longest ("class ".toList ++ (name ++ '\n' :: w)) = some (.cls, ⟨'\n' :: w, [(.name, name)]⟩) := by
  have parts := isNamePart_of_mem identifier
  have space := takes_space (@identifier_not_blank name ('\n' :: w) identifier)
  refine longest_of_alone [.symbol] (Fronts.cls fronts) ?_ ?_
  · have opening : (keyword "class").Takes ⟨"class ".toList ++ (name ++ '\n' :: w), []⟩ ⟨' ' :: (name ++ '\n' :: w), []⟩ :=
      takes_of_known " ".toList (Fronts.classWord fronts) rfl _ _
    have some : someBlanks.Takes ⟨[' '] ++ (name ++ '\n' :: w), []⟩ ⟨name ++ '\n' :: w, []⟩ :=
      takes_oneOrMore (by decide) (by decide) (identifier_not_blank identifier)
    have noAttribute : compilerAttribute.Takes ⟨name ++ '\n' :: w, []⟩ ⟨name ++ '\n' :: w, []⟩ :=
      takes_optional (attribute_fails parts fun c t is => by cases is; exact ⟨rfl, rfl⟩)
    have letters : longIdentifier.Takes ⟨name ++ '\n' :: w, []⟩ ⟨'\n' :: w, []⟩ :=
      takes_longIdentifier identifier long fun c t is => by cases is; rfl
    have noBlanks : blanks.Takes ⟨'\n' :: w, [(.name, name)]⟩ ⟨'\n' :: w, [(.name, name)]⟩ :=
      takes_of_known (s := "\n".toList) "\n".toList (Fronts.newlineNoBlanks fronts) rfl _ _
    exact match?_eq (takes_seq (takes_seq (takes_seq (takes_seq opening some) noAttribute) (takes_group letters)) noBlanks)
  · intro other mem
    cases List.mem_singleton.mp mem
    have noIndent : blanks.Takes ⟨"class ".toList ++ (name ++ '\n' :: w), []⟩ ⟨"class".toList ++ ' ' :: (name ++ '\n' :: w), []⟩ :=
      takes_of_known "class ".toList (Fronts.classNoIndent fronts) rfl _ _
    have letters : Repc.identifier.Takes ⟨"class".toList ++ ' ' :: (name ++ '\n' :: w), []⟩ ⟨' ' :: (name ++ '\n' :: w), []⟩ :=
      takes_identifier rfl fun c t is => by cases is; rfl
    refine .inr ⟨_, match?_eq (takes_seq (takes_seq noIndent (takes_group letters)) (space _)), ?_⟩
    have long_ : 0 < name.length := Nat.lt_of_lt_of_le (by decide) long
    simp only [List.length_append]
    omega

/-- A POD is read with its members. -/
theorem longest_pod {body : QString} (identifier : isIdentifier name = true) (long : 2 ≤ name.length) (closed : ')' ∉ body)
    (w : QString) : longest ("POD ".toList ++ (name ++ '(' :: (body ++ (")\n".toList ++ w)))) =
      some (.pod, ⟨'\n' :: w, [(.types, body), (.name, name)]⟩) := by
  have parts := isNamePart_of_mem identifier
  have bracket : ∀ c t, '(' :: (body ++ (")\n".toList ++ w)) = c :: t → isNamePart c = false ∧ isBlank c = false := by
    intro c t is
    cases is
    exact ⟨rfl, rfl⟩
  have opening : (keyword "POD").Takes ⟨"POD ".toList ++ (name ++ '(' :: (body ++ (")\n".toList ++ w))), []⟩
      ⟨' ' :: (name ++ '(' :: (body ++ (")\n".toList ++ w))), []⟩ :=
    takes_of_known " ".toList (Fronts.podWord fronts) rfl _ _
  have space := takes_space (@identifier_not_blank name ('(' :: (body ++ (")\n".toList ++ w))) identifier)
  have noAttribute : compilerAttribute.Takes ⟨name ++ '(' :: (body ++ (")\n".toList ++ w)), []⟩
      ⟨name ++ '(' :: (body ++ (")\n".toList ++ w)), []⟩ :=
    takes_optional (attribute_fails parts bracket)
  have letters : longIdentifier.Takes ⟨name ++ '(' :: (body ++ (")\n".toList ++ w)), []⟩ ⟨'(' :: (body ++ (")\n".toList ++ w)), []⟩ :=
    takes_longIdentifier identifier long fun c t is => (bracket c t is).1
  have front : (keyword "POD" ++ blanks ++ compilerAttribute ++ Pattern.group Capture.name longIdentifier).Takes
      ⟨"POD ".toList ++ (name ++ '(' :: (body ++ (")\n".toList ++ w))), []⟩
      ⟨'(' :: (body ++ (")\n".toList ++ w)), [(.name, name)]⟩ :=
    takes_seq (takes_seq (takes_seq opening (space _)) noAttribute) (takes_group letters)
  have noBlanks : blanks.Takes ⟨'(' :: (body ++ (")\n".toList ++ w)), [(.name, name)]⟩
      ⟨'(' :: (body ++ (")\n".toList ++ w)), [(.name, name)]⟩ :=
    takes_of_known (s := "(".toList) "(".toList (Fronts.bracketNoBlanks fronts) rfl _ _
  refine longest_of_alone [.pod2, .symbol] (Fronts.pod fronts) ?_ ?_
  · have open_ : (keyword "(").Takes ⟨'(' :: (body ++ (")\n".toList ++ w)), [(.name, name)]⟩
        ⟨body ++ (")\n".toList ++ w), [(.name, name)]⟩ :=
      takes_of_known (s := "(".toList) [] (Fronts.bracket fronts) rfl _ _
    have types : (Pattern.group Capture.types upToBracket).Takes ⟨body ++ (")\n".toList ++ w), [(.name, name)]⟩
        ⟨")\n".toList ++ w, [(.types, body), (.name, name)]⟩ := takes_upTo closed .types _ _
    have close : (keyword ")").Takes ⟨")\n".toList ++ w, [(.types, body), (.name, name)]⟩
        ⟨"\n".toList ++ w, [(.types, body), (.name, name)]⟩ :=
      takes_of_known "\n".toList (Fronts.podClosing fronts) rfl _ _
    have last : ending.Takes ⟨"\n".toList ++ w, [(.types, body), (.name, name)]⟩ ⟨'\n' :: w, [(.types, body), (.name, name)]⟩ :=
      takes_of_known "\n".toList (Fronts.podEnding fronts) rfl _ _
    exact match?_eq (takes_seq front (takes_seq (takes_seq (takes_seq (takes_seq noBlanks open_) types) close) last))
  · intro other mem
    rcases List.mem_cons.mp mem with rfl | mem
    · refine .inr ⟨_, match?_eq (takes_seq front noBlanks), ?_⟩
      simp only [List.length_cons, List.length_append, show (")\n".toList).length = 2 from rfl]
      omega
    · cases List.mem_singleton.mp mem
      have noIndent : blanks.Takes ⟨"POD ".toList ++ (name ++ '(' :: (body ++ (")\n".toList ++ w))), []⟩
          ⟨"POD".toList ++ ' ' :: (name ++ '(' :: (body ++ (")\n".toList ++ w))), []⟩ :=
        takes_of_known "POD ".toList (Fronts.podNoIndent fronts) rfl _ _
      have letters : Repc.identifier.Takes ⟨"POD".toList ++ ' ' :: (name ++ '(' :: (body ++ (")\n".toList ++ w))), []⟩
          ⟨' ' :: (name ++ '(' :: (body ++ (")\n".toList ++ w))), []⟩ :=
        takes_identifier rfl fun c t is => by cases is; rfl
      refine .inr ⟨_, match?_eq (takes_seq (takes_seq noIndent (takes_group letters)) (space _)), ?_⟩
      simp only [List.length_cons, List.length_append, show (")\n".toList).length = 2 from rfl]
      omega

/-- The characters with which an identifier begins. -/
def nameStarts : List Char := "ABCDEFGHIJKLMNOPQRSTUVWXYZ_abcdefghijklmnopqrstuvwxyz".toList

theorem mem_nameStarts {c : Char} (start : isNameStart c = true) : c ∈ nameStarts := by
  have all : ∀ n < 123, isNameStart (Char.ofNat n) = true → Char.ofNat n ∈ nameStarts := by decide +kernel
  have code := all c.toNat (Nat.lt_succ_of_le (toNat_of_isNamePart (isNamePart_of_isNameStart start)).2)
  rw [Char.ofNat_toNat] at code
  exact code start

theorem alone_letters : (∀ c ∈ nameStarts, Alone ("class".toList ++ [' ', c, '\n']) [.symbol]) ∧
    ∀ c ∈ nameStarts, Alone ("POD".toList ++ [' ', c, '(']) [.symbol] := by
  constructor <;> decide +kernel

/-- A single letter names no class. -/
theorem longest_letter {word : String} {c d : Char} (identifier : isIdentifier word.toList = true) (start : isNameStart c = true)
    (alone : ∀ c ∈ nameStarts, Alone (word.toList ++ [' ', c, d]) [.symbol]) (w : QString) :
    longest (word.toList ++ [' ', c, d] ++ w) = some (.symbol, ⟨c :: d :: w, [(.symbol, word.toList)]⟩) := by
  have noIndent : (Pattern.many isBlank).Takes ⟨[] ++ (word.toList ++ ' ' :: c :: d :: w), ([] : Captures)⟩
      ⟨word.toList ++ ' ' :: c :: d :: w, []⟩ :=
    takes_many (fun _ mem => absurd mem List.not_mem_nil) (identifier_not_blank identifier)
  have letters : Repc.identifier.Takes ⟨word.toList ++ ' ' :: c :: d :: w, []⟩ ⟨' ' :: c :: d :: w, []⟩ :=
    takes_identifier identifier fun c t is => by cases is; rfl
  have space := @takes_space (c :: d :: w) (fun e t is => by
    cases is
    exact isBlank_of_isNamePart (isNamePart_of_isNameStart start)) [(.symbol, word.toList)]
  refine longest_of_alone [] (alone c (mem_nameStarts start)) ?_ fun _ mem => absurd mem List.not_mem_nil
  rw [List.append_assoc]
  exact match?_eq (takes_seq (takes_seq noIndent (takes_group letters)) space)

end Lines

end RemoteObjects.Repc
