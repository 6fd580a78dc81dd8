import RemoteObjects.Repc.Declarations

/-! Spaces, line breaks and line comments between the parts of a declaration, and what the parser leaves of them. -/
namespace RemoteObjects.Repc

section Model

theorem blank_space : ' ' ∈ [' ', '\t', '\x0b', '\x0c'] := List.mem_cons_self

/-- What may stand between two parts. -/
inductive Spacing
  | space (c : Char) (blank : c ∈ [' ', '\t', '\x0b', '\x0c'])
  | lineBreak (carriageReturn : Bool)
  | comment (text : QString) (oneLine : '\n' ∉ text)

def Spacing.text : Spacing → QString
  | space c _ => [c]
  | lineBreak carriageReturn => if carriageReturn then ['\r', '\n'] else ['\n']
  | comment text _ => "//".toList ++ text ++ ['\n']

/-- What remains of it. -/
def Spacing.kept : Spacing → QString
  | space c _ => [c]
  | _ => []

abbrev Gap := List Spacing

def Gap.text (g : Gap) : QString := g.flatMap Spacing.text

def Gap.kept (g : Gap) : QString := g.flatMap Spacing.kept

/-- The rest of a type in so many templates. Within templates all characters but slashes may stand, and outside of them some. -/
def isBalanced (outside : Char → Bool) : Nat → QString → Bool
  | depth, [] => depth = 0
  | depth, c :: s =>
    if c = '<' then isBalanced outside (depth + 1) s
    else if c = '>' then 0 < depth && isBalanced outside (depth - 1) s
    else c ≠ '/' && (0 < depth || outside c) && isBalanced outside depth s

/-- What a type may be made of outside of templates. -/
def isTypePart (c : Char) : Bool := !QChar.isSpace c && c ≠ ',' && c ≠ '&'

end Model

section Strip
variable {c : Char} {s t text : QString}

theorem lines_ne_nil (s : QString) : lines s ≠ [] := by
  fun_induction lines s with
  | case1 | case2 | case3 => simp
  | case4 c s _ _ ih => cases is : lines s <;> simp_all

/-- What remains of a text behind a comment that begins in front of it. -/
def behindComment (s : QString) : QString := (lines s).tail.flatMap withoutComment

theorem stripArgs_nil : stripArgs [] = [] := rfl

theorem stripArgs_lineBreak (s : QString) : stripArgs ('\n' :: s) = stripArgs s := rfl

theorem stripArgs_carriageReturn (s : QString) : stripArgs ('\r' :: '\n' :: s) = stripArgs s := rfl

theorem lines_cons (line : c ≠ '\n') (carriageReturn : c = '\r' → s.head? ≠ some '\n') : lines (c :: s) = (lines s).modifyHead (c :: ·) := by
  rw [lines]
  · exact line
  · rintro t rfl rfl
    exact carriageReturn rfl rfl

/-- A line begins with what its text begins with. -/
theorem head_of_lines {first : QString} {others : List QString} (split : lines s = first :: others) (head : first.head? = some c) :
    s.head? = some c := by
  cases s with
  | nil =>
    obtain rfl : first = [] := (List.cons.inj split).1.symm
    cases head
  | cons d s =>
    by_cases line : d = '\n'
    · subst line
      obtain rfl : first = [] := (List.cons.inj split).1.symm
      cases head
    · by_cases carriageReturn : d = '\r' ∧ s.head? = some '\n'
      · obtain ⟨rfl, next⟩ := carriageReturn
        obtain ⟨t, rfl⟩ : ∃ t, s = '\n' :: t := by cases s <;> simp_all
        obtain rfl : first = [] := (List.cons.inj split).1.symm
        cases head
      · rw [lines_cons line (by tauto)] at split
        cases is : lines s with
        | nil => exact absurd is (lines_ne_nil s)
        | cons first' others' =>
          rw [is, List.modifyHead_cons] at split
          cases split
          exact head

/-- A character that begins neither a line break nor a comment remains. -/
theorem stripArgs_cons (line : c ≠ '\n') (carriageReturn : c = '\r' → s.head? ≠ some '\n') (slash : c = '/' → s.head? ≠ some '/') :
    stripArgs (c :: s) = c :: stripArgs s := by
  rw [stripArgs, stripArgs, lines_cons line carriageReturn]
  cases split : lines s with
  | nil => exact absurd split (lines_ne_nil s)
  | cons first others =>
    rw [List.modifyHead_cons, List.flatMap_cons, List.flatMap_cons, withoutComment]
    · rfl
    · rintro t rfl rfl
      exact slash rfl (head_of_lines split rfl)

theorem behindComment_cons (line : c ≠ '\n') : behindComment (c :: s) = behindComment s := by
  by_cases carriageReturn : c = '\r' ∧ s.head? = some '\n'
  · obtain ⟨rfl, next⟩ := carriageReturn
    obtain ⟨t, rfl⟩ : ∃ t, s = '\n' :: t := by cases s <;> simp_all
    rfl
  · rw [behindComment, lines_cons line (by tauto), behindComment]
    cases lines s <;> rfl

theorem stripArgs_comment (s : QString) : stripArgs ('/' :: '/' :: s) = behindComment s := by
  rw [stripArgs, behindComment, lines_cons (c := '/') (by decide) (by simp), lines_cons (c := '/') (by decide) (by simp)]
  cases split : lines s with
  | nil => exact absurd split (lines_ne_nil s)
  | cons first others => rfl

theorem behindComment_lineBreak (s : QString) : behindComment ('\n' :: s) = stripArgs s := rfl

theorem behindComment_append (oneLine : '\n' ∉ text) (s : QString) : behindComment (text ++ s) = behindComment s := by
  induction text with
  | nil => rfl
  | cons c text ih =>
    rw [List.mem_cons, not_or] at oneLine
    rw [List.cons_append, behindComment_cons (Ne.symm oneLine.1), ih oneLine.2]

/-- A text without line breaks and comments remains, unless its end belongs to a line break. -/
theorem stripArgs_line (plain : ∀ c ∈ text, c ≠ '\n' ∧ c ≠ '/') (ends : ∀ t, text ≠ t ++ ['\r']) (s : QString) :
    stripArgs (text ++ s) = text ++ stripArgs s := by
  induction text with
  | nil => rfl
  | cons c text ih =>
    rw [List.forall_mem_cons] at plain
    have rest := ih plain.2 fun t is => ends (c :: t) (by rw [is]; rfl)
    rw [List.cons_append, stripArgs_cons plain.1.1 (fun is => ?_) (fun is => absurd is plain.1.2), rest, List.cons_append]
    cases text with
    | nil => exact absurd (by rw [is]; rfl) (ends [])
    | cons d text =>
      rw [List.cons_append, List.head?_cons]
      exact fun same => (plain.2 d List.mem_cons_self).1 (Option.some.inj same)

theorem stripArgs_append (plain : ∀ c ∈ text, c ∉ ['\n', '\r', '/']) (s : QString) : stripArgs (text ++ s) = text ++ stripArgs s := by
  refine stripArgs_line (fun c mem => ⟨?_, ?_⟩) (fun t is => ?_) s
  · rintro rfl
    exact plain _ mem (by decide)
  · rintro rfl
    exact plain _ mem (by decide)
  · exact plain '\r' (by simp [is]) (by decide)

theorem newline_not_mem_lines (s : QString) : ∀ line ∈ lines s, '\n' ∉ line := by
  fun_induction lines s with
  | case1 => simp
  | case2 s ih | case3 s ih =>
    rw [List.forall_mem_cons]
    exact ⟨List.not_mem_nil, ih⟩
  | case4 c s line _ ih =>
    cases split : lines s with
    | nil => simp
    | cons first others =>
      rw [split, List.forall_mem_cons] at ih
      rw [List.modifyHead_cons, List.forall_mem_cons, List.mem_cons, not_or]
      exact ⟨⟨Ne.symm line, ih.1⟩, ih.2⟩

theorem withoutComment_sublist (line : QString) : (withoutComment line).Sublist line := by
  fun_induction withoutComment line with
  | case1 => exact List.Sublist.refl _
  | case2 => exact List.nil_sublist _
  | case3 c s _ ih => exact ih.cons_cons c

/-- Line breaks do not remain. -/
theorem newline_not_mem (s : QString) : '\n' ∉ stripArgs s := by
  intro mem
  obtain ⟨line, inside, mem⟩ := List.mem_flatMap.mp mem
  exact newline_not_mem_lines s line inside ((withoutComment_sublist line).subset mem)

theorem Spacing.space_plain (blank : c ∈ [' ', '\t', '\x0b', '\x0c']) : ∀ d ∈ (Spacing.space c blank).text, d ∉ ['\n', '\r', '/'] := by
  intro d mem
  obtain rfl : d = c := by simpa [Spacing.text] using mem
  have all : ∀ d ∈ [' ', '\t', '\x0b', '\x0c'], d ∉ ['\n', '\r', '/'] := by simp
  exact all d blank

/-- Of a gap its spaces remain, and they may be none. -/
theorem stripArgs_gap (g : Gap) (s : QString) : stripArgs (g.text ++ s) = g.kept ++ stripArgs s := by
  induction g with
  | nil => rfl
  | cons b g ih =>
    rw [Gap.text, Gap.kept, List.flatMap_cons, List.flatMap_cons, List.append_assoc, List.append_assoc]
    change stripArgs (b.text ++ (Gap.text g ++ s)) = b.kept ++ (Gap.kept g ++ stripArgs s)
    rw [← ih]
    cases b with
    | space c blank => exact stripArgs_append (Spacing.space_plain blank) _
    | lineBreak carriageReturn => cases carriageReturn <;> simp [Spacing.text, Spacing.kept, stripArgs_lineBreak, stripArgs_carriageReturn]
    | comment text oneLine =>
      rw [show (Spacing.comment text oneLine).text ++ (Gap.text g ++ s) = '/' :: '/' :: (text ++ '\n' :: (Gap.text g ++ s)) by
        simp [Spacing.text], stripArgs_comment, behindComment_append oneLine, behindComment_lineBreak]
      rfl

theorem kept_space (g : Gap) : ∀ c ∈ g.kept, c ∈ [' ', '\t', '\x0b', '\x0c'] := by
  intro c mem
  obtain ⟨b, -, mem⟩ := List.mem_flatMap.mp mem
  cases b with
  | space d blank =>
    obtain rfl : c = d := by simpa [Spacing.kept] using mem
    exact blank
  | lineBreak | comment => exact absurd mem List.not_mem_nil

theorem space_visible (space : c ∈ [' ', '\t', '\x0b', '\x0c']) : isSpace c = true ∧ QChar.isSpace c = true := by
  simp only [List.mem_cons, List.not_mem_nil, or_false] at space
  rcases space with rfl | rfl | rfl | rfl <;> decide

theorem kept_isQSpace (g : Gap) : ∀ c ∈ g.kept, QChar.isSpace c = true := fun c mem => (space_visible (kept_space g c mem)).2

end Strip

section Slashes
variable {c : Char} {s t text : QString}

/-- Wherever comments begin in front of a text, nothing with a slash remains of it. -/
structure NoSlash (s : QString) : Prop where
  outside : '/' ∉ stripArgs s
  inside : '/' ∉ behindComment s

theorem noSlash_nil : NoSlash [] := ⟨by simp [stripArgs_nil], by simp [behindComment, lines]⟩

theorem NoSlash.append (rest : NoSlash s) (text : QString) (plain : ∀ c ∈ text, c ∉ ['\n', '\r', '/']) : NoSlash (text ++ s) := by
  have line : '\n' ∉ text := fun mem => plain _ mem (by decide)
  have slash : '/' ∉ text := fun mem => plain _ mem (by decide)
  refine ⟨?_, ?_⟩
  · rw [stripArgs_append plain]
    simp [slash, rest.outside]
  · rw [behindComment_append line]
    exact rest.inside

theorem NoSlash.blank (rest : NoSlash s) (b : Spacing) : NoSlash (b.text ++ s) := by
  cases b with
  | space c blank => exact rest.append _ (Spacing.space_plain blank)
  | lineBreak carriageReturn =>
    have lineBreak : NoSlash ('\n' :: s) :=
      ⟨by rw [stripArgs_lineBreak]; exact rest.outside, by rw [behindComment_lineBreak]; exact rest.outside⟩
    cases carriageReturn with
    | false => exact lineBreak
    | true =>
      refine ⟨?_, ?_⟩
      · simpa [Spacing.text, stripArgs_carriageReturn] using rest.outside
      · simpa [Spacing.text, behindComment_cons, behindComment_lineBreak] using rest.outside
  | comment text oneLine =>
    have split : (Spacing.comment text oneLine).text ++ s = '/' :: '/' :: (text ++ '\n' :: s) := by simp [Spacing.text]
    have inside : behindComment (text ++ '\n' :: s) = stripArgs s := by rw [behindComment_append oneLine, behindComment_lineBreak]
    rw [split]
    refine ⟨?_, ?_⟩
    · rw [stripArgs_comment, inside]
      exact rest.outside
    · rw [behindComment_cons (by decide), behindComment_cons (by decide), inside]
      exact rest.outside

theorem NoSlash.gap (rest : NoSlash s) (g : Gap) : NoSlash (g.text ++ s) := by
  induction g with
  | nil => exact rest
  | cons b g ih => simpa [Gap.text] using ih.blank b

/-- A comment that begins within a text takes a slash of it. -/
theorem count_damaged (rest : NoSlash s) (oneLine : ∀ c ∈ text, c ∉ ['\n', '\r'])
    (begins : ∃ a b, text ++ s = a ++ '/' :: '/' :: b ∧ a.length < text.length) : (stripArgs (text ++ s)).count '/' < text.count '/' := by
  induction text with
  | nil =>
    obtain ⟨a, b, -, short⟩ := begins
    exact absurd short (Nat.not_lt_zero _)
  | cons c text ih =>
    rw [List.forall_mem_cons] at oneLine
    by_cases here : c = '/' ∧ (text ++ s).head? = some '/'
    · obtain ⟨rfl, next⟩ := here
      obtain ⟨t, is⟩ : ∃ t, text ++ s = '/' :: t := by cases whole : text ++ s <;> simp_all
      have line : '\n' ∉ text := fun mem => oneLine.2 _ mem (by simp)
      have none : '/' ∉ behindComment t := by
        rw [← behindComment_cons (c := '/') (by decide), ← is, behindComment_append line]
        exact rest.inside
      rw [List.cons_append, is, stripArgs_comment, List.count_eq_zero.mpr none]
      simp
    · simp only [List.mem_cons, List.not_mem_nil, or_false, not_or] at oneLine
      rw [List.cons_append, stripArgs_cons oneLine.1.1 (fun is => absurd is oneLine.1.2) (by tauto), List.count_cons, List.count_cons]
      refine Nat.add_lt_add_right (ih (by simpa using oneLine.2) ?_) _
      obtain ⟨a, b, split, short⟩ := begins
      cases a with
      | nil =>
        rw [List.cons_append, List.nil_append, List.cons.injEq] at split
        exact absurd ⟨split.1, by rw [split.2]; rfl⟩ here
      | cons d a =>
        rw [List.cons_append, List.cons_append, List.cons.injEq] at split
        exact ⟨a, b, split.2, Nat.lt_of_succ_lt_succ short⟩

theorem stripArgs_intact (oneLine : ∀ c ∈ text, c ∉ ['\n', '\r'])
    (begins : ¬ ∃ a b, text ++ s = a ++ '/' :: '/' :: b ∧ a.length < text.length) : stripArgs (text ++ s) = text ++ stripArgs s := by
  induction text with
  | nil => rfl
  | cons c text ih =>
    rw [List.forall_mem_cons] at oneLine
    have line := oneLine.1
    simp only [List.mem_cons, List.not_mem_nil, or_false, not_or] at line
    rw [List.cons_append, stripArgs_cons line.1 (fun is => absurd is line.2) fun is next => ?_, ih oneLine.2, List.cons_append]
    · rintro ⟨a, b, split, short⟩
      exact begins ⟨c :: a, b, by rw [List.cons_append, split]; rfl, Nat.succ_lt_succ short⟩
    · obtain ⟨t, whole⟩ : ∃ t, text ++ s = '/' :: t := by cases whole : text ++ s <;> simp_all
      exact begins ⟨[], t, by rw [is, List.cons_append, whole]; rfl, Nat.succ_pos _⟩

end Slashes

section Types
variable {s t acc : QString} {depth : Nat} {c : Char} {outside : Char → Bool}

theorem isBalanced_cons (balanced : isBalanced outside depth (c :: s) = true) :
    c = '<' ∧ isBalanced outside (depth + 1) s = true ∨ c = '>' ∧ 0 < depth ∧ isBalanced outside (depth - 1) s = true ∨
      c ≠ '<' ∧ c ≠ '>' ∧ c ≠ '/' ∧ (depth = 0 → outside c = true) ∧ isBalanced outside depth s = true := by
  rw [isBalanced] at balanced
  split at balanced
  case isTrue is => exact .inl ⟨is, balanced⟩
  case isFalse less =>
    split at balanced
    case isTrue is => exact .inr (.inl ⟨is, by simpa using balanced⟩)
    case isFalse greater =>
      simp only [Bool.and_eq_true, Bool.or_eq_true, decide_eq_true_eq] at balanced
      obtain ⟨⟨plain, inside⟩, rest⟩ := balanced
      exact .inr (.inr ⟨less, greater, plain, fun outer => inside.resolve_left (by omega), rest⟩)

theorem isBalanced_mem (balanced : isBalanced outside depth s = true) : '/' ∉ s := by
  induction s generalizing depth with
  | nil => exact List.not_mem_nil
  | cons c s ih =>
    rw [List.mem_cons, not_or]
    rcases isBalanced_cons balanced with ⟨rfl, rest⟩ | ⟨rfl, -, rest⟩ | ⟨-, -, plain, -, rest⟩
    · exact ⟨by decide, ih rest⟩
    · exact ⟨by decide, ih rest⟩
    · exact ⟨Ne.symm plain, ih rest⟩

/-- The last character of a type is outside of templates, or ends one. -/
theorem isBalanced_last (balanced : isBalanced outside depth (t ++ [c]) = true) : c = '>' ∨ outside c = true := by
  induction t generalizing depth with
  | nil =>
    rcases isBalanced_cons balanced with ⟨-, rest⟩ | ⟨is, -⟩ | ⟨-, -, -, outer, rest⟩
    · exact absurd (of_decide_eq_true rest) (Nat.succ_ne_zero depth)
    · exact .inl is
    · exact .inr (outer (of_decide_eq_true rest))
  | cons d t ih =>
    rcases isBalanced_cons balanced with ⟨-, rest⟩ | ⟨-, -, rest⟩ | ⟨-, -, -, -, rest⟩
    all_goals exact ih rest

variable (visible : ∀ c, outside c = true → QChar.isSpace c = false)
include visible

theorem stripArgs_type (balanced : isBalanced outside depth s = true) (oneLine : '\n' ∉ s) (t : QString) :
    stripArgs (s ++ t) = s ++ stripArgs t := by
  refine stripArgs_line (fun c mem => ⟨fun is => oneLine (is ▸ mem), fun is => isBalanced_mem balanced (is ▸ mem)⟩) (fun u is => ?_) t
  rw [is] at balanced
  rcases isBalanced_last balanced with is | outer
  · exact absurd is (by decide)
  · exact absurd (visible _ outer) (by decide)

/-- The scan of a type keeps the number of open templates. -/
theorem scanType_balanced (balanced : isBalanced outside depth s = true) (acc t : QString) :
    scanType (0 < depth) depth acc (s ++ t) = scanType false 0 (acc ++ s) t := by
  induction s generalizing depth acc with
  | nil =>
    cases of_decide_eq_true balanced
    rw [List.append_nil]
    rfl
  | cons c s ih =>
    rw [List.cons_append, scanType, List.append_cons acc c s]
    rcases isBalanced_cons balanced with ⟨is, rest⟩ | ⟨is, inside, rest⟩ | ⟨less, greater, -, outer, rest⟩
    · rw [if_pos is]
      exact ih rest _
    · obtain ⟨depth, rfl⟩ := Nat.exists_eq_succ_of_ne_zero inside.ne'
      rw [if_neg (by rw [is]; decide), if_pos is, ← ih rest]
      congr 1
      · rw [decide_eq_true inside, Bool.true_and]
        exact decide_eq_decide.mpr (by omega)
      · simp
    · have skip : ¬ (QChar.isSpace c && !decide (0 < depth)) = true := by
        rw [Bool.and_eq_true, Bool.not_eq_true', decide_eq_false_iff_not]
        rintro ⟨space, outermost⟩
        rw [visible c (outer (by omega))] at space
        exact Bool.noConfusion space
      rw [if_neg less, if_neg greater, if_neg skip]
      exact ih rest _

end Types

section Scan
variable {s acc type rest : QString} {inTemplate : Bool} {templateDepth : Int}

/-- What was read of a type stays. -/
theorem prefix_of_scanType (found : scanType inTemplate templateDepth acc s = some (type, rest)) : acc <+: type := by
  fun_induction scanType inTemplate templateDepth acc s with
  | case1 => cases found
  | case2 | case3 | case5 =>
    rename_i ih
    exact (List.prefix_append _ _).trans (ih found)
  | case4 =>
    cases found
    exact List.prefix_rfl

/-- The type and the rest are all of the text. -/
theorem scanType_append (found : scanType inTemplate templateDepth acc s = some (type, rest)) : acc ++ s = type ++ rest := by
  fun_induction scanType inTemplate templateDepth acc s with
  | case1 => cases found
  | case2 | case3 | case5 =>
    rename_i ih
    simpa using ih found
  | case4 =>
    cases found
    rfl

end Scan

section Arguments
variable {s : TypeParser} {text : QString} {depth : Nat} {c : Char}

theorem isTypePart_cases (part : isTypePart c = true) : QChar.isSpace c = false ∧ c ≠ ',' ∧ c ≠ '&' := by
  simpa [isTypePart, and_assoc] using part

theorem visible_of_isTypePart (part : isTypePart c = true) : QChar.isSpace c = false := (isTypePart_cases part).1

/-- A type without references within it is read whole, and its templates are closed. -/
theorem foldl_read_balanced (balanced : isBalanced isTypePart depth text = true) (plain : '&' ∉ text)
    (templates : s.inTemplate = decide (0 < depth)) (open_ : s.templateDepth = depth) (reading : s.inVariable = false) :
    text.foldl TypeParser.read s = { s with propertyType := s.propertyType ++ text, inTemplate := false, templateDepth := 0 } := by
  induction text generalizing depth s with
  | nil =>
    cases of_decide_eq_true balanced
    obtain ⟨arguments, templateDepth, inTemplate⟩ := s
    cases templates
    cases open_
    simp
  | cons c text ih =>
    rw [List.mem_cons, not_or] at plain
    rw [List.foldl_cons]
    rcases isBalanced_cons balanced with ⟨is, rest⟩ | ⟨is, inside, rest⟩ | ⟨less, greater, -, outer, rest⟩
    · rw [TypeParser.read, if_pos is, ih rest plain.2]
      · simp
      · exact (decide_eq_true (Nat.succ_pos depth)).symm
      · simp [open_]
      · exact reading
    · rw [TypeParser.read, if_neg (by rw [is]; decide), if_pos is, ih rest plain.2]
      · simp
      · rw [templates, open_, decide_eq_true inside, Bool.true_and]
        exact decide_eq_decide.mpr (by omega)
      · simp only [open_]
        omega
      · exact reading
    · have step : s.read c = { s with propertyType := s.propertyType ++ [c] } := by
        rw [TypeParser.read, if_neg less, if_neg greater, if_neg (Ne.symm plain.1), templates, reading]
        by_cases inside : 0 < depth
        · simp only [inside, decide_true, if_true]
          split
          · rfl
          · split <;> rfl
        · obtain ⟨visible, comma, -⟩ := isTypePart_cases (outer (by omega))
          rw [if_neg (by rw [visible]; exact Bool.false_ne_true), if_neg comma]
          rfl
      rw [step, ih rest plain.2]
      · simp
      · exact templates
      · exact open_
      · exact reading

end Arguments
end RemoteObjects.Repc
