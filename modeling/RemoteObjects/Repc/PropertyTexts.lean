import Mathlib.Data.List.Permutation
import RemoteObjects.Repc.Parser
import RemoteObjects.Repc.PlainTexts
import RemoteObjects.Repc.SignatureReferences

/-! Properties as they are written in `.rep` files, with spaces, line breaks and comments between their parts, and what the parser
reads of them. -/
namespace RemoteObjects.Repc

section Model

inductive PropertyFlag
  | access (modifier : ASTProperty.Modifier)
  | persisted
deriving DecidableEq

open ASTProperty in
def PropertyFlag.text : PropertyFlag → QString
  | access .constant => "CONSTANT".toList
  | access .readOnly => "READONLY".toList
  | access .readPush => "READPUSH".toList
  | access .readWrite => "READWRITE".toList
  | access .sourceOnlySetter => "SOURCEONLYSETTER".toList
  | persisted => "PERSISTED".toList

/-- The access flags of a list. -/
def accesses (flags : List PropertyFlag) : List PropertyFlag := flags.filter (· ≠ .persisted)

/-- At most one access flag, or `READONLY` with `CONSTANT`; and `PERSISTED` at most once. -/
structure Legal (flags : List PropertyFlag) : Prop where
  access : (accesses flags).length ≤ 1 ∨ (accesses flags).Perm [.access .readOnly, .access .constant]
  persisted : flags.count .persisted ≤ 1

/-- The access mode that flags denote, and whether the property is persisted. -/
def denoted (flags : List PropertyFlag) : ASTProperty.Modifier × Bool :=
  (match accesses flags with
    | [] => .readPush
    | [.access modifier] => modifier
    | _ => .constant, .persisted ∈ flags)

/-- A string between quotes, in one line. -/
def IsQuoted (value : QString) : Prop := ∃ s, value = '"' :: s ++ ['"'] ∧ ∀ c ∈ s, c ∉ ['\n', '\r']

/-- An expression without spaces and quotes. -/
def IsExpression (value : QString) : Prop := value ≠ [] ∧ ∀ c ∈ value, QChar.isSpace c = false ∧ c ≠ '"'

/-- `= value`, with what stands before the sign and behind it. -/
structure DefaultText where
  before : Gap
  behind : Gap
  value : QString
  isDefault : IsQuoted value ∨ IsExpression value

/-- Flags with what stands in front of them, before and behind each comma. -/
structure FlagsText where
  before : Gap
  first : PropertyFlag
  others : List (Gap × Gap × PropertyFlag)
  legal : Legal (first :: others.map fun other => other.2.2)

structure PropertyText where
  front : Gap
  type : QString
  isType : type ≠ [] ∧ isBalanced (fun c => !QChar.isSpace c) 0 type = true
  behindType : Gap
  name : QString
  isName : isIdentifier name = true
  default : Option DefaultText
  flags : Option FlagsText
  back : Gap

def DefaultText.text (d : DefaultText) : QString := d.before.text ++ '=' :: (d.behind.text ++ d.value)

/-- A comma and a flag. -/
def otherText (other : Gap × Gap × PropertyFlag) : QString := other.1.text ++ ',' :: (other.2.1.text ++ other.2.2.text)

def FlagsText.words (f : FlagsText) : QString := f.first.text ++ f.others.flatMap otherText

def FlagsText.text (f : FlagsText) : QString := f.before.text ++ f.words

def FlagsText.flags (f : FlagsText) : List PropertyFlag := f.first :: f.others.map fun other => other.2.2

namespace PropertyText

/-- What follows the name or the default value. -/
def rest (p : PropertyText) : QString := (p.flags.map FlagsText.text).getD [] ++ p.back.text

def text (p : PropertyText) : QString :=
  p.front.text ++ (p.type ++ (p.behindType.text ++ (p.name ++ ((p.default.map DefaultText.text).getD [] ++ p.rest))))

def property (p : PropertyText) : ASTProperty where
  type := p.type
  name := p.name
  defaultValue := (p.default.map DefaultText.value).getD []
  modifier := (denoted ((p.flags.map FlagsText.flags).getD [])).1
  persisted := (denoted ((p.flags.map FlagsText.flags).getD [])).2

end PropertyText

end Model

section Statement

/-- The flags that are behind the first space among flags, which has to follow a comma; without any space there are none. -/
def behindFirstSpace : List (Gap × Gap × PropertyFlag) → Option (List PropertyFlag)
  | [] => some []
  | (before, behind, flag) :: others =>
    if before.kept ≠ [] then none
    else if behind.kept ≠ [] then some (flag :: others.map fun other => other.2.2)
    else behindFirstSpace others

/-- A space stands in front of the flags; behind a quoted value it may be missing, where the flags up to the first space say nothing. -/
def FlagsText.Separate (f : FlagsText) (default : Option DefaultText) : Prop :=
  f.before.kept ≠ [] ∨ (∃ d ∈ default, IsQuoted d.value) ∧ (behindFirstSpace f.others).map denoted = some (denoted f.flags)

/-- Spaces other than line breaks and comments stand where they are needed, no line ends within the type, and no comment begins within
the default value. -/
structure PropertyText.Fits (p : PropertyText) : Prop where
  type : '\n' ∉ p.type
  behindType : p.behindType.kept ≠ []
  flags : ∀ f ∈ p.flags, f.Separate p.default
  default : ∀ d ∈ p.default, ¬ ∃ a b, d.value ++ p.rest = a ++ '/' :: '/' :: b ∧ a.length < d.value.length

end Statement

section Kept

def otherKept (other : Gap × Gap × PropertyFlag) : QString := other.1.kept ++ ',' :: (other.2.1.kept ++ other.2.2.text)

/-- What remains of flags without comments and line breaks. -/
def wordsKept (first : PropertyFlag) (others : List (Gap × Gap × PropertyFlag)) : QString := first.text ++ others.flatMap otherKept

variable {first flag : PropertyFlag} {others : List (Gap × Gap × PropertyFlag)} {s : QString} {c : Char} {g : Gap}

theorem flag_part (flag : PropertyFlag) : ∀ c ∈ flag.text, isNamePart c = true := by
  rcases flag with (_ | _ | _ | _ | _) | _ <;> decide

theorem flag_ne_nil (flag : PropertyFlag) : flag.text ≠ [] := by
  rcases flag with (_ | _ | _ | _ | _) | _ <;> decide

theorem stripArgs_words (first : PropertyFlag) (others : List (Gap × Gap × PropertyFlag)) (s : QString) :
    stripArgs (first.text ++ (others.flatMap otherText ++ s)) = wordsKept first others ++ stripArgs s := by
  have stripped : stripArgs (others.flatMap otherText ++ s) = others.flatMap otherKept ++ stripArgs s := by
    induction others with
    | nil => rfl
    | cons other others ih =>
      have comma : stripArgs (',' :: (other.2.1.text ++ (other.2.2.text ++ (others.flatMap otherText ++ s)))) =
          ',' :: stripArgs (other.2.1.text ++ (other.2.2.text ++ (others.flatMap otherText ++ s))) :=
        stripArgs_cons (by decide) (by simp) (by simp)
      simp [otherText, otherKept, stripArgs_gap, comma, stripArgs_append fun c mem => plain_of_part (flag_part other.2.2 c mem), ih]
  rw [stripArgs_append fun c mem => plain_of_part (flag_part first c mem), stripped, wordsKept, List.append_assoc]

theorem noSlash_words (rest : NoSlash s) (first : PropertyFlag) (others : List (Gap × Gap × PropertyFlag)) :
    NoSlash (first.text ++ (others.flatMap otherText ++ s)) := by
  refine NoSlash.append ?_ _ fun c mem => plain_of_part (flag_part first c mem)
  induction others with
  | nil => exact rest
  | cons other others ih =>
    have flags := (ih.append other.2.2.text fun c mem => plain_of_part (flag_part other.2.2 c mem)).gap other.2.1
    have comma := (flags.append [','] (by decide)).gap other.1
    simpa [otherText] using comma

/-- The characters of flags. -/
def IsFlagChar (c : Char) : Prop := isNamePart c = true ∨ c = ',' ∨ c ∈ [' ', '\t', '\x0b', '\x0c']

theorem words_chars (first : PropertyFlag) (others : List (Gap × Gap × PropertyFlag)) : ∀ c ∈ wordsKept first others, IsFlagChar c := by
  intro c mem
  simp only [wordsKept, otherKept, List.mem_append, List.mem_flatMap, List.mem_cons] at mem
  rcases mem with mem | ⟨other, -, mem | rfl | mem | mem⟩
  · exact .inl (flag_part first c mem)
  · exact .inr (.inr (kept_space other.1 c mem))
  · exact .inr (.inl rfl)
  · exact .inr (.inr (kept_space other.2.1 c mem))
  · exact .inl (flag_part other.2.2 c mem)

theorem IsFlagChar.ne (flag : IsFlagChar c) {d : Char} (bad : d ∈ ['"', '=', '<', '>', '/', '\n', '\r']) : c ≠ d := by
  rintro rfl
  rcases flag with part | rfl | space
  · have not : ∀ d ∈ ['"', '=', '<', '>', '/', '\n', '\r'], isNamePart d = false := by decide
    exact Bool.noConfusion (part.symm.trans (not c bad))
  · exact absurd bad (by decide)
  · have not : ∀ d ∈ [' ', '\t', '\x0b', '\x0c'], d ∉ ['"', '=', '<', '>', '/', '\n', '\r'] := by decide
    exact not c space bad

/-- Among the characters of flags the two kinds of spaces are the same. -/
theorem IsFlagChar.visible (flag : IsFlagChar c) (visible : isSpace c = false) : QChar.isSpace c = false := by
  rcases flag with part | rfl | space
  · exact isSpace_of_isNamePart part
  · decide
  · exact Bool.noConfusion ((space_visible space).1.symm.trans visible)

end Kept

section Ends
variable {s t u : QString}

/-- A text that begins and ends with a character other than a space. -/
structure Solid (s : QString) : Prop where
  nonempty : s ≠ []
  front : ∀ c t, s = c :: t → QChar.isSpace c = false
  back : ∀ t c, s = t ++ [c] → QChar.isSpace c = false

theorem Solid.trimmed (solid : Solid s) : trimmed s = s := trimmed_eq_self solid.front solid.back

theorem solid_of_visible (nonempty : s ≠ []) (visible : ∀ c ∈ s, QChar.isSpace c = false) : Solid s :=
  ⟨nonempty, fun c t is => visible c (by simp [is]), fun t c is => visible c (by simp [is])⟩

theorem solid_append (nonempty : s ≠ []) (front : ∀ c t, s = c :: t → QChar.isSpace c = false) (second : Solid t) (u : QString) :
    Solid (s ++ (u ++ t)) := by
  refine ⟨by simp [nonempty], fun c r is => ?_, fun r c is => ?_⟩
  · cases s with
    | nil => exact absurd rfl nonempty
    | cons d s =>
      cases is
      exact front c s rfl
  · cases t using List.reverseRecOn with
    | nil => exact absurd rfl second.nonempty
    | append_singleton t d =>
      rw [← List.append_assoc, ← List.append_assoc] at is
      obtain ⟨-, same⟩ := List.append_inj' is rfl
      cases same
      exact second.back t c rfl

theorem Solid.append (first : Solid s) (second : Solid t) (u : QString) : Solid (s ++ (u ++ t)) :=
  solid_append first.nonempty first.front second u

/-- Between spaces and another text a solid one stays. -/
theorem trimmed_solid (front : ∀ c ∈ s, QChar.isSpace c = true) (solid : Solid t) (u : QString) :
    trimmed (s ++ (t ++ u)) = t ++ u.rdropWhile QChar.isSpace := by
  have first : (s ++ (t ++ u)).dropWhile QChar.isSpace = t ++ u := by
    rw [List.dropWhile_append_of_pos front]
    cases t with
    | nil => exact absurd rfl solid.nonempty
    | cons c t => exact List.dropWhile_cons_of_neg (by rw [solid.front c t rfl]; exact Bool.false_ne_true)
  have kept : t.reverse.dropWhile QChar.isSpace = t.reverse := by
    cases t using List.reverseRecOn with
    | nil => rfl
    | append_singleton t c =>
      rw [List.reverse_append, List.reverse_singleton, List.singleton_append, List.dropWhile_cons_of_neg]
      rw [solid.back t c rfl]
      exact Bool.false_ne_true
  rw [trimmed, first, List.rdropWhile, List.reverse_append, List.dropWhile_append, kept, List.rdropWhile]
  cases u.reverse.dropWhile QChar.isSpace <;> simp

theorem trimmed_spaces (front : ∀ c ∈ s, QChar.isSpace c = true) (back : ∀ c ∈ u, QChar.isSpace c = true) (solid : Solid t) :
    trimmed (s ++ (t ++ u)) = t := by
  rw [trimmed_solid front solid, List.rdropWhile_eq_nil_iff.mpr back, List.append_nil]

theorem solid_flag (flag : PropertyFlag) : Solid flag.text :=
  solid_of_visible (flag_ne_nil flag) fun c mem => isSpace_of_isNamePart (flag_part flag c mem)

theorem solid_words (first : PropertyFlag) (others : List (Gap × Gap × PropertyFlag)) : Solid (wordsKept first others) := by
  induction others using List.reverseRecOn with
  | nil => simpa [wordsKept] using solid_flag first
  | append_singleton others other _ =>
    have ends := (solid_flag first).append (solid_flag other.2.2) (others.flatMap otherKept ++ (other.1.kept ++ ',' :: other.2.1.kept))
    simpa [wordsKept, otherKept] using ends

end Ends

section Flags
variable {first flag : PropertyFlag} {flags : List PropertyFlag} {others : List (Gap × Gap × PropertyFlag)} {a s t x : QString}

theorem flagsFrom_cons {b : Bool} {rest : List QString} (more : rest ≠ []) :
    flagsFrom b (s :: rest) = (if b then s else s.dropWhile isSpace).rdropWhile isSpace :: flagsFrom false rest := by
  cases rest with
  | nil => exact absurd rfl more
  | cons _ _ => rfl

theorem rdropWhile_spaces {kept : QString} (spaces : ∀ c ∈ kept, isSpace c = true) (ends : ∀ t c, s = t ++ [c] → isSpace c = false) :
    (s ++ kept).rdropWhile isSpace = s := by
  rw [List.rdropWhile, List.reverse_append, List.dropWhile_append_of_pos fun c mem => spaces c (List.mem_reverse.mp mem)]
  cases s using List.reverseRecOn with
  | nil => rfl
  | append_singleton t c =>
    rw [List.reverse_append, List.reverse_singleton, List.singleton_append, List.dropWhile_cons_of_neg]
    · simp
    · rw [ends t c rfl]
      exact Bool.false_ne_true

theorem flag_not_isSpace (flag : PropertyFlag) : ∀ c ∈ flag.text, isSpace c = false :=
  fun c mem => isSpace_of_part (flag_part flag c mem)

theorem kept_isSpace (g : Gap) : ∀ c ∈ g.kept, isSpace c = true := fun c mem => (space_visible (kept_space g c mem)).1

theorem comma_not_mem_kept (g : Gap) : ',' ∉ g.kept := fun mem => absurd (kept_space g _ mem) (by decide)

theorem comma_not_mem_flag (flag : PropertyFlag) : ',' ∉ flag.text := fun mem => absurd (flag_part flag _ mem) (by decide)

theorem flag_begins {b : Bool} (front : ∀ c ∈ a, isSpace c = true) (whole : b = true → a = []) (flag : PropertyFlag) (kept : QString) :
    (if b then a ++ (flag.text ++ kept) else (a ++ (flag.text ++ kept)).dropWhile isSpace) = flag.text ++ kept := by
  cases b with
  | true => simp [whole rfl]
  | false =>
    rw [if_neg Bool.false_ne_true, List.dropWhile_append_of_pos front]
    have visible := flag_not_isSpace flag
    cases is : flag.text with
    | nil => exact absurd is (flag_ne_nil flag)
    | cons c s =>
      rw [is, List.forall_mem_cons] at visible
      exact List.dropWhile_cons_of_neg (by rw [visible.1]; exact Bool.false_ne_true)

/-- The flags are the words between the commas. -/
theorem flagsFrom_words {b : Bool} (front : ∀ c ∈ a, isSpace c = true) (comma : ',' ∉ a) (whole : b = true → a = []) (first : PropertyFlag)
    (others : List (Gap × Gap × PropertyFlag)) :
    flagsFrom b ((a ++ wordsKept first others).splitOn ',') = first.text :: others.map fun other => other.2.2.text := by
  induction others generalizing a b first with
  | nil =>
    have one : (a ++ wordsKept first []).splitOn ',' = [a ++ (first.text ++ [])] := by
      rw [show a ++ wordsKept first [] = a ++ (first.text ++ []) by simp [wordsKept]]
      exact List.splitOn_eq_singleton (by simp [comma, comma_not_mem_flag])
    rw [one, flagsFrom, flag_begins front whole]
    simp
  | cons other others ih =>
    have split : a ++ wordsKept first (other :: others) =
        (a ++ (first.text ++ other.1.kept)) ++ ',' :: (other.2.1.kept ++ wordsKept other.2.2 others) := by
      simp [wordsKept, otherKept]
    rw [split, List.splitOn_append_cons_self_of_not_mem (by simp [comma, comma_not_mem_flag, comma_not_mem_kept]),
      flagsFrom_cons (List.splitOn_ne_nil _ _), flag_begins front whole,
      rdropWhile_spaces (kept_isSpace other.1) fun t c is => flag_not_isSpace first c (by simp [is]),
      ih (b := false) (kept_isSpace _) (comma_not_mem_kept _) (by simp), List.map_cons]

theorem modifierFlags_words (first : PropertyFlag) (others : List (Gap × Gap × PropertyFlag)) :
    modifierFlags (wordsKept first others) = (first :: others.map fun other => other.2.2).map PropertyFlag.text := by
  have words := flagsFrom_words (a := []) (b := true) nofun nofun (fun _ => rfl) first others
  simpa [modifierFlags, Function.comp_def] using words

theorem text_eq_persisted : flag.text = "PERSISTED".toList ↔ flag = .persisted := by
  rcases flag with (_ | _ | _ | _ | _) | _ <;> decide

theorem filter_texts (flags : List PropertyFlag) :
    (flags.map PropertyFlag.text).filter (· ≠ "PERSISTED".toList) = (accesses flags).map PropertyFlag.text := by
  rw [accesses, List.filter_map]
  congr 1
  refine List.filter_congr fun flag _ => ?_
  simp only [Function.comp, ne_eq, text_eq_persisted]

theorem persisted_mem_texts : "PERSISTED".toList ∈ flags.map PropertyFlag.text ↔ PropertyFlag.persisted ∈ flags := by
  simp only [List.mem_map, text_eq_persisted, exists_eq_right]

theorem Legal.suffix (legal : Legal flags) {back : List PropertyFlag} (suffix : back <:+ flags) : Legal back := by
  refine ⟨?_, (suffix.sublist.count_le _).trans legal.persisted⟩
  have sub : (accesses back) <:+ (accesses flags) := suffix.filter _
  rcases legal.access with short | both
  · exact .inl (sub.length_le.trans short)
  · rcases Nat.lt_or_ge (accesses back).length 2 with less | two
    · exact .inl (by omega)
    · have length : (accesses flags).length = 2 := both.length_eq
      rw [sub.eq_of_length (by have := sub.length_le; omega)]
      exact .inr both

/-- What the parser makes of legal flags is what they denote. -/
theorem parseModifierFlag_legal (legal : Legal flags) (texts : modifierFlags s = flags.map PropertyFlag.text) :
    parseModifierFlag s .readPush = .ok (denoted flags) := by
  simp only [parseModifierFlag, texts, filter_texts, persisted_mem_texts, denoted]
  rcases legal.access with short | both
  · cases is : accesses flags with
    | nil => rfl
    | cons flag more =>
      rw [is, List.length_cons] at short
      obtain rfl : more = [] := List.eq_nil_of_length_eq_zero (by omega)
      have access : flag ∈ accesses flags := by simp [is]
      cases flag with
      | persisted => simp [accesses] at access
      | access modifier => cases modifier <;> rfl
  · rcases List.perm_pair.mp both with is | is <;> rw [is] <;> rfl

theorem parseModifierFlag_empty (empty : [] ∈ modifierFlags s) (r : ASTProperty.Modifier × Bool) : parseModifierFlag s .readPush ≠ .ok r := by
  have mem : [] ∈ (modifierFlags s).filter (· ≠ "PERSISTED".toList) := List.mem_filter.mpr ⟨empty, by decide⟩
  rw [parseModifierFlag]
  generalize (modifierFlags s).filter (· ≠ "PERSISTED".toList) = flags at mem
  cases flags with
  | nil => exact absurd mem List.not_mem_nil
  | cons f flags =>
    cases flags with
    | nil =>
      obtain rfl : [] = f := by simpa using mem
      simp
    | cons g flags =>
      simp only
      split
      case isTrue both =>
        obtain ⟨two, readOnly, constant⟩ := both
        obtain rfl : flags = [] := List.eq_nil_of_length_eq_zero (by simpa using two)
        simp only [List.mem_cons, List.not_mem_nil, or_false] at mem readOnly constant
        rcases mem with rfl | rfl
        · obtain rfl := readOnly.resolve_left (by decide)
          exact absurd constant (by decide)
        · obtain rfl := readOnly.resolve_right (by decide)
          exact absurd constant (by decide)
      case isFalse => nofun

variable {before : Gap}

theorem behindSpace_append (visible : ∀ c ∈ x, isSpace c = false) (s : QString) : behindSpace (x ++ s) = behindSpace s := by
  rw [behindSpace, List.dropWhile_append_of_pos (fun c mem => by rw [visible c mem]; rfl), behindSpace]

theorem behindSpace_kept (spaced : before.kept ≠ []) (s : QString) : behindSpace (before.kept ++ s) = some (before.kept.tail ++ s) := by
  have spaces := kept_isSpace before
  cases is : before.kept with
  | nil => exact absurd is spaced
  | cons c kept =>
    rw [is, List.forall_mem_cons] at spaces
    rw [behindSpace, List.cons_append, List.dropWhile_cons_of_neg (by rw [spaces.1]; decide)]
    rfl

theorem trimmed_kept (solid : Solid s) : trimmed (before.kept.tail ++ s) = s := by
  have spaces : ∀ c ∈ before.kept.tail, QChar.isSpace c = true := fun c mem => (space_visible (kept_space before c (List.mem_of_mem_tail mem))).2
  simpa using trimmed_spaces spaces (u := []) nofun solid

theorem propertyFlags_visible (visible : ∀ c ∈ x, isSpace c = false) : propertyFlags x = .ok (.readPush, false) := by
  have last : behindSpace (x ++ []) = none := by rw [behindSpace_append visible]; rfl
  rw [List.append_nil] at last
  simp only [propertyFlags, last]

/-- Behind a space the flags are read. -/
theorem propertyFlags_spaced (visible : ∀ c ∈ x, isSpace c = false) (spaced : before.kept ≠ [])
    (legal : Legal (first :: others.map fun other => other.2.2)) :
    propertyFlags (x ++ (before.kept ++ wordsKept first others)) = .ok (denoted (first :: others.map fun other => other.2.2)) := by
  rw [propertyFlags, behindSpace_append visible, behindSpace_kept spaced]
  simp only [trimmed_kept (solid_words first others)]
  exact parseModifierFlag_legal legal (modifierFlags_words first others)

theorem solid_comma (others : List (Gap × Gap × PropertyFlag)) (behind : Gap) (flag : PropertyFlag) :
    Solid (',' :: (behind.kept ++ wordsKept flag others)) :=
  (solid_of_visible (s := [',']) (by simp) (by decide)).append (solid_words flag others) behind.kept

/-- Without a space in front of them the flags are read from the first space on. -/
theorem propertyFlags_run (visible : ∀ c ∈ x, isSpace c = false) (legal : Legal (others.map fun other => other.2.2)) :
    (∀ flags ∈ behindFirstSpace others, propertyFlags (x ++ others.flatMap otherKept) = .ok (denoted flags)) ∧
      (behindFirstSpace others = none → ∀ r, propertyFlags (x ++ others.flatMap otherKept) ≠ .ok r) := by
  induction others generalizing x with
  | nil =>
    rw [List.flatMap_nil, List.append_nil, propertyFlags_visible visible]
    exact ⟨fun flags mem => by cases mem; rfl, nofun⟩
  | cons other others ih =>
    obtain ⟨before, behind, flag⟩ := other
    have whole : x ++ List.flatMap otherKept ((before, behind, flag) :: others) =
        x ++ (before.kept ++ ',' :: (behind.kept ++ wordsKept flag others)) := by simp [otherKept, wordsKept]
    rw [whole, behindFirstSpace]
    by_cases first : before.kept = []
    · by_cases second : behind.kept = []
      · have more : ∀ c ∈ x ++ ',' :: flag.text, isSpace c = false := by
          simp only [List.mem_append, List.mem_cons]
          rintro c (mem | rfl | mem)
          · exact visible c mem
          · decide
          · exact flag_not_isSpace flag c mem
        have rest := ih more (legal.suffix (List.suffix_cons _ _))
        simpa [first, second, wordsKept] using rest
      · have comma : ∀ c ∈ x ++ [','], isSpace c = false := by
          simp only [List.mem_append, List.mem_singleton]
          rintro c (mem | rfl)
          · exact visible c mem
          · decide
        have read := propertyFlags_spaced comma second legal
        simpa [first, second] using read
    · refine ⟨by simp [first], fun _ r => ?_⟩
      rw [propertyFlags, behindSpace_append visible, behindSpace_kept first]
      simp only [trimmed_kept (solid_comma others behind flag)]
      refine parseModifierFlag_empty ?_ r
      have split : (',' :: (behind.kept ++ wordsKept flag others)).splitOn ',' = [] :: (behind.kept ++ wordsKept flag others).splitOn ',' :=
        List.splitOn_append_cons_self_of_not_mem List.not_mem_nil _
      rw [modifierFlags, split, flagsFrom_cons (List.splitOn_ne_nil _ _)]
      exact List.mem_cons_self

end Flags

section Parts
variable {x s type input : QString} {flags : Option FlagsText}

/-- What remains of flags and the gap in front of them. -/
def flagsKept (flags : Option FlagsText) : QString := (flags.map fun f => f.before.kept ++ wordsKept f.first f.others).getD []

/-- A name or an expression, as it is read in front of flags. -/
def firstWord (input : QString) : QString := if (behindSpace input).isNone then input else trimmed (beforeSpace input)

theorem visible_isSpace (visible : ∀ c ∈ x, QChar.isSpace c = false) : ∀ c ∈ x, isSpace c = false := by
  intro c mem
  have all : ∀ d ∈ [' ', '\t', '\n', '\r', '\x0b', '\x0c'], QChar.isSpace d = true := by decide
  rw [isSpace, decide_eq_false_iff_not]
  exact fun space => Bool.noConfusion ((all c space).symm.trans (visible c mem))

theorem trimmed_visible (visible : ∀ c ∈ x, QChar.isSpace c = false) : trimmed x = x :=
  trimmed_eq_self (fun c t is => visible c (by simp [is])) fun t c is => visible c (by simp [is])

theorem stripArgs_rest (p : PropertyText) : stripArgs p.rest = flagsKept p.flags ++ p.back.kept := by
  have back : stripArgs p.back.text = p.back.kept := by simpa [stripArgs_nil] using stripArgs_gap p.back []
  cases is : p.flags with
  | none => simp [PropertyText.rest, flagsKept, is, back]
  | some f => simp [PropertyText.rest, flagsKept, is, back, FlagsText.text, FlagsText.words, stripArgs_gap, stripArgs_words]

theorem noSlash_rest (p : PropertyText) : NoSlash p.rest := by
  have back : NoSlash p.back.text := by simpa using noSlash_nil.gap p.back
  cases is : p.flags with
  | none => simpa [PropertyText.rest, is] using back
  | some f => simpa [PropertyText.rest, is, FlagsText.text, FlagsText.words] using (noSlash_words back f.first f.others).gap f.before

/-- In front of a space or the end a word is read, and the flags behind it. -/
theorem firstWord_spaced (visible : ∀ c ∈ x, QChar.isSpace c = false) (spaced : ∀ f ∈ flags, f.before.kept ≠ []) :
    firstWord (x ++ flagsKept flags) = x ∧
      propertyFlags (x ++ flagsKept flags) = .ok (denoted ((flags.map FlagsText.flags).getD [])) := by
  have inside := visible_isSpace visible
  cases flags with
  | none =>
    have last : behindSpace (x ++ []) = none := by rw [behindSpace_append inside]; rfl
    rw [List.append_nil] at last
    simp only [flagsKept, Option.map_none, Option.getD_none, List.append_nil, propertyFlags_visible inside, firstWord, last, Option.isNone_none,
      if_true]
    exact ⟨trivial, rfl⟩
  | some f =>
    have space := spaced f rfl
    refine ⟨?_, propertyFlags_spaced inside space f.legal⟩
    have before : beforeSpace (x ++ flagsKept (some f)) = x := by
      have kept := kept_isSpace f.before
      cases is : f.before.kept with
      | nil => exact absurd is space
      | cons c spaces =>
        rw [is, List.forall_mem_cons] at kept
        rw [beforeSpace, List.takeWhile_append_of_pos fun c mem => by rw [inside c mem]; rfl]
        simp [flagsKept, is, kept.1]
    rw [firstWord, before, trimmed_visible visible]
    simp [flagsKept, behindSpace_append inside, behindSpace_kept space]

/-- Without a space the first flag belongs to the word. -/
theorem firstWord_run (visible : ∀ c ∈ x, QChar.isSpace c = false) (first : PropertyFlag) (others : List (Gap × Gap × PropertyFlag)) :
    firstWord (x ++ wordsKept first others) ≠ x := by
  have inside := visible_isSpace visible
  have before : beforeSpace (x ++ wordsKept first others) = x ++ beforeSpace (wordsKept first others) := by
    simp only [beforeSpace]
    exact List.takeWhile_append_of_pos fun c mem => by rw [inside c mem]; rfl
  have front : beforeSpace (wordsKept first others) ≠ [] := by
    have flag := flag_not_isSpace first
    cases is : first.text with
    | nil => exact absurd is (flag_ne_nil first)
    | cons c s =>
      rw [is, List.forall_mem_cons] at flag
      simp [beforeSpace, wordsKept, is, flag.1]
  have all : ∀ c ∈ x ++ beforeSpace (wordsKept first others), QChar.isSpace c = false := by
    intro c mem
    rcases List.mem_append.mp mem with mem | mem
    · exact visible c mem
    · refine (words_chars first others c (List.takeWhile_prefix _ |>.subset mem)).visible ?_
      simpa using List.mem_takeWhile_imp mem
  rw [firstWord]
  split
  · simp [(solid_words first others).nonempty]
  · rw [before, trimmed_visible all]
    simp [front]

end Parts

section Parsing
variable {text type name rest value d behind : QString} {q : ASTProperty}

theorem type_front (balanced : isBalanced (fun c => !QChar.isSpace c) 0 type = true) : ∀ c t, type = c :: t → QChar.isSpace c = false := by
  rintro c t rfl
  rcases isBalanced_cons balanced with ⟨rfl, -⟩ | ⟨rfl, -⟩ | ⟨-, -, -, outside, -⟩
  · decide
  · decide
  · simpa using outside rfl

theorem solid_name (identifier : isIdentifier name = true) : Solid name :=
  solid_of_visible (identifier_ne_nil identifier) fun c mem => isSpace_of_isNamePart (isNamePart_of_mem identifier c mem)

/-- A property without a default value. -/
theorem parseProperty_of_name (scan : scanType false 0 [] (trimmed (stripArgs text)) = some (type, rest)) (plain : '=' ∉ trimmed rest) :
    parseProperty text = (propertyFlags (trimmed rest)).map fun r =>
      { type := type, name := firstWord (trimmed rest), modifier := r.1, persisted := r.2 } := by
  simp only [parseProperty, scan, plain, if_false]
  cases propertyFlags (trimmed rest) <;> rfl

/-- A property with a default value. -/
theorem parseProperty_of_default (scan : scanType false 0 [] (trimmed (stripArgs text)) = some (type, rest))
    (split : trimmed rest = name ++ '=' :: value) (plain : '=' ∉ name) (quoted : (trimmed value).rdropWhile (· ≠ '"') = d)
    (drop : (trimmed value).drop d.length = behind) :
    parseProperty text = (propertyFlags behind).map fun r =>
      { type := type, name := trimmed name, defaultValue := if d ≠ [] then d else firstWord behind, modifier := r.1, persisted := r.2 } := by
  have equals : '=' ∈ trimmed rest := by simp [split]
  have all : ∀ c ∈ name, decide (c ≠ '=') = true := fun c mem => decide_eq_true fun is => plain (is ▸ mem)
  have front : (trimmed rest).takeWhile (· ≠ '=') = name := by
    rw [split, List.takeWhile_append_of_pos all]
    simp
  have back : ((trimmed rest).dropWhile (· ≠ '=')).tail = value := by
    rw [split, List.dropWhile_append_of_pos all]
    simp
  simp only [parseProperty, scan, equals, if_true, front, back, quoted, drop]
  cases propertyFlags behind <;> rfl

theorem trimmed_sublist (s : QString) : (trimmed s).Sublist s :=
  (List.rdropWhile_prefix _ _).sublist.trans (List.dropWhile_sublist _)

theorem firstWord_sublist (s : QString) : (firstWord s).Sublist s := by
  rw [firstWord]
  split
  · exact List.Sublist.refl s
  · exact (trimmed_sublist _).trans (List.takeWhile_sublist _)

theorem scan_sublist {s : QString} (found : scanType false 0 [] s = some (type, rest)) : type.Sublist s ∧ rest.Sublist s := by
  rw [show s = type ++ rest from scanType_append found]
  exact ⟨List.sublist_append_left type rest, List.sublist_append_right type rest⟩

/-- The type comes from the scan, and the default value from what is behind it. -/
theorem scan_of_parseProperty (read : parseProperty text = .ok q) :
    ∃ rest, scanType false 0 [] (trimmed (stripArgs text)) = some (q.type, rest) ∧ q.defaultValue.Sublist (trimmed rest) := by
  cases scan : scanType false 0 [] (trimmed (stripArgs text)) with
  | none =>
    simp only [parseProperty, scan] at read
    cases read
  | some found =>
    obtain ⟨type, rest⟩ := found
    by_cases equals : '=' ∈ trimmed rest
    · obtain ⟨name, value, split, plain⟩ := List.eq_append_cons_of_mem equals
      rw [parseProperty_of_default scan split plain rfl rfl] at read
      have part : (trimmed value).Sublist (trimmed rest) :=
        (trimmed_sublist value).trans (split ▸ (List.sublist_cons_self _ _).trans (List.sublist_append_right _ _))
      cases flags : propertyFlags ((trimmed value).drop ((trimmed value).rdropWhile (· ≠ '"')).length) with
      | error e =>
        rw [flags] at read
        cases read
      | ok r =>
        rw [flags] at read
        cases read
        refine ⟨rest, rfl, List.Sublist.trans ?_ part⟩
        dsimp only
        split_ifs
        · exact (List.rdropWhile_prefix _ _).sublist
        · exact (firstWord_sublist _).trans (List.drop_sublist _ _)
    · rw [parseProperty_of_name scan equals] at read
      cases flags : propertyFlags (trimmed rest) with
      | error e =>
        rw [flags] at read
        cases read
      | ok r =>
        rw [flags] at read
        cases read
        exact ⟨rest, rfl, List.nil_sublist _⟩

end Parsing

section Main
variable {p : PropertyText} {q : ASTProperty}

/-- What remains of a property in front of its default value. -/
theorem stripArgs_text (oneLine : '\n' ∉ p.type) : stripArgs p.text = p.front.kept ++ (p.type ++ (p.behindType.kept ++ (p.name ++
    stripArgs ((p.default.map DefaultText.text).getD [] ++ p.rest)))) := by
  rw [PropertyText.text, stripArgs_gap, stripArgs_type (by simp) p.isType.2 oneLine, stripArgs_gap,
    stripArgs_append fun c mem => plain_of_part (isNamePart_of_mem p.isName c mem)]

theorem stripArgs_default (d : DefaultText) (s : QString) :
    stripArgs (d.text ++ s) = d.before.kept ++ '=' :: (d.behind.kept ++ stripArgs (d.value ++ s)) := by
  have equals : stripArgs ('=' :: (d.behind.text ++ (d.value ++ s))) = '=' :: stripArgs (d.behind.text ++ (d.value ++ s)) :=
    stripArgs_cons (by decide) (by simp) (by simp)
  simp [DefaultText.text, stripArgs_gap, equals]

/-- The type and the name run together where no space is between them. -/
theorem type_of_run (oneLine : '\n' ∉ p.type) (run : p.behindType.kept = []) (read : parseProperty p.text = .ok q) : q.type ≠ p.type := by
  have both : Solid (p.type ++ ([] ++ p.name)) := solid_append p.isType.1 (type_front p.isType.2) (solid_name p.isName) []
  have text := trimmed_solid (kept_isQSpace p.front) both (stripArgs ((p.default.map DefaultText.text).getD [] ++ p.rest))
  generalize (stripArgs ((p.default.map DefaultText.text).getD [] ++ p.rest)).rdropWhile QChar.isSpace = u at text
  have whole : trimmed (stripArgs p.text) = p.type ++ (p.name ++ u) := by
    rw [stripArgs_text oneLine, run]
    simpa using text
  cases is : p.name with
  | nil => exact absurd is (identifier_ne_nil p.isName)
  | cons c name =>
    have part : isNamePart c = true := isNamePart_of_mem p.isName c (by simp [is])
    obtain ⟨rest, scan, -⟩ := scan_of_parseProperty read
    have further : scanType false 0 [] (trimmed (stripArgs p.text)) = scanType false 0 (p.type ++ [c]) (name ++ u) := by
      rw [whole, is]
      refine (scanType_balanced (by simp) p.isType.2 [] _).trans ?_
      rw [List.cons_append, scanType, if_neg (ne_of_isNamePart part (by decide)), if_neg (ne_of_isNamePart part (by decide)),
        isSpace_of_isNamePart part]
      rfl
    have longer := (prefix_of_scanType (further.symm.trans scan)).length_le
    intro same
    rw [same, List.length_append, List.length_singleton] at longer
    omega

theorem value_oneLine {value : QString} (isDefault : IsQuoted value ∨ IsExpression value) : ∀ c ∈ value, c ∉ ['\n', '\r'] := by
  rcases isDefault with ⟨s, rfl, oneLine⟩ | ⟨-, visible⟩
  · intro c mem
    simp only [List.cons_append, List.mem_cons, List.mem_append, List.not_mem_nil, or_false] at mem
    rcases mem with rfl | mem | rfl
    · decide
    · exact oneLine c mem
    · decide
  · intro c mem line
    have space : ∀ d ∈ ['\n', '\r'], QChar.isSpace d = true := by decide
    exact Bool.noConfusion ((space c line).symm.trans (visible c mem).1)

/-- The type of a property has no line breaks. -/
theorem type_oneLine (read : parseProperty p.text = .ok q) : '\n' ∉ q.type := by
  obtain ⟨rest, scan, -⟩ := scan_of_parseProperty read
  exact fun mem => newline_not_mem _ (((scan_sublist scan).1.trans (trimmed_sublist _)).subset mem)

/-- A comment that begins within the default value takes a part of it. -/
theorem default_of_comment {d : DefaultText} (oneLine : '\n' ∉ p.type) (default : p.default = some d)
    (comment : ∃ a b, d.value ++ p.rest = a ++ '/' :: '/' :: b ∧ a.length < d.value.length) (read : parseProperty p.text = .ok q) :
    q.defaultValue ≠ d.value := by
  have fewer := count_damaged (noSlash_rest p) (value_oneLine d.isDefault) comment
  have slash (g : Gap) : g.kept.count '/' = 0 := List.count_eq_zero.mpr fun mem => absurd (kept_space g _ mem) (by decide)
  have type : p.type.count '/' = 0 := List.count_eq_zero.mpr (isBalanced_mem p.isType.2)
  have name : p.name.count '/' = 0 := List.count_eq_zero.mpr fun mem => absurd (isNamePart_of_mem p.isName _ mem) (by decide)
  have whole : (stripArgs p.text).count '/' = (stripArgs (d.value ++ p.rest)).count '/' := by
    simp [stripArgs_text oneLine, default, stripArgs_default, slash, type, name]
  obtain ⟨rest, scan, part⟩ := scan_of_parseProperty read
  have inside : (trimmed rest).Sublist (stripArgs p.text) :=
    (trimmed_sublist rest).trans ((scan_sublist scan).2.trans (trimmed_sublist _))
  have count := (part.trans inside).count_le '/'
  intro same
  rw [same] at count
  omega

/-- Without a comment within the default value the name is followed by what remains of the value and the flags. -/
def PropertyText.behindName (p : PropertyText) : QString :=
  ((p.default.map fun d => d.before.kept ++ '=' :: (d.behind.kept ++ d.value)).getD []) ++ flagsKept p.flags

theorem solid_value {value : QString} (isDefault : IsQuoted value ∨ IsExpression value) : Solid value := by
  rcases isDefault with ⟨s, rfl, -⟩ | ⟨nonempty, visible⟩
  · have quote : Solid ['"'] := solid_of_visible (by simp) (by decide)
    simpa using quote.append quote s
  · exact solid_of_visible nonempty fun c mem => (visible c mem).1

theorem solid_behindName (p : PropertyText) : Solid (p.name ++ p.behindName) := by
  have name := solid_name p.isName
  cases flags : p.flags with
  | some f =>
    have ends := name.append (solid_words f.first f.others)
      ((p.default.map fun d => d.before.kept ++ '=' :: (d.behind.kept ++ d.value)).getD [] ++ f.before.kept)
    simpa [PropertyText.behindName, flagsKept, flags] using ends
  | none =>
    cases default : p.default with
    | some d => simpa [PropertyText.behindName, flagsKept, flags, default] using name.append (solid_value d.isDefault) (d.before.kept ++ '=' :: d.behind.kept)
    | none => simpa [PropertyText.behindName, flagsKept, flags, default] using name

theorem scan_text (oneLine : '\n' ∉ p.type) (space : p.behindType.kept ≠ [])
    (intact : ∀ d ∈ p.default, ¬ ∃ a b, d.value ++ p.rest = a ++ '/' :: '/' :: b ∧ a.length < d.value.length) :
    ∃ rest, scanType false 0 [] (trimmed (stripArgs p.text)) = some (p.type, rest) ∧ trimmed rest = p.name ++ p.behindName := by
  have kept : stripArgs ((p.default.map DefaultText.text).getD [] ++ p.rest) = p.behindName ++ p.back.kept := by
    cases default : p.default with
    | none => simp [PropertyText.behindName, default, stripArgs_rest]
    | some d =>
      simp [PropertyText.behindName, default, stripArgs_default, stripArgs_intact (value_oneLine d.isDefault) (intact d default), stripArgs_rest]
  have core : Solid (p.type ++ (p.behindType.kept ++ (p.name ++ p.behindName))) :=
    solid_append p.isType.1 (type_front p.isType.2) (solid_behindName p) _
  have whole : trimmed (stripArgs p.text) = p.type ++ (p.behindType.kept ++ (p.name ++ p.behindName)) := by
    rw [stripArgs_text oneLine, kept]
    simpa using trimmed_spaces (kept_isQSpace p.front) (kept_isQSpace p.back) core
  refine ⟨p.behindType.kept ++ (p.name ++ p.behindName), ?_, ?_⟩
  · rw [whole]
    refine (scanType_balanced (by simp) p.isType.2 [] _).trans ?_
    have spaces := kept_space p.behindType
    cases is : p.behindType.kept with
    | nil => exact absurd is space
    | cons c kept =>
      rw [is, List.forall_mem_cons] at spaces
      have other : ∀ d ∈ [' ', '\t', '\x0b', '\x0c'], d ≠ '<' ∧ d ≠ '>' := by decide
      obtain ⟨less, greater⟩ := other c spaces.1
      rw [List.cons_append, scanType, if_neg less, if_neg greater, (space_visible spaces.1).2]
      rfl
  · simpa using trimmed_spaces (kept_isQSpace p.behindType) (u := []) (fun _ none => absurd none List.not_mem_nil) (solid_behindName p)

theorem quote_not_mem_kept (flags : Option FlagsText) : ∀ c ∈ flagsKept flags, c ≠ '"' ∧ c ≠ '=' := by
  cases flags with
  | none => nofun
  | some f =>
    intro c mem
    simp only [flagsKept, Option.map_some, Option.getD_some, List.mem_append] at mem
    have flag : IsFlagChar c := mem.elim (fun mem => .inr (.inr (kept_space _ c mem))) (words_chars _ _ c)
    exact ⟨flag.ne (by decide), flag.ne (by decide)⟩

/-- A name without a default value: the property is read if a space is in front of the flags. -/
theorem reads_name (oneLine : '\n' ∉ p.type) (space : p.behindType.kept ≠ []) (default : p.default = none) :
    parseProperty p.text = .ok p.property ↔ ∀ f ∈ p.flags, f.before.kept ≠ [] := by
  obtain ⟨rest, scan, ends⟩ := scan_text oneLine space (by simp [default])
  have behind : p.behindName = flagsKept p.flags := by simp [PropertyText.behindName, default]
  have visible : ∀ c ∈ p.name, QChar.isSpace c = false := fun c mem => isSpace_of_isNamePart (isNamePart_of_mem p.isName c mem)
  have plain : '=' ∉ trimmed rest := by
    rw [ends, behind, List.mem_append]
    rintro (mem | mem)
    · exact equals_not_mem p.isName mem
    · exact (quote_not_mem_kept p.flags _ mem).2 rfl
  rw [parseProperty_of_name scan plain, ends, behind]
  constructor
  · intro read f flags
    by_contra run
    have other := firstWord_run visible f.first f.others
    cases result : propertyFlags (p.name ++ flagsKept p.flags) with
    | error e =>
      rw [result] at read
      cases read
    | ok r =>
      rw [result] at read
      have name := congrArg ASTProperty.name (Except.ok.inj read)
      have is : p.flags = some f := flags
      exact other (by simpa [is, flagsKept, run, PropertyText.property] using name)
  · intro spaced
    obtain ⟨word, flags⟩ := firstWord_spaced visible spaced
    rw [flags, word]
    simp [PropertyText.property, default, Except.map]

theorem parse_default {d : DefaultText} {word : QString} (oneLine : '\n' ∉ p.type) (space : p.behindType.kept ≠ []) (default : p.default = some d)
    (intact : ¬ ∃ a b, d.value ++ p.rest = a ++ '/' :: '/' :: b ∧ a.length < d.value.length)
    (quoted : (d.value ++ flagsKept p.flags).rdropWhile (· ≠ '"') = word) :
    parseProperty p.text = (propertyFlags ((d.value ++ flagsKept p.flags).drop word.length)).map fun r =>
      { type := p.type, name := p.name, modifier := r.1, persisted := r.2
        defaultValue := if word ≠ [] then word else firstWord ((d.value ++ flagsKept p.flags).drop word.length) } := by
  obtain ⟨rest, scan, ends⟩ := scan_text oneLine space (by simpa [default] using intact)
  have split : trimmed rest = (p.name ++ d.before.kept) ++ '=' :: (d.behind.kept ++ (d.value ++ flagsKept p.flags)) := by
    simp [ends, PropertyText.behindName, default]
  have plain : '=' ∉ p.name ++ d.before.kept := by
    rw [List.mem_append]
    exact fun mem => mem.elim (equals_not_mem p.isName) fun mem => absurd (kept_space _ _ mem) (by decide)
  have name : trimmed (p.name ++ d.before.kept) = p.name := by
    simpa using trimmed_spaces (s := []) nofun (kept_isQSpace d.before) (solid_name p.isName)
  have value : trimmed (d.behind.kept ++ (d.value ++ flagsKept p.flags)) = d.value ++ flagsKept p.flags := by
    have solid : Solid (d.value ++ flagsKept p.flags) := by
      cases flags : p.flags with
      | none => simpa [flagsKept] using solid_value d.isDefault
      | some f => simpa [flagsKept] using (solid_value d.isDefault).append (solid_words f.first f.others) f.before.kept
    simpa using trimmed_spaces (kept_isQSpace d.behind) (u := []) nofun solid
  rw [parseProperty_of_default scan split plain (by rw [value, quoted]) (by rw [value]), name]

/-- The flags behind a quoted value are read, or what is behind their first space. -/
theorem reads_quoted {d : DefaultText} (oneLine : '\n' ∉ p.type) (space : p.behindType.kept ≠ []) (default : p.default = some d)
    (intact : ¬ ∃ a b, d.value ++ p.rest = a ++ '/' :: '/' :: b ∧ a.length < d.value.length) (quoted : IsQuoted d.value) :
    parseProperty p.text = .ok p.property ↔ ∀ f ∈ p.flags, f.Separate p.default := by
  have last : (d.value ++ flagsKept p.flags).rdropWhile (· ≠ '"') = d.value := by
    obtain ⟨s, is, -⟩ := quoted
    rw [List.rdropWhile, List.reverse_append, List.dropWhile_append_of_pos]
    · simp [is]
    · intro c mem
      exact decide_eq_true (quote_not_mem_kept p.flags c (List.mem_reverse.mp mem)).1
  have value : d.value ≠ [] := (solid_value d.isDefault).nonempty
  have agrees (result : Except QString (ASTProperty.Modifier × Bool)) :
      (result.map fun r => ({ type := p.type, name := p.name, modifier := r.1, persisted := r.2, defaultValue := d.value } : ASTProperty)) =
        .ok p.property ↔ result = .ok (denoted ((p.flags.map FlagsText.flags).getD [])) := by
    cases result with
    | error e => exact iff_of_false nofun nofun
    | ok r => simp [Except.map, PropertyText.property, default, Prod.ext_iff]
  rw [parse_default oneLine space default intact last, List.drop_left, if_pos value, agrees]
  cases is : p.flags with
  | none => exact iff_of_true (propertyFlags_visible (x := []) nofun) nofun
  | some f =>
    simp only [flagsKept, Option.map_some, Option.getD_some, Option.mem_def, Option.some.injEq, forall_eq', FlagsText.Separate]
    by_cases spaced : f.before.kept = []
    · obtain ⟨reads, fails⟩ := propertyFlags_run (flag_not_isSpace f.first) (f.legal.suffix (List.suffix_cons _ _))
      have run : f.before.kept ++ wordsKept f.first f.others = f.first.text ++ f.others.flatMap otherKept := by rw [spaced]; rfl
      rw [run]
      have here : ∃ d', p.default = some d' ∧ IsQuoted d'.value := ⟨d, default, quoted⟩
      simp only [spaced, ne_eq, not_true_eq_false, false_or, here, true_and]
      cases behind : behindFirstSpace f.others with
      | none => exact iff_of_false (fails behind _) (by simp)
      | some flags =>
        rw [reads flags behind]
        simp
    · exact iff_of_true (propertyFlags_spaced (x := []) nofun spaced f.legal) (.inl spaced)

theorem reads_expression {d : DefaultText} (oneLine : '\n' ∉ p.type) (space : p.behindType.kept ≠ []) (default : p.default = some d)
    (intact : ¬ ∃ a b, d.value ++ p.rest = a ++ '/' :: '/' :: b ∧ a.length < d.value.length) (expression : IsExpression d.value) :
    parseProperty p.text = .ok p.property ↔ ∀ f ∈ p.flags, f.before.kept ≠ [] := by
  have last : (d.value ++ flagsKept p.flags).rdropWhile (· ≠ '"') = [] := by
    rw [List.rdropWhile_eq_nil_iff]
    intro c mem
    refine decide_eq_true ((List.mem_append.mp mem).elim (fun mem => (expression.2 c mem).2) fun mem => (quote_not_mem_kept p.flags c mem).1)
  have visible : ∀ c ∈ d.value, QChar.isSpace c = false := fun c mem => (expression.2 c mem).1
  rw [parse_default oneLine space default intact last, List.length_nil, List.drop_zero, if_neg (by simp)]
  constructor
  · intro read f flags
    by_contra run
    have other := firstWord_run visible f.first f.others
    cases result : propertyFlags (d.value ++ flagsKept p.flags) with
    | error e =>
      rw [result] at read
      cases read
    | ok r =>
      rw [result] at read
      have value := congrArg ASTProperty.defaultValue (Except.ok.inj read)
      have is : p.flags = some f := flags
      exact other (by simpa [is, flagsKept, run, PropertyText.property, default] using value)
  · intro spaced
    obtain ⟨word, flags⟩ := firstWord_spaced visible spaced
    rw [flags, word]
    simp [PropertyText.property, default, Except.map]

theorem separate_iff {f : FlagsText} (unquoted : ∀ d ∈ p.default, ¬ IsQuoted d.value) : f.Separate p.default ↔ f.before.kept ≠ [] :=
  or_iff_left fun ⟨⟨d, mem, quoted⟩, _⟩ => unquoted d mem quoted

theorem reads_iff (oneLine : '\n' ∉ p.type) (space : p.behindType.kept ≠ [])
    (intact : ∀ d ∈ p.default, ¬ ∃ a b, d.value ++ p.rest = a ++ '/' :: '/' :: b ∧ a.length < d.value.length) :
    parseProperty p.text = .ok p.property ↔ ∀ f ∈ p.flags, f.Separate p.default := by
  cases default : p.default with
  | none =>
    rw [reads_name oneLine space default, ← default]
    exact forall₂_congr fun f _ => (separate_iff (by simp [default])).symm
  | some d =>
    rcases d.isDefault with quoted | expression
    · rw [reads_quoted oneLine space default (intact d default) quoted, default]
    · rw [reads_expression oneLine space default (intact d default) expression, ← default]
      refine forall₂_congr fun f _ => (separate_iff ?_).symm
      rw [default]
      rintro _ ⟨⟩ ⟨s, is, -⟩
      exact (expression.2 '"' (by simp [is])).2 rfl

theorem parseProperty_text (p : PropertyText) : parseProperty p.text = .ok p.property ↔ p.Fits := by
  constructor
  · intro read
    have oneLine : '\n' ∉ p.type := type_oneLine read
    have space : p.behindType.kept ≠ [] := fun run => type_of_run oneLine run read rfl
    have intact : ∀ d ∈ p.default, ¬ ∃ a b, d.value ++ p.rest = a ++ '/' :: '/' :: b ∧ a.length < d.value.length := by
      intro d mem comment
      have default : p.default = some d := mem
      exact default_of_comment oneLine default comment read (by simp [PropertyText.property, default])
    exact ⟨oneLine, space, (reads_iff oneLine space intact).mp read, intact⟩
  · rintro ⟨oneLine, space, flags, intact⟩
    exact (reads_iff oneLine space intact).mpr flags

/-- A property that is written in a class is appended to those of the class exactly if its text fits. -/
theorem prop_text_iff {sha : Sha1} {parser : RepParser sha} (args : parser.value .args = p.text) :
    parser.prop = .ok { parser with
      astClass.properties := parser.astClass.properties ++ [p.property]
      astClass.hasPersisted := parser.astClass.hasPersisted || p.property.persisted } ↔ p.Fits := by
  rw [← parseProperty_text, RepParser.prop, args]
  cases parseProperty p.text with
  | error e => exact iff_of_false nofun nofun
  | ok q =>
    constructor
    · intro same
      have lists := congrArg (fun r => r.astClass.properties) (Except.ok.inj same)
      simpa using lists
    · intro same
      cases same
      rfl

end Main

section Example

/-- `int a`, a gap, `= 1` with a space on both sides, a gap and `READONLY`. -/
def intText (behindType : Gap) (value : QString) (isDefault : IsQuoted value ∨ IsExpression value) (before : Gap) : PropertyText where
  front := []
  type := "int".toList
  isType := by decide
  behindType := behindType
  name := "a".toList
  isName := by decide
  default := some ⟨[.space ' ' blank_space], [.space ' ' blank_space], value, isDefault⟩
  flags := some ⟨before, .access .readOnly, [], ⟨.inl (by decide), by decide⟩⟩
  back := []

theorem isDefault_one : IsQuoted "1".toList ∨ IsExpression "1".toList := .inr ⟨by decide, by decide⟩

def oneSpace : Gap := [.space ' ' blank_space]

/-- `int a = 1 READONLY` -/
theorem spaced_appended : ∃ parser : RepParser treeSha, parser.value .args = "int a = 1 READONLY".toList ∧
    parser.prop = .ok { parser with
      astClass.properties := parser.astClass.properties ++ [(intText oneSpace "1".toList isDefault_one oneSpace).property]
      astClass.hasPersisted := parser.astClass.hasPersisted || (intText oneSpace "1".toList isDefault_one oneSpace).property.persisted } := by
  refine ⟨{ captured := [(.args, "int a = 1 READONLY".toList)] }, rfl, ?_⟩
  refine (prop_text_iff (p := intText oneSpace "1".toList isDefault_one oneSpace) rfl).mpr ⟨by decide, by decide, ?_, ?_⟩
  · rintro f ⟨⟩
    exact .inl (by decide)
  · rintro d ⟨⟩ ⟨a, b, split, short⟩
    obtain rfl : a = [] := List.eq_nil_of_length_eq_zero (Nat.lt_one_iff.mp short)
    have first : some '1' = some '/' := congrArg List.head? split
    exact absurd first (by decide)

/-- A line break does not separate the value from the flag. -/
theorem broken_not_read : (intText oneSpace "1".toList isDefault_one [.lineBreak false]).text = "int a = 1\nREADONLY".toList ∧
    (parseProperty "int a = 1\nREADONLY".toList).toOption =
      some { type := "int".toList, name := "a".toList, defaultValue := "1READONLY".toList } ∧
    parseProperty (intText oneSpace "1".toList isDefault_one [.lineBreak false]).text ≠
      .ok (intText oneSpace "1".toList isDefault_one [.lineBreak false]).property := by
  have text : (intText oneSpace "1".toList isDefault_one [.lineBreak false]).text = "int a = 1\nREADONLY".toList := by decide
  have read : (parseProperty "int a = 1\nREADONLY".toList).toOption =
      some { type := "int".toList, name := "a".toList, defaultValue := "1READONLY".toList } := by decide +kernel
  refine ⟨text, read, fun same => ?_⟩
  rw [text] at same
  rw [same] at read
  exact absurd read (by decide)

end Example
end RemoteObjects.Repc
