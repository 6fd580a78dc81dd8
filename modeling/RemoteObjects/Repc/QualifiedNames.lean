import Mathlib.Data.List.TakeWhile
import RemoteObjects.Patterns
import RemoteObjects.Repc.SourceApi

/-! The loop of `fullyQualifiedName`, which inserts the scope into a copy at the places of the tokens in the type. -/
namespace RemoteObjects.Repc
open Patterns

section Model

/-- `([^<>,\s]+)`, with its group. -/
def typeToken : Pattern Unit := .group () (.oneOrMore fun a => !isDelimiter a)

/-- `QString::insert`; there are spaces up to a place behind the end. -/
def insertAt (position : Nat) (text s : QString) : QString :=
  (s ++ List.replicate (position - s.length) ' ').take position ++ text ++ s.drop position

/-- One match; its group starts where it does. -/
def qualifyMatch (c : ASTClass) (className : QString) (s : QString × Nat) (found : Nat × Match Unit) : QString × Nat :=
  if isClassEnum c (captured found.2.captures ()) then
    (insertAt (found.1 + s.2) (className ++ "::".toList) s.1, s.2 + (className.length + 2))
  else s

/-- `fullyQualifiedName`: the copy, and the offset of places in it. -/
def fullyQualifiedNameLoop (c : ASTClass) (className typeName : QString) : QString :=
  ((typeToken.globalMatch typeName).foldl (qualifyMatch c className) (typeName, 0)).1

end Model

section Statement

/-- A longest part without delimiters. -/
def TokenAt (s : QString) (start : Nat) (token : QString) : Prop :=
  ∃ front back, s = front ++ token ++ back ∧ front.length = start ∧ token ≠ [] ∧ (∀ a ∈ token, isDelimiter a = false) ∧
    (∀ a ∈ front.getLast?, isDelimiter a = true) ∧ ∀ a ∈ back.head?, isDelimiter a = true

/-- A text before each of some places. -/
def insertedBefore (text : QString) (starts : List Nat) (s : QString) : QString :=
  s.zipIdx.flatMap fun entry => if entry.2 ∈ starts then text ++ [entry.1] else [entry.1]

/-- A text is removed at a place, if it stands there. -/
def removedAt (text s : QString) (start : Nat) : Option QString :=
  if text <+: s.drop start then some (s.take start ++ s.drop (start + text.length)) else none

end Statement

section Tokens
variable {c : ASTClass} {className s token rest : QString} {start : Nat} {a : Char}

/-- Texts are made of delimiters and longest parts without any. -/
theorem tokens_induction {P : QString → Prop} (nil : P []) (delimiter : ∀ a s, isDelimiter a = true → P s → P (a :: s))
    (part : ∀ token rest, token ≠ [] → (∀ a ∈ token, isDelimiter a = false) → (∀ a ∈ rest.head?, isDelimiter a = true) → P rest →
      P (token ++ rest)) (s : QString) : P s := by
  induction length : s.length using Nat.strongRecOn generalizing s with
  | ind n ih =>
    cases s with
    | nil => exact nil
    | cons a s =>
      by_cases ends : isDelimiter a = true
      · exact delimiter a s ends (ih s.length (by simp [← length]) s rfl)
      · have split : (a :: s).takeWhile (fun a => !isDelimiter a) ++ (a :: s).dropWhile (fun a => !isDelimiter a) = a :: s :=
          List.takeWhile_append_dropWhile
        have nonempty : (a :: s).takeWhile (fun a => !isDelimiter a) ≠ [] := by simp [ends]
        have shorter := congrArg List.length split
        rw [List.length_append] at shorter
        have positive := List.length_pos_iff.mpr nonempty
        rw [← split]
        refine part _ _ nonempty (fun b mem => by simpa using List.mem_takeWhile_imp mem) ?_ (ih _ (by omega) _ rfl)
        intro b head
        have stop := List.head?_dropWhile_not (fun a => !isDelimiter a) (a :: s)
        rw [Option.mem_def.mp head] at stop
        simpa using stop

theorem matches_delimiter (ends : isDelimiter a = true) (start : Nat) (s : QString) :
    typeToken.globalMatchFrom start 0 (a :: s) = typeToken.globalMatchFrom (start + 1) 0 s := by
  refine globalMatchFrom_none ?_
  have nothing : (Pattern.oneOrMore fun a => !isDelimiter a : Pattern Unit).run { rest := a :: s } = [] := by
    refine run_seq_eq_nil_left (run_one_eq_nil ?_)
    rintro _ _ ⟨rfl, rfl⟩
    simp [ends]
  rw [typeToken, Pattern.match?, Pattern.run, nothing]
  rfl

/-- The group has all of a longest part. -/
theorem matches_token (nonempty : token ≠ []) (inside : ∀ a ∈ token, isDelimiter a = false)
    (stop : ∀ a ∈ rest.head?, isDelimiter a = true) (start : Nat) :
    typeToken.globalMatchFrom start 0 (token ++ rest) =
      (start, ⟨rest, [((), token)]⟩) :: typeToken.globalMatchFrom (start + token.length) 0 rest := by
  have all : ∀ a ∈ token, (!isDelimiter a) = true := fun a mem => by simp [inside a mem]
  have ends : ∀ a s, rest = a :: s → (!isDelimiter a) = false := fun a s is => by simp [stop a (by simp [is])]
  have found : typeToken.match? (token ++ rest) = some ⟨rest, [((), token)]⟩ := match?_eq (takes_group (takes_oneOrMore nonempty all ends))
  exact globalMatchFrom_some (m := ⟨rest, [((), token)]⟩) nonempty found

variable (c className) in
theorem qualifyFrom_token (nonempty : token ≠ []) (inside : ∀ a ∈ token, isDelimiter a = false)
    (stop : ∀ a ∈ rest.head?, isDelimiter a = true) :
    qualifyFrom c className [] (token ++ rest) =
      (if isClassEnum c token then className ++ "::".toList ++ token else token) ++ qualifyFrom c className [] rest := by
  rw [qualifyFrom_part c className inside stop, List.nil_append, qualifiedToken]
  simp [nonempty]

/-- In the copy a place is behind what has been inserted; up to it the copy is done. -/
theorem foldl_qualifyMatch (c : ASTClass) (className rest : QString) (done : QString) (start offset : Nat)
    (place : done.length = start + offset) :
    ((typeToken.globalMatchFrom start 0 rest).foldl (qualifyMatch c className) (done ++ rest, offset)).1 =
      done ++ qualifyFrom c className [] rest := by
  induction rest using tokens_induction generalizing done start offset with
  | nil => rfl
  | delimiter a rest ends ih =>
    have next := ih (done ++ [a]) (start + 1) offset (by rw [List.length_append, List.length_singleton, place]; omega)
    rw [List.append_assoc, List.append_assoc] at next
    rw [matches_delimiter ends, qualifyFrom_delimiter c className ends]
    exact next
  | part token rest nonempty inside stop ih =>
    rw [matches_token nonempty inside stop, qualifyFrom_token c className nonempty inside stop, List.foldl_cons, qualifyMatch]
    by_cases enum : isClassEnum c token = true
    · have inserted : insertAt (start + offset) (className ++ "::".toList) (done ++ (token ++ rest)) =
          (done ++ (className ++ "::".toList ++ token)) ++ rest := by
        simp [insertAt, ← place]
      have next := ih (done ++ (className ++ "::".toList ++ token)) (start + token.length) (offset + (className.length + 2)) (by simp; omega)
      rw [captured_cons_self, if_pos enum, if_pos enum, inserted, next, List.append_assoc]
    · have next := ih (done ++ token) (start + token.length) offset (by rw [List.length_append]; omega)
      rw [captured_cons_self, if_neg enum, if_neg enum, ← List.append_assoc, next, List.append_assoc]

/-- The loop and the reading character by character have one result. -/
theorem fullyQualifiedName_eq_loop (c : ASTClass) (className typeName : QString) :
    fullyQualifiedName c className typeName = fullyQualifiedNameLoop c className typeName :=
  (foldl_qualifyMatch c className typeName [] 0 0 rfl).symm

end Tokens

section Places
variable {c : ASTClass} {className s token rest other text : QString} {start i k : Nat} {a : Char} {starts : List Nat}

/-- Where the enums of a class start. -/
def startsFrom (c : ASTClass) (k : Nat) (s : QString) : List Nat :=
  ((typeToken.globalMatchFrom k 0 s).filter fun found => isClassEnum c (captured found.2.captures ())).map Prod.fst

theorem startsFrom_delimiter (c : ASTClass) (ends : isDelimiter a = true) (k : Nat) (s : QString) :
    startsFrom c k (a :: s) = startsFrom c (k + 1) s := by
  rw [startsFrom, matches_delimiter ends, startsFrom]

theorem startsFrom_token (c : ASTClass) (nonempty : token ≠ []) (inside : ∀ a ∈ token, isDelimiter a = false)
    (stop : ∀ a ∈ rest.head?, isDelimiter a = true) (k : Nat) :
    startsFrom c k (token ++ rest) =
      if isClassEnum c token then k :: startsFrom c (k + token.length) rest else startsFrom c (k + token.length) rest := by
  rw [startsFrom, matches_token nonempty inside stop, List.filter_cons, captured_cons_self]
  split
  · rfl
  · rfl

theorem tokenAt_nil : ¬ TokenAt [] start token := by
  rintro ⟨front, back, same, -, nonempty, -⟩
  simp [nonempty] at same

theorem tokenAt_delimiter (ends : isDelimiter a = true) : TokenAt (a :: s) start token ↔ ∃ i, start = i + 1 ∧ TokenAt s i token := by
  constructor
  · rintro ⟨front, back, same, rfl, nonempty, inside, before, behind⟩
    cases front with
    | nil =>
      obtain ⟨b, token, rfl⟩ := List.exists_cons_of_ne_nil nonempty
      obtain rfl : a = b := (List.cons.inj same).1
      have other := inside a List.mem_cons_self
      rw [ends] at other
      cases other
    | cons b front =>
      obtain ⟨rfl, tail⟩ := List.cons.inj same
      refine ⟨front.length, rfl, front, back, tail, rfl, nonempty, inside, ?_, behind⟩
      cases front with
      | nil => exact nofun
      | cons d front => exact before
  · rintro ⟨i, rfl, front, back, rfl, rfl, nonempty, inside, before, behind⟩
    refine ⟨a :: front, back, rfl, rfl, nonempty, inside, ?_, behind⟩
    cases front with
    | nil => simpa using ends
    | cons d front => exact before

theorem takeWhile_part (inside : ∀ a ∈ token, isDelimiter a = false) (stop : ∀ a ∈ rest.head?, isDelimiter a = true) :
    (token ++ rest).takeWhile (fun a => !isDelimiter a) = token := by
  have none : rest.takeWhile (fun a => !isDelimiter a) = [] := by
    cases rest with
    | nil => rfl
    | cons a rest => simp [stop a rfl]
  rw [List.takeWhile_append_of_pos fun a mem => by simp [inside a mem], none, List.append_nil]

theorem tokenAt_token (nonempty : token ≠ []) (inside : ∀ a ∈ token, isDelimiter a = false)
    (stop : ∀ a ∈ rest.head?, isDelimiter a = true) :
    TokenAt (token ++ rest) start other ↔ start = 0 ∧ other = token ∨ ∃ i, start = token.length + i ∧ TokenAt rest i other := by
  constructor
  · rintro ⟨front, back, same, rfl, nonempty', inside', before, behind⟩
    cases last : front.getLast? with
    | none =>
      obtain rfl := List.getLast?_eq_none_iff.mp last
      have longest := takeWhile_part inside' behind
      rw [show other ++ back = token ++ rest from same.symm, takeWhile_part inside stop] at longest
      exact .inl ⟨rfl, longest.symm⟩
    | some d =>
      have ends := before d last
      rw [List.append_assoc] at same
      rcases List.append_eq_append_iff.mp same with ⟨front', rfl, rfl⟩ | ⟨within, rfl, -⟩
      · refine .inr ⟨front'.length, List.length_append, front', back, (List.append_assoc ..).symm, rfl, nonempty', inside', ?_, behind⟩
        intro a final
        rw [List.getLast?_append, Option.mem_def.mp final] at before
        exact before a rfl
      · have member : d ∈ front ++ within := List.mem_append_left within (List.mem_of_getLast? last)
        rw [inside d member] at ends
        cases ends
  · rintro (⟨rfl, rfl⟩ | ⟨i, rfl, front, back, rfl, rfl, nonempty', inside', before, behind⟩)
    · exact ⟨[], rest, rfl, rfl, nonempty, inside, nofun, stop⟩
    · refine ⟨token ++ front, back, by simp, by simp, nonempty', inside', ?_, behind⟩
      cases last : front.getLast? with
      | none =>
        obtain rfl := List.getLast?_eq_none_iff.mp last
        obtain ⟨b, other, rfl⟩ := List.exists_cons_of_ne_nil nonempty'
        have ends := stop b rfl
        rw [inside' b List.mem_cons_self] at ends
        cases ends
      | some d =>
        rw [List.getLast?_append, last]
        rintro _ ⟨⟩
        exact before d last

theorem mem_startsFrom : i ∈ startsFrom c k s ↔ ∃ start token, i = k + start ∧ TokenAt s start token ∧ isClassEnum c token = true := by
  induction s using tokens_induction generalizing k with
  | nil => simp [startsFrom, Pattern.globalMatchFrom, tokenAt_nil]
  | delimiter a s ends ih =>
    rw [startsFrom_delimiter c ends, ih]
    constructor
    · rintro ⟨start, token, rfl, at_, enum⟩
      exact ⟨start + 1, token, by omega, (tokenAt_delimiter ends).mpr ⟨start, rfl, at_⟩, enum⟩
    · rintro ⟨_, token, rfl, at_, enum⟩
      obtain ⟨start, rfl, there⟩ := (tokenAt_delimiter ends).mp at_
      exact ⟨start, token, by omega, there, enum⟩
  | part token rest nonempty inside stop ih =>
    have later : i ∈ startsFrom c (k + token.length) rest ↔
        ∃ start other, i = k + (token.length + start) ∧ TokenAt rest start other ∧ isClassEnum c other = true := by
      rw [ih]
      simp only [Nat.add_assoc]
    have own : i ∈ startsFrom c k (token ++ rest) ↔ (i = k ∧ isClassEnum c token = true) ∨ i ∈ startsFrom c (k + token.length) rest := by
      rw [startsFrom_token c nonempty inside stop]
      split
      · next enum => simp [enum]
      · next other => simp [other]
    rw [own, later]
    constructor
    · rintro (⟨rfl, enum⟩ | ⟨start, other, rfl, at_, enum⟩)
      · exact ⟨0, token, rfl, (tokenAt_token nonempty inside stop).mpr (.inl ⟨rfl, rfl⟩), enum⟩
      · exact ⟨token.length + start, other, rfl, (tokenAt_token nonempty inside stop).mpr (.inr ⟨start, rfl, at_⟩), enum⟩
    · rintro ⟨_, other, rfl, at_, enum⟩
      rcases (tokenAt_token nonempty inside stop).mp at_ with ⟨rfl, rfl⟩ | ⟨start, rfl, there⟩
      · exact .inl ⟨rfl, enum⟩
      · exact .inr ⟨start, other, rfl, there, enum⟩

theorem le_of_mem_startsFrom (mem : i ∈ startsFrom c k s) : k ≤ i := by
  obtain ⟨start, token, rfl, -⟩ := mem_startsFrom.mp mem
  exact Nat.le_add_right k start

theorem startsFrom_sorted (c : ASTClass) (k : Nat) (s : QString) : (startsFrom c k s).Pairwise (· < ·) := by
  induction s using tokens_induction generalizing k with
  | nil => exact List.Pairwise.nil
  | delimiter a s ends ih =>
    rw [startsFrom_delimiter c ends]
    exact ih (k + 1)
  | part token rest nonempty inside stop ih =>
    rw [startsFrom_token c nonempty inside stop]
    split
    · refine List.pairwise_cons.mpr ⟨fun i mem => ?_, ih _⟩
      have behind := le_of_mem_startsFrom mem
      have positive := List.length_pos_iff.mpr nonempty
      omega
    · exact ih _

/-- A text before some of the numbered characters. -/
def insertedBeforeFrom (text : QString) (starts : List Nat) (k : Nat) (s : QString) : QString :=
  (s.zipIdx k).flatMap fun entry => if entry.2 ∈ starts then text ++ [entry.1] else [entry.1]

theorem insertedBeforeFrom_cons (text : QString) (starts : List Nat) (k : Nat) (a : Char) (s : QString) :
    insertedBeforeFrom text starts k (a :: s) = (if k ∈ starts then text ++ [a] else [a]) ++ insertedBeforeFrom text starts (k + 1) s := rfl

theorem insertedBeforeFrom_append (text : QString) (starts : List Nat) (k : Nat) (s rest : QString) :
    insertedBeforeFrom text starts k (s ++ rest) = insertedBeforeFrom text starts k s ++ insertedBeforeFrom text starts (k + s.length) rest := by
  rw [insertedBeforeFrom, List.zipIdx_append, List.flatMap_append]
  rfl

/-- Only the places from the number of the first character on count. -/
theorem insertedBeforeFrom_congr {starts' : List Nat} (same : ∀ i, k ≤ i → (i ∈ starts ↔ i ∈ starts')) :
    insertedBeforeFrom text starts k s = insertedBeforeFrom text starts' k s := by
  refine List.flatMap_congr fun entry mem => ?_
  simp only [same entry.2 (List.le_snd_of_mem_zipIdx mem)]

theorem insertedBeforeFrom_none (behind : ∀ i ∈ starts, k + s.length ≤ i) : insertedBeforeFrom text starts k s = s := by
  induction s generalizing k with
  | nil => rfl
  | cons a s ih =>
    have absent : k ∉ starts := fun mem => absurd (behind k mem) (by simp)
    have rest := ih (k := k + 1) fun i mem => (by simpa [Nat.add_comm, Nat.add_left_comm] using behind i mem)
    rw [insertedBeforeFrom_cons, rest, if_neg absent, List.singleton_append]

/-- What is read character by character has the scope before each enum. -/
theorem qualifyFrom_eq_inserted (c : ASTClass) (className s : QString) (k : Nat) :
    qualifyFrom c className [] s = insertedBeforeFrom (className ++ "::".toList) (startsFrom c k s) k s := by
  induction s using tokens_induction generalizing k with
  | nil => rfl
  | delimiter a s ends ih =>
    have absent : k ∉ startsFrom c (k + 1) s := fun mem => absurd (le_of_mem_startsFrom mem) (by omega)
    rw [qualifyFrom_delimiter c className ends, ih (k + 1), startsFrom_delimiter c ends, insertedBeforeFrom_cons, if_neg absent,
      List.singleton_append]
  | part token rest nonempty inside stop ih =>
    rw [qualifyFrom_token c className nonempty inside stop, ih (k + token.length), startsFrom_token c nonempty inside stop,
      insertedBeforeFrom_append]
    have behind : ∀ i ∈ startsFrom c (k + token.length) rest, k + token.length ≤ i := fun i mem => le_of_mem_startsFrom mem
    split
    · obtain ⟨b, token, rfl⟩ := List.exists_cons_of_ne_nil nonempty
      have other (i : Nat) (later : k + 1 ≤ i) : i ∈ k :: startsFrom c (k + (b :: token).length) rest ↔
          i ∈ startsFrom c (k + (b :: token).length) rest := by
        rw [List.mem_cons, or_iff_right (by omega)]
      have own : insertedBeforeFrom (className ++ "::".toList) (k :: startsFrom c (k + (b :: token).length) rest) (k + 1) token = token := by
        rw [insertedBeforeFrom_congr other]
        exact insertedBeforeFrom_none fun i mem => (by simpa [Nat.add_comm, Nat.add_left_comm] using behind i mem)
      have rest : insertedBeforeFrom (className ++ "::".toList) (k :: startsFrom c (k + (b :: token).length) rest)
          (k + (b :: token).length) rest = insertedBeforeFrom (className ++ "::".toList) (startsFrom c (k + (b :: token).length) rest)
            (k + (b :: token).length) rest :=
        insertedBeforeFrom_congr fun i later => other i ((by simp : k + 1 ≤ k + (b :: token).length).trans later)
      rw [insertedBeforeFrom_cons, if_pos List.mem_cons_self, own, rest]
      simp
    · rw [insertedBeforeFrom_none behind]

/-- From the front on, what has been inserted is at its place once all before it is removed. -/
theorem removed_qualifyFrom (c : ASTClass) (className s : QString) (k : Nat) (done : QString) (place : done.length = k) :
    (startsFrom c k s).foldlM (removedAt (className ++ "::".toList)) (done ++ qualifyFrom c className [] s) = some (done ++ s) := by
  induction s using tokens_induction generalizing k done with
  | nil => rfl
  | delimiter a s ends ih =>
    have next := ih (k + 1) (done ++ [a]) (by simp [place])
    rw [List.append_assoc, List.append_assoc] at next
    rw [startsFrom_delimiter c ends, qualifyFrom_delimiter c className ends]
    exact next
  | part token rest nonempty inside stop ih =>
    have next := ih (k + token.length) (done ++ token) (by simp [place])
    rw [List.append_assoc, List.append_assoc] at next
    rw [startsFrom_token c nonempty inside stop, qualifyFrom_token c className nonempty inside stop]
    split
    · have removed : removedAt (className ++ "::".toList) (done ++ (className ++ "::".toList ++ token ++ qualifyFrom c className [] rest)) k =
          some (done ++ (token ++ qualifyFrom c className [] rest)) := by
        simp [removedAt, ← place]
      rw [List.foldlM_cons, removed]
      exact next
    · exact next

/-- The scope is before the longest parts that are enums and nowhere else, and the type is what remains without it. -/
theorem fullyQualifiedName_exact (c : ASTClass) (className typeName : QString) :
    fullyQualifiedName c className typeName = fullyQualifiedNameLoop c className typeName ∧
      ∃ starts : List Nat, starts.Pairwise (· < ·) ∧
        (∀ start, start ∈ starts ↔ ∃ token, TokenAt typeName start token ∧ isClassEnum c token = true) ∧
        fullyQualifiedNameLoop c className typeName = insertedBefore (className ++ "::".toList) starts typeName ∧
        starts.foldlM (removedAt (className ++ "::".toList)) (fullyQualifiedNameLoop c className typeName) = some typeName := by
  have loop := fullyQualifiedName_eq_loop c className typeName
  refine ⟨loop, startsFrom c 0 typeName, startsFrom_sorted c 0 typeName, fun start => ?_, ?_, ?_⟩
  · rw [mem_startsFrom]
    constructor
    · rintro ⟨place, token, rfl, found⟩
      exact ⟨token, by rwa [Nat.zero_add]⟩
    · rintro ⟨token, found⟩
      exact ⟨start, token, (Nat.zero_add start).symm, found⟩
  · rw [← loop]
    exact qualifyFrom_eq_inserted c className typeName 0
  · rw [← loop]
    exact removed_qualifyFrom c className typeName 0 [] rfl

example : fullyQualifiedNameLoop { name := "C".toList, enums := [{ name := "E".toList }] } "C".toList "Map< E,Set<E >,EE>".toList =
    "Map< C::E,Set<C::E >,EE>".toList := by
  decide

end Places
end RemoteObjects.Repc
