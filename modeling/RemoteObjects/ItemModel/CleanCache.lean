import RemoteObjects.ItemModel.LruCache

/-! The loop of `cleanCache` with its iterator, and when it neither leaves the list nor follows an entry that it has erased. -/
namespace RemoteObjects.ItemModel

section Model
variable {α : Type}

/-- A reverse iterator of `cachedItems`: it is at the entry with so many entries behind it, at `rend` when all of them are;
or the element that it is based on has been erased. -/
inductive ReverseIterator
  | offset (behind : Nat)
  | erased
deriving DecidableEq

/-- The list while the loop runs. -/
structure Cleaning (α : Type) where
  cachedItems : List (Nat × α)
  cacheSize : Nat
  it : ReverseIterator
  deleted : List α := []
deriving DecidableEq

namespace Cleaning
variable (hasChildren : α → Bool)

/-- The condition of the inner loop reads the entry before it compares the iterator with `rend`. -/
def skipFrom : List (Nat × α) → Nat → Except Failure Nat
  | [], _ => .error .pastTheEnd
  | item :: items, behind => if hasChildren item.2 then skipFrom items (behind + 1) else .ok behind

/-- The inner loop. -/
def skip (c : Cleaning α) : Except Failure Nat :=
  match c.it with
  | .offset behind => skipFrom hasChildren (c.cachedItems.reverse.drop behind) behind
  | .erased => .error .erasedIterator

/-- `(++it).base()` is the entry that `it` was at, and that is what is erased. -/
def eraseAt (c : Cleaning α) (behind : Nat) : Cleaning α :=
  { c with
    cachedItems := c.cachedItems.eraseIdx (c.cachedItems.length - 1 - behind)
    it := .erased
    deleted := c.deleted ++ (c.cachedItems[c.cachedItems.length - 1 - behind]?.map Prod.snd).toList }

/-- The outer loop, as long as there is fuel. -/
def loop : Nat → Cleaning α → Except Failure (Option (Cleaning α))
  | 0, _ => .ok none
  | fuel + 1, c =>
    if c.cacheSize < c.cachedItems.length then do
      let behind ← c.skip hasChildren
      if behind = c.cachedItems.length then pure (some { c with it := .offset behind })
      else loop fuel (c.eraseAt behind)
    else .ok (some c)

end Cleaning

namespace LruCache
variable (hasChildren : α → Bool) (c : LruCache α)

/-- `cleanCache`, with fuel for an erasure of each entry. -/
def cleanLoop : Except Failure (Option (Cleaning α)) :=
  Cleaning.loop hasChildren (c.cachedItems.length + 1) { cachedItems := c.cachedItems, cacheSize := c.cacheSize, it := .offset 0 }

def setCacheSize (rootCacheSize : Nat) : Except Failure (Option (Cleaning α)) :=
  cleanLoop hasChildren { c with cacheSize := rootCacheSize }

end LruCache
end Model

section Statement
variable {α : Type} (hasChildren : α → Bool)

/-- The loop ends without a wrong access, deletes entries without children only, and leaves no more than the cache may
have unless the others all have children. -/
def CleansSafely (c : LruCache α) (result : Except Failure (Option (Cleaning α))) : Prop :=
  ∃ d, result = .ok (some d) ∧ (∀ value ∈ d.deleted, hasChildren value = false) ∧
    (d.cachedItems.map Prod.snd ++ d.deleted).Perm c.values ∧
    (d.cachedItems.length ≤ d.cacheSize ∨ ∀ item ∈ d.cachedItems, hasChildren item.2 = true)

/-- Nothing is to be erased, or one entry is, and there is one without children. -/
def OneToEvict (c : LruCache α) (cacheSize : Nat) : Prop :=
  c.cachedItems.length ≤ cacheSize ∨
    c.cachedItems.length = cacheSize + 1 ∧ ∃ item ∈ c.cachedItems, hasChildren item.2 = false

end Statement

section Loop
variable {α : Type} {hasChildren : α → Bool} {items : List (Nat × α)} {n : Nat}

/-- All entries from here on have children, or the first one that has none is found. -/
theorem skipFrom_cases (hasChildren : α → Bool) (items : List (Nat × α)) (n : Nat) :
    Cleaning.skipFrom hasChildren items n = .error .pastTheEnd ∧ (∀ item ∈ items, hasChildren item.2 = true) ∨
      ∃ front item back, items = front ++ item :: back ∧ (∀ other ∈ front, hasChildren other.2 = true) ∧
        hasChildren item.2 = false ∧ Cleaning.skipFrom hasChildren items n = .ok (n + front.length) := by
  induction items generalizing n with
  | nil => exact .inl ⟨rfl, fun _ there => absurd there List.not_mem_nil⟩
  | cons item items ih =>
    rw [Cleaning.skipFrom]
    cases pinned : hasChildren item.2 with
    | false => exact .inr ⟨[], item, items, rfl, fun _ there => absurd there List.not_mem_nil, pinned, rfl⟩
    | true =>
      rw [if_pos rfl]
      obtain ⟨failed, all⟩ | ⟨front, other, back, rfl, all, free, found⟩ := ih (n + 1)
      · exact .inl ⟨failed, List.forall_mem_cons.mpr ⟨pinned, all⟩⟩
      · refine .inr ⟨item :: front, other, back, rfl, List.forall_mem_cons.mpr ⟨pinned, all⟩, free, found.trans ?_⟩
        rw [List.length_cons, Nat.add_right_comm, Nat.add_assoc]

/-- An entry of the reversed list by its place in the list. -/
theorem getElem?_behind {front back : List (Nat × α)} {item : Nat × α} (reversed : items.reverse = front ++ item :: back) :
    items = back.reverse ++ item :: front.reverse ∧ items.length - 1 - front.length = back.reverse.length := by
  have whole : items = back.reverse ++ item :: front.reverse := by
    rw [← List.reverse_reverse items, reversed, List.reverse_append, List.reverse_cons, List.append_assoc, List.singleton_append]
  refine ⟨whole, ?_⟩
  have length := congrArg List.length reversed
  rw [List.length_reverse, List.length_append, List.length_cons] at length
  rw [List.length_reverse]
  omega

/-- The first pass of the loop erases the last entry without children; the second one, if there is any, fails. -/
theorem cleanLoop_cases (hasChildren : α → Bool) (c : LruCache α) :
    c.cachedItems.length ≤ c.cacheSize ∧ c.cleanLoop hasChildren = .ok (some ⟨c.cachedItems, c.cacheSize, .offset 0, []⟩) ∨
    c.cacheSize < c.cachedItems.length ∧ (∀ item ∈ c.cachedItems, hasChildren item.2 = true) ∧
      c.cleanLoop hasChildren = .error .pastTheEnd ∨
    c.cacheSize < c.cachedItems.length ∧ ∃ front item back, c.cachedItems = front ++ item :: back ∧ hasChildren item.2 = false ∧
      (∀ other ∈ back, hasChildren other.2 = true) ∧
      c.cleanLoop hasChildren = if (front ++ back).length ≤ c.cacheSize
        then .ok (some ⟨front ++ back, c.cacheSize, .erased, [item.2]⟩) else .error .erasedIterator := by
  obtain ⟨items, cacheSize⟩ := c
  rw [LruCache.cleanLoop, Cleaning.loop]
  by_cases fits : items.length ≤ cacheSize
  · exact .inl ⟨fits, if_neg (Nat.not_lt.mpr fits)⟩
  · have more : cacheSize < items.length := Nat.lt_of_not_le fits
    rw [if_pos more]
    have start : Cleaning.skip hasChildren (⟨items, cacheSize, .offset 0, []⟩ : Cleaning α) =
        Cleaning.skipFrom hasChildren items.reverse 0 := rfl
    rw [start]
    obtain ⟨failed, all⟩ | ⟨front, item, back, reversed, all, free, found⟩ := skipFrom_cases hasChildren items.reverse 0
    · exact .inr (.inl ⟨more, fun item there => all item (List.mem_reverse.mpr there), by rw [failed]; rfl⟩)
    · obtain ⟨whole, place⟩ := getElem?_behind reversed
      refine .inr (.inr ⟨more, back.reverse, item, front.reverse, whole, free, fun other there => all other (List.mem_reverse.mp there), ?_⟩)
      have inside : front.length ≠ items.length := by
        have length := congrArg List.length reversed
        rw [List.length_reverse, List.length_append, List.length_cons] at length
        omega
      have erased : (⟨items, cacheSize, .offset 0, []⟩ : Cleaning α).eraseAt front.length =
          ⟨back.reverse ++ front.reverse, cacheSize, .erased, [item.2]⟩ := by
        have position : items[items.length - 1 - front.length]? = some item := by
          rw [place, whole, List.getElem?_append_right (Nat.le_refl _), Nat.sub_self]
          rfl
        have left : items.eraseIdx (items.length - 1 - front.length) = back.reverse ++ front.reverse := by
          rw [place, whole, List.eraseIdx_append_of_length_le (Nat.le_refl _), Nat.sub_self]
          rfl
        simp only [Cleaning.eraseAt, position, left, Option.map_some, Option.toList_some, List.nil_append]
      obtain ⟨fuel, enough⟩ := Nat.exists_eq_succ_of_ne_zero (Nat.ne_of_gt (Nat.lt_of_le_of_lt (Nat.zero_le _) more))
      rw [found, Nat.zero_add, ok_bind, if_neg inside, erased, enough, Cleaning.loop]
      by_cases left : (back.reverse ++ front.reverse).length ≤ cacheSize
      · rw [if_neg (Nat.not_lt.mpr left), if_pos left]
      · rw [if_pos (Nat.lt_of_not_le left), if_neg left]
        rfl

theorem victim?_eq {c : LruCache α} {front back : List (Nat × α)} {item : Nat × α} (whole : c.cachedItems = front ++ item :: back)
    (free : hasChildren item.2 = false) (pinned : ∀ other ∈ back, hasChildren other.2 = true) : c.victim? hasChildren = some item := by
  have skipped : back.reverse.find? (fun item => !hasChildren item.2) = none := by
    rw [List.find?_eq_none]
    intro other there
    rw [pinned other (List.mem_reverse.mp there)]
    decide
  rw [LruCache.victim?, whole, List.reverse_append, List.reverse_cons, List.append_assoc, List.find?_append, skipped, Option.none_or,
    List.singleton_append, List.find?_cons_of_pos (by rw [free]; rfl)]

/-- The cache as one list takes the same way. -/
theorem cleanLoop_refines {c : LruCache α} (distinct : c.keys.Nodup) :
    c.cleanLoop hasChildren = (c.cleanCache hasChildren).map fun (d, victim) =>
      some ⟨d.cachedItems, d.cacheSize, if victim.isSome then .erased else .offset 0, victim.toList⟩ := by
  rw [LruCache.cleanCache]
  obtain ⟨fits, same⟩ | ⟨more, all, same⟩ | ⟨more, front, item, back, whole, free, pinned, same⟩ := cleanLoop_cases hasChildren c
  · rw [if_pos fits, same]
    rfl
  · have none : c.victim? hasChildren = none := by
      rw [LruCache.victim?, List.find?_eq_none]
      intro item there
      rw [all item (List.mem_reverse.mp there)]
      decide
    rw [if_neg (Nat.not_le.mpr more), same, none]
    rfl
  · have erased : (c.erase item.1).cachedItems = front ++ back := by
      rw [LruCache.keys, whole, List.map_append, List.map_cons, List.nodup_middle, List.nodup_cons, List.mem_append, not_or] at distinct
      have others : ∀ other ∈ front ++ back, decide (other.1 ≠ item.1) = true := by
        intro other there
        refine decide_eq_true fun equal => ?_
        rcases List.mem_append.mp there with there | there
        · exact distinct.1.1 (List.mem_map.mpr ⟨other, there, equal⟩)
        · exact distinct.1.2 (List.mem_map.mpr ⟨other, there, equal⟩)
      rw [LruCache.erase, whole, List.filter_append, List.filter_cons_of_neg (by simp), ← List.filter_append,
        List.filter_eq_self.mpr others]
    rw [if_neg (Nat.not_le.mpr more), same, victim?_eq whole free pinned]
    dsimp only
    rw [erased]
    split
    · rw [← erased]
      rfl
    · rfl

end Loop

section Main
variable {α : Type}

theorem cleanLoop_safe_iff (hasChildren : α → Bool) (c : LruCache α) :
    CleansSafely hasChildren c (c.cleanLoop hasChildren) ↔ OneToEvict hasChildren c c.cacheSize := by
  obtain ⟨fits, same⟩ | ⟨more, all, same⟩ | ⟨more, front, item, back, whole, free, _, same⟩ := cleanLoop_cases hasChildren c
  · refine iff_of_true ⟨_, same, fun _ there => absurd there List.not_mem_nil, ?_, .inl fits⟩ (.inl fits)
    rw [List.append_nil]
    exact .refl _
  · refine iff_of_false (fun ⟨d, done, _⟩ => ?_) ?_
    · rw [same] at done
      cases done
    · rintro (fits | ⟨_, item, there, free⟩)
      · exact absurd fits (Nat.not_le.mpr more)
      · rw [all item there] at free
        cases free
  · have length : c.cachedItems.length = (front ++ back).length + 1 := by
      rw [whole, List.length_append, List.length_append, List.length_cons, Nat.add_assoc]
    by_cases left : (front ++ back).length ≤ c.cacheSize
    · rw [if_pos left] at same
      refine iff_of_true ⟨_, same, ?_, ?_, .inl left⟩ (.inr ⟨by omega, item, by simp [whole], free⟩)
      · rintro value there
        rw [List.mem_singleton.mp there]
        exact free
      · rw [LruCache.values, whole, List.map_append, List.map_append, List.map_cons, List.append_assoc]
        exact List.Perm.append_left _ (List.perm_append_singleton _ _)
    · rw [if_neg left] at same
      refine iff_of_false (fun ⟨d, done, _⟩ => ?_) ?_
      · rw [same] at done
        cases done
      · rintro (fits | ⟨one, _⟩)
        · exact absurd fits (Nat.not_le.mpr more)
        · omega

/-- The cache is cleaned safely if and only if at most one entry is to be erased and one is there without children. -/
theorem cache_cleaning_iff (hasChildren : α → Bool) (c : LruCache α) (rootCacheSize : Nat) :
    (CleansSafely hasChildren c (c.cleanLoop hasChildren) ↔ OneToEvict hasChildren c c.cacheSize) ∧
      (CleansSafely hasChildren c (c.setCacheSize hasChildren rootCacheSize) ↔ OneToEvict hasChildren c rootCacheSize) :=
  ⟨cleanLoop_safe_iff hasChildren c, cleanLoop_safe_iff hasChildren { c with cacheSize := rootCacheSize }⟩

/-- Two entries are to be erased; or the only one has children. -/
theorem cache_cleaning_fails :
    ¬ CleansSafely id ⟨[(0, false), (1, false), (2, false)], 3⟩
        (LruCache.setCacheSize id ⟨[(0, false), (1, false), (2, false)], 3⟩ 1) ∧
      ¬ CleansSafely id ⟨[(0, true)], 1⟩ (LruCache.setCacheSize id ⟨[(0, true)], 1⟩ 0) := by
  constructor
  · rintro ⟨d, done, -⟩
    have failed : LruCache.setCacheSize id ⟨[(0, false), (1, false), (2, false)], 3⟩ 1 = .error .erasedIterator := rfl
    rw [failed] at done
    cases done
  · rintro ⟨d, done, -⟩
    have failed : LruCache.setCacheSize id ⟨[(0, true)], 1⟩ 0 = .error .pastTheEnd := rfl
    rw [failed] at done
    cases done

end Main
end RemoteObjects.ItemModel
