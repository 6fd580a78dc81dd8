import Mathlib.Data.List.Nodup

/-! The cache of the children of an item: their rows as keys, the one used last in front. -/
namespace RemoteObjects.ItemModel

/-- Where the code stops or leaves what the language defines. -/
inductive Failure
  /-- `toQModelIndex` without `ok` at an index that is not valid. -/
  | qFatal
  | nullItem
  /-- A pointer to an item that is deleted is followed. -/
  | deadItem
  | assertion
  /-- A position behind the end of a list. -/
  | outOfRange
  /-- `cleanCache` reads the entry at `rend`. -/
  | pastTheEnd
  /-- `cleanCache` goes on with the iterator of an entry that it has erased. -/
  | erasedIterator
deriving DecidableEq, Repr

/-- A computation with a second part ends if both parts do. -/
theorem bind_ok {ε α β : Type} {x : Except ε α} {f : α → Except ε β} {result : β} :
    x >>= f = .ok result ↔ ∃ a, x = .ok a ∧ f a = .ok result := by
  cases x with
  | error e => exact iff_of_false nofun nofun
  | ok a => exact ⟨fun ended => ⟨a, rfl, ended⟩, fun ⟨_, same, ended⟩ => Except.ok.inj same ▸ ended⟩

/-- It fails if one of the parts does. -/
theorem bind_error {ε α β : Type} {x : Except ε α} {f : α → Except ε β} {failure : ε} :
    x >>= f = .error failure ↔ x = .error failure ∨ ∃ a, x = .ok a ∧ f a = .error failure := by
  cases x with
  | error e => exact ⟨fun failed => .inl (congrArg _ (Except.error.inj failed)), fun failed =>
      failed.elim (fun same => congrArg _ (Except.error.inj same)) nofun⟩
  | ok a => exact ⟨fun failed => .inr ⟨a, rfl, failed⟩, fun failed =>
      failed.elim nofun fun ⟨_, same, failed⟩ => Except.ok.inj same ▸ failed⟩

theorem ok_bind {ε α β : Type} {a : α} {f : α → Except ε β} : (Except.ok a >>= f) = f a := rfl

/-- `LRUCache` with rows as keys. The map has each key of the list once, with its position there; both are one list. -/
structure LruCache (α : Type) where
  cachedItems : List (Nat × α)
  cacheSize : Nat
deriving DecidableEq

namespace LruCache
variable {α : Type}

def empty (cacheSize : Nat) : LruCache α := ⟨[], cacheSize⟩

def keys (c : LruCache α) : List Nat := c.cachedItems.map Prod.fst

/-- The value of a key, where nothing moves. -/
def find? (c : LruCache α) (key : Nat) : Option α := (c.cachedItems.find? fun item => item.1 = key).map Prod.snd

def contains (c : LruCache α) (key : Nat) : Bool := (c.find? key).isSome

def erase (c : LruCache α) (key : Nat) : LruCache α :=
  { c with cachedItems := c.cachedItems.filter fun item => item.1 ≠ key }

/-- The entry moves to the front, with what is written through the pointer that `get` returns. -/
def front (c : LruCache α) (key : Nat) (value : α) : LruCache α :=
  { c with cachedItems := (key, value) :: (c.erase key).cachedItems }

/-- What `cleanCache` deletes: the entry without children that was used least recently. -/
def victim? (hasChildren : α → Bool) (c : LruCache α) : Option (Nat × α) :=
  c.cachedItems.reverse.find? fun item => !hasChildren item.2

/-- An entry with children is skipped, and the test for the end comes behind the access. Once an entry is erased, the
iterator of the loop is that entry's. -/
def cleanCache (hasChildren : α → Bool) (c : LruCache α) : Except Failure (LruCache α × Option α) :=
  if c.cachedItems.length ≤ c.cacheSize then .ok (c, none)
  else match c.victim? hasChildren with
    | none => .error .pastTheEnd
    | some (key, value) =>
      let cleaned := c.erase key
      if cleaned.cachedItems.length ≤ c.cacheSize then .ok (cleaned, some value) else .error .erasedIterator

/-- The cache behind it, and the value that is to be deleted. -/
def ensure (hasChildren : α → Bool) (key : Nat) (value : α) (c : LruCache α) : Except Failure (LruCache α × Option α) :=
  cleanCache hasChildren { c with cachedItems := (key, value) :: c.cachedItems }

/-- Where `changeKeys` moves a key. -/
def movedKey (key : Nat) (delta : Int) (row : Nat) : Nat := if key ≤ row then (row + delta).toNat else row

def changeKeys (key : Nat) (delta : Int) (c : LruCache α) : LruCache α :=
  { c with cachedItems := c.cachedItems.map fun item => (movedKey key delta item.1, item.2) }

def insert (hasChildren : α → Bool) (key : Nat) (value : α) (c : LruCache α) : Except Failure (LruCache α × Option α) :=
  (c.changeKeys key 1).ensure hasChildren key value

def remove (key : Nat) (c : LruCache α) : LruCache α := (c.erase key).changeKeys key (-1)

section Lookup
variable {c d : LruCache α} {key other : Nat} {value found : α} {hasChildren : α → Bool} {victim : Option α}

@[simp] theorem find?_empty (cacheSize : Nat) : (empty cacheSize : LruCache α).find? key = none := rfl

theorem find?_cons (items : List (Nat × α)) (cacheSize : Nat) :
    find? ⟨(other, value) :: items, cacheSize⟩ key = if other = key then some value else find? ⟨items, cacheSize⟩ key := by
  by_cases same : other = key <;> simp [find?, same]

theorem find?_filter (p : Nat × α → Bool) (items : List (Nat × α)) (cacheSize : Nat)
    (decided : ∀ item ∈ items, item.1 = key → p item = true) :
    find? ⟨items.filter p, cacheSize⟩ key = find? ⟨items, cacheSize⟩ key := by
  induction items with
  | nil => rfl
  | cons item items ih =>
    have ih := ih fun item there => decided item (List.mem_cons_of_mem _ there)
    obtain ⟨row, value⟩ := item
    rw [List.filter_cons, find?_cons]
    by_cases same : row = key
    · rw [if_pos same, if_pos (decided _ List.mem_cons_self same), find?_cons, if_pos same]
    · rw [if_neg same]
      split
      · rw [find?_cons, if_neg same, ih]
      · exact ih

@[simp] theorem find?_erase : (c.erase key).find? other = if other = key then none else c.find? other := by
  split
  · rename_i same
    subst same
    simp [find?, erase]
  · rename_i differ
    apply find?_filter
    intro item _ same
    simp [same, differ]

@[simp] theorem find?_front : (c.front key value).find? other = if other = key then some value else c.find? other := by
  rw [front, find?_cons]
  by_cases same : other = key
  · rw [if_pos same, if_pos same.symm]
  · rw [if_neg same, if_neg (Ne.symm same)]
    exact find?_erase.trans (if_neg same)

theorem find?_mem (there : c.find? key = some value) : (key, value) ∈ c.cachedItems := by
  obtain ⟨item, found, rfl⟩ := Option.map_eq_some_iff.mp there
  obtain rfl : item.1 = key := by simpa using List.find?_some found
  exact List.mem_of_find?_eq_some found

/-- The two ways in which the loop of `cleanCache` goes wrong. -/
def OfCleaning (failure : Failure) : Prop := failure = .pastTheEnd ∨ failure = .erasedIterator

theorem ensure_error {failure : Failure} (failed : c.ensure hasChildren key value = .error failure) : OfCleaning failure := by
  rw [ensure, cleanCache] at failed
  split at failed
  · contradiction
  · split at failed
    · exact .inl (Except.error.inj failed).symm
    · dsimp only at failed
      split at failed
      · contradiction
      · exact .inr (Except.error.inj failed).symm

/-- A key that is found without the victim's deletion is the new one or an old one. -/
theorem cleanCache_spec (cleaned : c.cleanCache hasChildren = .ok (d, victim)) :
    d.cacheSize = c.cacheSize ∧ (d = c ∨ ∃ key value, c.victim? hasChildren = some (key, value) ∧ d = c.erase key) := by
  rw [cleanCache] at cleaned
  split at cleaned
  · cases cleaned
    exact ⟨rfl, .inl rfl⟩
  · split at cleaned
    · contradiction
    · rename_i key value found
      dsimp only at cleaned
      split at cleaned
      · cases cleaned
        exact ⟨rfl, .inr ⟨key, value, found, rfl⟩⟩
      · contradiction

theorem find?_ensure (ensured : c.ensure hasChildren key value = .ok (d, victim)) (there : d.find? other = some found) :
    other = key ∧ found = value ∨ other ≠ key ∧ c.find? other = some found := by
  have before : find? ⟨(key, value) :: c.cachedItems, c.cacheSize⟩ other = some found := by
    obtain ⟨_, rfl | ⟨gone, _, _, rfl⟩⟩ := cleanCache_spec ensured
    · exact there
    · rw [find?_erase] at there
      split at there
      · contradiction
      · exact there
  rw [find?_cons] at before
  split at before
  · rename_i same
    exact .inl ⟨same.symm, (Option.some.inj before).symm⟩
  · rename_i differ
    exact .inr ⟨Ne.symm differ, before⟩

end Lookup

section Keys
variable {c d : LruCache α} {key : Nat} {value : α} {hasChildren : α → Bool} {victim : Option α}

def values (c : LruCache α) : List α := c.cachedItems.map Prod.snd

theorem find?_none : c.find? key = none ↔ key ∉ c.keys := by
  simp only [find?, keys, Option.map_eq_none_iff, List.find?_eq_none, decide_eq_true_eq, List.mem_map, not_exists, not_and]

theorem find?_some (distinct : c.keys.Nodup) : c.find? key = some value ↔ (key, value) ∈ c.cachedItems := by
  refine ⟨find?_mem, fun there => ?_⟩
  cases found : c.find? key with
  | none => exact absurd (List.mem_map_of_mem there) (find?_none.mp found)
  | some other =>
    have same := List.inj_on_of_nodup_map distinct (find?_mem found) there rfl
    rw [(Prod.mk.inj same).2]

/-- Keys that are moved by a function which keeps them apart. -/
theorem find?_map (f : Nat → Nat) (items : List (Nat × α)) (cacheSize : Nat)
    (apart : ∀ item ∈ items, f item.1 = f key → item.1 = key) :
    find? ⟨items.map fun item => (f item.1, item.2), cacheSize⟩ (f key) = find? ⟨items, cacheSize⟩ key := by
  induction items with
  | nil => rfl
  | cons item items ih =>
    obtain ⟨here, later⟩ := List.forall_mem_cons.mp apart
    rw [List.map_cons, find?_cons, ih later, find?_cons]
    by_cases same : item.1 = key
    · rw [same, if_pos rfl, if_pos rfl]
    · rw [if_neg same, if_neg (mt here same)]

/-- The keys from one on make room for it. -/
theorem find?_changeKeys_up (c : LruCache α) (key other : Nat) : (c.changeKeys key 1).find? other =
    if other < key then c.find? other else if other = key then none else c.find? (other - 1) := by
  have apart : ∀ {old}, ∀ item ∈ c.cachedItems, movedKey key 1 item.1 = movedKey key 1 old → item.1 = old := by
    intro old item _
    simp only [movedKey]
    grind
  split
  · have image : other = movedKey key 1 other := by
      simp only [movedKey]
      grind
    exact (congrArg _ image).trans (find?_map _ _ _ apart)
  · split
    · rw [find?_none]
      simp only [keys, changeKeys, List.map_map, List.mem_map, not_exists, not_and, Function.comp_apply, movedKey]
      grind
    · have image : other = movedKey key 1 (other - 1) := by
        simp only [movedKey]
        grind
      exact (congrArg _ image).trans (find?_map _ _ _ apart)

/-- The keys behind the one that is removed move up. -/
theorem find?_remove (c : LruCache α) (key other : Nat) :
    (c.remove key).find? other = c.find? (if other < key then other else other + 1) := by
  have image : other = movedKey key (-1) (if other < key then other else other + 1) := by
    simp only [movedKey]
    grind
  have moved : (c.remove key).find? other = (c.erase key).find? (if other < key then other else other + 1) := by
    apply (congrArg _ image).trans
    apply find?_map
    intro item there
    have differs : item.1 ≠ key := of_decide_eq_true (List.mem_filter.mp there).2
    simp only [movedKey]
    grind
  rw [moved, find?_erase, if_neg]
  grind

/-- One entry at most has the key. -/
theorem filter_key {items : List (Nat × α)} (distinct : (items.map Prod.fst).Nodup) (there : (key, value) ∈ items) :
    items.filter (fun item => item.1 = key) = [(key, value)] := by
  induction items with
  | nil => contradiction
  | cons item items ih =>
    obtain ⟨other, distinct⟩ := List.nodup_cons.mp distinct
    obtain rfl | later := List.mem_cons.mp there
    · have rest : items.filter (fun item => item.1 = key) = [] := by
        rw [List.filter_eq_nil_iff]
        intro item listed same
        exact other (List.mem_map.mpr ⟨item, listed, by simpa using same⟩)
      rw [List.filter_cons, rest]
      simp
    · have differs : item.1 ≠ key := fun same => other (List.mem_map.mpr ⟨_, later, same.symm⟩)
      rw [List.filter_cons, ih distinct later]
      simp [differs]

/-- What `remove` deletes, and what it leaves. -/
theorem erase_perm (c : LruCache α) (key : Nat) :
    ((c.erase key).values ++ (c.cachedItems.filter fun item => item.1 = key).map Prod.snd).Perm c.values := by
  have split := (List.filter_append_perm (fun item : Nat × α => decide (item.1 ≠ key)) c.cachedItems).map Prod.snd
  simpa [values, erase] using split

theorem erase_keys (distinct : c.keys.Nodup) : (c.erase key).keys.Nodup ∧ key ∉ (c.erase key).keys := by
  constructor
  · exact distinct.sublist (List.filter_sublist.map Prod.fst)
  · rw [← find?_none, find?_erase, if_pos rfl]

@[simp] theorem changeKeys_values (key : Nat) (delta : Int) : (c.changeKeys key delta).values = c.values := by
  rw [values, changeKeys, List.map_map]
  rfl

theorem changeKeys_keys (key : Nat) (delta : Int) : (c.changeKeys key delta).keys = c.keys.map (movedKey key delta) := by
  rw [keys, changeKeys, keys, List.map_map, List.map_map]
  rfl

theorem changeKeys_up (distinct : c.keys.Nodup) :
    (c.changeKeys key 1).keys.Nodup ∧ key ∉ (c.changeKeys key 1).keys := by
  rw [changeKeys_keys]
  constructor
  · apply distinct.map
    intro a b same
    simp only [movedKey] at same
    grind
  · simp only [List.mem_map, not_exists, not_and, movedKey]
    grind

theorem changeKeys_down (distinct : c.keys.Nodup) (without : key ∉ c.keys) : (c.changeKeys key (-1)).keys.Nodup := by
  rw [changeKeys_keys]
  apply List.Nodup.map_on _ distinct
  intro a listed b listed' same
  have differ : a ≠ key := fun same => without (same ▸ listed)
  have differ' : b ≠ key := fun same => without (same ▸ listed')
  simp only [movedKey] at same
  grind

theorem front_perm (distinct : c.keys.Nodup) (there : c.find? key = some value) : (c.front key value).values.Perm c.values := by
  have split := c.erase_perm key
  rw [filter_key distinct (find?_mem there)] at split
  exact (List.perm_append_singleton value _).symm.trans split

/-- The entries are the old ones, less the one that is to be deleted. -/
theorem cleanCache_perm (distinct : c.keys.Nodup) (cleaned : c.cleanCache hasChildren = .ok (d, victim)) :
    d.keys.Nodup ∧ d.cachedItems.length ≤ d.cacheSize ∧ (d.values ++ victim.toList).Perm c.values := by
  rw [cleanCache] at cleaned
  split at cleaned
  · rename_i fits
    cases cleaned
    refine ⟨distinct, fits, ?_⟩
    rw [Option.toList_none, List.append_nil]
  · split at cleaned
    · contradiction
    · rename_i victimKey victimValue found
      dsimp only at cleaned
      split at cleaned
      · rename_i fits
        cases cleaned
        refine ⟨(erase_keys distinct).1, fits, ?_⟩
        have there := List.mem_reverse.mp (List.mem_of_find?_eq_some found)
        have split := c.erase_perm victimKey
        rw [filter_key distinct there] at split
        exact split
      · contradiction

/-- A new key: the values are the old ones and the new one, less the one that is to be deleted. -/
theorem ensure_spec (distinct : c.keys.Nodup) (new : key ∉ c.keys) (ensured : c.ensure hasChildren key value = .ok (d, victim)) :
    d.keys.Nodup ∧ d.cachedItems.length ≤ d.cacheSize ∧ (d.values ++ victim.toList).Perm (value :: c.values) := by
  have fresh : (LruCache.keys ⟨(key, value) :: c.cachedItems, c.cacheSize⟩).Nodup := List.nodup_cons.mpr ⟨new, distinct⟩
  exact cleanCache_perm fresh ensured

/-- One entry is enough to delete for a new one. -/
theorem ensure_fails {failure : Failure} (small : c.cachedItems.length ≤ c.cacheSize)
    (failed : c.ensure hasChildren key value = .error failure) : failure = .pastTheEnd := by
  rw [ensure, cleanCache] at failed
  split at failed
  · contradiction
  · split at failed
    · exact (Except.error.inj failed).symm
    · rename_i victimKey victimValue found
      have there := List.mem_reverse.mp (List.mem_of_find?_eq_some found)
      have fewer : ((erase ⟨(key, value) :: c.cachedItems, c.cacheSize⟩ victimKey).cachedItems).length <
          ((key, value) :: c.cachedItems).length := by
        rw [erase, List.length_filter_lt_length_iff_exists]
        exact ⟨_, there, by simp⟩
      dsimp only at failed
      rw [if_pos] at failed
      · contradiction
      · rw [List.length_cons] at fewer
        exact Nat.le_trans (Nat.le_of_lt_succ fewer) small

/-- A new entry without children is there to be deleted if all others have children. -/
theorem ensure_ok (small : c.cachedItems.length ≤ c.cacheSize) (childless : hasChildren value = false) :
    ∃ d victim, c.ensure hasChildren key value = .ok (d, victim) := by
  cases ensured : c.ensure hasChildren key value with
  | ok result => exact ⟨result.1, result.2, rfl⟩
  | error failure =>
    obtain rfl := ensure_fails small ensured
    rw [ensure, cleanCache] at ensured
    split at ensured
    · contradiction
    · split at ensured
      · rename_i none
        have busy := List.find?_eq_none.mp none (key, value) (List.mem_reverse.mpr List.mem_cons_self)
        rw [childless] at busy
        contradiction
      · dsimp only at ensured
        split at ensured
        · contradiction
        · cases ensured

/-- The keys are different, and no more of them are there than the cache may have. -/
structure Sound (cacheSize : Nat) (c : LruCache α) : Prop where
  distinct : c.keys.Nodup
  size : c.cacheSize = cacheSize
  length : c.cachedItems.length ≤ cacheSize

variable {cacheSize : Nat}

theorem Sound.small (sound : c.Sound cacheSize) : c.cachedItems.length ≤ c.cacheSize := sound.size ▸ sound.length

theorem Sound.empty (cacheSize : Nat) : (LruCache.empty cacheSize : LruCache α).Sound cacheSize := ⟨.nil, rfl, Nat.zero_le _⟩

theorem Sound.front {old : α} (sound : c.Sound cacheSize) (there : c.find? key = some old) :
    (c.front key value).Sound cacheSize := by
  obtain ⟨distinct, new⟩ := erase_keys sound.distinct
  refine ⟨List.nodup_cons.mpr ⟨new, distinct⟩, sound.size, Nat.le_trans (Nat.succ_le_of_lt ?_) sound.length⟩
  rw [erase, List.length_filter_lt_length_iff_exists]
  exact ⟨_, find?_mem there, by simp⟩

theorem Sound.ensure (sound : c.Sound cacheSize) (new : c.find? key = none)
    (ensured : c.ensure hasChildren key value = .ok (d, victim)) : d.Sound cacheSize := by
  obtain ⟨distinct, length, _⟩ := ensure_spec sound.distinct (find?_none.mp new) ensured
  have size : d.cacheSize = cacheSize := (cleanCache_spec ensured).1.trans sound.size
  exact ⟨distinct, size, size ▸ length⟩

end Keys
end LruCache
end RemoteObjects.ItemModel
