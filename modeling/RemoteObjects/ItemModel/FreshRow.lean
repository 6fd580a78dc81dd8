import RemoteObjects.ItemModel.Filling

/-! Whether the row for which a cache makes place is the one that it deletes for that. -/
namespace RemoteObjects.ItemModel

section Statement
variable {V : Type}
namespace CacheData

/-- The row is there, or it is added to a cache that is not full, or to one in which some entry may be deleted. -/
def RoomFor (row : Nat) (c : CacheData V) : Prop :=
  c.children.contains row ∨ c.children.cachedItems.length < c.children.cacheSize ∨
    ∃ entry ∈ c.children.cachedItems, entry.2.item.hasChildren = false

/-- The same for the item at a list of rows. -/
def RoomAt (parent : IndexList) (row : Nat) (c : CacheData V) : Prop :=
  ∃ parentItem, c.find? (rowsOf parent) = some parentItem ∧ parentItem.RoomFor row

/-- The item of a reply's entry is in the cache with what `fillRow` has made of it. -/
def Stored (nodesCacheSize : Nat) (pair : IndexValuePair V) (roles : List Role) (column : Nat) (size : ItemData V → ItemData V)
    (c : CacheData V) : Prop :=
  ∃ d item after, c.fillWith nodesCacheSize pair roles size = .ok d ∧ fillItem pair roles column item = .ok after ∧
    d.item? (rowsOf pair.index) = some (size after)

end CacheData
end Statement

section Ensure
variable {α : Type} {c : LruCache α} {key cacheSize : Nat} {value : α} {hasChildren : α → Bool}

/-- A new entry without children is found behind `ensure`, unless the cache is full and all other entries have children: it
is the victim then. -/
theorem LruCache.Sound.ensure_new (sound : c.Sound cacheSize) (new : c.find? key = none) (childless : hasChildren value = false) :
    ∃ d victim, c.ensure hasChildren key value = .ok (d, victim) ∧
      (c.cachedItems.length < c.cacheSize ∨ (∃ entry ∈ c.cachedItems, hasChildren entry.2 = false) → d.find? key = some value) ∧
      (¬ (c.cachedItems.length < c.cacheSize ∨ ∃ entry ∈ c.cachedItems, hasChildren entry.2 = false) → d = c) := by
  have absent : ∀ entry ∈ c.cachedItems, entry.1 ≠ key := fun entry there same =>
    find?_none.mp new (same ▸ List.mem_map_of_mem there)
  have small : c.cachedItems.length ≤ c.cacheSize := sound.small
  simp only [LruCache.ensure, cleanCache, List.length_cons, Nat.succ_le_iff]
  by_cases room : c.cachedItems.length < c.cacheSize
  · rw [if_pos room]
    refine ⟨_, none, rfl, fun _ => ?_, fun full => absurd (.inl room) full⟩
    rw [find?_cons, if_pos rfl]
  · rw [if_neg room]
    -- The new entry is the last one that the loop comes to.
    have search : LruCache.victim? hasChildren ⟨(key, value) :: c.cachedItems, c.cacheSize⟩ =
        ((c.cachedItems.reverse.find? fun entry => !hasChildren entry.2).or (some (key, value))) := by
      rw [LruCache.victim?, List.reverse_cons, List.find?_append, List.find?_singleton]
      simp [childless]
    rw [search]
    cases other : c.cachedItems.reverse.find? fun entry => !hasChildren entry.2 with
    | none =>
      have pinned : ∀ entry ∈ c.cachedItems, ¬ hasChildren entry.2 = false := by simpa using other
      have erased : LruCache.erase ⟨(key, value) :: c.cachedItems, c.cacheSize⟩ key = c := by
        simp only [LruCache.erase, List.filter_cons, ne_eq, not_true_eq_false, decide_false, Bool.false_eq_true, if_false]
        rw [List.filter_eq_self.mpr fun entry there => decide_eq_true (absent entry there)]
      refine ⟨c, some value, ?_, ?_, fun _ => rfl⟩
      · simp [erased, small]
      · rintro (few | ⟨entry, there, none⟩)
        · exact absurd few room
        · exact absurd none (pinned entry there)
    | some victim =>
      obtain ⟨gone, content⟩ := victim
      have there := List.mem_reverse.mp (List.mem_of_find?_eq_some other)
      have differs : gone ≠ key := absent _ there
      have leaves : hasChildren content = false := by simpa using List.find?_some other
      have fewer : (LruCache.erase ⟨(key, value) :: c.cachedItems, c.cacheSize⟩ gone).cachedItems.length ≤ c.cacheSize := by
        have shorter : (c.cachedItems.filter fun entry => entry.1 ≠ gone).length < c.cachedItems.length :=
          List.length_filter_lt_length_iff_exists.mpr ⟨_, there, by simp⟩
        simp only [LruCache.erase, List.filter_cons, ne_eq, differs.symm, not_false_eq_true, decide_true, if_true, List.length_cons]
        exact Nat.le_trans shorter small
      refine ⟨_, some content, if_pos fewer, fun _ => ?_, fun pinned => absurd (.inr ⟨_, there, leaves⟩) pinned⟩
      rw [find?_erase, if_neg differs.symm, find?_cons, if_pos rfl]

end Ensure

section Rows
variable {V : Type} {nodesCacheSize row : Nat} {c d x : CacheData V} {p : IndexList} {cell : ModelIndex}
namespace CacheData

/-- `ensureChildren` ends with the row in the cache, or with the cache that was there. -/
theorem ensureChildren_ends (nodesCacheSize row : Nat) (sound : x.children.Sound x.children.cacheSize) :
    ∃ z, x.ensureChildren nodesCacheSize row = .ok z ∧
      (x.RoomFor row → z.children.find? row = some (x.ensured nodesCacheSize row)) ∧ (¬ x.RoomFor row → z = x) := by
  cases found : x.children.find? row with
  | some child =>
    have contained : x.children.contains row := by rw [LruCache.contains, found]; rfl
    exact ⟨x, if_pos contained, fun _ => by rw [found, ensured, found]; rfl, fun _ => rfl⟩
  | none =>
    have missing : ¬ x.children.contains row := by simp [LruCache.contains, found]
    obtain ⟨children, victim, made, kept, same⟩ := @LruCache.Sound.ensure_new _ _ _ _ (new nodesCacheSize)
      (fun child => child.item.hasChildren) sound found rfl
    refine ⟨{ x with children }, ?_, fun room => ?_, fun full => ?_⟩
    · rw [CacheData.ensureChildren, if_neg missing]
      exact bind_ok.mpr ⟨_, made, rfl⟩
    · rw [ensured, found]
      exact kept (room.resolve_left missing)
    · rw [same fun room => full (.inr room)]
      cases x
      rfl

theorem roomFor_missing (full : ¬ x.RoomFor row) : x.children.find? row = none := by
  cases found : x.children.find? row with
  | none => rfl
  | some child => exact absurd (.inl (by rw [LruCache.contains, found]; rfl)) full

/-- An item that was just made has no valid indexes below it. -/
theorem new_childless (reaches : Reaches (· = x) p (new nodesCacheSize)) : ¬ x.Fits cell := by
  cases p with
  | nil =>
    obtain rfl : new nodesCacheSize = x := reaches
    exact fun fits => Nat.not_lt_zero _ fits.1
  | cons index rest => exact absurd reaches.1.1 (Nat.not_lt_zero _)

/-- An index is valid in the item that it is reached from. -/
theorem reaches_of_valid {isRoot : Bool} (valid : c.resolve nodesCacheSize false isRoot (p ++ [cell]) = .ok (true, d)) :
    ∃ x, Reaches (· = x) p c ∧ x.Fits cell := by
  induction p generalizing c d isRoot with
  | nil =>
    obtain ⟨first, ensured, ⟨_, impossible, _⟩ | ⟨inside, _⟩⟩ := resolve_cons valid
    · contradiction
    · cases ensured
      exact ⟨c, rfl, inside⟩
  | cons index rest ih =>
    obtain ⟨first, ensured, ⟨_, impossible, _⟩ | ⟨inside, second, again, last⟩⟩ := resolve_cons valid
    · contradiction
    cases ensured
    obtain ⟨empty, _⟩ | ⟨_, _, impossible, _⟩ | ⟨_, child, below, found, deeper, _⟩ := last
    · exact absurd empty (List.append_ne_nil_of_right_ne_nil _ (List.cons_ne_nil _ _))
    · contradiction
    · obtain ⟨x, reaches, fits⟩ := ih deeper
      refine ⟨x, ⟨inside, child, ?_, reaches⟩, fits⟩
      cases isRoot with
      | true =>
        cases again
        exact found
      | false =>
        cases before : c.children.find? index.row with
        | some old =>
          obtain rfl := Except.ok.inj ((ensureWhen_cached (by simp [before])).symm.trans again)
          exact before.symm.trans found
        | none =>
          have missing : ¬ c.children.contains index.row := by simp [LruCache.contains, before]
          have again : c.ensureChildren nodesCacheSize index.row = .ok second := again
          rw [CacheData.ensureChildren, if_neg missing] at again
          obtain ⟨⟨children, victim⟩, made, same⟩ := bind_ok.mp again
          cases same
          obtain ⟨_, rfl⟩ | ⟨other, _⟩ := LruCache.find?_ensure made found
          · exact absurd fits (new_childless reaches)
          · exact absurd rfl other

/-- Where the row is the victim, `createCacheData` finds no item, and none is there then. -/
theorem swap_missing (reaches : Reaches (· = x) p c) (fits : x.Fits cell) (made : x.ensureChildren nodesCacheSize cell.row = .ok x)
    (missing : x.children.find? cell.row = none) :
    ∃ d, c.createCacheData nodesCacheSize (p ++ [cell]) = .ok (false, d) ∧ d.item? (rowsOf (p ++ [cell])) = none := by
  have first : x.ensureWhen nodesCacheSize (!(true && p.isEmpty)) cell.row = .ok x := by
    cases !(true && p.isEmpty) with
    | false => rfl
    | true => exact made
  obtain ⟨d1, resolved, swap1⟩ := swap_resolve reaches fits first
  have reaches1 := swap1.reaches reaches
  obtain ⟨d2, ensured, swap2⟩ := swap_modify reaches1 made
  have absent : d2.find? (rowsOf (p ++ [cell])) = none := by
    rw [rowsOf, List.map_append]
    refine ((swap2.reaches reaches1).find? [cell.row]).trans ?_
    rw [find?_cons, missing]
    rfl
  refine ⟨d2.touch (rowsOf (p ++ [cell])), bind_ok.mpr ⟨(true, d1), resolved, ?_⟩, ?_⟩
  · rw [List.getLast?_concat, List.dropLast_concat]
    refine bind_ok.mpr ⟨d2, ensured, ?_⟩
    rw [absent]
    rfl
  · rw [touch_item?, item?, absent]
    rfl

end CacheData
end Rows

section Main
variable {V : Type} {nodesCacheSize own : Nat} {c : CacheData V} {parent : IndexList} {cell : ModelIndex}
namespace CacheData

/-- What becomes of a valid index, by the place that there is for its row. -/
theorem roomAt_cases (sound : Sound nodesCacheSize own c) (valid : ∃ d, c.toQModelIndex nodesCacheSize (parent ++ [cell]) = .ok (true, d)) :
    ∃ x z, Reaches (· = x) parent c ∧ x.Fits cell ∧ x.ensureChildren nodesCacheSize cell.row = .ok z ∧
      (c.RoomAt parent cell.row ∧ (∃ child, z.children.find? cell.row = some child) ∨
        ¬ c.RoomAt parent cell.row ∧ z = x ∧ x.children.find? cell.row = none) := by
  obtain ⟨d, valid⟩ := valid
  obtain ⟨x, reaches, fits⟩ := reaches_of_valid valid
  obtain ⟨x', found, same⟩ := reaches.find
  subst same
  have small := sound _ _ found
  obtain ⟨z, made, kept, full⟩ := ensureChildren_ends nodesCacheSize cell.row (small.size.symm ▸ small)
  have room : c.RoomAt parent cell.row ↔ x'.RoomFor cell.row := by simp [RoomAt, found]
  refine ⟨x', z, reaches, fits, made, ?_⟩
  rw [room]
  by_cases place : x'.RoomFor cell.row
  · exact .inl ⟨place, _, kept place⟩
  · exact .inr ⟨place, full place, roomFor_missing place⟩

theorem created_iff (sound : Sound nodesCacheSize own c) (valid : ∃ d, c.toQModelIndex nodesCacheSize (parent ++ [cell]) = .ok (true, d)) :
    (∃ d, c.createCacheData nodesCacheSize (parent ++ [cell]) = .ok (true, d)) ↔ c.RoomAt parent cell.row := by
  obtain ⟨x, z, reaches, fits, made, ⟨room, child, there⟩ | ⟨full, rfl, missing⟩⟩ := roomAt_cases sound valid
  · obtain ⟨d, created, _⟩ := swap_created reaches fits made there
    exact iff_of_true ⟨d, created⟩ room
  · obtain ⟨d, created, _⟩ := swap_missing reaches fits made missing
    refine iff_of_false ?_ full
    rintro ⟨other, found⟩
    rw [created] at found
    cases found

theorem stored_iff (sound : Sound nodesCacheSize own c) (valid : ∃ d, c.toQModelIndex nodesCacheSize (parent ++ [cell]) = .ok (true, d))
    {pair : IndexValuePair V} {roles : List Role} (size : ItemData V → ItemData V) (here : pair.index = parent ++ [cell])
    (lengths : roles.length = pair.data.length) : c.Stored nodesCacheSize pair roles cell.column size ↔ c.RoomAt parent cell.row := by
  obtain ⟨x, z, reaches, fits, made, ⟨room, child, there⟩ | ⟨full, rfl, missing⟩⟩ := roomAt_cases sound valid
  · refine iff_of_true ?_ room
    obtain ⟨after, filled⟩ := fillItem_total lengths cell.column child.item
    obtain ⟨d, made, swap⟩ := swap_filled reaches fits made there here (bind_ok.mpr ⟨after, filled, rfl⟩ :
      written roles pair cell.column size child.item = .ok (size after))
    refine ⟨d, child.item, after, made, filled, ?_⟩
    rw [here, rowsOf, List.map_append]
    refine (swap.item?.1 [cell.row]).trans ?_
    rw [item?_cons, setChild_find?, if_pos rfl]
    rfl
  · obtain ⟨d, created, absent⟩ := swap_missing reaches fits made missing
    refine iff_of_false ?_ full
    rintro ⟨other, item, after, ended, _, found⟩
    rw [fillWith, here, created] at ended
    cases ended
    rw [here, absent] at found
    contradiction

/-- A row that is fetched stays in the cache, and what the reply has for it, if there is room for it. -/
theorem fetched_row_kept_iff (V : Type) (nodesCacheSize : Nat) :
    (∀ (c : CacheData V) row, c.children.Sound c.children.cacheSize →
      ((∃ d, c.ensureChildren nodesCacheSize row = .ok d ∧ d.children.contains row) ↔ c.RoomFor row)) ∧
    ∀ own (c : CacheData V) parent cell, Sound nodesCacheSize own c →
      (∃ d, c.toQModelIndex nodesCacheSize (parent ++ [cell]) = .ok (true, d)) →
      ((∃ d, c.createCacheData nodesCacheSize (parent ++ [cell]) = .ok (true, d)) ↔ c.RoomAt parent cell.row) ∧
      ∀ (pair : IndexValuePair V) roles size, pair.index = parent ++ [cell] → roles.length = pair.data.length →
        (c.Stored nodesCacheSize pair roles cell.column size ↔ c.RoomAt parent cell.row) := by
  refine ⟨fun c row sound => ?_, fun own c parent cell sound valid => ⟨created_iff sound valid, fun pair roles size =>
    stored_iff sound valid size⟩⟩
  obtain ⟨z, made, kept, full⟩ := ensureChildren_ends nodesCacheSize row sound
  by_cases room : c.RoomFor row
  · refine iff_of_true ⟨z, made, ?_⟩ room
    rw [LruCache.contains, kept room]
    rfl
  · obtain rfl := full room
    refine iff_of_false ?_ room
    rintro ⟨d, same, there⟩
    obtain rfl := Except.ok.inj (made.symm.trans same)
    rw [LruCache.contains, roomFor_missing room] at there
    contradiction

end CacheData
end Main

section Example
namespace CacheData

/-- A model of two rows of which a cache for one has the first. -/
def cachedFirst (hasChildren : Bool) : CacheData Nat :=
  ⟨⟨[], true, 1, 2⟩, ⟨[(0, ⟨⟨[], hasChildren, 0, 0⟩, .empty 1⟩)], 1⟩⟩

theorem cachedFirst_sound (hasChildren : Bool) : Sound 1 1 (cachedFirst hasChildren) := by
  refine sound_iff.mpr ⟨⟨List.nodup_singleton 0, rfl, Nat.le_refl 1⟩, fun row child found => ?_⟩
  rw [cachedFirst, LruCache.find?_cons] at found
  split at found
  · cases found
    exact sound_iff.mpr ⟨.empty 1, nofun⟩
  · contradiction

theorem second_row_kept : (∃ d, (cachedFirst false).ensureChildren 1 1 = .ok d ∧ d.children.contains 1) ∧
    (∃ d, (cachedFirst false).createCacheData 1 [⟨1, 0⟩] = .ok (true, d)) ∧
      (cachedFirst false).Stored 1 ⟨[⟨1, 0⟩], [7], false, 0, [], ⟨0, 0⟩⟩ [0] 0 id := by
  have sound := cachedFirst_sound false
  have room : (cachedFirst false).RoomFor 1 := .inr (.inr ⟨_, List.mem_cons_self, rfl⟩)
  obtain ⟨created, stored⟩ := (fetched_row_kept_iff Nat 1).2 1 (cachedFirst false) [] ⟨1, 0⟩ sound ⟨_, rfl⟩
  exact ⟨((fetched_row_kept_iff Nat 1).1 _ 1 (sound [] _ rfl)).mpr room, created.mpr ⟨_, rfl, room⟩,
    (stored _ [0] id rfl rfl).mpr ⟨_, rfl, room⟩⟩

/-- The view has expanded the first row: the second one is deleted as soon as it is made, and its reply is dropped. -/
theorem second_row_dropped : (cachedFirst true).children.Sound 1 ∧
    (∃ d, (cachedFirst true).ensureChildren 1 1 = .ok d ∧ d.children.contains 1 = false) ∧
      (∃ d, (cachedFirst true).toQModelIndex 1 [⟨1, 0⟩] = .ok (true, d)) ∧
        ∃ d, (cachedFirst true).createCacheData 1 [⟨1, 0⟩] = .ok (false, d) ∧
          (cachedFirst true).fillWith 1 ⟨[⟨1, 0⟩], [7], false, 0, [], ⟨0, 0⟩⟩ [0] id = .ok d ∧ (d.item? [1]).isNone :=
  ⟨⟨by decide, rfl, by decide⟩, ⟨_, rfl, rfl⟩, ⟨_, rfl⟩, _, rfl, rfl, rfl⟩

end CacheData
end Example
end RemoteObjects.ItemModel
