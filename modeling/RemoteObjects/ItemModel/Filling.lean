import RemoteObjects.ItemModel.Replies

/-! Filling a cell whose parent is cached, where the caches have place for it. -/
namespace RemoteObjects.ItemModel
namespace CacheData

section Swap
variable {V : Type} {nodesCacheSize : Nat} {c d e x y z : CacheData V} {p : IndexList} {row : Nat} {cell : ModelIndex}

/-- Another item is in the place that the list leads to. Nothing else changes but the order in the caches along it. -/
def Swap : IndexList → CacheData V → CacheData V → CacheData V → Prop
  | [], y, _, d => d = y
  | index :: rest, y, c, d => d.item = c.item ∧ (∀ row, row ≠ index.row → d.children.find? row = c.children.find? row) ∧
      ∃ child after, c.children.find? index.row = some child ∧ d.children.find? index.row = some after ∧ Swap rest y child after

theorem Swap.trans (first : Swap p y c d) (second : Swap p z d e) : Swap p z c e := by
  induction p generalizing c d e with
  | nil => exact second
  | cons index rest ih =>
    obtain ⟨item, others, child, middle, found, there, inner⟩ := first
    obtain ⟨item', others', middle', after, there', last, inner'⟩ := second
    obtain rfl := Option.some.inj (there.symm.trans there')
    exact ⟨item'.trans item, fun row other => (others' row other).trans (others row other), child, after, found, last,
      ih inner inner'⟩

theorem Swap.reaches (swap : Swap p y c d) (reaches : Reaches (· = x) p c) : Reaches (· = y) p d := by
  induction p generalizing c d with
  | nil => exact swap
  | cons index rest ih =>
    obtain ⟨fits, child, found, deeper⟩ := reaches
    obtain ⟨item, _, child', after, found', there, inner⟩ := swap
    obtain rfl := Option.some.inj (found.symm.trans found')
    exact ⟨by rw [Fits, item]; exact fits, after, there, ih inner deeper⟩

theorem Swap.setChild {index : ModelIndex} {rest : IndexList} {child after : CacheData V}
    (found : c.children.find? index.row = some child) (swap : Swap rest y child after) :
    Swap (index :: rest) y c (c.setChild index.row after) := by
  refine ⟨rfl, fun row other => ?_, child, after, found, ?_, swap⟩
  · rw [setChild_find?, if_neg other]
  · rw [setChild_find?, if_pos rfl]

theorem Reaches.find? (reaches : Reaches (· = x) p c) (rows : List Nat) : c.find? (rowsOf p ++ rows) = x.find? rows := by
  obtain ⟨below, found, rfl⟩ := reaches.find
  rw [find?_append, found]
  rfl

theorem swap_modify {f : CacheData V → Except Failure (CacheData V)} (reaches : Reaches (· = x) p c) (made : f x = .ok y) :
    ∃ d, c.modify f (rowsOf p) = .ok d ∧ Swap p y c d := by
  induction p generalizing c with
  | nil =>
    obtain rfl := reaches
    exact ⟨y, made, rfl⟩
  | cons index rest ih =>
    obtain ⟨_, child, found, deeper⟩ := reaches
    obtain ⟨after, modified, swap⟩ := ih deeper
    refine ⟨c.setChild index.row after, ?_, .setChild found swap⟩
    rw [rowsOf, List.map_cons, CacheData.modify, found]
    exact bind_ok.mpr ⟨after, modified, rfl⟩

theorem modify_append (f : CacheData V → Except Failure (CacheData V)) (rows more : List Nat) (c : CacheData V) :
    c.modify f (rows ++ more) = c.modify (fun x => x.modify f more) rows := by
  induction rows generalizing c with
  | nil => rfl
  | cons row rows ih =>
    rw [List.cons_append, CacheData.modify, CacheData.modify]
    split
    · rfl
    · rw [ih]

theorem swap_touch (rows : List Nat) (reaches : Reaches (· = x) p c) : Swap p (x.touch rows) c (c.touch (rowsOf p ++ rows)) := by
  induction p generalizing c with
  | nil =>
    obtain rfl := reaches
    rfl
  | cons index rest ih =>
    obtain ⟨_, child, found, deeper⟩ := reaches
    rw [rowsOf, List.map_cons, List.cons_append, CacheData.touch, found]
    exact .setChild found (ih deeper)

/-- How the list with another index behind it is resolved. -/
theorem swap_resolve {isRoot : Bool} (reaches : Reaches (· = x) p c) (fits : x.Fits cell)
    (made : x.ensureWhen nodesCacheSize (!(isRoot && p.isEmpty)) cell.row = .ok y) :
    ∃ d, c.resolve nodesCacheSize false isRoot (p ++ [cell]) = .ok (true, d) ∧ Swap p y c d := by
  induction p generalizing c isRoot with
  | nil =>
    obtain rfl := reaches
    refine ⟨y, ?_, rfl⟩
    rw [List.isEmpty_nil, Bool.and_true] at made
    rw [List.nil_append, CacheData.resolve]
    have inside : cell.row < c.item.rowCount ∧ cell.column < c.item.columnCount := fits
    refine bind_ok.mpr ⟨c, rfl, ?_⟩
    rw [if_pos inside]
    exact bind_ok.mpr ⟨y, made, rfl⟩
  | cons index rest ih =>
    obtain ⟨⟨inRow, inColumn⟩, child, found, deeper⟩ := reaches
    obtain ⟨after, resolved, swap⟩ := @ih child false deeper (by simpa using made)
    refine ⟨c.setChild index.row after, ?_, .setChild found swap⟩
    rw [List.cons_append, CacheData.resolve]
    refine bind_ok.mpr ⟨c, rfl, ?_⟩
    rw [if_pos ⟨inRow, inColumn⟩]
    refine bind_ok.mpr ⟨c, ensureWhen_cached (by simp [found]), ?_⟩
    cases more : rest ++ [cell] with
    | nil => exact absurd more (List.append_ne_nil_of_right_ne_nil _ (List.cons_ne_nil _ _))
    | cons next later =>
      dsimp only
      rw [found]
      rw [more] at resolved
      exact bind_ok.mpr ⟨(true, after), resolved, rfl⟩

/-- Behind it there are the items of the new one, and elsewhere those that were there. -/
theorem Swap.item? (swap : Swap p y c d) : (∀ rows, d.item? (rowsOf p ++ rows) = y.item? rows) ∧
    ∀ path, ¬ rowsOf p <+: path → d.item? path = c.item? path := by
  induction p generalizing c d with
  | nil => exact ⟨fun rows => by rw [show d = y from swap]; rfl, fun path other => absurd List.nil_prefix other⟩
  | cons index rest ih =>
    obtain ⟨item, others, child, after, found, there, inner⟩ := swap
    obtain ⟨inside, outside⟩ := ih inner
    constructor
    · intro rows
      rw [rowsOf, List.map_cons, List.cons_append, item?_cons, there]
      exact inside rows
    · intro path other
      cases path with
      | nil => exact congrArg some item
      | cons key path =>
        rw [item?_cons, item?_cons]
        by_cases same : key = index.row
        · subst same
          rw [there, found]
          exact outside path fun within => other (List.cons_prefix_cons.mpr ⟨rfl, within⟩)
        · rw [others key same]

end Swap

section Fill
variable {V : Type} {nodesCacheSize : Nat} {c d x y z a b : CacheData V} {p : IndexList} {row : Nat} {cell : ModelIndex}

/-- A child is in the row, and nothing else changes. -/
structure Puts (row : Nat) (child x y : CacheData V) : Prop where
  item : y.item = x.item
  others : ∀ other, other ≠ row → y.children.find? other = x.children.find? other
  there : y.children.find? row = some child

theorem Puts.trans (first : Puts row a x y) (second : Puts row b y z) : Puts row b x z where
  item := second.item.trans first.item
  others other differs := (second.others other differs).trans (first.others other differs)
  there := second.there

theorem puts_setChild (x : CacheData V) (row : Nat) (child : CacheData V) : Puts row child x (x.setChild row child) where
  item := rfl
  others other differs := by rw [setChild_find?, if_neg differs]
  there := by rw [setChild_find?, if_pos rfl]

/-- There is place for the row in the cache, or it is there. -/
def Open (row : Nat) (x : CacheData V) : Prop :=
  (x.children.find? row).isSome ∨ x.children.cachedItems.length < x.children.cacheSize

/-- The child that `ensureChildren` leaves in the row. -/
def ensured (nodesCacheSize row : Nat) (x : CacheData V) : CacheData V := (x.children.find? row).getD (new nodesCacheSize)

theorem puts_ensureChildren (nodesCacheSize : Nat) (place : x.Open row) :
    ∃ y, x.ensureChildren nodesCacheSize row = .ok y ∧ Puts row (x.ensured nodesCacheSize row) x y := by
  cases found : x.children.find? row with
  | some child =>
    have contained : x.children.contains row := by rw [LruCache.contains, found]; rfl
    refine ⟨x, if_pos contained, rfl, fun _ _ => rfl, ?_⟩
    rw [ensured, found]
    rfl
  | none =>
    have fits : ((row, new nodesCacheSize) :: x.children.cachedItems).length ≤ x.children.cacheSize := by
      obtain there | room := place
      · rw [found] at there
        contradiction
      · exact room
    have missing : ¬ x.children.contains row := by rw [LruCache.contains, found]; simp
    refine ⟨{ x with children := ⟨(row, new nodesCacheSize) :: x.children.cachedItems, x.children.cacheSize⟩ }, ?_, rfl, ?_, ?_⟩
    · rw [CacheData.ensureChildren, if_neg missing]
      exact bind_ok.mpr ⟨(_, none), if_pos fits, rfl⟩
    · intro other differs
      exact (LruCache.find?_cons _ _).trans (if_neg (Ne.symm differs))
    · rw [ensured, found]
      exact (LruCache.find?_cons _ _).trans (if_pos rfl)

/-- What is ensured once more stays as it is. -/
theorem ensureWhen_then (made : x.ensureChildren nodesCacheSize row = .ok z) (there : z.children.find? row = some a) (ensures : Bool) :
    ∃ y, x.ensureWhen nodesCacheSize ensures row = .ok y ∧ y.ensureChildren nodesCacheSize row = .ok z := by
  cases ensures with
  | false => exact ⟨x, rfl, made⟩
  | true =>
    have contained : z.children.contains row := by rw [LruCache.contains, there]; rfl
    exact ⟨z, made, if_pos contained⟩

/-- What the entry makes of an item. -/
def written (roles : List Role) (pair : IndexValuePair V) (column : Nat) (size : ItemData V → ItemData V) (item : ItemData V) :
    Except Failure (ItemData V) := do pure (size (← fillItem pair roles column item))

/-- The item at the list is found or made, in one of two places, and moves to the front. -/
theorem swap_created (reaches : Reaches (· = x) p c) (fits : x.Fits cell)
    (made : x.ensureChildren nodesCacheSize cell.row = .ok z) (there : z.children.find? cell.row = some a) :
    ∃ d, c.createCacheData nodesCacheSize (p ++ [cell]) = .ok (true, d) ∧ Swap p (z.setChild cell.row a) c d := by
  obtain ⟨y, first, second⟩ := ensureWhen_then made there (!(true && p.isEmpty))
  obtain ⟨d1, resolved, swap1⟩ := swap_resolve reaches fits first
  have reaches1 := swap1.reaches reaches
  obtain ⟨d2, ensured, swap2⟩ := swap_modify reaches1 second
  have reaches2 := swap2.reaches reaches1
  have touched : z.touch [cell.row] = z.setChild cell.row a := by
    rw [CacheData.touch, there]
    rfl
  have swap3 : Swap p (z.setChild cell.row a) d2 (d2.touch (rowsOf (p ++ [cell]))) := by
    rw [rowsOf, List.map_append, ← touched]
    exact swap_touch [cell.row] reaches2
  have found : (d2.find? (rowsOf (p ++ [cell]))).isSome := by
    rw [rowsOf, List.map_append]
    refine (congrArg Option.isSome (reaches2.find? [cell.row])).trans ?_
    rw [find?_cons, there]
    rfl
  refine ⟨_, bind_ok.mpr ⟨(true, d1), resolved, ?_⟩, swap1.trans (swap2.trans swap3)⟩
  rw [List.getLast?_concat, List.dropLast_concat]
  refine bind_ok.mpr ⟨d2, ensured, ?_⟩
  rw [found]
  rfl

/-- Its index is taken again, and it is written. -/
theorem swap_filled {pair : IndexValuePair V} {roles : List Role} {size : ItemData V → ItemData V} {after : ItemData V}
    (reaches : Reaches (· = x) p c) (fits : x.Fits cell) (made : x.ensureChildren nodesCacheSize cell.row = .ok z)
    (there : z.children.find? cell.row = some a) (here : pair.index = p ++ [cell])
    (filled : written roles pair cell.column size a.item = .ok after) :
    ∃ d, c.fillWith nodesCacheSize pair roles size = .ok d ∧
      Swap p ((z.setChild cell.row a).setChild cell.row { a with item := after }) c d := by
  obtain ⟨d3, created, swap3⟩ := swap_created reaches fits made there
  have reaches3 := swap3.reaches reaches
  have front : (z.setChild cell.row a).children.find? cell.row = some a := by rw [setChild_find?, if_pos rfl]
  have fits3 : (z.setChild cell.row a).Fits cell := by
    rw [Fits, setChild_item, (Refreshes.ensureChildren made).top]
    exact fits
  obtain ⟨d4, valid, swap4⟩ := swap_resolve reaches3 fits3 (ensureWhen_cached (by simp [front]))
  have wrote : (z.setChild cell.row a).modify (mapItem fun item => written roles pair cell.column size item) [cell.row] =
      .ok ((z.setChild cell.row a).setChild cell.row { a with item := after }) := by
    rw [CacheData.modify, front]
    exact bind_ok.mpr ⟨_, bind_ok.mpr ⟨after, filled, rfl⟩, rfl⟩
  obtain ⟨d5, modified, swap5⟩ := swap_modify (swap4.reaches reaches3) wrote
  refine ⟨d5, ?_, swap3.trans (swap4.trans swap5)⟩
  rw [← here] at created valid
  refine bind_ok.mpr ⟨_, created, ?_⟩
  rw [here, List.getLast?_concat, ← here]
  refine bind_ok.mpr ⟨d4, validQModelIndex_ok.mpr valid, ?_⟩
  rw [here, rowsOf, List.map_append]
  exact (modify_append _ _ _ _).trans modified

theorem swap_fillWith {pair : IndexValuePair V} {roles : List Role} {size : ItemData V → ItemData V} {after : ItemData V}
    (reaches : Reaches (· = x) p c) (fits : x.Fits cell) (place : x.Open cell.row) (here : pair.index = p ++ [cell])
    (filled : written roles pair cell.column size (x.ensured nodesCacheSize cell.row).item = .ok after) :
    ∃ d y, c.fillWith nodesCacheSize pair roles size = .ok d ∧ Swap p y c d ∧
      Puts cell.row { x.ensured nodesCacheSize cell.row with item := after } x y := by
  obtain ⟨z, made, puts⟩ := puts_ensureChildren nodesCacheSize place
  obtain ⟨d, fill, swap⟩ := swap_filled reaches fits made puts.there here filled
  exact ⟨d, _, fill, swap, (puts.trans (puts_setChild _ _ _)).trans (puts_setChild _ _ _)⟩

/-- One item is another one then, and all others are as they were. -/
theorem fillWith_item? {pair : IndexValuePair V} {roles : List Role} {size : ItemData V → ItemData V} {after : ItemData V}
    (reaches : Reaches (· = x) p c) (fits : x.Fits cell) (place : x.Open cell.row) (here : pair.index = p ++ [cell])
    (filled : written roles pair cell.column size (x.ensured nodesCacheSize cell.row).item = .ok after) :
    ∃ d, c.fillWith nodesCacheSize pair roles size = .ok d ∧
      ∀ path, d.item? path = if path = rowsOf pair.index then some after else c.item? path := by
  obtain ⟨d, y, made, swap, puts⟩ := swap_fillWith reaches fits place here filled
  refine ⟨d, made, fun path => ?_⟩
  obtain ⟨inside, outside⟩ := swap.item?
  rw [here, rowsOf, List.map_append, ← rowsOf]
  by_cases within : rowsOf p <+: path
  · obtain ⟨rows, rfl⟩ := within
    have before : c.item? (rowsOf p ++ rows) = x.item? rows := by rw [item?, reaches.find?, item?]
    rw [inside, before]
    cases rows with
    | nil =>
      rw [if_neg (by simp)]
      exact congrArg some puts.item
    | cons key rows =>
      rw [item?_cons, item?_cons]
      by_cases same : key = cell.row
      · subst same
        rw [puts.there]
        cases rows with
        | nil =>
          exact (if_pos rfl).symm
        | cons next rows =>
          rw [if_neg (by simp), ensured]
          cases found : x.children.find? cell.row <;> rfl
      · rw [puts.others key same, if_neg (by simp [same])]
  · rw [outside path within, if_neg]
    rintro rfl
    exact within (List.prefix_append _ _)

end Fill

section Sound
variable {V : Type} {nodesCacheSize own row : Nat} {c d child : CacheData V} {rows : List Nat}

/-- The caches of all items have different keys, and no more of them than their sizes. The size of the top is its own. -/
def Sound (nodesCacheSize own : Nat) (c : CacheData V) : Prop :=
  ∀ rows x, c.find? rows = some x → x.children.Sound (if rows = [] then own else nodesCacheSize)

theorem sound_iff : Sound nodesCacheSize own c ↔
    c.children.Sound own ∧ ∀ row child, c.children.find? row = some child → Sound nodesCacheSize nodesCacheSize child := by
  constructor
  · intro sound
    refine ⟨sound [] c rfl, fun row child found rows x there => ?_⟩
    rw [ite_self]
    have below := sound (row :: rows) x (by rw [find?_cons, found]; exact there)
    rwa [if_neg (List.cons_ne_nil _ _)] at below
  · rintro ⟨top, below⟩ rows x there
    cases rows with
    | nil =>
      obtain rfl := Option.some.inj there
      exact top
    | cons row rows =>
      rw [find?_cons] at there
      obtain ⟨child, found, there⟩ := Option.bind_eq_some_iff.mp there
      have sound := below row child found rows x there
      rwa [ite_self] at sound

theorem sound_new : Sound nodesCacheSize nodesCacheSize (new nodesCacheSize : CacheData V) :=
  sound_iff.mpr ⟨.empty nodesCacheSize, nofun⟩

theorem Sound.setChild {before : CacheData V} (sound : Sound nodesCacheSize own c) (found : c.children.find? row = some before)
    (child_sound : Sound nodesCacheSize nodesCacheSize child) : Sound nodesCacheSize own (c.setChild row child) := by
  obtain ⟨top, below⟩ := sound_iff.mp sound
  refine sound_iff.mpr ⟨top.front found, fun key other there => ?_⟩
  rw [setChild_find?] at there
  split at there
  · obtain rfl := Option.some.inj there
    exact child_sound
  · exact below key other there

theorem Sound.ensureChildren (sound : Sound nodesCacheSize own c) (ensured : c.ensureChildren nodesCacheSize row = .ok d) :
    Sound nodesCacheSize own d := by
  rw [CacheData.ensureChildren] at ensured
  split at ensured
  · cases ensured
    exact sound
  · rename_i missing
    obtain ⟨⟨children, victim⟩, made, same⟩ := bind_ok.mp ensured
    cases same
    obtain ⟨top, below⟩ := sound_iff.mp sound
    refine sound_iff.mpr ⟨top.ensure (by simpa [LruCache.contains] using missing) made, fun key other there => ?_⟩
    obtain ⟨_, rfl⟩ | ⟨_, before⟩ := LruCache.find?_ensure made there
    · exact sound_new
    · exact below key other before

theorem Sound.ensureWhen {ensures : Bool} (sound : Sound nodesCacheSize own c)
    (ensured : c.ensureWhen nodesCacheSize ensures row = .ok d) : Sound nodesCacheSize own d := by
  rw [CacheData.ensureWhen] at ensured
  split at ensured
  · exact sound.ensureChildren ensured
  · cases ensured
    exact sound

theorem Sound.below (sound : Sound nodesCacheSize own c) (found : c.children.find? row = some child) :
    Sound nodesCacheSize nodesCacheSize child := (sound_iff.mp sound).2 row child found

theorem Sound.touch (sound : Sound nodesCacheSize own c) (rows : List Nat) : Sound nodesCacheSize own (c.touch rows) := by
  induction rows generalizing c own with
  | nil => exact sound
  | cons row rows ih =>
    rw [CacheData.touch]
    split
    · exact sound
    · rename_i child found
      exact sound.setChild found (ih (sound.below found))

theorem Sound.resolve {ensureItem isRoot ok : Bool} {list : IndexList} (sound : Sound nodesCacheSize own c)
    (resolved : c.resolve nodesCacheSize ensureItem isRoot list = .ok (ok, d)) : Sound nodesCacheSize own d := by
  induction list generalizing c d own isRoot with
  | nil =>
    cases resolved
    exact sound
  | cons index rest ih =>
    obtain ⟨first, ensured, ⟨_, _, rfl⟩ | ⟨_, second, again, last⟩⟩ := resolve_cons resolved
    · exact sound.ensureWhen ensured
    · replace sound := (sound.ensureWhen ensured).ensureWhen again
      obtain ⟨_, _, rfl⟩ | ⟨_, _, _, rfl⟩ | ⟨_, child, below, found, deeper, rfl⟩ := last
      · exact sound
      · exact sound
      · exact sound.setChild found (ih (sound.below found) deeper)

theorem Sound.modify {f : CacheData V → Except Failure (CacheData V)} (sound : Sound nodesCacheSize own c)
    (keeps : ∀ {own before after}, Sound nodesCacheSize own before → f before = .ok after → Sound nodesCacheSize own after)
    (modified : c.modify f rows = .ok d) : Sound nodesCacheSize own d := by
  induction rows generalizing c d own with
  | nil => exact keeps sound modified
  | cons row rows ih =>
    rw [CacheData.modify] at modified
    split at modified
    · contradiction
    · rename_i child found
      obtain ⟨below, inner, same⟩ := bind_ok.mp modified
      cases same
      exact sound.setChild found (ih (sound.below found) inner)

theorem Sound.fillWith {pair : IndexValuePair V} {roles : List Role} {size : ItemData V → ItemData V}
    (sound : Sound nodesCacheSize own c) (filled : c.fillWith nodesCacheSize pair roles size = .ok d) :
    Sound nodesCacheSize own d := by
  obtain ⟨⟨created, middle⟩, made, rest⟩ := bind_ok.mp filled
  replace sound : Sound nodesCacheSize own middle := by
    obtain ⟨⟨ok, first⟩, resolved, made⟩ := bind_ok.mp made
    replace sound := sound.resolve resolved
    dsimp only at made
    split at made
    · obtain ⟨last, ensured, same⟩ := bind_ok.mp made
      cases same
      exact (sound.modify .ensureChildren ensured).touch _
    · contradiction
    · cases made
      exact sound
  dsimp only at rest
  split at rest
  · obtain ⟨again, resolved, modified⟩ := bind_ok.mp rest
    apply (sound.resolve (validQModelIndex_ok.mp resolved)).modify _ modified
    intro own before after sound changed
    obtain ⟨item, _, same⟩ := bind_ok.mp changed
    cases same
    obtain ⟨top, below⟩ := sound_iff.mp sound
    exact sound_iff.mpr ⟨top, below⟩
  · cases rest
    exact sound

end Sound
end CacheData
end RemoteObjects.ItemModel
