import RemoteObjects.ItemModel.Pending
import RemoteObjects.ItemModel.Requests

/-! Size and row replies whose parent may have left the cache of the replica. -/
namespace RemoteObjects.ItemModel
open Transition

section Paths
variable {V : Type} {nodesCacheSize : Nat} {c d : CacheData V} {list : IndexList}

namespace CacheData

def Fits (cell : ModelIndex) (c : CacheData V) : Prop := cell.row < c.item.rowCount ∧ cell.column < c.item.columnCount

/-- The list leads through cached items to one with the property. -/
def Reaches (P : CacheData V → Prop) : IndexList → CacheData V → Prop
  | [], c => P c
  | index :: rest, c => c.Fits index ∧ ∃ child, c.children.find? index.row = some child ∧ Reaches P rest child

/-- The items along the list are still cached, with their sizes. -/
def Along : IndexList → CacheData V → CacheData V → Prop
  | [], c, d => d.item.rowCount = c.item.rowCount ∧ d.item.columnCount = c.item.columnCount
  | index :: rest, c, d => (d.item.rowCount = c.item.rowCount ∧ d.item.columnCount = c.item.columnCount) ∧
      ∀ child, c.children.find? index.row = some child → ∃ after, d.children.find? index.row = some after ∧ Along rest child after

theorem Along.sizes (along : Along list c d) : d.item.rowCount = c.item.rowCount ∧ d.item.columnCount = c.item.columnCount := by
  cases list with
  | nil => exact along
  | cons => exact along.1

theorem Along.refl (list : IndexList) (c : CacheData V) : Along list c c := by
  induction list generalizing c with
  | nil => exact ⟨rfl, rfl⟩
  | cons index rest ih => exact ⟨⟨rfl, rfl⟩, fun child found => ⟨child, found, ih child⟩⟩

theorem Along.trans {e : CacheData V} (first : Along list c d) (second : Along list d e) : Along list c e := by
  induction list generalizing c d e with
  | nil => exact ⟨second.1.trans first.1, second.2.trans first.2⟩
  | cons index rest ih =>
    refine ⟨⟨second.1.1.trans first.1.1, second.1.2.trans first.1.2⟩, fun child found => ?_⟩
    obtain ⟨middle, there, here⟩ := first.2 child found
    obtain ⟨after, still, later⟩ := second.2 middle there
    exact ⟨after, still, ih here later⟩

theorem Along.left {more : IndexList} (along : Along (list ++ more) c d) : Along list c d := by
  induction list generalizing c d with
  | nil => exact along.sizes
  | cons index rest ih =>
    refine ⟨along.1, fun child found => ?_⟩
    obtain ⟨after, there, deeper⟩ := along.2 child found
    exact ⟨after, there, ih deeper⟩

theorem Reaches.along {P Q : CacheData V → Prop} (reaches : Reaches P list c) (along : Along list c d)
    (ends : ∀ {before after}, Along [] before after → P before → Q after) : Reaches Q list d := by
  induction list generalizing c d with
  | nil => exact ends along reaches
  | cons index rest ih =>
    obtain ⟨⟨row, column⟩, child, found, deeper⟩ := reaches
    obtain ⟨after, there, later⟩ := along.2 child found
    exact ⟨⟨along.1.1 ▸ row, along.1.2 ▸ column⟩, after, there, ih deeper later⟩

theorem reaches_append {P : CacheData V → Prop} {more : IndexList} :
    Reaches P (list ++ more) c ↔ Reaches (Reaches P more) list c := by
  induction list generalizing c with
  | nil => exact Iff.rfl
  | cons index rest ih =>
    rw [List.cons_append, Reaches, Reaches]
    simp only [ih]

/-- A child is put back. -/
theorem Along.setChild {index : ModelIndex} {rest : IndexList} {row : Nat} {before child : CacheData V}
    (found : c.children.find? row = some before) (same : row = index.row → Along rest before child) :
    Along (index :: rest) c (c.setChild row child) := by
  refine ⟨⟨rfl, rfl⟩, fun other there => ?_⟩
  rw [setChild_find?]
  split
  · rename_i equal
    subst equal
    obtain rfl := Option.some.inj (found.symm.trans there)
    exact ⟨child, rfl, same rfl⟩
  · exact ⟨other, there, .refl rest other⟩

theorem Along.touch (rows : List Nat) (list : IndexList) (c : CacheData V) : Along list c (c.touch rows) := by
  induction rows generalizing list c with
  | nil => exact .refl list c
  | cons row rows ih =>
    rw [CacheData.touch]
    split
    · exact .refl list c
    · rename_i child found
      cases list with
      | nil => exact ⟨rfl, rfl⟩
      | cons index rest => exact .setChild found fun _ => ih rest child

theorem Along.modify {f : CacheData V → Except Failure (CacheData V)} (more : List Nat)
    (modified : c.modify f (rowsOf list ++ more) = .ok d)
    (sizes : ∀ {before after}, f before = .ok after → Along [] before after) : Along list c d := by
  induction list generalizing c d with
  | nil =>
    cases more with
    | nil => exact sizes modified
    | cons row rows =>
      obtain ⟨_, _, _, _, _, outside⟩ := modify_spec modified
      have top := Option.some.inj (outside [] (by simp [rowsOf]))
      exact ⟨congrArg ItemData.rowCount top, congrArg ItemData.columnCount top⟩
  | cons index rest ih =>
    rw [rowsOf, List.map_cons, List.cons_append, CacheData.modify] at modified
    split at modified
    · contradiction
    · rename_i child found
      obtain ⟨below, inner, same⟩ := bind_ok.mp modified
      cases same
      exact .setChild found fun _ => ih inner

theorem Along.ensureWhen {ensures : Bool} {index : ModelIndex} {rest : IndexList}
    (ensured : c.ensureWhen nodesCacheSize ensures index.row = .ok d) : Along (index :: rest) c d := by
  have top := (Refreshes.ensureWhen ensured).top
  refine ⟨⟨congrArg ItemData.rowCount top, congrArg ItemData.columnCount top⟩, fun child found => ?_⟩
  have there : c.children.find? index.row ≠ none := by simp [found]
  obtain rfl := Except.ok.inj ((ensureWhen_cached there).symm.trans ensured)
  exact ⟨child, found, .refl rest child⟩

theorem Along.resolve {ensureItem isRoot ok : Bool} (resolved : c.resolve nodesCacheSize ensureItem isRoot list = .ok (ok, d)) :
    Along list c d := by
  induction list generalizing c d isRoot with
  | nil =>
    cases resolved
    exact ⟨rfl, rfl⟩
  | cons index rest ih =>
    obtain ⟨first, ensured, ⟨_, _, rfl⟩ | ⟨_, second, again, last⟩⟩ := resolve_cons resolved
    · exact .ensureWhen ensured
    · apply (Along.ensureWhen ensured).trans
      apply (Along.ensureWhen again).trans
      obtain ⟨_, _, rfl⟩ | ⟨_, _, _, rfl⟩ | ⟨_, child, below, found, deeper, rfl⟩ := last
      · exact .refl _ d
      · exact .refl _ d
      · exact .setChild found fun _ => ih deeper

theorem Reaches.mono {P Q : CacheData V → Prop} (reaches : Reaches P list c) (weaker : ∀ {c}, P c → Q c) : Reaches Q list c := by
  induction list generalizing c with
  | nil => exact weaker reaches
  | cons index rest ih =>
    obtain ⟨fits, child, found, deeper⟩ := reaches
    exact ⟨fits, child, found, ih deeper⟩

theorem Reaches.find {P : CacheData V → Prop} (reaches : Reaches P list c) : ∃ below, c.find? (rowsOf list) = some below ∧ P below := by
  induction list generalizing c with
  | nil => exact ⟨c, rfl, reaches⟩
  | cons index rest ih =>
    obtain ⟨_, child, found, deeper⟩ := reaches
    obtain ⟨below, there, good⟩ := ih deeper
    exact ⟨below, by rw [rowsOf, List.map_cons, find?_cons, found]; exact there, good⟩

/-- The item that a list reaches is not null. -/
theorem Reaches.modify_error {P : CacheData V → Prop} {f : CacheData V → Except Failure (CacheData V)} {failure : Failure}
    (reaches : Reaches P list c) (failed : c.modify f (rowsOf list) = .error failure) :
    ∃ before, P before ∧ f before = .error failure := by
  induction list generalizing c with
  | nil => exact ⟨c, reaches, failed⟩
  | cons index rest ih =>
    obtain ⟨_, child, found, deeper⟩ := reaches
    rw [rowsOf, List.map_cons, CacheData.modify, found] at failed
    obtain failed | ⟨_, _, impossible⟩ := bind_error.mp failed
    · exact ih deeper failed
    · contradiction

/-- Where the item before the last index is reached, the list is valid if the last index fits there. -/
theorem Reaches.valid {cell : ModelIndex} {isRoot ok : Bool} (reaches : Reaches (Fits cell) list c)
    (resolved : c.resolve nodesCacheSize false isRoot (list ++ [cell]) = .ok (ok, d)) : ok = true := by
  induction list generalizing c d isRoot with
  | nil =>
    obtain ⟨first, ensured, ⟨outside, _⟩ | ⟨_, second, _, ⟨_, same, _⟩ | ⟨impossible, _⟩ | ⟨impossible, _⟩⟩⟩ :=
      resolve_cons resolved
    · cases ensured
      exact absurd reaches outside
    · exact same
    · exact absurd rfl impossible
    · exact absurd rfl impossible
  | cons index rest ih =>
    obtain ⟨fits, child, found, deeper⟩ := reaches
    obtain ⟨first, ensured, ⟨outside, _⟩ | ⟨_, second, again, last⟩⟩ := resolve_cons resolved
    · cases ensured
      exact absurd fits outside
    · cases ensured
      obtain rfl := Except.ok.inj ((ensureWhen_cached (by simp [found])).symm.trans again)
      obtain ⟨empty, _⟩ | ⟨_, missing, _⟩ | ⟨_, other, below, there, inner, _⟩ := last
      · exact absurd empty (List.append_ne_nil_of_right_ne_nil _ (List.cons_ne_nil _ _))
      · rw [found] at missing
        contradiction
      · obtain rfl := Option.some.inj (found.symm.trans there)
        exact ih deeper inner

/-- A valid list reaches the item before its last index. -/
theorem resolve_reaches {cell : ModelIndex} {isRoot : Bool}
    (resolved : c.resolve nodesCacheSize false isRoot (list ++ [cell]) = .ok (true, d)) : Reaches (Fits cell) list d := by
  induction list generalizing c d isRoot with
  | nil =>
    have sizes := (Along.resolve resolved).sizes
    obtain ⟨first, ensured, ⟨_, impossible, _⟩ | ⟨inside, _⟩⟩ := resolve_cons resolved
    · contradiction
    · cases ensured
      exact ⟨sizes.1 ▸ inside.1, sizes.2 ▸ inside.2⟩
  | cons index rest ih =>
    have sizes := (Along.resolve resolved).sizes
    obtain ⟨first, ensured, ⟨_, impossible, _⟩ | ⟨inside, second, again, last⟩⟩ := resolve_cons resolved
    · contradiction
    · cases ensured
      obtain ⟨empty, _⟩ | ⟨_, _, impossible, _⟩ | ⟨_, child, below, there, inner, rfl⟩ := last
      · exact absurd empty (List.append_ne_nil_of_right_ne_nil _ (List.cons_ne_nil _ _))
      · contradiction
      · exact ⟨⟨sizes.1 ▸ inside.1, sizes.2 ▸ inside.2⟩, below, by rw [setChild_find?, if_pos rfl], ih inner⟩

/-- A new child stays: there is place for it, or another one without children that is deleted for it. -/
def Room (c : CacheData V) : Prop :=
  c.children.cachedItems.length < c.children.cacheSize ∨ ∃ item ∈ c.children.cachedItems, item.2.item.hasChildren = false

theorem Room.ensureChildren {row : Nat} (room : Room c) (ensured : c.ensureChildren nodesCacheSize row = .ok d) :
    (d.children.find? row).isSome := by
  rw [CacheData.ensureChildren] at ensured
  split at ensured
  · rename_i contained
    cases ensured
    exact contained
  · rename_i missing
    obtain ⟨⟨children, victim⟩, made, same⟩ := bind_ok.mp ensured
    cases same
    have new : ∀ {cacheSize}, (LruCache.find? ⟨(row, new nodesCacheSize) :: c.children.cachedItems, cacheSize⟩ row).isSome := by
      intro cacheSize
      rw [LruCache.find?_cons, if_pos rfl]
      rfl
    obtain ⟨_, rfl | ⟨key, value, found, rfl⟩⟩ := LruCache.cleanCache_spec made
    · exact new
    · dsimp only
      rw [LruCache.find?_erase, if_neg]
      · exact new
      · rintro rfl
        rw [LruCache.victim?, List.reverse_cons, List.find?_append] at found
        obtain ⟨item, there, childless⟩ : ∃ item ∈ c.children.cachedItems, item.2.item.hasChildren = false := by
          obtain place | other := room
          · rw [LruCache.ensure, LruCache.cleanCache, if_pos (by exact place)] at made
            have same := congrArg (fun result => (LruCache.find? result.1 row).isSome) (Except.ok.inj made)
            dsimp only at same
            rw [LruCache.find?_erase, if_pos rfl, new] at same
            contradiction
          · exact other
        have some : (c.children.cachedItems.reverse.find? fun item => !item.2.item.hasChildren).isSome :=
          List.find?_isSome.mpr ⟨item, List.mem_reverse.mpr there, by simp [childless]⟩
        obtain ⟨old, first⟩ := Option.isSome_iff_exists.mp some
        rw [first, Option.some_or, Option.some.injEq] at found
        have listed := List.mem_reverse.mp (List.mem_of_find?_eq_some first)
        rw [found] at listed
        have known := LruCache.find?_none.not.mpr (not_not.mpr (List.mem_map_of_mem listed))
        exact missing (Option.isSome_iff_ne_none.mpr known)

/-- The end of the list is cached, or made when it is resolved. -/
def Leads (list : IndexList) (c : CacheData V) : Prop :=
  list = [] ∨ ∃ front last, list = front ++ [last] ∧
    Reaches (fun c => c.Fits last ∧ ((c.children.find? last.row).isSome ∨ front ≠ [] ∧ c.Room)) front c

/-- The item at the end of the list is cached. -/
def Present (list : IndexList) (c : CacheData V) : Prop := Reaches (fun _ => True) list c

theorem reaches_leads {last : ModelIndex} {ok : Bool} (isRoot : Bool)
    (reaches : Reaches (fun c => c.Fits last ∧ ((c.children.find? last.row).isSome ∨ (list ≠ [] ∨ isRoot = false) ∧ c.Room)) list c)
    (resolved : c.resolve nodesCacheSize false isRoot (list ++ [last]) = .ok (ok, d)) :
    ok = true ∧ Present (list ++ [last]) d := by
  induction list generalizing c d isRoot with
  | nil =>
    obtain ⟨fits, cached⟩ := reaches
    obtain ⟨first, ensured, ⟨outside, _⟩ | ⟨_, second, again, ⟨_, rfl, rfl⟩ | ⟨impossible, _⟩ | ⟨impossible, _⟩⟩⟩ :=
      resolve_cons resolved
    · cases ensured
      exact absurd fits outside
    · cases ensured
      have sizes := (Along.resolve resolved).sizes
      have there : (d.children.find? last.row).isSome := by
        obtain cached | ⟨nested, room⟩ := cached
        · obtain rfl := Except.ok.inj ((ensureWhen_cached (Option.isSome_iff_ne_none.mp cached)).symm.trans again)
          exact cached
        · obtain impossible | rfl := nested
          · exact absurd rfl impossible
          · exact room.ensureChildren again
      obtain ⟨child, found⟩ := Option.isSome_iff_exists.mp there
      exact ⟨rfl, ⟨sizes.1 ▸ fits.1, sizes.2 ▸ fits.2⟩, child, found, trivial⟩
    · exact absurd rfl impossible
    · exact absurd rfl impossible
  | cons index rest ih =>
    obtain ⟨fits, child, found, deeper⟩ := reaches
    obtain ⟨first, ensured, ⟨outside, _⟩ | ⟨_, second, again, ends⟩⟩ := resolve_cons resolved
    · cases ensured
      exact absurd fits outside
    · cases ensured
      obtain rfl := Except.ok.inj ((ensureWhen_cached (by simp [found])).symm.trans again)
      obtain ⟨empty, _⟩ | ⟨_, missing, _⟩ | ⟨_, other, below, there, inner, rfl⟩ := ends
      · exact absurd empty (List.append_ne_nil_of_right_ne_nil _ (List.cons_ne_nil _ _))
      · rw [found] at missing
        contradiction
      · obtain rfl := Option.some.inj (found.symm.trans there)
        have narrowed := deeper.mono (Q := fun c => c.Fits last ∧
          ((c.children.find? last.row).isSome ∨ (rest ≠ [] ∨ false = false) ∧ c.Room))
          fun good => ⟨good.1, good.2.imp_right fun nested => ⟨.inr rfl, nested.2⟩⟩
        obtain ⟨valid, present⟩ := ih false narrowed inner
        exact ⟨valid, fits, below, by rw [setChild_find?, if_pos rfl], present⟩

theorem Leads.resolve {ok : Bool} (leads : Leads list c) (resolved : c.toQModelIndex nodesCacheSize list = .ok (ok, d)) :
    ok = true ∧ Present list d := by
  obtain rfl | ⟨front, last, rfl, reaches⟩ := leads
  · cases resolved
    exact ⟨rfl, trivial⟩
  · exact reaches_leads true (reaches.mono fun good => ⟨good.1, good.2.imp_right fun nested => ⟨.inl nested.1, nested.2⟩⟩)
      resolved

/-- What is cached under a list that is valid, is reached by it. -/
theorem Reaches.present {cell : ModelIndex} (reaches : Reaches (Fits cell) list c) (cached : (c.find? (rowsOf (list ++ [cell]))).isSome) :
    Present (list ++ [cell]) c := by
  induction list generalizing c with
  | nil =>
    obtain ⟨child, found⟩ := Option.isSome_iff_exists.mp cached
    obtain ⟨below, there, _⟩ := Option.bind_eq_some_iff.mp found
    exact ⟨reaches, below, there, trivial⟩
  | cons index rest ih =>
    obtain ⟨fits, child, found, deeper⟩ := reaches
    rw [List.cons_append, rowsOf, List.map_cons, find?_cons, found] at cached
    exact ⟨fits, child, found, ih deeper cached⟩

theorem Present.fits {cell : ModelIndex} (present : Present (list ++ [cell]) c) : Reaches (Fits cell) list c :=
  (reaches_append.mp present).mono And.left

theorem Present.along (present : Present list c) (along : Along list c d) : Present list d :=
  Reaches.along present along fun _ _ => trivial

theorem ofCleaning_ne {failure : Failure} (cleaning : LruCache.OfCleaning failure) :
    failure ≠ .qFatal ∧ failure ≠ .nullItem := by
  obtain rfl | rfl := cleaning
  all_goals exact ⟨nofun, nofun⟩

section Fill
variable {cell : ModelIndex} {failure : Failure}

theorem Present.createCacheData {created : Bool} (present : Present list c)
    (made : c.createCacheData nodesCacheSize (list ++ [cell]) = .ok (created, d)) :
    Present list d ∧ (created = true → Present (list ++ [cell]) d) := by
  obtain ⟨⟨valid, middle⟩, resolved, rest⟩ := bind_ok.mp made
  have first : Along list c middle := (Along.resolve resolved).left
  rw [List.getLast?_concat, List.dropLast_concat] at rest
  cases valid with
  | false =>
    cases rest
    exact ⟨present.along first, nofun⟩
  | true =>
    obtain ⟨root, ensured, same⟩ := bind_ok.mp rest
    cases same
    have second : Along list middle root := by
      refine .modify [] (by rw [List.append_nil]; exact ensured) fun step => ?_
      have top := (Refreshes.ensureChildren step).top
      exact ⟨congrArg ItemData.rowCount top, congrArg ItemData.columnCount top⟩
    refine ⟨present.along (first.trans (second.trans (.touch _ _ _))), fun cached => ?_⟩
    have fits : Reaches (Fits cell) list root := (resolve_reaches resolved).along second fun sizes fits =>
      ⟨sizes.1 ▸ fits.1, sizes.2 ▸ fits.2⟩
    exact (fits.present cached).along (.touch _ _ _)

theorem Present.createCacheData_error (present : Present list c)
    (failed : c.createCacheData nodesCacheSize (list ++ [cell]) = .error failure) : LruCache.OfCleaning failure := by
  obtain failed | ⟨⟨valid, middle⟩, resolved, rest⟩ := bind_error.mp failed
  · exact resolve_error failed
  · rw [List.getLast?_concat, List.dropLast_concat] at rest
    cases valid with
    | false => contradiction
    | true =>
      obtain failed | ⟨_, _, impossible⟩ := bind_error.mp rest
      · obtain ⟨before, _, failed⟩ := (present.along (Along.resolve resolved).left).modify_error failed
        exact ensureChildren_error failed
      · contradiction

theorem Present.validQModelIndex (present : Present list c) (resolved : c.validQModelIndex nodesCacheSize list = .ok d) :
    Present list d := present.along (.resolve (validQModelIndex_ok.mp resolved))

theorem Present.validQModelIndex_error (present : Present list c)
    (failed : c.validQModelIndex nodesCacheSize list = .error failure) : LruCache.OfCleaning failure := by
  obtain cleaning | ⟨middle, resolved⟩ := ItemModel.validQModelIndex_error failed
  · exact cleaning
  · obtain rfl | ⟨front, last, rfl⟩ := List.eq_nil_or_concat' list
    · cases resolved
    · cases present.fits.valid resolved

/-- The items along the list stay when a row below it is filled. -/
theorem Present.fillWith {pair : IndexValuePair V} {roles : List Role} (present : Present list c)
    (below : pair.index = list ++ [cell]) (filled : c.fillWith nodesCacheSize pair roles id = .ok d) : Present list d := by
  rw [CacheData.fillWith, below] at filled
  obtain ⟨⟨created, middle⟩, made, rest⟩ := bind_ok.mp filled
  obtain ⟨still, cached⟩ := present.createCacheData made
  rw [List.getLast?_concat] at rest
  cases created with
  | false =>
    cases rest
    exact still
  | true =>
    obtain ⟨again, resolved, modified⟩ := bind_ok.mp rest
    refine (still.along (Along.resolve (validQModelIndex_ok.mp resolved)).left).along
      (.modify [cell.row] (by rw [← List.map_singleton (f := ModelIndex.row), rowsOf, ← List.map_append]; exact modified) ?_)
    intro before after step
    obtain ⟨item, made, same⟩ := bind_ok.mp step
    obtain ⟨next, filled, same'⟩ := bind_ok.mp made
    cases same
    cases same'
    obtain ⟨entry, _, rfl⟩ := fillItem_ok filled
    exact ⟨rfl, rfl⟩

/-- No pointer that is null is followed then. -/
theorem Present.fillWith_error {pair : IndexValuePair V} {roles : List Role} (present : Present list c)
    (below : pair.index = list ++ [cell]) (failed : c.fillWith nodesCacheSize pair roles id = .error failure) :
    failure ≠ .qFatal ∧ failure ≠ .nullItem := by
  rw [CacheData.fillWith, below] at failed
  obtain failed | ⟨⟨created, middle⟩, made, rest⟩ := bind_error.mp failed
  · exact ofCleaning_ne (present.createCacheData_error failed)
  · obtain ⟨still, cached⟩ := present.createCacheData made
    rw [List.getLast?_concat] at rest
    cases created with
    | false => contradiction
    | true =>
      have there := cached rfl
      obtain failed | ⟨again, resolved, failed⟩ := bind_error.mp rest
      · exact ofCleaning_ne (there.validQModelIndex_error failed)
      · obtain ⟨before, _, failed⟩ := (there.validQModelIndex resolved).modify_error failed
        obtain failed | ⟨_, _, impossible⟩ := bind_error.mp failed
        · obtain failed | ⟨_, _, impossible⟩ := bind_error.mp failed
          · rw [fillItem_error failed]
            exact ⟨nofun, nofun⟩
          · contradiction
        · contradiction

theorem Present.fillRows {pairs : List (IndexValuePair V)} {roles : List Role} (present : Present list c)
    (below : ∀ pair ∈ pairs, ∃ cell, pair.index = list ++ [cell]) :
    (∀ {d}, pairs.foldlM (fun c pair => c.fillWith nodesCacheSize pair roles id) c = .ok d → Present list d) ∧
      ∀ {failure}, pairs.foldlM (fun c pair => c.fillWith nodesCacheSize pair roles id) c = .error failure →
        failure ≠ .qFatal ∧ failure ≠ .nullItem := by
  induction pairs generalizing c with
  | nil =>
    refine ⟨fun filled => ?_, nofun⟩
    cases filled
    exact present
  | cons pair pairs ih =>
    obtain ⟨⟨cell, here⟩, later⟩ := List.forall_mem_cons.mp below
    refine ⟨fun filled => ?_, fun failed => ?_⟩
    · obtain ⟨middle, first, rest⟩ := bind_ok.mp filled
      exact (ih (present.fillWith here first) later).1 rest
    · obtain failed | ⟨middle, first, rest⟩ := bind_error.mp failed
      · exact present.fillWith_error here failed
      · exact (ih (present.fillWith here first) later).2 rest

/-- The item at the end of a list that leads to it is found. -/
theorem Leads.validQModelIndex (leads : Leads list c) (resolved : c.validQModelIndex nodesCacheSize list = .ok d) :
    Present list d := (leads.resolve (validQModelIndex_ok.mp resolved)).2

theorem Leads.validQModelIndex_error (leads : Leads list c) (failed : c.validQModelIndex nodesCacheSize list = .error failure) :
    LruCache.OfCleaning failure := by
  obtain cleaning | ⟨middle, resolved⟩ := ItemModel.validQModelIndex_error failed
  · exact cleaning
  · cases (leads.resolve resolved).1

end Fill
end CacheData
end Paths

namespace Replica

section Statement
variable {V : Type} (config : Config)

/-- The reply to a size or row request, with entries for cells of the parent. -/
def ParentReply : Watcher → Reply V → Prop
  | .size _, .size _ => True
  | .row start _ _, .entries entries => ∀ pair ∈ entries, ∃ cell, pair.index = start.dropLast ++ [cell]
  | _, _ => False

/-- The handler of a size or row reply that comes next follows no null pointer and no invalid index. -/
def Tolerates (s : Replica V) : ReplicaEvent V → Prop
  | .processEvent => ∀ serial reply watcher posted, s.Handles serial reply watcher posted → ParentReply watcher reply →
      s.processEvent config ≠ .error .qFatal ∧ s.processEvent config ≠ .error .nullItem
  | _ => True

def RepliesTolerateParents (V : Type) (rootCacheSize : Nat) : Prop :=
  ∀ es : List (ReplicaEvent V), Admitted (step config) (Tolerates config) ((initial rootCacheSize).init config) es

/-- The parent of a size or row reply is there when the reply is handled. -/
def ParentThere (s : Replica V) : ReplicaEvent V → Prop
  | .processEvent => (∀ serial reply parentList posted, s.Handles serial reply (.size parentList) posted →
        s.m_rootItem.Leads parentList) ∧
      ∀ serial reply start finish roles posted, s.Handles serial reply (.row start finish roles) posted →
        s.m_rootItem.Leads start.dropLast
  | _ => True

end Statement

section Handlers
variable {V : Type} {config : Config} {s : Replica V} {e : ReplicaEvent V} {serial : Nat} {failure : Failure}
open CacheData

theorem handleSizeDone_error {parentList : IndexList} {size : Size} (there : s.m_rootItem.Leads parentList)
    (failed : s.handleSizeDone config serial parentList size = .error failure) : failure ≠ .qFatal ∧ failure ≠ .nullItem := by
  obtain failed | ⟨first, resolved, rest⟩ := bind_error.mp failed
  · exact ofCleaning_ne (there.validQModelIndex_error failed)
  · have present := there.validQModelIndex resolved
    have touched := present.along (.touch (rowsOf parentList) parentList first)
    obtain failed | ⟨second, again, rest⟩ := bind_error.mp rest
    · exact ofCleaning_ne (touched.validQModelIndex_error failed)
    · obtain ⟨item, found, _⟩ := present.find
      rw [found] at rest
      obtain failed | ⟨_, _, impossible⟩ := bind_error.mp rest
      · obtain ⟨before, _, failed⟩ := (touched.validQModelIndex again).modify_error failed
        obtain failed | ⟨_, _, impossible⟩ := bind_error.mp failed
        · rw [sizeDone] at failed
          split at failed
          · cases failed
            exact ⟨nofun, nofun⟩
          · split at failed
            · contradiction
            · split at failed
              · contradiction
              · cases failed
                exact ⟨nofun, nofun⟩
        · contradiction
      · contradiction

theorem requestedData_error {start finish : IndexList} {roles : List Role} {entries : List (IndexValuePair V)}
    (there : s.m_rootItem.Leads start.dropLast) (below : ∀ pair ∈ entries, ∃ cell, pair.index = start.dropLast ++ [cell])
    (failed : s.requestedData config serial start finish roles entries = .error failure) :
    failure ≠ .qFatal ∧ failure ≠ .nullItem := by
  have assertion : ∀ {failure : Failure}, failure = .assertion → failure ≠ .qFatal ∧ failure ≠ .nullItem := by
    rintro _ rfl
    exact ⟨nofun, nofun⟩
  rw [requestedData] at failed
  split at failed
  · exact assertion (Except.error.inj failed).symm
  · split at failed
    · obtain failed | ⟨middle, resolved, rest⟩ := bind_error.mp failed
      · exact ofCleaning_ne (there.validQModelIndex_error failed)
      · have present := (there.validQModelIndex resolved).along (.touch (rowsOf start.dropLast) _ _)
        obtain ⟨item, found, _⟩ := present.find
        have cached : (middle.touch (rowsOf start.dropLast)).item? (rowsOf start.dropLast) = some item.item := by
          rw [CacheData.item?, found]
          rfl
        dsimp only at rest
        rw [cached] at rest
        dsimp only at rest
        split at rest
        · contradiction
        · obtain failed | ⟨filled, fill, rest⟩ := bind_error.mp rest
          · exact (present.fillRows below).2 failed
          · have still := (present.fillRows below).1 fill
            obtain failed | ⟨first, valid, rest⟩ := bind_error.mp rest
            · exact ofCleaning_ne (still.validQModelIndex_error failed)
            · obtain failed | ⟨second, started, rest⟩ := bind_error.mp rest
              · exact ofCleaning_ne (resolve_error failed)
              · obtain failed | ⟨third, ended, rest⟩ := bind_error.mp rest
                · exact ofCleaning_ne (resolve_error failed)
                · split at rest
                  · contradiction
                  · exact assertion (Except.error.inj rest).symm
    · exact assertion (Except.error.inj failed).symm

theorem tolerates_step (there : s.ParentThere e) : s.Tolerates config e := by
  cases e with
  | receive | multiData | rowCount | headerData => trivial
  | processEvent =>
    intro serial reply watcher posted handles made
    have failures : ∀ failure, s.processEvent config = .error failure → failure ≠ .qFatal ∧ failure ≠ .nullItem := by
      intro failure failed
      rw [processEvent_handles handles] at failed
      cases watcher with
      | size parentList =>
        cases reply with
        | size size =>
          refine handleSizeDone_error ?_ failed
          exact there.1 _ _ _ _ handles
        | entries | header | cache => exact absurd made id
      | row start finish roles =>
        cases reply with
        | entries entries =>
          refine requestedData_error ?_ made failed
          exact there.2 _ _ _ _ _ _ handles
        | size | header | cache => exact absurd made id
      | init | reset | header | layout => exact absurd made id
    exact ⟨fun failed => (failures _ failed).1 rfl, fun failed => (failures _ failed).2 rfl⟩

/-- In every run in which the parents of replies are there when they are handled, all handlers get through. -/
theorem replies_tolerate_parents {rootCacheSize : Nat} {es : List (ReplicaEvent V)}
    (there : Admitted (step config) ParentThere ((initial rootCacheSize).init config) es) :
    Admitted (step config) (Tolerates config) ((initial rootCacheSize).init config) es :=
  admitted_of_invariant (P := fun _ => True) (fun _ _ _ => trivial) (fun _ there => tolerates_step there) there trivial

end Handlers

section Example

theorem parentThere_of {V : Type} {s : Replica V} {serial : Nat} {reply : Reply V} {watcher : Watcher} {posted : List (Posted V)}
    (first : s.posted = .finished serial reply :: posted) (here : s.watcher? serial = some watcher)
    (sizes : ∀ parentList, watcher = .size parentList → s.m_rootItem.Leads parentList)
    (rows : ∀ start finish roles, watcher = .row start finish roles → s.m_rootItem.Leads start.dropLast) :
    s.ParentThere .processEvent := by
  have handles : s.Handles serial reply watcher posted := ⟨first, here⟩
  exact ⟨fun _ _ _ _ again => sizes _ (handles.unique again).2.symm,
    fun _ _ _ _ _ _ again => rows _ _ _ (handles.unique again).2.symm⟩

theorem replies_tolerate_parents_example : Admitted (step exampleListConfig) (Tolerates exampleListConfig)
    ((initial 1000 : Replica Nat).init exampleListConfig)
    (rowRead ++ [.rowCount [⟨0, 0⟩], .receive (.reply 2 (.size ⟨1, 1⟩)), .processEvent]) := by
  apply replies_tolerate_parents
  refine .cons trivial rfl (.cons ?_ rfl (.cons trivial rfl (.cons ?_ rfl (.cons trivial rfl (.cons ?_ rfl
    (.cons trivial rfl (.cons trivial rfl (.cons ?_ rfl trivial))))))))
  · exact parentThere_of rfl rfl nofun nofun
  · refine ⟨fun serial reply parentList posted handles => ?_, fun serial reply start finish roles posted handles => ?_⟩
    all_goals cases handles.first
  · refine parentThere_of rfl rfl nofun fun start finish roles same => ?_
    cases same
    exact .inl rfl
  · refine parentThere_of rfl rfl (fun parentList same => ?_) nofun
    cases same
    exact .inr ⟨[], ⟨0, 0⟩, rfl, ⟨by decide, by decide⟩, .inl rfl⟩

/-- The row of the parent is removed while the size of the parent is under way. -/
theorem removed_parent_not_tolerated : ¬ RepliesTolerateParents exampleListConfig Nat 1000 := by
  intro tolerates
  let removal : List (ReplicaEvent Nat) :=
    rowRead ++ [.rowCount [⟨0, 0⟩], .receive (.signal (.rowsRemoved [] 0 0)), .receive (.reply 2 (.size ⟨1, 1⟩))]
  have run : exec (step exampleListConfig) ((initial 1000).init exampleListConfig) removal = some _ := rfl
  have last := (tolerates (removal ++ [.processEvent])).behind run
  exact (last.1 2 (.size ⟨1, 1⟩) (.size [⟨0, 0⟩]) [] ⟨rfl, rfl⟩ trivial).1 rfl

end Example
end Replica
end RemoteObjects.ItemModel
