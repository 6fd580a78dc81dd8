import RemoteObjects.ItemModel.CacheData

/-! What the operations on cached items do to the items at each path. -/
namespace RemoteObjects.ItemModel

section Paths
variable {V : Type} {nodesCacheSize : Nat} {c d child : CacheData V} {row : Nat} {rows path : List Nat} {item : ItemData V}
open CacheData

@[simp] theorem find?_nil (c : CacheData V) : c.find? [] = some c := rfl

theorem find?_cons (c : CacheData V) (row : Nat) (rows : List Nat) :
    c.find? (row :: rows) = (c.children.find? row).bind (find? rows) := rfl

@[simp] theorem item?_nil (c : CacheData V) : c.item? [] = some c.item := rfl

theorem item?_cons (c : CacheData V) (row : Nat) (rows : List Nat) :
    c.item? (row :: rows) = (c.children.find? row).bind fun child => child.item? rows := by
  rw [item?, find?_cons, Option.map_bind]
  rfl

theorem find?_append (c : CacheData V) (first last : List Nat) :
    c.find? (first ++ last) = (c.find? first).bind (find? last) := by
  induction first generalizing c with
  | nil => rfl
  | cons row first ih => cases here : c.children.find? row <;> simp [find?_cons, here, ih]

theorem item?_append (c : CacheData V) (first last : List Nat) :
    c.item? (first ++ last) = (c.find? first).bind fun below => below.item? last := by
  rw [item?, find?_append, Option.map_bind]
  rfl

@[simp] theorem setChild_item : (c.setChild row child).item = c.item := rfl

theorem setChild_find? (key : Nat) : (c.setChild row child).children.find? key =
    if key = row then some child else c.children.find? key := LruCache.find?_front

/-- The items behind an operation are old ones where they were, or empty ones. -/
structure Refreshes (c d : CacheData V) : Prop where
  top : d.item = c.item
  below : ∀ {path item}, d.item? path = some item → c.item? path = some item ∨ path ≠ [] ∧ item = .empty

theorem Refreshes.refl (c : CacheData V) : Refreshes c c := ⟨rfl, .inl⟩

theorem Refreshes.trans {e : CacheData V} (first : Refreshes c d) (second : Refreshes d e) : Refreshes c e where
  top := second.top.trans first.top
  below there := by
    obtain before | empty := second.below there
    · exact first.below before
    · exact .inr empty

/-- A child is put back. -/
theorem Refreshes.setChild {before : CacheData V} (found : c.children.find? row = some before)
    (refreshes : Refreshes before child) : Refreshes c (c.setChild row child) where
  top := rfl
  below {path item} there := by
    cases path with
    | nil => exact .inl there
    | cons key path =>
      rw [item?_cons, setChild_find?] at there
      rw [item?_cons]
      split at there
      · rename_i same
        subst same
        rw [found]
        obtain before | ⟨_, empty⟩ := refreshes.below there
        · exact .inl before
        · exact .inr ⟨List.cons_ne_nil _ _, empty⟩
      · exact .inl there

theorem Refreshes.ensureChildren (ensured : c.ensureChildren nodesCacheSize row = .ok d) : Refreshes c d := by
  rw [CacheData.ensureChildren] at ensured
  split at ensured
  · cases ensured
    exact .refl c
  · obtain ⟨⟨children, victim⟩, made, rest⟩ := bind_ok.mp ensured
    cases rest
    refine ⟨rfl, ?_⟩
    intro path item there
    cases path with
    | nil => exact .inl there
    | cons key path =>
      rw [item?_cons] at there ⊢
      obtain ⟨below, found, there⟩ := Option.bind_eq_some_iff.mp there
      obtain ⟨rfl, rfl⟩ | ⟨_, before⟩ := LruCache.find?_ensure made found
      · cases path with
        | nil => exact .inr ⟨List.cons_ne_nil _ _, (Option.some.inj there).symm⟩
        | cons => simp [CacheData.new, item?_cons] at there
      · rw [before]
        exact .inl there

theorem Refreshes.ensureWhen {ensures : Bool} (ensured : c.ensureWhen nodesCacheSize ensures row = .ok d) : Refreshes c d := by
  rw [CacheData.ensureWhen] at ensured
  split at ensured
  · exact .ensureChildren ensured
  · cases ensured
    exact .refl c

theorem Refreshes.touch (rows : List Nat) (c : CacheData V) : Refreshes c (c.touch rows) := by
  induction rows generalizing c with
  | nil => exact .refl c
  | cons row rows ih =>
    rw [CacheData.touch]
    split
    · exact .refl c
    · rename_i child found
      exact .setChild found (ih child)

/-- How a list that starts with an index is resolved. -/
theorem resolve_cons {ensureItem isRoot ok : Bool} {index : ModelIndex} {rest : IndexList}
    (resolved : c.resolve nodesCacheSize ensureItem isRoot (index :: rest) = .ok (ok, d)) :
    ∃ first, c.ensureWhen nodesCacheSize ensureItem index.row = .ok first ∧
      (¬ (index.row < first.item.rowCount ∧ index.column < first.item.columnCount) ∧ ok = false ∧ d = first ∨
        (index.row < first.item.rowCount ∧ index.column < first.item.columnCount) ∧
          ∃ second, first.ensureWhen nodesCacheSize (!isRoot) index.row = .ok second ∧
            (rest = [] ∧ ok = true ∧ d = second ∨
              rest ≠ [] ∧ second.children.find? index.row = none ∧ ok = false ∧ d = second ∨
              rest ≠ [] ∧ ∃ child below, second.children.find? index.row = some child ∧
                child.resolve nodesCacheSize ensureItem false rest = .ok (ok, below) ∧ d = second.setChild index.row below)) := by
  rw [CacheData.resolve] at resolved
  obtain ⟨first, ensured, resolved⟩ := bind_ok.mp resolved
  refine ⟨first, ensured, ?_⟩
  split at resolved
  · rename_i inside
    obtain ⟨second, ensured, resolved⟩ := bind_ok.mp resolved
    refine .inr ⟨inside, second, ensured, ?_⟩
    split at resolved
    · cases resolved
      exact .inl ⟨rfl, rfl, rfl⟩
    · split at resolved
      · rename_i missing
        cases resolved
        exact .inr (.inl ⟨List.cons_ne_nil _ _, missing, rfl, rfl⟩)
      · rename_i child found
        obtain ⟨⟨deeper, below⟩, inner, same⟩ := bind_ok.mp resolved
        cases same
        exact .inr (.inr ⟨List.cons_ne_nil _ _, child, below, found, inner, rfl⟩)
  · rename_i outside
    cases resolved
    exact .inl ⟨outside, rfl, rfl⟩

theorem Refreshes.resolve {ensureItem isRoot ok : Bool} {list : IndexList}
    (resolved : c.resolve nodesCacheSize ensureItem isRoot list = .ok (ok, d)) : Refreshes c d := by
  induction list generalizing c d isRoot with
  | nil =>
    cases resolved
    exact .refl c
  | cons index rest ih =>
    obtain ⟨first, ensured, ⟨_, _, rfl⟩ | ⟨_, second, again, last⟩⟩ := resolve_cons resolved
    · exact .ensureWhen ensured
    · apply (Refreshes.ensureWhen ensured).trans
      apply (Refreshes.ensureWhen again).trans
      obtain ⟨_, _, rfl⟩ | ⟨_, _, _, rfl⟩ | ⟨_, child, below, found, deeper, rfl⟩ := last
      · exact .refl d
      · exact .refl d
      · exact .setChild found (ih deeper)

theorem Refreshes.toQModelIndex {ok : Bool} {list : IndexList} (resolved : c.toQModelIndex nodesCacheSize list = .ok (ok, d)) :
    Refreshes c d := .resolve resolved

theorem ensureWhen_cached {ensures : Bool} (cached : c.children.find? row ≠ none) :
    c.ensureWhen nodesCacheSize ensures row = .ok c := by
  have contained : c.children.contains row := Option.isSome_iff_ne_none.mpr cached
  cases ensures with
  | false => rfl
  | true => exact if_pos contained

theorem ensureChildren_error {failure : Failure} (failed : c.ensureChildren nodesCacheSize row = .error failure) :
    LruCache.OfCleaning failure := by
  rw [CacheData.ensureChildren] at failed
  split at failed
  · contradiction
  · obtain failed | ⟨_, _, impossible⟩ := bind_error.mp failed
    · exact LruCache.ensure_error failed
    · contradiction

/-- A list is resolved, to an index that is valid or not, unless the caches are not cleaned. -/
theorem resolve_error {ensureItem isRoot : Bool} {list : IndexList} {failure : Failure}
    (failed : c.resolve nodesCacheSize ensureItem isRoot list = .error failure) : LruCache.OfCleaning failure := by
  have ensured : ∀ {c : CacheData V} {ensures row}, c.ensureWhen nodesCacheSize ensures row = .error failure →
      LruCache.OfCleaning failure := by
    intro c ensures row failed
    rw [ensureWhen] at failed
    split at failed
    · exact ensureChildren_error failed
    · contradiction
  induction list generalizing c isRoot with
  | nil => contradiction
  | cons index rest ih =>
    rw [CacheData.resolve] at failed
    obtain failed | ⟨first, _, failed⟩ := bind_error.mp failed
    · exact ensured failed
    · split at failed
      · obtain failed | ⟨second, _, failed⟩ := bind_error.mp failed
        · exact ensured failed
        · split at failed
          · contradiction
          · split at failed
            · contradiction
            · obtain failed | ⟨_, _, impossible⟩ := bind_error.mp failed
              · exact ih failed
              · contradiction
      · contradiction

/-- What is cached at the end of the list stays there. -/
theorem resolve_keeps {isRoot ok : Bool} {list : IndexList}
    (resolved : c.resolve nodesCacheSize false isRoot list = .ok (ok, d)) (cached : c.item? (rowsOf list) = some item) :
    d.item? (rowsOf list) = some item := by
  induction list generalizing c d isRoot with
  | nil =>
    cases resolved
    exact cached
  | cons index rest ih =>
    obtain ⟨child, found, deeper⟩ := Option.bind_eq_some_iff.mp ((item?_cons c index.row (rowsOf rest)).symm.trans cached)
    have there : c.children.find? index.row ≠ none := by simp [found]
    obtain ⟨first, ensured, ⟨_, _, rfl⟩ | ⟨_, second, again, last⟩⟩ := resolve_cons resolved
    · cases ensured
      exact cached
    · cases ensured
      obtain rfl := Except.ok.inj ((ensureWhen_cached there).symm.trans again)
      obtain ⟨_, _, rfl⟩ | ⟨_, _, _, rfl⟩ | ⟨_, below, after, here, inner, rfl⟩ := last
      · exact cached
      · exact cached
      · obtain rfl := Option.some.inj (found.symm.trans here)
        apply (item?_cons _ _ _).trans
        rw [setChild_find?, if_pos rfl]
        exact ih inner deeper

@[simp] theorem touch_item? (rows path : List Nat) (c : CacheData V) : (c.touch rows).item? path = c.item? path := by
  induction rows generalizing c path with
  | nil => rfl
  | cons row rows ih =>
    rw [touch]
    split
    · rfl
    · rename_i child found
      cases path with
      | nil => rfl
      | cons key path =>
        rw [item?_cons, item?_cons, setChild_find?]
        split
        · rename_i same
          rw [same, found]
          exact ih path child
        · rfl

theorem validQModelIndex_ok {list : IndexList} :
    c.validQModelIndex nodesCacheSize list = .ok d ↔ c.toQModelIndex nodesCacheSize list = .ok (true, d) := by
  rw [validQModelIndex, bind_ok]
  constructor
  · rintro ⟨⟨ok, after⟩, resolved, valid⟩
    dsimp only at valid
    split at valid
    · rename_i yes
      cases valid
      rw [resolved, yes]
    · contradiction
  · exact fun resolved => ⟨(true, d), resolved, rfl⟩

theorem validQModelIndex_error {list : IndexList} {failure : Failure}
    (failed : c.validQModelIndex nodesCacheSize list = .error failure) :
    LruCache.OfCleaning failure ∨ ∃ d, c.toQModelIndex nodesCacheSize list = .ok (false, d) := by
  obtain failed | ⟨⟨ok, d⟩, resolved, failed⟩ := bind_error.mp failed
  · exact .inl (resolve_error failed)
  · dsimp only at failed
    split at failed
    · contradiction
    · rename_i invalid
      rw [Bool.not_eq_true] at invalid
      exact .inr ⟨d, invalid ▸ resolved⟩

theorem Refreshes.validQModelIndex {list : IndexList} (resolved : c.validQModelIndex nodesCacheSize list = .ok d) :
    Refreshes c d := .toQModelIndex (validQModelIndex_ok.mp resolved)

theorem fillItem_item (pair : IndexValuePair V) (column : Nat) (item : ItemData V) :
    (if column = 0 then { item with hasChildren := pair.hasChildren } else item) =
      { item with hasChildren := if column = 0 then pair.hasChildren else item.hasChildren } := by
  split <;> rfl

/-- What `fillRow` writes into an item. -/
theorem fillItem_ok {pair : IndexValuePair V} {roles : List Role} {column : Nat} {after : ItemData V}
    (filled : fillItem pair roles column item = .ok after) :
    ∃ entry, fillCacheEntry pair roles (item.cachedRowEntry[column]?.getD .empty) = .ok entry ∧
      after = { item with
        hasChildren := if column = 0 then pair.hasChildren else item.hasChildren
        cachedRowEntry := if column < item.cachedRowEntry.length then item.cachedRowEntry.set column entry
          else item.cachedRowEntry ++ [entry] } := by
  rw [fillItem, fillItem_item] at filled
  dsimp only at filled
  split at filled
  · rename_i before found
    obtain ⟨entry, made, same⟩ := bind_ok.mp filled
    cases same
    obtain ⟨inside, _⟩ := List.getElem?_eq_some_iff.mp found
    exact ⟨entry, by rw [found]; exact made, by rw [if_pos inside]⟩
  · rename_i none
    obtain ⟨entry, made, same⟩ := bind_ok.mp filled
    cases same
    exact ⟨entry, by rw [none]; exact made, by rw [if_neg (Nat.not_lt.mpr (List.getElem?_eq_none_iff.mp none))]⟩

/-- A column that the row does not have is appended. -/
theorem fillItem_append {pair : IndexValuePair V} {roles : List Role} {column : Nat} {entry : CacheEntry V}
    (missing : item.cachedRowEntry[column]? = none) (filled : fillCacheEntry pair roles .empty = .ok entry) :
    fillItem pair roles column item = .ok { item with
      hasChildren := if column = 0 then pair.hasChildren else item.hasChildren
      cachedRowEntry := item.cachedRowEntry ++ [entry] } := by
  rw [fillItem, fillItem_item]
  dsimp only
  rw [missing]
  exact bind_ok.mpr ⟨entry, filled, rfl⟩

theorem fillItem_error {pair : IndexValuePair V} {roles : List Role} {column : Nat} {failure : Failure}
    (failed : fillItem pair roles column item = .error failure) : failure = .assertion := by
  have entry : ∀ {entry : CacheEntry V}, fillCacheEntry pair roles entry = .error failure → failure = .assertion := by
    intro entry failed
    rw [fillCacheEntry] at failed
    split at failed
    · contradiction
    · exact (Except.error.inj failed).symm
  rw [fillItem] at failed
  split at failed
  all_goals
    obtain failed | ⟨_, _, impossible⟩ := bind_error.mp failed
    · exact entry failed
    · contradiction

theorem fillItem_total {pair : IndexValuePair V} {roles : List Role} (lengths : roles.length = pair.data.length) (column : Nat)
    (item : ItemData V) : ∃ after, fillItem pair roles column item = .ok after := by
  cases filled : fillItem pair roles column item with
  | ok after => exact ⟨after, rfl⟩
  | error failure =>
    rw [fillItem] at filled
    split at filled
    all_goals
      rw [fillCacheEntry, if_pos lengths] at filled
      contradiction

/-- The item at the rows is changed, and nothing elsewhere. -/
theorem modify_spec {f : CacheData V → Except Failure (CacheData V)} (modified : c.modify f rows = .ok d) :
    ∃ before after, c.find? rows = some before ∧ f before = .ok after ∧ (∀ path, d.item? (rows ++ path) = after.item? path) ∧
      ∀ path, ¬ rows <+: path → d.item? path = c.item? path := by
  induction rows generalizing c d with
  | nil => exact ⟨c, d, rfl, modified, fun _ => rfl, fun path other => absurd List.nil_prefix other⟩
  | cons row rows ih =>
    rw [CacheData.modify] at modified
    split at modified
    · contradiction
    · rename_i child found
      obtain ⟨below, inner, same⟩ := bind_ok.mp modified
      cases same
      obtain ⟨before, after, there, changed, inside, outside⟩ := ih inner
      refine ⟨before, after, ?_, changed, ?_, ?_⟩
      · rw [find?_cons, found]
        exact there
      · intro path
        rw [List.cons_append, item?_cons, setChild_find?, if_pos rfl]
        exact inside path
      · intro path other
        cases path with
        | nil => rfl
        | cons key path =>
          rw [item?_cons, item?_cons, setChild_find?]
          split
          · rename_i same
            subst same
            rw [found]
            exact outside path fun within => other (List.cons_prefix_cons.mpr ⟨rfl, within⟩)
          · rfl

theorem Refreshes.modify {f : CacheData V → Except Failure (CacheData V)} (modified : c.modify f rows = .ok d)
    (refreshes : ∀ {before after}, f before = .ok after → Refreshes before after) : Refreshes c d := by
  induction rows generalizing c d with
  | nil => exact refreshes modified
  | cons row rows ih =>
    rw [CacheData.modify] at modified
    split at modified
    · contradiction
    · rename_i child found
      obtain ⟨below, inner, same⟩ := bind_ok.mp modified
      cases same
      exact .setChild found (ih inner)

theorem Refreshes.createCacheData {ok : Bool} {list : IndexList}
    (created : c.createCacheData nodesCacheSize list = .ok (ok, d)) : Refreshes c d := by
  obtain ⟨⟨valid, middle⟩, resolved, rest⟩ := bind_ok.mp created
  apply (Refreshes.toQModelIndex resolved).trans
  dsimp only at rest
  split at rest
  · obtain ⟨last, ensured, same⟩ := bind_ok.mp rest
    cases same
    exact (Refreshes.modify ensured .ensureChildren).trans (.touch _ _)
  · contradiction
  · cases rest
    exact .refl _

end Paths

section Entries
variable {V : Type} {entry after : CacheEntry V} {role other : Role} {value : V} {roles : List Role} {cells : List (Role × V)}

theorem CacheEntry.find?_remove : (entry.remove other).find? role = if role = other then none else entry.find? role := by
  rw [find?, remove, List.find?_filter, find?]
  split
  · rename_i same
    rw [Option.map_eq_none_iff, List.find?_eq_none]
    intro cell _
    simp [same]
  · rename_i differ
    congr 2
    funext cell
    by_cases same : cell.1 = role
    · simp [same, differ]
    · simp [same]

theorem CacheEntry.find?_insert : (entry.insert other value).find? role = if role = other then some value else entry.find? role := by
  rw [find?, insert, List.find?_cons]
  split
  · rename_i same
    rw [decide_eq_true_eq] at same
    rw [if_pos same.symm]
    rfl
  · rename_i differ
    rw [decide_eq_false_iff_not] at differ
    rw [if_neg (Ne.symm differ)]
    exact find?_remove.trans (if_neg (Ne.symm differ))

/-- Each role has the last value that is written for it. -/
theorem find?_foldl_insert (entry : CacheEntry V) (cells : List (Role × V)) (role : Role) :
    let after := cells.foldl (fun entry cell => entry.insert cell.1 cell.2) entry
    after.flags = entry.flags ∧ ((∃ value, (role, value) ∈ cells ∧ after.find? role = some value) ∨
      role ∉ cells.map Prod.fst ∧ after.find? role = entry.find? role) := by
  induction cells generalizing entry with
  | nil => exact ⟨rfl, .inr ⟨List.not_mem_nil, rfl⟩⟩
  | cons cell cells ih =>
    obtain ⟨flags, written⟩ := ih (entry.insert cell.1 cell.2)
    refine ⟨flags, ?_⟩
    obtain ⟨value, there, found⟩ | ⟨absent, kept⟩ := written
    · exact .inl ⟨value, List.mem_cons_of_mem _ there, found⟩
    · rw [CacheEntry.find?_insert] at kept
      split at kept
      · rename_i same
        exact .inl ⟨cell.2, by rw [same]; exact List.mem_cons_self, kept⟩
      · rename_i differ
        exact .inr ⟨by simp [differ, absent], kept⟩

/-- What `fillCacheEntry` leaves for a role. -/
theorem fillCacheEntry_ok {pair : IndexValuePair V} (filled : CacheData.fillCacheEntry pair roles entry = .ok after) (role : Role) :
    roles.length = pair.data.length ∧ after.flags = pair.flags ∧
      ((∃ value, (role, value) ∈ roles.zip pair.data ∧ after.find? role = some value) ∨
        role ∉ roles ∧ after.find? role = entry.find? role) := by
  rw [CacheData.fillCacheEntry] at filled
  split at filled
  · rename_i lengths
    obtain rfl := Except.ok.inj filled
    obtain ⟨flags, written⟩ := find?_foldl_insert { entry with flags := pair.flags } (roles.zip pair.data) role
    refine ⟨lengths, flags, written.imp_right fun kept => ⟨?_, kept.2⟩⟩
    rw [← List.map_fst_zip (Nat.le_of_eq lengths)]
    exact kept.1
  · contradiction

end Entries

section Everywhere
variable {V : Type} {nodesCacheSize : Nat} {c d : CacheData V} {rows : List Nat} {P : List Nat → ItemData V → Prop}
open CacheData

/-- A property of all cached items and their paths. -/
def Everywhere (P : List Nat → ItemData V → Prop) (c : CacheData V) : Prop :=
  ∀ path item, c.item? path = some item → P path item

theorem Everywhere.refreshes (all : Everywhere P c) (empty : ∀ path, path ≠ [] → P path .empty) (refreshes : Refreshes c d) :
    Everywhere P d := by
  intro path item there
  obtain before | ⟨nested, rfl⟩ := refreshes.below there
  · exact all path item before
  · exact empty path nested

theorem Everywhere.modify {f : CacheData V → Except Failure (CacheData V)} (all : Everywhere P c)
    (modified : c.modify f rows = .ok d) (here : ∀ {before after}, c.find? rows = some before → f before = .ok after →
      Everywhere (fun path => P (rows ++ path)) after) : Everywhere P d := by
  obtain ⟨before, after, found, changed, inside, outside⟩ := modify_spec modified
  intro path item there
  by_cases within : rows <+: path
  · obtain ⟨rest, rfl⟩ := within
    rw [inside] at there
    exact here found changed rest item there
  · rw [outside path within] at there
    exact all path item there

/-- One item is changed. -/
theorem Everywhere.mapItem {f : ItemData V → Except Failure (ItemData V)} (all : Everywhere P c)
    (modified : c.modify (CacheData.mapItem f) rows = .ok d)
    (here : ∀ {item after}, c.item? rows = some item → f item = .ok after → P rows after) : Everywhere P d := by
  apply all.modify modified
  intro before after found changed path item there
  obtain ⟨next, made, same⟩ := bind_ok.mp changed
  cases same
  cases path with
  | nil =>
    rw [item?_nil, Option.some.injEq] at there
    subst there
    rw [List.append_nil]
    apply here _ made
    rw [item?, found]
    rfl
  | cons key path =>
    apply all
    rw [item?_append, found]
    exact there

theorem Everywhere.fillWith {pair : IndexValuePair V} {roles : List Role} {size : ItemData V → ItemData V}
    (all : Everywhere P c) (empty : ∀ path, path ≠ [] → P path .empty)
    (filled : c.fillWith nodesCacheSize pair roles size = .ok d)
    (here : ∀ {item last after}, pair.index.getLast? = some last → P (rowsOf pair.index) item →
      fillItem pair roles last.column item = .ok after → P (rowsOf pair.index) (size after)) : Everywhere P d := by
  obtain ⟨⟨created, middle⟩, made, rest⟩ := bind_ok.mp filled
  have first := all.refreshes empty (.createCacheData made)
  dsimp only at rest
  split at rest
  · rename_i last index
    obtain ⟨again, resolved, modified⟩ := bind_ok.mp rest
    have second := first.refreshes empty (.validQModelIndex resolved)
    apply second.mapItem modified
    intro item after there changed
    obtain ⟨next, filled, same⟩ := bind_ok.mp changed
    cases same
    exact here index (second _ item there) filled
  · cases rest
    exact first

variable {Q : IndexValuePair V → Prop} {roles : List Role}

mutual
/-- A property of an entry and the entries below it. -/
def All (Q : IndexValuePair V → Prop) : IndexValuePair V → Prop
  | ⟨index, data, hasChildren, flags, children, size⟩ => Q ⟨index, data, hasChildren, flags, children, size⟩ ∧ AllOf Q children

def AllOf (Q : IndexValuePair V → Prop) : List (IndexValuePair V) → Prop
  | [] => True
  | pair :: pairs => All Q pair ∧ AllOf Q pairs
end

mutual
theorem All.of_forall (each : ∀ pair, Q pair) : ∀ pair, All Q pair
  | ⟨_, _, _, _, children, _⟩ => ⟨each _, AllOf.of_forall each children⟩

theorem AllOf.of_forall (each : ∀ pair, Q pair) : ∀ pairs, AllOf Q pairs
  | [] => trivial
  | pair :: pairs => ⟨All.of_forall each pair, AllOf.of_forall each pairs⟩
end

mutual
theorem Everywhere.fillCache (empty : ∀ path, path ≠ [] → P path .empty)
    (here : ∀ {pair item last after}, Q pair → pair.index.getLast? = some last → P (rowsOf pair.index) item →
      fillItem pair roles last.column item = .ok after →
      P (rowsOf pair.index) { after with rowCount := pair.size.height, columnCount := pair.size.width }) :
    ∀ {pair : IndexValuePair V} {c d : CacheData V}, Everywhere P c → All Q pair →
      CacheData.fillCache nodesCacheSize roles pair c = .ok d → Everywhere P d
  | ⟨index, data, hasChildren, flags, children, size⟩, c, d, all, each, filled => by
    rw [CacheData.fillCache] at filled
    obtain ⟨middle, first, rest⟩ := bind_ok.mp filled
    exact Everywhere.fillCaches empty here (all.fillWith empty first (here each.1)) each.2 rest

theorem Everywhere.fillCaches (empty : ∀ path, path ≠ [] → P path .empty)
    (here : ∀ {pair item last after}, Q pair → pair.index.getLast? = some last → P (rowsOf pair.index) item →
      fillItem pair roles last.column item = .ok after →
      P (rowsOf pair.index) { after with rowCount := pair.size.height, columnCount := pair.size.width }) :
    ∀ {pairs : List (IndexValuePair V)} {c d : CacheData V}, Everywhere P c → AllOf Q pairs →
      CacheData.fillCaches nodesCacheSize roles pairs c = .ok d → Everywhere P d
  | [], c, d, all, _, filled => by
    rw [CacheData.fillCaches] at filled
    cases filled
    exact all
  | pair :: pairs, c, d, all, each, filled => by
    rw [CacheData.fillCaches] at filled
    obtain ⟨middle, first, rest⟩ := bind_ok.mp filled
    exact Everywhere.fillCaches empty here (Everywhere.fillCache empty here all each.1 first) each.2 rest
end

/-- The rows of a reply, one after the other. -/
theorem Everywhere.fillRows {pairs : List (IndexValuePair V)} (all : Everywhere P c) (empty : ∀ path, path ≠ [] → P path .empty)
    (here : ∀ pair ∈ pairs, ∀ {item last after}, pair.index.getLast? = some last → P (rowsOf pair.index) item →
      fillItem pair roles last.column item = .ok after → P (rowsOf pair.index) after)
    (filled : pairs.foldlM (fun c pair => c.fillWith nodesCacheSize pair roles id) c = .ok d) : Everywhere P d := by
  induction pairs generalizing c with
  | nil =>
    cases filled
    exact all
  | cons pair pairs ih =>
    obtain ⟨first, others⟩ := List.forall_mem_cons.mp here
    obtain ⟨middle, fill, rest⟩ := bind_ok.mp filled
    exact ih (all.fillWith empty fill first) others rest

/-- Where the item at the end keeps its own, so does the one at the top. -/
theorem modify_item {f : CacheData V → Except Failure (CacheData V)} (modified : c.modify f rows = .ok d)
    (keeps : ∀ {before after}, f before = .ok after → after.item = before.item) : d.item = c.item := by
  cases rows with
  | nil => exact keeps modified
  | cons row rows =>
    obtain ⟨_, _, _, _, _, outside⟩ := modify_spec modified
    exact Option.some.inj (outside [] (by simp))

end Everywhere

section Rows
variable {V : Type} {nodesCacheSize : Nat} {c d : CacheData V} {row start finish n : Nat}
open CacheData

/-- What an item behind the insertion of rows has: those above stay, those below have moved, the new ones are empty. -/
structure Inserted (start n : Nat) (c d : CacheData V) : Prop where
  rowCount : d.item.rowCount = c.item.rowCount + n
  columnCount : d.item.columnCount = c.item.columnCount
  cachedRowEntry : d.item.cachedRowEntry = c.item.cachedRowEntry
  below : ∀ {key path item}, d.item? (key :: path) = some item →
    key < start ∧ c.item? (key :: path) = some item ∨
      (start ≤ key ∧ key < start + n ∧ path = [] ∧ item = { ItemData.empty with columnCount := c.item.columnCount }) ∨
      start + n ≤ key ∧ c.item? ((key - n) :: path) = some item

theorem insertChild_spec (inserted : c.insertChild nodesCacheSize row = .ok d) : Inserted row 1 c d := by
  obtain ⟨⟨children, victim⟩, made, same⟩ := bind_ok.mp inserted
  cases same
  refine ⟨rfl, rfl, rfl, ?_⟩
  intro key path item there
  rw [item?_cons] at there
  obtain ⟨child, found, there⟩ := Option.bind_eq_some_iff.mp there
  obtain ⟨rfl, rfl⟩ | ⟨other, before⟩ := LruCache.find?_ensure made found
  · right; left
    cases path with
    | nil => exact ⟨Nat.le_refl _, Nat.lt_succ_self _, rfl, (Option.some.inj there).symm⟩
    | cons => simp [item?_cons] at there
  · rw [LruCache.find?_changeKeys_up] at before
    by_cases above : key < row
    · rw [if_pos above] at before
      exact .inl ⟨above, by rw [item?_cons, before]; exact there⟩
    · rw [if_neg above, if_neg other] at before
      exact .inr (.inr ⟨by omega, by rw [item?_cons, before]; exact there⟩)

theorem insertRows_spec (inserted : (List.range' start n).foldlM (fun c row => c.insertChild nodesCacheSize row) c = .ok d) :
    Inserted start n c d := by
  induction n generalizing d with
  | zero =>
    cases inserted
    exact ⟨rfl, rfl, rfl, fun {key _ _} there => by
      obtain above | below := Nat.lt_or_ge key start
      · exact .inl ⟨above, there⟩
      · exact .inr (.inr ⟨below, there⟩)⟩
  | succ n ih =>
    rw [List.range'_1_concat, List.foldlM_append] at inserted
    obtain ⟨middle, first, last⟩ := bind_ok.mp inserted
    have before := ih first
    have here : middle.insertChild nodesCacheSize (start + n) = .ok d := by
      obtain ⟨e, last, same⟩ := bind_ok.mp last
      cases same
      exact last
    have last := insertChild_spec here
    refine ⟨by rw [last.rowCount, before.rowCount, Nat.add_assoc], last.columnCount.trans before.columnCount,
      last.cachedRowEntry.trans before.cachedRowEntry, ?_⟩
    intro key path item there
    obtain ⟨above, there⟩ | ⟨from', upTo, rfl, rfl⟩ | ⟨behind, there⟩ := last.below there
    · obtain old | new | ⟨far, _⟩ := before.below there
      · exact .inl old
      · exact .inr (.inl ⟨new.1, by omega, new.2.2⟩)
      · omega
    · rw [before.columnCount]
      exact .inr (.inl ⟨by omega, by omega, rfl, rfl⟩)
    · obtain ⟨near, _⟩ | ⟨_, near, _⟩ | ⟨far, there⟩ := before.below there
      · omega
      · omega
      · refine .inr (.inr ⟨by omega, ?_⟩)
        rw [show key - (n + 1) = key - 1 - n by omega]
        exact there

theorem insertChildren_spec (inserted : c.insertChildren nodesCacheSize start finish = .ok d) :
    start ≤ finish ∧ Inserted start (finish + 1 - start) c d := by
  rw [insertChildren] at inserted
  split at inserted
  · rename_i ordered
    obtain ⟨middle, rows, same⟩ := bind_ok.mp inserted
    cases same
    have spec := insertRows_spec rows
    refine ⟨ordered, spec.rowCount, spec.columnCount, spec.cachedRowEntry, ?_⟩
    intro key path item there
    exact spec.below there
  · contradiction

theorem removeChild_item? (c : CacheData V) (row key : Nat) (path : List Nat) :
    (c.removeChild row).item? (key :: path) = c.item? ((if key < row then key else key + 1) :: path) := by
  rw [item?_cons, item?_cons, removeChild, LruCache.find?_remove]

theorem removeRows_spec (c : CacheData V) (start n : Nat) :
    let d := (List.range' start n).reverse.foldl removeChild c
    d.item = { c.item with rowCount := c.item.rowCount - n } ∧
      ∀ key path, d.item? (key :: path) = c.item? ((if key < start then key else key + n) :: path) := by
  induction n generalizing c with
  | zero => exact ⟨rfl, fun key path => by simp⟩
  | succ n ih =>
    obtain ⟨top, below⟩ := ih (c.removeChild (start + n))
    rw [List.range'_1_concat, List.reverse_append]
    refine ⟨?_, ?_⟩
    · apply top.trans
      rw [removeChild, Nat.sub_sub, Nat.add_comm 1]
    · intro key path
      apply (below key path).trans
      rw [removeChild_item?]
      congr 2
      grind

/-- What an item behind the removal of rows has: those above stay, and those below have moved. -/
structure Removed (start n : Nat) (c d : CacheData V) : Prop where
  item : d.item = { c.item with rowCount := c.item.rowCount - n, hasChildren := c.item.rowCount - n ≠ 0 }
  below : ∀ key path, d.item? (key :: path) = c.item? ((if key < start then key else key + n) :: path)

theorem removeChildren_spec (removed : c.removeChildren start finish = .ok d) :
    (start ≤ finish ∧ finish < c.item.rowCount) ∧ Removed start (finish + 1 - start) c d := by
  rw [removeChildren] at removed
  split at removed
  · rename_i inside
    obtain ⟨top, below⟩ := removeRows_spec c start (finish + 1 - start)
    cases removed
    refine ⟨inside, by rw [top], ?_⟩
    intro key path
    exact below key path
  · contradiction

end Rows
end RemoteObjects.ItemModel
