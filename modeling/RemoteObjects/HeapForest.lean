import Mathlib.Data.List.AList

/-! Nodes on a heap that own each other as a forest: each has a pointer to its parent and a list of the nodes it owns, which
are destroyed with it. -/
namespace RemoteObjects.HeapForest

abbrev Address := Nat

abbrev Heap (Node : Type) := AList fun _ : Address => Node

section Model
variable {Node : Type} (parent : Node → Option Address) (owned : Node → List Address)

/-- Destroys the nodes of a list with all below them, and lists the destroyed nodes in order. It is `none` where a node
of the list does not exist, or more than the first argument have to be destroyed. -/
def destroy : Nat → List Address → Heap Node → Option (Heap Node × List Address)
  | _, [], h => some (h, [])
  | 0, _ :: _, _ => none
  | fuel + 1, a :: work, h => do
    let node ← h.lookup a
    let (h, gone) ← destroy fuel (owned node ++ work) (h.erase a)
    pure (h, a :: gone)

/-- A free address: the one that is suggested, or else one above all others. -/
def fresh (suggested : Address) (h : Heap Node) : Address :=
  if suggested ∈ h then h.keys.foldr max 0 + 1 else suggested

/-- Owners are closer to the root than what they own. -/
def Ranked (rank : Address → Nat) (h : Heap Node) : Prop :=
  ∀ {p node}, h.lookup p = some node → ∀ c ∈ owned node, rank p < rank c

/-- Every node but the root is owned by its parent, or on the list of those that no node owns. -/
structure Owns (root : Address) (work : List Address) (h : Heap Node) : Prop where
  rooted : ∃ node, h.lookup root = some node ∧ parent node = none
  listed : work.Nodup
  detached : ∀ a ∈ work, a ∈ h ∧ a ≠ root
  held : ∀ {a node}, h.lookup a = some node → a ≠ root → a ∉ work →
    ∃ p owner, parent node = some p ∧ h.lookup p = some owner ∧ a ∈ owned owner
  child : ∀ {p node}, h.lookup p = some node → ∀ c ∈ owned node,
    c ∉ work ∧ ∃ below, h.lookup c = some below ∧ parent below = some p
  distinct : ∀ {p node}, h.lookup p = some node → (owned node).Nodup
  ranked : ∃ rank, Ranked owned rank h

end Model

section Lookup
variable {Node : Type} {h : Heap Node} {a b : Address} {node found : Node}

theorem lookup_insert_iff : (h.insert a node).lookup b = some found ↔
    b = a ∧ found = node ∨ b ≠ a ∧ h.lookup b = some found := by
  by_cases same : b = a
  · subst same
    simp [AList.lookup_insert, eq_comm]
  · simp [AList.lookup_insert_ne same, same]

theorem lookup_erase_iff : (h.erase a).lookup b = some found ↔ b ≠ a ∧ h.lookup b = some found := by
  by_cases same : b = a
  · subst same
    simp [AList.lookup_erase]
  · simp [AList.lookup_erase_ne same, same]

theorem mem_iff_lookup : a ∈ h ↔ ∃ node, h.lookup a = some node := by
  rw [← AList.lookup_isSome, Option.isSome_iff_exists]

theorem fresh_not_mem (suggested : Address) (h : Heap Node) : fresh suggested h ∉ h := by
  rw [fresh]
  split
  · rw [AList.mem_keys]
    have below : ∀ (keys : List Address), ∀ a ∈ keys, a ≤ keys.foldr max 0 := by
      intro keys
      induction keys with
      | nil => simp
      | cons key keys ih => grind
    intro there
    exact Nat.not_succ_le_self _ (below _ _ there)
  · assumption

end Lookup

section Ownership
variable {Node : Type} {parent : Node → Option Address} {owned : Node → List Address} {root a : Address}
  {work : List Address} {h : Heap Node} {node : Node}

/-- The first of the list goes, and what it owned stands in its place. -/
theorem Owns.erase (owns : Owns parent owned root (a :: work) h) (here : h.lookup a = some node) :
    Owns parent owned root (owned node ++ work) (h.erase a) := by
  obtain ⟨alone, workListed⟩ := List.nodup_cons.mp owns.listed
  have rootElse : a ≠ root := (owns.detached a List.mem_cons_self).2
  have orphan : ∀ {p owner c}, h.lookup p = some owner → c ∈ owned owner → c ≠ a ∧ c ∉ work := by
    intro p owner c there own
    have free := (owns.child there c own).1
    exact ⟨fun same => free (same ▸ List.mem_cons_self), fun later => free (List.mem_cons_of_mem _ later)⟩
  constructor
  · obtain ⟨top, there, none⟩ := owns.rooted
    exact ⟨top, lookup_erase_iff.mpr ⟨rootElse.symm, there⟩, none⟩
  · apply List.Nodup.append (owns.distinct here) workListed
    exact fun c own later => (orphan here own).2 later
  · intro c there
    obtain own | later := List.mem_append.mp there
    · obtain ⟨_, below, found, up⟩ := owns.child here c own
      refine ⟨AList.mem_erase.mpr ⟨(orphan here own).1, mem_iff_lookup.mpr ⟨below, found⟩⟩, ?_⟩
      rintro rfl
      obtain ⟨top, there, none⟩ := owns.rooted
      rw [Option.some.inj (there.symm.trans found), up] at none
      contradiction
    · obtain ⟨live, other⟩ := owns.detached c (List.mem_cons_of_mem _ later)
      exact ⟨AList.mem_erase.mpr ⟨fun same => alone (same ▸ later), live⟩, other⟩
  · intro b found there other free
    obtain ⟨differs, before⟩ := lookup_erase_iff.mp there
    obtain ⟨own, later⟩ := not_or.mp (mt List.mem_append.mpr free)
    obtain ⟨p, owner, up, live, holds⟩ := owns.held before other (by simp [differs, later])
    refine ⟨p, owner, up, lookup_erase_iff.mpr ⟨?_, live⟩, holds⟩
    rintro rfl
    exact own (Option.some.inj (live.symm.trans here) ▸ holds)
  · intro p owner there c own
    obtain ⟨differs, before⟩ := lookup_erase_iff.mp there
    obtain ⟨free, below, found, up⟩ := owns.child before c own
    refine ⟨?_, below, lookup_erase_iff.mpr ⟨(orphan before own).1, found⟩, up⟩
    intro listed
    obtain twice | later := List.mem_append.mp listed
    · obtain ⟨_, other, found', up'⟩ := owns.child here c twice
      obtain rfl := Option.some.inj (found.symm.trans found')
      exact differs (Option.some.inj (up.symm.trans up'))
    · exact (orphan before own).2 later
  · exact fun there => owns.distinct (lookup_erase_iff.mp there).2
  · obtain ⟨rank, ranked⟩ := owns.ranked
    exact ⟨rank, fun there => ranked (lookup_erase_iff.mp there).2⟩

/-- Destroying what no node owns succeeds, and touches only nodes that are ranked behind one of those. -/
theorem destroy_owns {fuel : Nat} (owns : Owns parent owned root work h) (enough : h.keys.length ≤ fuel) :
    ∃ after gone, destroy owned fuel work h = some (after, gone) ∧ Owns parent owned root [] after ∧
      (∀ {b found}, after.lookup b = some found ↔ b ∉ gone ∧ h.lookup b = some found) ∧
      ∀ {rank}, Ranked owned rank h → ∀ c ∈ gone, ∃ w ∈ work, rank w ≤ rank c := by
  induction fuel generalizing work h with
  | zero =>
    obtain ⟨top, there, _⟩ := owns.rooted
    have live := AList.mem_keys.mp (mem_iff_lookup.mpr ⟨top, there⟩)
    rw [List.eq_nil_of_length_eq_zero (Nat.le_zero.mp enough)] at live
    contradiction
  | succ fuel ih =>
    cases work with
    | nil => exact ⟨h, [], rfl, owns, by simp, by simp⟩
    | cons a work =>
      have live := (owns.detached a List.mem_cons_self).1
      obtain ⟨node, here⟩ := mem_iff_lookup.mp live
      have fewer : (h.erase a).keys.length ≤ fuel := by
        rw [AList.keys_erase, List.length_erase_of_mem (AList.mem_keys.mp live)]
        omega
      obtain ⟨after, gone, destroyed, rest, kept, behind⟩ := ih (owns.erase here) fewer
      refine ⟨after, a :: gone, ?_, rest, ?_, ?_⟩
      · simp [destroy, here, destroyed]
      · intro b found
        rw [kept, lookup_erase_iff, List.mem_cons, not_or, and_left_comm, and_assoc]
      · intro rank ranked c there
        obtain rfl | below := List.mem_cons.mp there
        · exact ⟨c, List.mem_cons_self, le_rfl⟩
        · obtain ⟨w, listed, less⟩ := behind (fun found => ranked (lookup_erase_iff.mp found).2) c below
          obtain own | later := List.mem_append.mp listed
          · exact ⟨a, List.mem_cons_self, Nat.le_trans (Nat.le_of_lt (ranked here w own)) less⟩
          · exact ⟨w, List.mem_cons_of_mem _ later, less⟩

/-- A new node that owns nothing, before any node owns it. -/
theorem Owns.allocate (owns : Owns parent owned root [] h) (free : a ∉ h) (empty : owned node = []) :
    Owns parent owned root [a] (h.insert a node) := by
  have older : ∀ {b found}, h.lookup b = some found → b ≠ a := by
    rintro b found there rfl
    exact free (mem_iff_lookup.mpr ⟨found, there⟩)
  obtain ⟨top, there, none⟩ := owns.rooted
  constructor
  · exact ⟨top, lookup_insert_iff.mpr (.inr ⟨older there, there⟩), none⟩
  · exact List.nodup_singleton a
  · intro b listed
    obtain rfl := List.mem_singleton.mp listed
    exact ⟨(AList.mem_insert h).mpr (.inl rfl), (older there).symm⟩
  · intro b found there other unlisted
    obtain ⟨rfl, _⟩ | ⟨_, before⟩ := lookup_insert_iff.mp there
    · exact absurd List.mem_cons_self unlisted
    · obtain ⟨p, owner, up, live, holds⟩ := owns.held before other List.not_mem_nil
      exact ⟨p, owner, up, lookup_insert_iff.mpr (.inr ⟨older live, live⟩), holds⟩
  · intro p owner there c own
    obtain ⟨rfl, rfl⟩ | ⟨_, before⟩ := lookup_insert_iff.mp there
    · rw [empty] at own
      contradiction
    · obtain ⟨_, below, found, up⟩ := owns.child before c own
      exact ⟨fun listed => older found (List.mem_singleton.mp listed), below,
        lookup_insert_iff.mpr (.inr ⟨older found, found⟩), up⟩
  · intro p owner there
    obtain ⟨rfl, rfl⟩ | ⟨_, before⟩ := lookup_insert_iff.mp there
    · rw [empty]
      exact List.nodup_nil
    · exact owns.distinct before
  · obtain ⟨rank, ranked⟩ := owns.ranked
    refine ⟨rank, fun there c own => ?_⟩
    obtain ⟨rfl, rfl⟩ | ⟨_, before⟩ := lookup_insert_iff.mp there
    · rw [empty] at own
      contradiction
    · exact ranked before c own

/-- The new node can be ranked behind any other. -/
theorem Owns.allocate_ranked {b : Address} (owns : Owns parent owned root [] h) (free : a ∉ h) (empty : owned node = [])
    (other : b ≠ a) : ∃ rank, Ranked owned rank (h.insert a node) ∧ rank b < rank a := by
  obtain ⟨rank, ranked⟩ := owns.ranked
  refine ⟨Function.update rank a (rank b + 1), fun there c own => ?_, ?_⟩
  · obtain ⟨rfl, rfl⟩ | ⟨differs, before⟩ := lookup_insert_iff.mp there
    · rw [empty] at own
      contradiction
    · obtain ⟨_, below, found, _⟩ := owns.child before c own
      have older : c ≠ a := by
        rintro rfl
        exact free (mem_iff_lookup.mpr ⟨below, found⟩)
      rw [Function.update_of_ne differs, Function.update_of_ne older]
      exact ranked before c own
  · rw [Function.update_self, Function.update_of_ne other]
    exact Nat.lt_succ_self _

/-- A node takes over some of the list and gives up some of what it owned. -/
theorem Owns.replace {next : Node} {left : List Address} (owns : Owns parent owned root work h) (here : h.lookup a = some node)
    (same : parent next = parent node) (moved : (owned next ++ left).Perm (owned node ++ work))
    (fits : ∀ c ∈ owned next, ∃ below, h.lookup c = some below ∧ parent below = some a)
    (ranked : ∃ rank, Ranked owned rank h ∧ ∀ c ∈ owned next, rank a < rank c) :
    Owns parent owned root left (h.insert a next) := by
  have members : ∀ c, c ∈ owned next ∨ c ∈ left ↔ c ∈ owned node ∨ c ∈ work := by
    intro c
    simpa only [List.mem_append] using moved.mem_iff
  have nodup : (owned next ++ left).Nodup := by
    rw [moved.nodup_iff]
    exact (owns.distinct here).append owns.listed fun c own => (owns.child here c own).1
  obtain ⟨rank, ranked, behind⟩ := ranked
  have notOwn : a ∉ owned next := fun own => Nat.lt_irrefl _ (behind a own)
  have orphan : ∀ {p owner c}, h.lookup p = some owner → p ≠ a → c ∈ owned owner → c ∉ left := by
    intro p owner c there differs own listed
    obtain ⟨free, below, found, up⟩ := owns.child there c own
    obtain twice | later := (members c).mp (.inr listed)
    · obtain ⟨_, other, found', up'⟩ := owns.child here c twice
      obtain rfl := Option.some.inj (found.symm.trans found')
      exact differs (Option.some.inj (up.symm.trans up'))
    · exact free later
  constructor
  · obtain ⟨top, there, none⟩ := owns.rooted
    by_cases atRoot : root = a
    · subst atRoot
      obtain rfl := Option.some.inj (here.symm.trans there)
      exact ⟨next, AList.lookup_insert h, same.trans none⟩
    · exact ⟨top, lookup_insert_iff.mpr (.inr ⟨atRoot, there⟩), none⟩
  · exact nodup.of_append_right
  · intro c listed
    obtain own | later := (members c).mp (.inr listed)
    · obtain ⟨_, below, found, up⟩ := owns.child here c own
      refine ⟨(AList.mem_insert h).mpr (.inr (mem_iff_lookup.mpr ⟨below, found⟩)), ?_⟩
      rintro rfl
      obtain ⟨top, there, none⟩ := owns.rooted
      rw [Option.some.inj (there.symm.trans found), up] at none
      contradiction
    · obtain ⟨live, other⟩ := owns.detached c later
      exact ⟨(AList.mem_insert h).mpr (.inr live), other⟩
  · intro b found there other free
    obtain ⟨rfl, rfl⟩ | ⟨differs, before⟩ := lookup_insert_iff.mp there
    · have unlisted : b ∉ work := fun later => ((members b).mpr (.inr later)).elim notOwn free
      obtain ⟨p, owner, up, live, holds⟩ := owns.held here other unlisted
      have above : p ≠ b := by
        rintro rfl
        exact Nat.lt_irrefl _ (ranked live _ holds)
      exact ⟨p, owner, same.trans up, lookup_insert_iff.mpr (.inr ⟨above, live⟩), holds⟩
    · by_cases listed : b ∈ work
      · have own : b ∈ owned next := ((members b).mpr (.inr listed)).resolve_right free
        obtain ⟨below, found', up⟩ := fits b own
        obtain rfl := Option.some.inj (before.symm.trans found')
        exact ⟨a, next, up, AList.lookup_insert h, own⟩
      · obtain ⟨p, owner, up, live, holds⟩ := owns.held before other listed
        by_cases atA : p = a
        · subst atA
          obtain rfl := Option.some.inj (here.symm.trans live)
          exact ⟨p, next, up, AList.lookup_insert h, ((members b).mpr (.inl holds)).resolve_right free⟩
        · exact ⟨p, owner, up, lookup_insert_iff.mpr (.inr ⟨atA, live⟩), holds⟩
  · intro p owner there c own
    obtain ⟨rfl, rfl⟩ | ⟨differs, before⟩ := lookup_insert_iff.mp there
    · obtain ⟨below, found, up⟩ := fits c own
      refine ⟨fun listed => List.disjoint_of_nodup_append nodup own listed, below, ?_, up⟩
      exact lookup_insert_iff.mpr (.inr ⟨fun atA => notOwn (atA ▸ own), found⟩)
    · refine ⟨orphan before differs own, ?_⟩
      obtain ⟨_, below, found, up⟩ := owns.child before c own
      by_cases atA : c = a
      · subst atA
        obtain rfl := Option.some.inj (here.symm.trans found)
        exact ⟨next, AList.lookup_insert h, same.trans up⟩
      · exact ⟨below, lookup_insert_iff.mpr (.inr ⟨atA, found⟩), up⟩
  · intro p owner there
    obtain ⟨rfl, rfl⟩ | ⟨_, before⟩ := lookup_insert_iff.mp there
    · exact nodup.of_append_left
    · exact owns.distinct before
  · refine ⟨rank, fun there c own => ?_⟩
    obtain ⟨rfl, rfl⟩ | ⟨_, before⟩ := lookup_insert_iff.mp there
    · exact behind c own
    · exact ranked before c own

end Ownership
end RemoteObjects.HeapForest
