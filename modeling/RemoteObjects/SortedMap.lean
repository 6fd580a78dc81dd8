import Mathlib.Data.List.Sort

/-! Maps as lists of entries in the order of their keys. An entry that is inserted replaces the
one of its key. -/
namespace RemoteObjects.SortedMap
variable {K V : Type*} [LinearOrder K] {map entries : List (K × V)} {key : K} {value : V}

def insert (key : K) (value : V) : List (K × V) → List (K × V)
  | [] => [(key, value)]
  | (k, v) :: map =>
    if key < k then (key, value) :: (k, v) :: map
    else if key = k then (key, value) :: map
    else (k, v) :: insert key value map

/-- The entries, one after the other. -/
def insertAll (map entries : List (K × V)) : List (K × V) :=
  entries.foldl (fun map entry => insert entry.1 entry.2 map) map

def Sorted (map : List (K × V)) : Prop := map.Pairwise (·.1 < ·.1)

theorem mem_insert (entry : K × V) (member : entry ∈ insert key value map) : entry = (key, value) ∨ entry ∈ map := by
  induction map with
  | nil => exact .inl (List.mem_singleton.mp member)
  | cons first map ih =>
    rw [insert] at member
    split at member
    · exact (List.mem_cons.mp member)
    · split at member
      · exact (List.mem_cons.mp member).imp_right (List.mem_cons_of_mem _)
      · rcases List.mem_cons.mp member with rfl | behind
        · exact .inr List.mem_cons_self
        · exact (ih behind).imp_right (List.mem_cons_of_mem _)

theorem Sorted.insert (sorted : Sorted map) : Sorted (insert key value map) := by
  induction map with
  | nil => exact List.pairwise_singleton _ _
  | cons first map ih =>
    obtain ⟨least, rest⟩ := List.pairwise_cons.mp sorted
    rw [SortedMap.insert]
    split
    · rename_i before
      refine List.pairwise_cons.mpr ⟨fun entry member => ?_, sorted⟩
      rcases List.mem_cons.mp member with rfl | behind
      · exact before
      · exact lt_trans before (least entry behind)
    · split
      · rename_i same
        exact List.pairwise_cons.mpr ⟨fun entry member => same ▸ least entry member, rest⟩
      · rename_i notBefore other
        refine List.pairwise_cons.mpr ⟨fun entry member => ?_, ih rest⟩
        rcases mem_insert entry member with rfl | behind
        · exact lt_of_le_of_ne (not_lt.mp notBefore) (Ne.symm other)
        · exact least entry behind

theorem insert_perm (value : V) (new : key ∉ map.map Prod.fst) : (insert key value map).Perm ((key, value) :: map) := by
  induction map with
  | nil => exact .refl _
  | cons first map ih =>
    rw [List.map_cons, List.mem_cons, not_or] at new
    obtain ⟨other, new⟩ := new
    rw [insert, if_neg other]
    split
    · exact .refl _
    · exact ((ih new).cons first).trans (.swap ..)

theorem insert_subperm : (insert key value map).Subperm ((key, value) :: map) := by
  induction map with
  | nil => exact .refl _
  | cons first map ih =>
    rw [insert]
    split
    · exact .refl _
    · split
      · exact ((List.sublist_cons_self first map).cons_cons (key, value)).subperm
      · exact ((List.subperm_cons first).mpr ih).trans (List.Perm.swap ..).subperm

/-- A key that is there makes the map no longer. -/
theorem length_insert (value : V) (sorted : Sorted map) : (insert key value map).length =
    map.length + if key ∈ map.map Prod.fst then 0 else 1 := by
  by_cases new : key ∈ map.map Prod.fst
  · rw [if_pos new]
    induction map with
    | nil => exact (nomatch new)
    | cons first map ih =>
      obtain ⟨least, rest⟩ := List.pairwise_cons.mp sorted
      rw [insert]
      rcases List.mem_cons.mp new with same | behind
      · rw [if_neg (same ▸ lt_irrefl _), if_pos same]
        rfl
      · obtain ⟨entry, member, rfl⟩ := List.mem_map.mp behind
        rw [if_neg (not_lt_of_gt (least entry member)), if_neg (ne_of_gt (least entry member)), List.length_cons,
          ih rest behind]
        rfl
  · rw [if_neg new, (insert_perm value new).length_eq, List.length_cons]

theorem sorted_insertAll (sorted : Sorted map) : Sorted (insertAll map entries) := by
  induction entries generalizing map with
  | nil => exact sorted
  | cons entry entries ih => exact ih sorted.insert

/-- Nothing comes into a map but the entries. -/
theorem insertAll_subperm : (insertAll map entries).Subperm (map ++ entries) := by
  induction entries generalizing map with
  | nil =>
    rw [List.append_nil]
    exact .refl _
  | cons entry entries ih =>
    have moved : (entry :: map ++ entries).Perm (map ++ entry :: entries) := List.perm_middle.symm
    have inserted : (insert entry.1 entry.2 map).Subperm (entry :: map) := insert_subperm
    exact ih.trans (((List.subperm_append_right entries).mpr inserted).trans moved.subperm)

theorem insertAll_perm (fresh : ((map ++ entries).map Prod.fst).Nodup) : (insertAll map entries).Perm (map ++ entries) := by
  induction entries generalizing map with
  | nil =>
    rw [List.append_nil]
    exact .refl _
  | cons entry entries ih =>
    have moved : (map ++ entry :: entries).Perm (entry :: map ++ entries) := List.perm_middle
    have again := (moved.map Prod.fst).nodup fresh
    rw [List.cons_append, List.map_cons, List.map_append] at again
    have new : entry.1 ∉ map.map Prod.fst := fun member =>
      (List.nodup_cons.mp again).1 (List.mem_append_left _ member)
    rw [← List.map_append, ← List.map_cons, ← List.cons_append] at again
    have inserted := insert_perm entry.2 new
    exact (ih (((inserted.append_right entries).map Prod.fst).symm.nodup again)).trans
      ((inserted.append_right entries).trans moved.symm)

theorem length_insertAll_le : (insertAll map entries).length ≤ map.length + entries.length := by
  rw [← List.length_append]
  exact insertAll_subperm.length_le

theorem Sorted.nodup (sorted : Sorted map) : (map.map Prod.fst).Nodup :=
  List.pairwise_map.mpr (sorted.imp ne_of_lt)

/-- A map that grows by all entries gets keys that are new and different. -/
theorem nodup_of_length (sorted : Sorted map) (full : (insertAll map entries).length = map.length + entries.length) :
    ((map ++ entries).map Prod.fst).Nodup := by
  induction entries generalizing map with
  | nil =>
    rw [List.append_nil]
    exact sorted.nodup
  | cons entry entries ih =>
    have step : (insert entry.1 entry.2 map).length = map.length + if entry.1 ∈ map.map Prod.fst then 0 else 1 :=
      length_insert entry.2 sorted
    have rest : (insertAll (insert entry.1 entry.2 map) entries).length ≤ (insert entry.1 entry.2 map).length + entries.length :=
      length_insertAll_le
    rw [insertAll, List.foldl_cons, ← insertAll, List.length_cons] at full
    have new : entry.1 ∉ map.map Prod.fst := by
      intro member
      rw [if_pos member] at step
      omega
    rw [if_neg new] at step
    have stays : Sorted (insert entry.1 entry.2 map) := sorted.insert
    have distinct := ih stays (by omega)
    have moved : (insert entry.1 entry.2 map ++ entries).Perm (map ++ entry :: entries) :=
      ((insert_perm entry.2 new).append_right entries).trans List.perm_middle.symm
    exact (moved.map Prod.fst).nodup distinct

/-- Entries with different keys end up sorted. -/
theorem insertAll_eq_insertionSort (distinct : (entries.map Prod.fst).Nodup) :
    insertAll [] entries = entries.insertionSort (·.1 ≤ ·.1) := by
  have perm : (insertAll [] entries).Perm entries := insertAll_perm distinct
  refine List.Perm.eq_of_pairwise ?_ ((sorted_insertAll .nil).imp le_of_lt) ?_
    (perm.trans (List.perm_insertionSort _ entries).symm)
  · intro a b member member' before behind
    have inside := (List.perm_insertionSort _ entries).mem_iff.mp member'
    exact List.inj_on_of_nodup_map distinct (perm.mem_iff.mp member) inside (le_antisymm before behind)
  · exact List.pairwise_insertionSort _ entries

/-- A map that is filled from a map is the same. -/
theorem insertAll_sorted (sorted : Sorted map) : insertAll [] map = map := by
  have perm : (insertAll [] map).Perm map := insertAll_perm sorted.nodup
  refine List.Perm.eq_of_pairwise ?_ (sorted_insertAll .nil) sorted perm
  intro a b _ _ before behind
  exact absurd before (lt_asymm behind)

end RemoteObjects.SortedMap
