import Mathlib.Algebra.BigOperators.Group.List.Basic
import Mathlib.Data.List.Nodup
import RemoteObjects.ItemModel.Replica

/-! The requests for rows that are queued, and those that are made of them. The queue's requests are merged in order, as long as
they are near each other. -/
namespace RemoteObjects.ItemModel

section Statement

/-- What `fetchPendingData` asserts of a request. -/
def RequestedData.Asserted (data : RequestedData) : Prop := data.start ≠ [] ∧ data.start.length = data.finish.length

/-- A role of a cell below a parent is among what is requested. -/
def RequestedData.Covers (data : RequestedData) (parent : IndexList) (cell : ModelIndex) (role : Role) : Prop :=
  ∃ start finish, data.start = parent ++ [start] ∧ data.finish.getLast? = some finish ∧
    (start.row ≤ cell.row ∧ cell.row ≤ finish.row) ∧ (start.column ≤ cell.column ∧ cell.column ≤ finish.column) ∧ role ∈ data.roles

/-- The rectangle around two requests, with the roles of both. -/
def RequestedData.merged (current next : RequestedData) : RequestedData :=
  match current.start.getLast?, current.finish.getLast?, next.start.getLast?, next.finish.getLast? with
  | some curStart, some curEnd, some dataStart, some dataEnd =>
    ⟨current.start.dropLast ++ [⟨min curStart.row dataStart.row, min curStart.column dataStart.column⟩],
      current.finish.dropLast ++ [⟨max curEnd.row dataEnd.row, max curEnd.column dataEnd.column⟩],
      if current.roles.isEmpty then [] else current.roles ++ next.roles.filter fun role => !current.roles.contains role⟩
  | _, _, _, _ => current

/-- `finalRequests` of a queue, in the order in which they are made. -/
def finalRequests : List RequestedData → List RequestedData
  | [] => []
  | first :: rest => mergeRequests first (first :: rest)

def mergeGroup : List RequestedData → Option RequestedData
  | [] => none
  | first :: rest => some (rest.foldl RequestedData.merged first)

/-- A rectangle in order, of a hundred rows at most. -/
def RequestedData.Fits (data : RequestedData) : Prop :=
  ∃ first last, data.start.getLast? = some first ∧ data.finish.getLast? = some last ∧
    (first.row ≤ last.row ∧ last.row < first.row + 100) ∧ first.column ≤ last.column

/-- The requests that the loop merges with themselves fit: the first, and one behind another of the same depth that has another
parent. -/
def SelfMergedFit : List RequestedData → Prop
  | [] => True
  | first :: rest => first.Fits ∧ (first :: rest).IsChain fun previous next =>
      previous.start.length = next.start.length → previous.start.dropLast ≠ next.start.dropLast → next.Fits

end Statement

section Step
variable {current next data : RequestedData} {parent : IndexList} {cell : ModelIndex} {role : Role}

/-- Whether two requests with the same parent are merged. -/
def RequestedData.near (current next : RequestedData) : Bool :=
  match current.start.getLast?, current.finish.getLast?, next.start.getLast?, next.finish.getLast? with
  | some curStart, some curEnd, some dataStart, some dataEnd =>
    let borders := adjacent curStart.row dataStart.row || adjacent curStart.column dataStart.column ||
      adjacent curEnd.row dataEnd.row || adjacent curEnd.column dataEnd.column
    max curEnd.row dataEnd.row < min curStart.row dataStart.row + 100 ∧ (intersects curStart curEnd dataStart dataEnd ∨ borders)
  | _, _, _, _ => true

/-- The comparison of the parents ends with the new request at hand once, if they differ. -/
theorem foldl_compare (positions : List Nat) (final : List RequestedData) (current next : RequestedData) :
    positions.foldl (fun (final, current) i =>
      if current.start[i]? = next.start[i]? then (final, current) else (final ++ [current], next)) (final, current) =
    if ∀ i ∈ positions, current.start[i]? = next.start[i]? then (final, current) else (final ++ [current], next) := by
  induction positions generalizing final current with
  | nil => simp
  | cons i positions ih =>
    rw [List.foldl_cons]
    by_cases same : current.start[i]? = next.start[i]?
    · simp [same, ih]
    · simp [same, ih]

theorem compare_parents (same : current.start.length = next.start.length) :
    (∀ i ∈ List.range (next.start.length - 1), current.start[i]? = next.start[i]?) ↔ current.start.dropLast = next.start.dropLast := by
  simp only [List.mem_range]
  constructor
  · intro each
    apply List.ext_getElem?
    intro i
    rw [List.getElem?_dropLast, List.getElem?_dropLast, same]
    split
    · rename_i short
      exact each i short
    · rfl
  · intro parents i short
    have equal := congrArg (fun list => list[i]?) parents
    rwa [List.getElem?_dropLast, List.getElem?_dropLast, same, if_pos short, if_pos short] at equal

@[simp] theorem merged_self (data : RequestedData) : data.merged data = data := by
  obtain ⟨start, finish, roles⟩ := data
  rw [RequestedData.merged]
  split
  · rename_i curStart curEnd dataStart dataEnd first last first' last'
    obtain rfl := Option.some.inj (first.symm.trans first')
    obtain rfl := Option.some.inj (last.symm.trans last')
    have known : (roles.filter fun role => !roles.contains role) = [] := by simp
    simp only [Nat.min_self, Nat.max_self, known, List.append_nil]
    congr 1
    · exact List.dropLast_append_getLast? _ first
    · exact List.dropLast_append_getLast? _ last
    · cases roles <;> rfl
  · rfl

/-- The request at hand when the parents are compared, with what is final by then. -/
def compared (current next : RequestedData) : List RequestedData × RequestedData :=
  if current.start.dropLast = next.start.dropLast then ([], current) else ([current], next)

theorem mergeRequest_eq (same : current.start.length = next.start.length) : mergeRequest current next =
    if (compared current next).2.near next then ((compared current next).1, (compared current next).2.merged next)
    else ((compared current next).1 ++ [(compared current next).2], next) := by
  have folded : (List.range (next.start.length - 1)).foldl (fun (final, current) i =>
      if current.start[i]? = next.start[i]? then (final, current) else (final ++ [current], next)) ([], current) =
      compared current next := by
    rw [foldl_compare, compared]
    simp only [compare_parents same, List.nil_append]
  rw [mergeRequest, if_neg (not_not.mpr same), folded]
  generalize compared current next = result
  obtain ⟨final, hand⟩ := result
  dsimp only
  rw [RequestedData.near, RequestedData.merged]
  cases hand.start.getLast? with
  | none => rfl
  | some curStart =>
    cases hand.finish.getLast? with
    | none => rfl
    | some curEnd =>
      cases next.start.getLast? with
      | none => rfl
      | some dataStart =>
        cases next.finish.getLast? with
        | none => rfl
        | some dataEnd => simp only [decide_eq_true_eq]

/-- What the body of the loop does: the next request is merged with the one at hand, or comes in its place, or is final itself as
well. -/
theorem mergeRequest_cases (current next : RequestedData) :
    mergeRequest current next = ([], current.merged next) ∧ current.start.length = next.start.length ∧
      current.start.dropLast = next.start.dropLast ∨
    mergeRequest current next = ([current], next) ∨
    mergeRequest current next = ([current, next], next) ∧ current.start.length = next.start.length ∧
      current.start.dropLast ≠ next.start.dropLast ∧ next.near next = false := by
  by_cases same : current.start.length = next.start.length
  · rw [mergeRequest_eq same, compared]
    by_cases parents : current.start.dropLast = next.start.dropLast
    · rw [if_pos parents]
      dsimp only
      split
      · exact .inl ⟨rfl, same, parents⟩
      · exact .inr (.inl rfl)
    · rw [if_neg parents]
      dsimp only
      split
      · rw [merged_self]
        exact .inr (.inl rfl)
      · rename_i far
        exact .inr (.inr ⟨rfl, same, parents, Bool.eq_false_iff.mpr far⟩)
  · rw [mergeRequest, if_pos same]
    exact .inr (.inl rfl)

/-- The first request is merged with itself. -/
theorem mergeRequest_self (first : RequestedData) :
    mergeRequest first first = if first.near first then ([], first) else ([first], first) := by
  rw [mergeRequest_eq rfl, compared, if_pos rfl, merged_self]
  rfl

end Step

section Covering
variable {current next data : RequestedData} {rest : List RequestedData} {parent : IndexList} {cell : ModelIndex} {role : Role}

theorem RequestedData.Asserted.ends (asserted : data.Asserted) : ∃ parent start finish, data.start = parent ++ [start] ∧
    data.finish.getLast? = some finish := by
  have behind : data.finish ≠ [] := by
    rw [← List.length_pos_iff, ← asserted.2, List.length_pos_iff]
    exact asserted.1
  exact ⟨_, _, _, (List.dropLast_append_getLast asserted.1).symm, List.getLast?_eq_some_getLast behind⟩

theorem RequestedData.merged_eq {first first' last last' : ModelIndex} {parent' : IndexList}
    (starts : current.start = parent ++ [first]) (ends : current.finish.getLast? = some last)
    (starts' : next.start = parent' ++ [first']) (ends' : next.finish.getLast? = some last') : current.merged next =
    ⟨parent ++ [⟨min first.row first'.row, min first.column first'.column⟩],
      current.finish.dropLast ++ [⟨max last.row last'.row, max last.column last'.column⟩],
      if current.roles.isEmpty then [] else current.roles ++ next.roles.filter fun role => !current.roles.contains role⟩ := by
  simp [RequestedData.merged, starts, ends, starts', ends']

/-- The parents, and the depth, are those of the request at hand. -/
theorem merged_parents (current next : RequestedData) : (current.merged next).start.length = current.start.length ∧
    (current.merged next).finish.length = current.finish.length ∧
    (current.merged next).start.dropLast = current.start.dropLast ∧
    (current.merged next).finish.dropLast = current.finish.dropLast := by
  rw [RequestedData.merged]
  split
  · rename_i curStart curEnd dataStart dataEnd first last first' last'
    have starts := congrArg List.length (List.dropLast_append_getLast? _ first)
    have ends := congrArg List.length (List.dropLast_append_getLast? _ last)
    rw [List.length_append] at starts ends
    refine ⟨?_, ?_, List.dropLast_concat, List.dropLast_concat⟩
    · rw [List.length_append]
      exact starts
    · rw [List.length_append]
      exact ends
  · exact ⟨rfl, rfl, rfl, rfl⟩

theorem RequestedData.Asserted.merged (asserted : current.Asserted) (next : RequestedData) : (current.merged next).Asserted := by
  obtain ⟨starts, ends, _⟩ := merged_parents current next
  refine ⟨?_, by rw [starts, ends, asserted.2]⟩
  rw [← List.length_pos_iff, starts, List.length_pos_iff]
  exact asserted.1

theorem merged_roles (current next : RequestedData) (some : current.roles ≠ []) : (current.merged next).roles ≠ [] := by
  rw [RequestedData.merged]
  split
  · simp [some]
  · exact some

theorem mem_merged_roles (asked : role ∈ (current.merged next).roles) : role ∈ current.roles ∨ role ∈ next.roles := by
  rw [RequestedData.merged] at asked
  split at asked
  · dsimp only at asked
    split at asked
    · contradiction
    · exact (List.mem_append.mp asked).imp_right List.mem_of_mem_filter
  · exact .inl asked

/-- A rectangle around two has the cells of both. -/
theorem RequestedData.Covers.merged (asserted : current.Asserted) (asserted' : next.Asserted) (some : current.roles ≠ [])
    (parents : current.start.dropLast = next.start.dropLast)
    (covers : current.Covers parent cell role ∨ next.Covers parent cell role) : (current.merged next).Covers parent cell role := by
  obtain ⟨above, first, last, starts, ends⟩ := asserted.ends
  obtain ⟨above', first', last', starts', ends'⟩ := asserted'.ends
  obtain rfl : above = above' := by simpa [starts, starts'] using parents
  rw [RequestedData.merged_eq starts ends starts' ends']
  obtain ⟨start, finish, begins, stops, rows, columns, asked⟩ | ⟨start, finish, begins, stops, rows, columns, asked⟩ := covers
  · obtain ⟨rfl, same⟩ := List.append_inj' (begins.symm.trans starts) rfl
    obtain rfl := List.singleton_inj.mp same
    obtain rfl := Option.some.inj (stops.symm.trans ends)
    refine ⟨_, _, rfl, List.getLast?_concat, ?_, ?_, ?_⟩
    · dsimp only
      omega
    · dsimp only
      omega
    · simp [some, asked]
  · obtain ⟨rfl, same⟩ := List.append_inj' (begins.symm.trans starts') rfl
    obtain rfl := List.singleton_inj.mp same
    obtain rfl := Option.some.inj (stops.symm.trans ends')
    refine ⟨_, _, rfl, List.getLast?_concat, ?_, ?_, ?_⟩
    · dsimp only
      omega
    · dsimp only
      omega
    · by_cases known : role ∈ current.roles
      · simp [some, known]
      · simp [some, known, asked]

/-- What merging keeps, the final requests have if the queued ones have it. -/
theorem mergeRequests_forall {P : RequestedData → Prop} (merges : ∀ {current next}, P current → P next → P (current.merged next))
    (here : P current) (later : ∀ data ∈ rest, P data) : ∀ final ∈ mergeRequests current rest, P final := by
  induction rest generalizing current with
  | nil => exact fun final listed => List.mem_singleton.mp listed ▸ here
  | cons next rest ih =>
    obtain ⟨new, later⟩ := List.forall_mem_cons.mp later
    rw [mergeRequests]
    obtain ⟨made, _⟩ | made | ⟨made, _⟩ := mergeRequest_cases current next
    · rw [made]
      exact ih (merges here new) later
    · rw [made]
      exact List.forall_mem_cons.mpr ⟨here, ih new later⟩
    · rw [made]
      exact List.forall_mem_cons.mpr ⟨here, List.forall_mem_cons.mpr ⟨new, ih new later⟩⟩

/-- Merged requests have the roles of those they are made from. -/
theorem finalRequests_roles {queue : List RequestedData} (there : data ∈ finalRequests queue) (asked : role ∈ data.roles) :
    ∃ request ∈ queue, role ∈ request.roles := by
  have known : ∀ other ∈ queue, ∀ role ∈ other.roles, ∃ request ∈ queue, role ∈ request.roles :=
    fun other listed _ asked => ⟨other, listed, asked⟩
  have merges : ∀ {first second : RequestedData}, (∀ role ∈ first.roles, ∃ request ∈ queue, role ∈ request.roles) →
      (∀ role ∈ second.roles, ∃ request ∈ queue, role ∈ request.roles) →
      ∀ role ∈ (first.merged second).roles, ∃ request ∈ queue, role ∈ request.roles := by
    intro first second ofFirst ofSecond role asked
    exact (mem_merged_roles asked).elim (ofFirst role) (ofSecond role)
  cases queue with
  | nil => contradiction
  | cons first rest => exact mergeRequests_forall merges (known first List.mem_cons_self) known data there role asked

/-- No step of the loop drops what the request at hand or the next one covers. -/
theorem mergeRequests_covers (asserted : ∀ data ∈ current :: rest, data.Asserted)
    (some : ∀ data ∈ current :: rest, data.roles ≠ []) {request : RequestedData} (queued : request ∈ current :: rest)
    (covers : request.Covers parent cell role) : ∃ final ∈ mergeRequests current rest, final.Covers parent cell role := by
  induction rest generalizing current request with
  | nil =>
    obtain rfl := List.mem_singleton.mp queued
    exact ⟨request, List.mem_singleton_self request, covers⟩
  | cons next rest ih =>
    obtain ⟨here, asserted⟩ := List.forall_mem_cons.mp asserted
    obtain ⟨someHere, some⟩ := List.forall_mem_cons.mp some
    rw [mergeRequests]
    have taken : ∀ {first : List RequestedData}, current ∈ first → ∃ final ∈ first ++ mergeRequests next rest,
        final.Covers parent cell role := by
      intro first final
      obtain rfl | later := List.mem_cons.mp queued
      · exact ⟨request, List.mem_append_left _ final, covers⟩
      · obtain ⟨other, listed, covers⟩ := ih asserted some later covers
        exact ⟨other, List.mem_append_right _ listed, covers⟩
    obtain ⟨made, _, parents⟩ | made | ⟨made, _⟩ := mergeRequest_cases current next
    · rw [made]
      obtain ⟨new, assertedLater⟩ := List.forall_mem_cons.mp asserted
      have asserted : ∀ data ∈ current.merged next :: rest, data.Asserted :=
        List.forall_mem_cons.mpr ⟨here.merged next, assertedLater⟩
      have some : ∀ data ∈ current.merged next :: rest, data.roles ≠ [] :=
        List.forall_mem_cons.mpr ⟨merged_roles current next someHere, (List.forall_mem_cons.mp some).2⟩
      have both := @RequestedData.Covers.merged _ _ parent cell role here new someHere parents
      obtain rfl | later := List.mem_cons.mp queued
      · exact ih asserted some List.mem_cons_self (both (.inl covers))
      · obtain rfl | later := List.mem_cons.mp later
        · exact ih asserted some List.mem_cons_self (both (.inr covers))
        · exact ih asserted some (List.mem_cons_of_mem _ later) covers
    · rw [made]
      exact taken List.mem_cons_self
    · rw [made]
      exact taken List.mem_cons_self

end Covering

section Grouping
variable {current next data previous first : RequestedData} {group rest queue : List RequestedData}

theorem RequestedData.Fits.near (fits : data.Fits) : data.near data := by
  obtain ⟨first, last, starts, ends, rows, columns⟩ := fits
  simp [RequestedData.near, starts, ends, intersects, rows.1, rows.2, columns]

theorem mergeGroup_snoc (merges : mergeGroup group = some current) (next : RequestedData) :
    mergeGroup (group ++ [next]) = some (current.merged next) := by
  cases group with
  | nil => contradiction
  | cons first rest =>
    obtain rfl := Option.some.inj merges
    rw [List.cons_append, mergeGroup, List.foldl_append]
    rfl

/-- The request at hand has the parent of the last one of its group, which is how the next one is compared with that. -/
theorem mergeRequests_groups (merges : mergeGroup group = some current) (depth : current.start.length = previous.start.length)
    (parents : current.start.dropLast = previous.start.dropLast)
    (fit : (previous :: rest).IsChain fun previous next =>
      previous.start.length = next.start.length → previous.start.dropLast ≠ next.start.dropLast → next.Fits) :
    ∃ groups : List (List RequestedData), groups.flatten = group ++ rest ∧
      groups.map mergeGroup = (mergeRequests current rest).map some := by
  induction rest generalizing group current previous with
  | nil => exact ⟨[group], by simp, congrArg (fun merged => [merged]) merges⟩
  | cons next rest ih =>
    obtain ⟨here, fit⟩ := List.isChain_cons_cons.mp fit
    rw [mergeRequests]
    obtain ⟨made, same, parents'⟩ | made | ⟨made, same, parents', far⟩ := mergeRequest_cases current next
    · obtain ⟨starts, _, above, _⟩ := merged_parents current next
      obtain ⟨groups, flat, merged⟩ := ih (mergeGroup_snoc merges next) (starts.trans same) (above.trans parents') fit
      refine ⟨groups, ?_, ?_⟩
      · rw [flat, List.append_assoc, List.singleton_append]
      · rw [made]
        exact merged
    · obtain ⟨groups, flat, merged⟩ := @ih next next [next] rfl rfl rfl fit
      refine ⟨group :: groups, ?_, ?_⟩
      · rw [List.flatten_cons, flat, List.singleton_append]
      · rw [made, List.map_cons, merges, merged]
        rfl
    · have fits := here (depth.symm.trans same) (parents ▸ parents')
      rw [fits.near] at far
      contradiction

theorem finalRequests_groups (fit : SelfMergedFit queue) : ∃ groups : List (List RequestedData), groups.flatten = queue ∧
    groups.map mergeGroup = (finalRequests queue).map some := by
  cases queue with
  | nil => exact ⟨[], rfl, rfl⟩
  | cons first rest =>
    obtain ⟨fits, fit⟩ := fit
    rw [finalRequests, mergeRequests, mergeRequest_self, if_pos fits.near]
    exact @mergeRequests_groups first first [first] rest rfl rfl rfl fit

end Grouping

section Main
variable {V : Type} {queue : List RequestedData}

theorem fetchPendingData_final (s : Replica V) (queued : s.m_requestedData ≠ []) : s.fetchPendingData =
    Replica.sendRequests (finalRequests s.m_requestedData).reverse 0 { s with m_requestedData := [] } := by
  rw [Replica.fetchPendingData]
  cases listed : s.m_requestedData with
  | nil => exact absurd listed queued
  | cons first rest => rfl

/-- Merging loses no role of a cell that is requested; and the corners of a request have the same parent if those of the queue's
requests have. -/
theorem requests_covered (asserted : ∀ data ∈ queue, data.Asserted) (some : ∀ data ∈ queue, data.roles ≠ []) :
    (∀ request ∈ queue, ∀ {parent cell role}, request.Covers parent cell role →
      ∃ final ∈ finalRequests queue, final.Covers parent cell role) ∧
    ((∀ request ∈ queue, request.start.dropLast = request.finish.dropLast) →
      ∀ final ∈ finalRequests queue, final.start.dropLast = final.finish.dropLast) := by
  cases queue with
  | nil => simp [finalRequests]
  | cons first rest =>
    have here := List.mem_cons_self (a := first) (l := rest)
    constructor
    · intro request queued parent cell role covers
      have asserted : ∀ data ∈ first :: first :: rest, data.Asserted := List.forall_mem_cons.mpr ⟨asserted first here, asserted⟩
      have some : ∀ data ∈ first :: first :: rest, data.roles ≠ [] := List.forall_mem_cons.mpr ⟨some first here, some⟩
      exact mergeRequests_covers asserted some (List.mem_cons_of_mem _ queued) covers
    · intro corners
      apply mergeRequests_forall _ (corners first here) corners
      intro current next same _
      obtain ⟨_, _, starts, ends⟩ := merged_parents current next
      rw [starts, ends, same]

/-- Two rows one after the other, one below another row, and both rows again. -/
def rowsTwice : List RequestedData :=
  [⟨[⟨0, 0⟩], [⟨0, 1⟩], [0]⟩, ⟨[⟨1, 0⟩], [⟨1, 1⟩], [0]⟩, ⟨[⟨500, 0⟩, ⟨7, 0⟩], [⟨500, 0⟩, ⟨7, 0⟩], [0]⟩, ⟨[⟨0, 0⟩], [⟨1, 1⟩], [0]⟩]

theorem rowsTwice_covered : (∃ final ∈ finalRequests rowsTwice, final.Covers [] ⟨1, 1⟩ 0) ∧
    ∀ final ∈ finalRequests rowsTwice, final.start.dropLast = final.finish.dropLast := by
  have asserted : ∀ data ∈ rowsTwice, data.Asserted := by simp [rowsTwice, RequestedData.Asserted]
  obtain ⟨covered, corners⟩ := requests_covered asserted (by simp [rowsTwice])
  constructor
  · apply covered ⟨[⟨1, 0⟩], [⟨1, 1⟩], [0]⟩ (by simp [rowsTwice])
    exact ⟨⟨1, 0⟩, ⟨1, 1⟩, rfl, rfl, by decide, by decide, by decide⟩
  · exact corners (by simp [rowsTwice])

/-- No two groups share a request, unless the queue has it twice. -/
theorem nodup_groups {groups : List (List RequestedData)} (distinct : groups.flatten.Nodup) {i j : Nat} (less : i < j)
    {group group' : List RequestedData} (here : groups[i]? = some group) (there : groups[j]? = some group') :
    group.Disjoint group' := by
  obtain ⟨short, rfl⟩ := List.getElem?_eq_some_iff.mp here
  obtain ⟨short', rfl⟩ := List.getElem?_eq_some_iff.mp there
  exact List.pairwise_iff_getElem.mp (List.nodup_flatten.mp distinct).2 i j short short' less

/-- The final requests are made of groups of the queue, one behind the other, so that they are as many at most; and where two of
them are the same, two of the queue are, or one of the two is made of several. -/
theorem requests_grouped (fit : SelfMergedFit queue) :
    (finalRequests queue).length ≤ queue.length ∧
    ∃ groups : List (List RequestedData), groups.flatten = queue ∧ groups.map mergeGroup = (finalRequests queue).map some ∧
      ∀ {i j : Nat} {final : RequestedData}, i < j → (finalRequests queue)[i]? = some final →
        (finalRequests queue)[j]? = some final → queue.Nodup →
        ∃ group, (groups[i]? = some group ∨ groups[j]? = some group) ∧ 2 ≤ group.length := by
  obtain ⟨groups, rfl, merged⟩ := finalRequests_groups fit
  have place : ∀ {i : Nat} {final : RequestedData}, (finalRequests groups.flatten)[i]? = some final → ∃ group, groups[i]? = some group ∧
      mergeGroup group = some final := by
    intro i final there
    have here := congrArg (fun list => list[i]?) merged
    simpa [there] using here
  have single : ∀ {group final}, mergeGroup group = some final → 2 ≤ group.length ∨ group = [final] := by
    intro group final merges
    match group, merges with
    | [first], merges => exact .inr (congrArg (fun made => [made]) (Option.some.inj merges))
    | _ :: _ :: _, _ => exact .inl (by simp)
  refine ⟨?_, groups, rfl, merged, ?_⟩
  · have counted : (finalRequests groups.flatten).length = groups.length := by
      simpa using (congrArg List.length merged).symm
    rw [counted, List.length_flatten]
    have positive : ∀ count ∈ groups.map List.length, 1 ≤ count := by
      intro count there
      obtain ⟨group, listed, rfl⟩ := List.mem_map.mp there
      have made : mergeGroup group ∈ (finalRequests groups.flatten).map some := merged ▸ List.mem_map_of_mem listed
      obtain ⟨final, _, merges⟩ := List.mem_map.mp made
      obtain long | rfl := single merges.symm
      · exact Nat.le_of_succ_le long
      · exact Nat.le_refl 1
    simpa using List.length_le_sum_of_one_le _ positive
  · intro i j final less here there distinct
    obtain ⟨group, here, merges⟩ := place here
    obtain ⟨group', there, merges'⟩ := place there
    obtain long | rfl := single merges
    · exact ⟨group, .inl here, long⟩
    · obtain long | rfl := single merges'
      · exact ⟨group', .inr there, long⟩
      · exact absurd List.mem_cons_self (nodup_groups distinct less here there List.mem_cons_self)

theorem rowsTwice_grouped : (finalRequests rowsTwice).length ≤ rowsTwice.length ∧
    ∃ groups : List (List RequestedData), groups.flatten = rowsTwice ∧
      groups.map mergeGroup = (finalRequests rowsTwice).map some := by
  have fit : SelfMergedFit rowsTwice := by
    refine ⟨⟨_, _, rfl, rfl, by decide, by decide⟩, ?_⟩
    simp [List.isChain_cons_cons]
  obtain ⟨count, groups, flat, merged, _⟩ := requests_grouped fit
  exact ⟨count, groups, flat, merged⟩

/-- The rows that two requests are for and those of another are fetched with the same request. -/
theorem rowsTwice_fetched_twice : (∀ data ∈ rowsTwice, data.Asserted) ∧ rowsTwice.Nodup ∧ ¬ (finalRequests rowsTwice).Nodup := by
  refine ⟨?_, by decide, by decide⟩
  simp [rowsTwice, RequestedData.Asserted]

-- More than a hundred rows are a final request when they are merged with themselves, and once more.
example : finalRequests [⟨[⟨0, 0⟩], [⟨100, 0⟩], [0]⟩] = [⟨[⟨0, 0⟩], [⟨100, 0⟩], [0]⟩, ⟨[⟨0, 0⟩], [⟨100, 0⟩], [0]⟩] := by decide

end Main
end RemoteObjects.ItemModel
