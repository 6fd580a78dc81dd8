import Mathlib.Data.List.Basic

/-! The arguments of a signal in the list that a source keeps from one signal to the next. -/
namespace RemoteObjects.Source

section Model
variable {Cell Variant : Type}

/-- What is asked of the API. Types are ids of meta types. -/
structure SignalApi where
  signalParameterCount : Nat → Nat
  signalParameterType : Nat → Nat → Int

/-- How a value is read where an argument points to, by its type. -/
structure MetaTypes (Cell Variant : Type) where
  pointerToQObject : Int → Bool
  asVariant : Cell → Variant
  construct : Int → Cell → Variant

/-- `QMetaType::QVariant`. -/
def variantType : Int := 41

namespace SignalApi
variable (api : SignalApi) (types : MetaTypes Cell Variant) (index : Nat) (a : Nat → Cell)

/-- The value of an argument; `a[0]` is the place for a return value. -/
def argument (i : Nat) : Variant :=
  let type := api.signalParameterType index i
  if type = variantType then types.asVariant (a (i + 1)) else types.construct type (a (i + 1))

/-- `N`. -/
def argumentCount : Nat :=
  let n := api.signalParameterCount index
  if n = 1 ∧ types.pointerToQObject (api.signalParameterType index 0) then 0 else n

/-- The loops that write over elements and append them, each from an index on. -/
def fill (list : List Variant) : List Variant :=
  let n := api.argumentCount types index
  let minFill := min list.length n
  let list := (List.range minFill).foldl (fun list i => list.set i (api.argument types index a i)) list
  (List.range' list.length (n - list.length)).foldl (fun list i => list ++ [api.argument types index a i]) list

/-- The last loop, which compares its index with the size that it reduces. -/
def removeSpare (i : Nat) (list : List Variant) : List Variant :=
  if i < list.length then removeSpare (i + 1) list.dropLast else list
termination_by list.length
decreasing_by rw [List.length_dropLast]; omega

/-- `marshalArgs`: the list behind it, which is returned too. -/
def marshalArgs (m_marshalledArgs : List Variant) : List Variant :=
  removeSpare (api.argumentCount types index) (api.fill types index a m_marshalledArgs)

/-- `handleMetaCall` with listeners: the arguments that are sent stay in the list. The debug output marshals them, too. -/
def handleMetaCall (debug : Bool) (m_marshalledArgs : List Variant) : List Variant :=
  api.marshalArgs types index a (if debug then api.marshalArgs types index a m_marshalledArgs else m_marshalledArgs)

/-- Signals with their arguments, one after the other. -/
def emitSignals (debug : Bool) (calls : List (Nat × (Nat → Cell))) (m_marshalledArgs : List Variant) : List Variant :=
  calls.foldl (fun list call => api.handleMetaCall types call.1 call.2 debug list) m_marshalledArgs

/-- The list has the arguments of this call and no others. -/
def Marshals (m_marshalledArgs : List Variant) : Prop :=
  (api.marshalArgs types index a m_marshalledArgs).length = api.argumentCount types index ∧
    ∀ i, i < api.argumentCount types index →
      (api.marshalArgs types index a m_marshalledArgs)[i]? = some (api.argument types index a i)

end SignalApi
end Model

section Loops
variable {Variant : Type}

theorem foldl_set (f : Nat → Variant) (n : Nat) (list : List Variant) (inside : n ≤ list.length) :
    (List.range n).foldl (fun list i => list.set i (f i)) list = (List.range n).map f ++ list.drop n := by
  induction n with
  | zero => rfl
  | succ n ih =>
    have here : (list.drop n).set 0 (f n) = f n :: list.drop (n + 1) := by
      rw [List.drop_eq_getElem_cons (by omega), List.set_cons_zero]
    rw [List.range_succ, List.foldl_append, ih (by omega), List.foldl_cons, List.foldl_nil, List.set_append_right _ _ (by simp)]
    simp only [List.length_map, List.length_range, Nat.sub_self, here, List.map_append, List.map_cons, List.map_nil,
      List.append_assoc, List.singleton_append]

theorem foldl_append (f : Nat → Variant) (indices : List Nat) (list : List Variant) :
    indices.foldl (fun list i => list ++ [f i]) list = list ++ indices.map f := by
  induction indices generalizing list with
  | nil => exact (List.append_nil list).symm
  | cons i indices ih => rw [List.foldl_cons, ih, List.map_cons, List.append_assoc, List.singleton_append]

/-- Each turn takes one element off and moves the index one on: half of the spare elements stay. -/
theorem removeSpare_eq_take (i : Nat) (list : List Variant) :
    SignalApi.removeSpare i list = list.take (list.length - (list.length - i + 1) / 2) := by
  fun_induction SignalApi.removeSpare i list with
  | case1 i list more ih =>
    rw [ih, List.length_dropLast, List.dropLast_eq_take, List.take_take]
    congr 1
    omega
  | case2 i list fits => rw [List.take_of_length_le (by omega)]

end Loops

section Main
variable {Cell Variant : Type} {api : SignalApi} {types : MetaTypes Cell Variant} {index : Nat} {a : Nat → Cell}
variable {m_marshalledArgs : List Variant} {n : Nat}

/-- All arguments of the call in front, and the elements of the earlier list behind them. -/
theorem fill_eq (api : SignalApi) (types : MetaTypes Cell Variant) (index : Nat) (a : Nat → Cell) (list : List Variant) :
    api.fill types index a list =
      (List.range (api.argumentCount types index)).map (api.argument types index a) ++ list.drop (api.argumentCount types index) := by
  unfold SignalApi.fill
  generalize api.argumentCount types index = n
  dsimp only
  rw [foldl_set _ _ _ (Nat.min_le_left _ _), foldl_append]
  obtain fewer | more := Nat.le_total list.length n
  · have whole : List.range n = List.range list.length ++ List.range' list.length (n - list.length) := by
      have joined : List.range' 0 list.length ++ List.range' (0 + list.length) (n - list.length) = _ := List.range'_append_1
      rw [Nat.zero_add, Nat.add_sub_cancel' fewer] at joined
      rw [List.range_eq_range', List.range_eq_range', joined]
    rw [Nat.min_eq_left fewer, List.drop_of_length_le fewer, List.drop_of_length_le (Nat.le_refl _), whole, List.map_append]
    simp
  · have length : ((List.range n).map (api.argument types index a) ++ list.drop n).length = list.length := by
      simp only [List.length_append, List.length_map, List.length_range, List.length_drop]
      omega
    rw [Nat.min_eq_right more, length, Nat.sub_eq_zero_of_le more]
    exact List.append_nil _

theorem marshalArgs_eq (api : SignalApi) (types : MetaTypes Cell Variant) (index : Nat) (a : Nat → Cell) (list : List Variant) :
    api.marshalArgs types index a list =
      (List.range (api.argumentCount types index)).map (api.argument types index a) ++
        (list.drop (api.argumentCount types index)).take ((list.length - api.argumentCount types index) / 2) := by
  rw [SignalApi.marshalArgs, removeSpare_eq_take, fill_eq]
  generalize api.argumentCount types index = n
  have count : ((List.range n).map (api.argument types index a)).length = n := by rw [List.length_map, List.length_range]
  rw [List.length_append, count, List.length_drop, List.take_append, count, List.take_of_length_le (by rw [count]; omega)]
  congr 2
  omega

theorem marshalArgs_length (api : SignalApi) (types : MetaTypes Cell Variant) (index : Nat) (a : Nat → Cell) (list : List Variant) :
    (api.marshalArgs types index a list).length =
      api.argumentCount types index + (list.length - api.argumentCount types index) / 2 := by
  rw [marshalArgs_eq, List.length_append, List.length_map, List.length_range, List.length_take, List.length_drop]
  omega

theorem marshals_of_short (short : m_marshalledArgs.length ≤ api.argumentCount types index + 1) :
    api.Marshals types index a m_marshalledArgs := by
  have none : (m_marshalledArgs.length - api.argumentCount types index) / 2 = 0 := by omega
  refine ⟨by rw [marshalArgs_length, none, Nat.add_zero], fun i inside => ?_⟩
  rw [marshalArgs_eq, List.getElem?_append_left (by simpa using inside)]
  simp [inside]

/-- Right exactly where the list had one element more than is needed at most. -/
theorem marshals_iff : api.Marshals types index a m_marshalledArgs ↔ m_marshalledArgs.length ≤ api.argumentCount types index + 1 := by
  refine ⟨fun ⟨length, _⟩ => ?_, marshals_of_short⟩
  rw [marshalArgs_length] at length
  omega

end Main

section Example

/-- The signals `first(int, int)` and `second()`. -/
def twoSignals : SignalApi := ⟨fun index => if index = 0 then 2 else 0, fun _ _ => 2⟩

def numbers : MetaTypes Nat Nat := ⟨fun _ => false, id, fun _ => id⟩

/-- Behind `first(1, 2)` one argument of it is sent with `second()`. -/
theorem leftover_is_sent : ¬ ∀ m_marshalledArgs, twoSignals.Marshals numbers 1 id m_marshalledArgs := by
  intro marshals
  have length := (marshals (twoSignals.marshalArgs numbers 0 id [])).1
  rw [marshalArgs_length, marshalArgs_length] at length
  contradiction

end Example
end RemoteObjects.Source
