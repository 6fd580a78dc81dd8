import RemoteObjects.Loops
import RemoteObjects.Repc.Metadata

/-! The filters for the signals and slots of a class from a header, as loops that erase at their iterator, and what they leave of the
public interface. -/
namespace RemoteObjects.Repc
open Loops

section Model
variable {α : Type}

/-- A list with an iterator, by the position of that. -/
structure EraseLoop (α : Type) where
  it : Nat
  list : List α

/-- `if (drop(*it)) it = list.erase(it); else it++;` -/
def eraseRound (drop : α → Bool) (s : EraseLoop α) : Control Empty (EraseLoop α) :=
  match s.list[s.it]? with
  | some value => .next (if drop value then { s with list := s.list.eraseIdx s.it } else { s with it := s.it + 1 })
  | none => .next s

/-- `for (auto it = list.begin(); it != list.end(); )`. -/
def eraseLoop (drop : α → Bool) (tests : Nat) (list : List α) : Control Empty (EraseLoop α) :=
  repeatWhile (fun s => s.it ≠ s.list.length) (eraseRound drop) tests ⟨0, list⟩

/-- Two tests in a row, each with its own `erase`. -/
def signalDropped (cls : MocClass) (func : MocFunction) : Bool := if cls.notifies func then true else func.notPublic

def slotDropped (cls : MocClass) (func : MocFunction) : Bool := if cls.writes func then true else func.notPublic

end Model

section Statement
variable (cls : MocClass) (func : MocFunction)

def MocFunction.isPublic : Bool := func.access = "public".toList

/-- The function has the name of a setter, and one argument of the type of its property. -/
def MocClass.isSetter : Bool :=
  cls.properties.any fun prop => prop.write = some func.name && func.arguments.map (·.type) = [prop.type]

/-- What may be called from elsewhere is what is public, without the functions of properties. -/
structure ExportsPublic : Prop where
  ofSignals : cleanedSignalList cls = cls.signals.filter fun func => func.isPublic && !cls.notifies func
  ofSlots : cleanedSlotList cls = cls.slots.filter fun func => func.isPublic && !cls.isSetter func

/-- Without properties there are public signals alone, and with properties public slots that set none. -/
def FiltersNothing : Prop :=
  (cls.properties = [] → ∀ func ∈ cls.signals, func.isPublic = true) ∧
    (cls.properties ≠ [] → ∀ func ∈ cls.slots, func.isPublic = true ∧ cls.isSetter func = false)

end Statement

section Loop
variable {α : Type} {drop : α → Bool} {tests : Nat}

/-- The elements in front of the iterator are those that stay, and those behind it are still to come. -/
theorem eraseLoop_ends (drop : α → Bool) (list : List α) (enough : list.length < tests) :
    ∃ it, eraseLoop drop tests list = .next ⟨it, list.filter fun value => !drop value⟩ := by
  have ends : (eraseLoop drop tests list).Ends (fun s => s.list = list.filter fun value => !drop value) fun _ => False := by
    refine Control.Ends.mono (repeatWhile_ends (fun s => ∃ front behind, s.list = front ++ behind ∧ s.it = front.length ∧
      front ++ behind.filter (fun value => !drop value) = list.filter fun value => !drop value)
      (fun s => s.list.length - s.it) ?_ enough ⟨[], list, rfl, rfl, rfl⟩) ?_ fun _ => id
    · rintro ⟨it, _⟩ ⟨front, behind, rfl, rfl, stays⟩ tested
      cases behind with
      | nil => simp at tested
      | cons value behind =>
        have here : (front ++ value :: behind)[front.length]? = some value := by simp
        simp only [eraseRound, here]
        cases dropped : drop value with
        | true =>
          refine ⟨⟨front, behind, by simp [List.eraseIdx_append], rfl, ?_⟩, by simp [List.eraseIdx_append]⟩
          simpa [dropped] using stays
        | false =>
          refine ⟨⟨front ++ [value], behind, by simp, by simp, ?_⟩, by simp; omega⟩
          simpa [dropped] using stays
    · rintro ⟨it, _⟩ ⟨⟨front, behind, rfl, rfl, stays⟩, tested⟩
      have last : behind = [] := by simpa using tested
      simpa [last] using stays
  cases done : eraseLoop drop tests list with
  | next s => exact ⟨s.it, by rw [done] at ends; exact congrArg _ (congrArg (EraseLoop.mk s.it) ends)⟩
  | exit r => exact nomatch r
  | unfinished => simp [done, Control.Ends] at ends

theorem cleanedSignalList_eq_loop (cls : MocClass) (some : cls.properties ≠ []) (enough : cls.signals.length < tests) :
    ∃ it, eraseLoop (signalDropped cls) tests cls.signals = .next ⟨it, cleanedSignalList cls⟩ := by
  have same : cleanedSignalList cls = cls.signals.filter fun func => !signalDropped cls func := by
    simp [cleanedSignalList, some, signalDropped]
  rw [same]
  exact eraseLoop_ends _ _ enough

theorem cleanedSlotList_eq_loop (cls : MocClass) (none : cls.properties = []) (enough : cls.slots.length < tests) :
    ∃ it, eraseLoop (slotDropped cls) tests cls.slots = .next ⟨it, cleanedSlotList cls⟩ := by
  have same : cleanedSlotList cls = cls.slots.filter fun func => !slotDropped cls func := by
    simp [cleanedSlotList, none, slotDropped]
  rw [same]
  exact eraseLoop_ends _ _ enough

end Loop

section Main
variable (cls : MocClass)

theorem notPublic_eq (func : MocFunction) : func.notPublic = !func.isPublic := by
  simp [MocFunction.notPublic, MocFunction.isPublic]

/-- The public interface is exported exactly if the lists that leave their filter early would lose nothing in it. -/
theorem exportsPublic_iff : ExportsPublic cls ↔ FiltersNothing cls := by
  by_cases none : cls.properties = []
  · have slots : cleanedSlotList cls = cls.slots.filter fun func => func.isPublic && !cls.isSetter func := by
      simp [cleanedSlotList, none, MocClass.writes, MocClass.isSetter, notPublic_eq]
    have signals : cleanedSignalList cls = (cls.signals.filter fun func => func.isPublic && !cls.notifies func) ↔
        ∀ func ∈ cls.signals, func.isPublic = true := by
      rw [cleanedSignalList, if_pos none, eq_comm, List.filter_eq_self]
      simp [MocClass.notifies, none]
    exact ⟨fun exports => ⟨fun _ => signals.mp exports.ofSignals, absurd none⟩,
      fun filters => ⟨signals.mpr (filters.1 none), slots⟩⟩
  · have signals : cleanedSignalList cls = cls.signals.filter fun func => func.isPublic && !cls.notifies func := by
      simp [cleanedSignalList, none, notPublic_eq, Bool.and_comm]
    have slots : cleanedSlotList cls = (cls.slots.filter fun func => func.isPublic && !cls.isSetter func) ↔
        ∀ func ∈ cls.slots, func.isPublic = true ∧ cls.isSetter func = false := by
      rw [cleanedSlotList, if_pos none, eq_comm, List.filter_eq_self]
      simp
    exact ⟨fun exports => ⟨fun empty => absurd empty none, fun _ => slots.mp exports.ofSlots⟩,
      fun filters => ⟨signals, slots.mpr (filters.2 none)⟩⟩

/-- A property with its setter, and a slot that is private. -/
def leakyClass : MocClass where
  className := "Motor".toList
  properties := [⟨"speed".toList, "int".toList, false, some "speed".toList, some "setSpeed".toList, some "speedChanged".toList, []⟩]
  slots := [⟨"setSpeed".toList, "public".toList, "void".toList, [⟨"int".toList, some "speed".toList⟩]⟩,
    ⟨"calibrate".toList, "private".toList, "void".toList, []⟩]

/-- Both are exported. -/
theorem leakyClass_exported : ¬ ExportsPublic leakyClass := fun exports => absurd exports.ofSlots (by decide)

end Main
end RemoteObjects.Repc
