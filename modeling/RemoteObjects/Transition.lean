import Mathlib.Data.List.Basic

/-! Runs of partial step functions. A run is the fold of the step over a list of
events; invariants, conditions on the steps of a run and properties of its steps
are stated once here, for every state and event type. -/
namespace RemoteObjects.Transition
variable {S E : Type*}

/-- The state after a list of events, or `none` when one of them cannot occur. -/
def exec (step : S → E → Option S) : S → List E → Option S
  | s, [] => some s
  | s, e :: es => (step s e).bind fun t => exec step t es

/-- Every event of the run occurs in a state where `admits` holds of it. -/
def Admitted (step : S → E → Option S) (admits : S → E → Prop) : S → List E → Prop
  | _, [] => True
  | s, e :: es => admits s e ∧ ∀ t, step s e = some t → Admitted step admits t es

variable {step : S → E → Option S} {admits : S → E → Prop}

instance admittedDecidable [∀ s e, Decidable (admits s e)] :
    ∀ s es, Decidable (Admitted step admits s es)
  | _, [] => .isTrue trivial
  | s, e :: es =>
    match stepped : step s e with
    | none => decidable_of_iff (admits s e) (by
        simp only [Admitted, stepped, reduceCtorEq, false_implies, implies_true, and_true])
    | some t =>
      have := admittedDecidable t es
      decidable_of_iff (admits s e ∧ Admitted step admits t es) (by
        simp only [Admitted, stepped, Option.some.injEq, forall_eq'])

@[simp] theorem exec_nil : exec step s [] = some s := rfl

theorem exec_cons : exec step s (e :: es) = some u ↔
    ∃ t, step s e = some t ∧ exec step t es = some u := by
  simp only [exec, Option.bind_eq_some_iff]

theorem exec_append : exec step s (first ++ last) = some u ↔
    ∃ t, exec step s first = some t ∧ exec step t last = some u := by
  induction first generalizing s with
  | nil => simp only [List.nil_append, exec_nil, Option.some.injEq, exists_eq_left']
  | cons e es ih =>
    rw [List.cons_append, exec_cons]
    simp only [ih, exec_cons]
    exact ⟨fun ⟨a, head, b, middle, tail⟩ => ⟨b, ⟨a, head, middle⟩, tail⟩,
      fun ⟨b, ⟨a, head, middle⟩, tail⟩ => ⟨a, head, b, middle, tail⟩⟩

/-- The induction every safety result uses: what an admitted step preserves
holds in the last state of every admitted run, hence in each state it reaches. -/
theorem exec_invariant {P : S → Prop}
    (preserves : ∀ {s e t}, P s → admits s e → step s e = some t → P t)
    (run : exec step s es = some t) (admitted : Admitted step admits s es) (initial : P s) :
    P t := by
  induction es generalizing s with
  | nil =>
    obtain rfl := Option.some.inj run
    exact initial
  | cons e es ih =>
    obtain ⟨middle, head, tail⟩ := exec_cons.mp run
    exact ih tail (admitted.2 middle head) (preserves initial admitted.1 head)

/-- What every step preserves holds in each state that a run reaches. -/
theorem exec_always {P : S → Prop} (preserves : ∀ {s e t}, P s → step s e = some t → P t) (run : exec step s es = some t)
    (initial : P s) : P t := by
  induction es generalizing s with
  | nil =>
    obtain rfl := Option.some.inj run
    exact initial
  | cons e es ih =>
    obtain ⟨middle, head, tail⟩ := exec_cons.mp run
    exact ih tail (preserves initial head)

/-- What the events of a kind keep holds in each state that a run of them reaches. -/
theorem exec_invariant_of_forall {P : S → Prop} {allowed : E → Prop}
    (preserves : ∀ {s e t}, P s → allowed e → step s e = some t → P t) (run : exec step s es = some t)
    (each : ∀ e ∈ es, allowed e) (initial : P s) : P t := by
  induction es generalizing s with
  | nil =>
    obtain rfl := Option.some.inj run
    exact initial
  | cons e es ih =>
    obtain ⟨middle, head, tail⟩ := exec_cons.mp run
    obtain ⟨here, later⟩ := List.forall_mem_cons.mp each
    exact ih tail later (preserves initial here head)

/-- What each event of a kind takes away by one is gone by the number of the events. -/
theorem exec_measure (measure : S → Nat) {P : S → Prop} {allowed : E → Prop}
    (preserves : ∀ {s e t}, P s → allowed e → step s e = some t → P t ∧ measure t + 1 = measure s)
    (run : exec step s es = some t) (each : ∀ e ∈ es, allowed e) (initial : P s) :
    P t ∧ measure t + es.length = measure s := by
  induction es generalizing s with
  | nil =>
    obtain rfl := Option.some.inj run
    exact ⟨initial, rfl⟩
  | cons e es ih =>
    obtain ⟨middle, head, tail⟩ := exec_cons.mp run
    obtain ⟨here, later⟩ := List.forall_mem_cons.mp each
    obtain ⟨kept, less⟩ := preserves initial here head
    obtain ⟨final, rest⟩ := ih tail later kept
    refine ⟨final, ?_⟩
    rw [List.length_cons, ← Nat.add_assoc, rest]
    exact less

/-- A run is one of another system when each of its steps is, which takes the same number of steps. -/
theorem exec_simulates {S' E' : Type*} {step' : S' → E' → Option S'} (view : S → S') {allowed : E' → Prop} {P : S → Prop}
    (simulates : ∀ {s e t}, P s → admits s e → step s e = some t →
      P t ∧ ∃ e', allowed e' ∧ step' (view s) e' = some (view t))
    (run : exec step s es = some t) (admitted : Admitted step admits s es) (initial : P s) :
    P t ∧ ∃ es', es'.length = es.length ∧ (∀ e' ∈ es', allowed e') ∧ exec step' (view s) es' = some (view t) := by
  induction es generalizing s with
  | nil =>
    obtain rfl := Option.some.inj run
    exact ⟨initial, [], rfl, List.forall_mem_nil _, rfl⟩
  | cons e es ih =>
    obtain ⟨middle, head, tail⟩ := exec_cons.mp run
    obtain ⟨kept, e', here, moves⟩ := simulates initial admitted.1 head
    obtain ⟨final, es', length, later, rest⟩ := ih tail (admitted.2 middle head) kept
    exact ⟨final, e' :: es', congrArg Nat.succ length, List.forall_mem_cons.mpr ⟨here, later⟩, exec_cons.mpr ⟨_, moves, rest⟩⟩

/-- A step property that follows from what its own steps keep and the step's condition
holds of every step of an admitted run, and conversely. -/
theorem admitted_iff_of_kept {P : S → Prop} {claim : S → E → Prop}
    (preserves : ∀ {s e t}, P s → claim s e → step s e = some t → P t)
    (meets : ∀ {s e}, P s → (claim s e ↔ admits s e)) (initial : P s) :
    Admitted step claim s es ↔ Admitted step admits s es := by
  induction es generalizing s with
  | nil => exact Iff.rfl
  | cons e es ih =>
    rw [Admitted, Admitted, ← meets initial]
    exact and_congr_right fun claimed =>
      forall_congr' fun t => imp_congr_right fun head => ih (preserves initial claimed head)

/-- The same for an invariant of all steps. -/
theorem admitted_iff {P : S → Prop} {claim : S → E → Prop}
    (preserves : ∀ {s e t}, P s → step s e = some t → P t)
    (meets : ∀ {s e}, P s → (claim s e ↔ admits s e)) (initial : P s) :
    Admitted step claim s es ↔ Admitted step admits s es :=
  admitted_iff_of_kept (fun good _ head => preserves good head) meets initial

/-- What an invariant and the step's condition give for one step, they give for
every step of an admitted run. -/
theorem admitted_of_invariant {P : S → Prop} {claim : S → E → Prop}
    (preserves : ∀ {s e t}, P s → admits s e → step s e = some t → P t)
    (meets : ∀ {s e}, P s → admits s e → claim s e)
    (admitted : Admitted step admits s es) (initial : P s) : Admitted step claim s es := by
  induction es generalizing s with
  | nil => trivial
  | cons e es ih =>
    exact ⟨meets initial admitted.1, fun t head =>
      ih (admitted.2 t head) (preserves initial admitted.1 head)⟩

/-- What holds of each step by an invariant of all steps, holds of every step of every run. -/
theorem admitted_always {P : S → Prop} {claim : S → E → Prop}
    (preserves : ∀ {s e t}, P s → step s e = some t → P t) (meets : ∀ {s e}, P s → claim s e) (initial : P s) :
    Admitted step claim s es := by
  induction es generalizing s with
  | nil => trivial
  | cons e es ih => exact ⟨meets initial, fun t head => ih (preserves initial head)⟩

theorem Admitted.cons (here : admits s e) (head : step s e = some t) (later : Admitted step admits t es) :
    Admitted step admits s (e :: es) := by
  refine ⟨here, fun u other => ?_⟩
  obtain rfl := Option.some.inj (head.symm.trans other)
  exact later

/-- A condition on each event of the run, whatever the state. -/
theorem Admitted.and_forall {allowed : E → Prop} (admitted : Admitted step admits s es)
    (each : ∀ e ∈ es, allowed e) : Admitted step (fun s e => allowed e ∧ admits s e) s es := by
  induction es generalizing s with
  | nil => trivial
  | cons e es ih =>
    obtain ⟨here, later⟩ := List.forall_mem_cons.mp each
    exact ⟨⟨here, admitted.1⟩, fun t head => ih (admitted.2 t head) later⟩

theorem Admitted.and {admits' : S → E → Prop} (admitted : Admitted step admits s es) (also : Admitted step admits' s es) :
    Admitted step (fun s e => admits s e ∧ admits' s e) s es := by
  induction es generalizing s with
  | nil => trivial
  | cons e es ih => exact ⟨⟨admitted.1, also.1⟩, fun t head => ih (admitted.2 t head) (also.2 t head)⟩

/-- Where a step is always possible there are runs of any length. -/
theorem exists_run {P : S → Prop} (possible : ∀ {s}, P s → ∃ e t, admits s e ∧ step s e = some t ∧ P t) (initial : P s) (n : Nat) :
    ∃ es t, es.length = n ∧ Admitted step admits s es ∧ exec step s es = some t := by
  induction n generalizing s with
  | zero => exact ⟨[], s, rfl, trivial, rfl⟩
  | succ n ih =>
    obtain ⟨e, middle, here, head, kept⟩ := possible initial
    obtain ⟨es, t, length, later, tail⟩ := ih kept
    exact ⟨e :: es, t, congrArg Nat.succ length, .cons here head later, exec_cons.mpr ⟨middle, head, tail⟩⟩

/-- The last part of an admitted run is admitted in the state behind the first. -/
theorem Admitted.behind (admitted : Admitted step admits s (first ++ last))
    (run : exec step s first = some t) : Admitted step admits t last := by
  induction first generalizing s with
  | nil =>
    obtain rfl := Option.some.inj run
    exact admitted
  | cons e es ih =>
    obtain ⟨middle, head, tail⟩ := exec_cons.mp run
    exact ih (admitted.2 middle head) tail

theorem Admitted.last (admitted : Admitted step admits s es) (last : es.getLast? = some e)
    (run : exec step s es.dropLast = some t) : admits t e := by
  obtain ⟨first, rfl⟩ := List.getLast?_eq_some_iff.mp last
  rw [List.dropLast_concat] at run
  exact (admitted.behind run).1

end RemoteObjects.Transition
