import Mathlib.Data.List.Basic
import Mathlib.Data.List.Forall2

namespace ShiftReduce

/-!
# Computations that can fail

A computation that is made of others succeeds exactly if they do, and what it results in is made of
their results.  For a computation on all elements of a list this is said element by element, and a
failure is that of one of the elements.
-/

/-- A computation that succeeds has succeeded in its first part. -/
theorem of_bind_eq_ok {ε α β : Type} {value : Except ε α} {next : α -> Except ε β} {result : β}
    (made : (value >>= next) = .ok result) :
    Exists fun middle => value = .ok middle ∧ next middle = .ok result := by
  cases value with
  | error failure => cases made
  | ok middle => exact ⟨middle, rfl, made⟩

/-- A computation that fails has failed in its first part or behind it. -/
theorem of_bind_eq_error {ε α β : Type} {value : Except ε α} {next : α -> Except ε β} {failure : ε}
    (failed : (value >>= next) = .error failure) :
    value = .error failure ∨ Exists fun middle => value = .ok middle ∧ next middle = .error failure := by
  cases value with
  | error other =>
      cases failed
      exact Or.inl rfl
  | ok middle => exact Or.inr ⟨middle, rfl, failed⟩

/-- A computation that succeeds has its result. -/
theorem eq_ok_of_isOk {ε α : Type} [Inhabited α] {value : Except ε α}
    (succeeds : value.isOk = true) : value = .ok (value.toOption.getD default) := by
  cases value with
  | error failure => cases succeeds
  | ok result => rfl

/-- A computation on all elements of a list succeeds if each does. -/
theorem mapM_eq_ok {ε α β : Type} {compute : α -> Except ε β} {values : List α} {results : List β} :
    values.mapM compute = .ok results ↔
      List.Forall₂ (fun value result => compute value = .ok result) values results := by
  constructor
  · intro computed
    induction values generalizing results with
    | nil =>
        cases computed
        exact .nil
    | cons value rest inductionHypothesis =>
        rw [List.mapM_cons] at computed
        rcases of_bind_eq_ok computed with ⟨result, first, remaining⟩
        rcases of_bind_eq_ok remaining with ⟨others, later, made⟩
        cases made
        exact .cons first (inductionHypothesis later)
  · intro each
    induction each with
    | nil => rfl
    | cons first _ inductionHypothesis =>
        rw [List.mapM_cons, first, inductionHypothesis]
        rfl

/-- What a computation on all elements of a list results in comes from these elements. -/
theorem mem_of_mapM {ε α β : Type} {compute : α -> Except ε β} {values : List α} {results : List β}
    (computed : values.mapM compute = .ok results) {result : β} (member : result ∈ results) :
    Exists fun value => value ∈ values ∧ compute value = .ok result := by
  induction mapM_eq_ok.mp computed with
  | nil => cases member
  | cons first later inductionHypothesis =>
      rcases List.mem_cons.mp member with rfl | after
      · exact ⟨_, List.mem_cons_self, first⟩
      · rcases inductionHypothesis (mapM_eq_ok.mpr later) after with ⟨value, listed, same⟩
        exact ⟨value, List.mem_cons_of_mem _ listed, same⟩

/-- A computation on all elements of a list has succeeded on each of them. -/
theorem ok_of_mapM {ε α β : Type} {compute : α -> Except ε β} {values : List α} {results : List β}
    (computed : values.mapM compute = .ok results) {value : α} (member : value ∈ values) :
    Exists fun result => compute value = .ok result := by
  induction mapM_eq_ok.mp computed with
  | nil => cases member
  | cons first later inductionHypothesis =>
      rcases List.mem_cons.mp member with rfl | after
      · exact ⟨_, first⟩
      · exact inductionHypothesis (mapM_eq_ok.mpr later) after

/-- A computation that succeeds on each element of a list succeeds on all of them. -/
theorem mapM_of_ok {ε α β : Type} {compute : α -> Except ε β} {values : List α}
    (each : forall value, value ∈ values -> Exists fun result => compute value = .ok result) :
    Exists fun results => values.mapM compute = .ok results := by
  induction values with
  | nil => exact ⟨[], rfl⟩
  | cons value rest inductionHypothesis =>
      rcases each value List.mem_cons_self with ⟨result, first⟩
      rcases inductionHypothesis fun other member => each other (List.mem_cons_of_mem _ member) with
        ⟨others, later⟩
      refine ⟨result :: others, ?_⟩
      rw [List.mapM_cons, first, later]
      rfl

/-- A computation on all elements of a list fails as it fails on one of them. -/
theorem mapM_eq_error {ε α β : Type} {compute : α -> Except ε β} {values : List α} {failure : ε}
    (failed : values.mapM compute = .error failure) :
    Exists fun value => value ∈ values ∧ compute value = .error failure := by
  induction values with
  | nil => cases failed
  | cons value rest inductionHypothesis =>
      rw [List.mapM_cons] at failed
      rcases of_bind_eq_error failed with first | ⟨result, _, remaining⟩
      · exact ⟨value, List.mem_cons_self, first⟩
      · rcases of_bind_eq_error remaining with later | ⟨_, _, impossible⟩
        · rcases inductionHypothesis later with ⟨other, listed, same⟩
          exact ⟨other, List.mem_cons_of_mem _ listed, same⟩
        · cases impossible

/-- What undoes a computation on every element undoes it on the list. -/
theorem map_of_mapM {ε α β : Type} {compute : α -> Except ε β} {undo : β -> α}
    (undoes : forall value result, compute value = .ok result -> undo result = value)
    {values : List α} {results : List β} (computed : values.mapM compute = .ok results) :
    results.map undo = values := by
  induction mapM_eq_ok.mp computed with
  | nil => rfl
  | cons first later inductionHypothesis =>
      rw [List.map_cons, undoes _ _ first, inductionHypothesis (mapM_eq_ok.mpr later)]

/-- Values that are written one by one are read one by one. -/
theorem mapM_map_eq_some {α β : Type} {write : α -> β} {read : β -> Option α} {values : List α}
    (reads : forall value, value ∈ values -> read (write value) = some value) :
    (values.map write).mapM read = some values := by
  induction values with
  | nil => rfl
  | cons value rest inductionHypothesis =>
      rw [List.map_cons, List.mapM_cons, reads value List.mem_cons_self,
        inductionHypothesis fun other member => reads other (List.mem_cons_of_mem _ member)]
      rfl

end ShiftReduce
