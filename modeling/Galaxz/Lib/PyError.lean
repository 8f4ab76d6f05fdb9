import Mathlib.Data.List.Forall2
import Mathlib.Data.Rat.Floor

/-!
# Python exceptions

The exception classes the modelled code raises, with the text they carry. A `pydantic`
validation failure is a `ValueError` there, and so it is here.
-/

namespace Galaxz

/-- An exception raised by the modelled code, by the class that `except` clauses distinguish. -/
inductive PyError where
  | valueError (msg : String)
  | keyError (key : String)
  | typeError (msg : String)
  | overflowError (msg : String)
  | attributeError (msg : String)
  | assertionError
  /-- `sqlite3.IntegrityError`: a `UNIQUE`, `PRIMARY KEY` or `NOT NULL` constraint failed. -/
  | integrityError (msg : String)
  /-- `sqlalchemy.exc.DataError`: PostgreSQL refuses the value. -/
  | dataError (msg : String)
  /-- `sqlite3` cannot bind the value as a parameter. -/
  | interfaceError (msg : String)
  | invalidJobState (msg : String)
  | leaseConflict (msg : String)
  | payloadResolutionError (msg : String)
  | planValidationError (msg : String)
  | jsonDecodeError (msg : String)
  | runtimeError (msg : String)
  | permissionError (msg : String)
  | objectStorageError (msg : String)
  | osError (msg : String)
  | scorecardError (msg : String)
deriving DecidableEq

/-- The outcome of a call is an exception. -/
def raised {α : Type} : Except PyError α → Bool
  | .error _ => true
  | .ok _ => false

@[simp] theorem raised_error {α : Type} (e : PyError) : raised (.error e : Except PyError α) = true :=
  rfl

@[simp] theorem raised_ok {α : Type} (a : α) : raised (.ok a : Except PyError α) = false := rfl

theorem eq_error_of_raised {α : Type} {x : Except PyError α} (h : raised x = true) :
    ∃ e, x = .error e := by
  cases x with
  | error e => exact ⟨e, rfl⟩
  | ok a => cases h

theorem eq_ok_of_not_raised {α : Type} {x : Except PyError α} (h : raised x = false) : ∃ a, x = .ok a := by
  cases x with
  | error e => cases h
  | ok a => exact ⟨a, rfl⟩

/-- A computation in sequence raises when its first part does. -/
theorem raised_bind {α β : Type} {x : Except PyError α} (h : raised x = true)
    (f : α → Except PyError β) : raised (x >>= f) = true := by
  obtain ⟨e, rfl⟩ := eq_error_of_raised h
  rfl

/-- A computation in sequence returns a value exactly when its first part returns one and the rest
returns from it. -/
theorem except_bind_ok_iff {ε α β : Type} (x : Except ε α) (f : α → Except ε β) (b : β) :
    x.bind f = .ok b ↔ ∃ a, x = .ok a ∧ f a = .ok b := by
  rcases x with e | a
  · simp [Except.bind]
  · simp [Except.bind]

/-- The same of a sequence in `do`. -/
theorem except_bind_eq_ok_iff {ε α β : Type} {x : Except ε α} {f : α → Except ε β} {b : β} :
    (x >>= f) = .ok b ↔ ∃ a, x = .ok a ∧ f a = .ok b :=
  except_bind_ok_iff x f b

/-- What is checked first passes exactly when the check finds nothing and the rest passes. -/
theorem except_guard_ok_iff {ε α : Type} {c : Prop} [Decidable c] {e : ε} {x : Except ε α} {a : α} :
    (if c then .error e else x) = .ok a ↔ ¬c ∧ x = .ok a := by
  by_cases hc : c
  · simp [hc]
  · simp [hc]

/-- A list comprehension returns exactly the values of its elements, in order. -/
theorem except_mapM_ok_iff {α β : Type} (f : α → Except PyError β) (xs : List α) (ys : List β) :
    xs.mapM f = .ok ys ↔ List.Forall₂ (fun x y => f x = .ok y) xs ys := by
  induction xs generalizing ys with
  | nil =>
    rw [List.mapM_nil, List.forall₂_nil_left_iff]
    exact ⟨fun h => by cases h; rfl, fun h => by rw [h]; rfl⟩
  | cons x xs ih =>
    rw [List.mapM_cons, List.forall₂_cons_left_iff]
    constructor
    · intro h
      obtain ⟨y, hy, h⟩ := (except_bind_ok_iff _ _ _).mp h
      obtain ⟨zs, hzs, h⟩ := (except_bind_ok_iff _ _ _).mp h
      cases h
      exact ⟨y, zs, hy, (ih zs).mp hzs, rfl⟩
    · rintro ⟨y, zs, hy, hzs, rfl⟩
      rw [hy, (ih zs).mpr hzs]
      rfl

theorem mem_right_of_forall₂ {α β : Type} {R : α → β → Prop} {xs : List α} {ys : List β} (h : List.Forall₂ R xs ys)
    {y : β} (hy : y ∈ ys) : ∃ x ∈ xs, R x y := by
  induction h with
  | nil => cases hy
  | cons hx _ ih =>
    rcases List.mem_cons.mp hy with rfl | hy
    · exact ⟨_, List.mem_cons_self, hx⟩
    · obtain ⟨x, hmem, hx⟩ := ih hy
      exact ⟨x, List.mem_cons_of_mem _ hmem, hx⟩

theorem mem_left_of_forall₂ {α β : Type} {R : α → β → Prop} {xs : List α} {ys : List β} (h : List.Forall₂ R xs ys)
    {x : α} (hx : x ∈ xs) : ∃ y ∈ ys, R x y := by
  obtain ⟨y, hy, hxy⟩ := mem_right_of_forall₂ h.flip hx
  exact ⟨y, hy, hxy⟩

theorem mem_of_mapM_ok {α β : Type} {f : α → Except PyError β} {xs : List α} {ys : List β}
    (h : xs.mapM f = .ok ys) {y : β} (hy : y ∈ ys) : ∃ x ∈ xs, f x = .ok y :=
  mem_right_of_forall₂ ((except_mapM_ok_iff f xs ys).mp h) hy

theorem mapM_ok_of_mem {α β : Type} {f : α → Except PyError β} {xs : List α} {ys : List β}
    (h : xs.mapM f = .ok ys) {x : α} (hx : x ∈ xs) : ∃ y ∈ ys, f x = .ok y :=
  mem_left_of_forall₂ ((except_mapM_ok_iff f xs ys).mp h) hx

/-- A field that the comprehension copies. -/
theorem map_of_mapM_ok {α β γ : Type} {f : α → Except PyError β} {xs : List α} {ys : List β}
    (h : xs.mapM f = .ok ys) (g : α → γ) (k : β → γ) (hk : ∀ x y, f x = .ok y → k y = g x) :
    ys.map k = xs.map g := by
  have hall := (except_mapM_ok_iff f xs ys).mp h
  clear h
  induction hall with
  | nil => rfl
  | cons hxy _ ih => rw [List.map_cons, List.map_cons, ih, hk _ _ hxy]

/-- `mapM` of a function that returns on every element returns. -/
theorem mapM_ok {α β : Type} {f : α → Except PyError β} (xs : List α)
    (h : ∀ x ∈ xs, ∃ y, f x = .ok y) : ∃ ys, xs.mapM f = .ok ys := by
  induction xs with
  | nil => exact ⟨[], rfl⟩
  | cons x xs ih =>
    obtain ⟨y, hy⟩ := h x List.mem_cons_self
    obtain ⟨ys, hys⟩ := ih fun z hz => h z (List.mem_cons_of_mem x hz)
    refine ⟨y :: ys, ?_⟩
    rw [List.mapM_cons, hy, hys]
    rfl

end Galaxz
