import Galaxz.Lib.PyValue

/-!
# What a JSON encoder takes

An encoder refuses values for what is in them, the numbers and the texts, and for how deep they are nested.
Both are checked level by level: a value that is wrapped fits where its parts fit one level further down.
-/

namespace Galaxz

namespace PyValue

mutual

/-- How deep the lists and the `dict`s are nested. -/
def depth : PyValue → ℕ
  | .list xs => 1 + depthList xs
  | .dict items => 1 + depthItems items
  | _ => 0

/-- The same, for the elements of a list. -/
def depthList : List PyValue → ℕ
  | [] => 0
  | x :: xs => max (depth x) (depthList xs)

/-- The same, for the items of a `dict`. -/
def depthItems : List (String × PyValue) → ℕ
  | [] => 0
  | (_, x) :: xs => max (depth x) (depthItems xs)

end

theorem depthList_le_iff {xs : List PyValue} {n : ℕ} : depthList xs ≤ n ↔ ∀ x ∈ xs, x.depth ≤ n := by
  induction xs with
  | nil => simp [depthList]
  | cons x xs ih => rw [depthList, max_le_iff, ih, List.forall_mem_cons]

theorem depthItems_le_iff {items : List (String × PyValue)} {n : ℕ} :
    depthItems items ≤ n ↔ ∀ p ∈ items, p.2.depth ≤ n := by
  induction items with
  | nil => simp [depthItems]
  | cons p items ih => rw [depthItems, max_le_iff, ih, List.forall_mem_cons]

end PyValue

/-- An encoder, by the numbers and the texts that it takes and the depth to which it goes. -/
structure JsonEncoder where
  number : PyFloat → Bool
  text : String → Bool
  maxDepth : ℕ

/-- All characters of the text are ASCII. -/
def isAscii (s : String) : Bool := s.toList.all (·.toNat < 128)

namespace JsonEncoder

variable (e : JsonEncoder)

mutual

/-- The encoder takes every number and every text in the value, the keys included. -/
def scalars : PyValue → Bool
  | .float x => e.number x
  | .str s => e.text s
  | .list xs => scalarsList xs
  | .dict items => scalarsItems items
  | .other => false
  | _ => true

/-- The same, for the elements of a list. -/
def scalarsList : List PyValue → Bool
  | [] => true
  | x :: xs => scalars x && scalarsList xs

/-- The same, for the items of a `dict`. -/
def scalarsItems : List (String × PyValue) → Bool
  | [] => true
  | (k, x) :: xs => e.text k && (scalars x && scalarsItems xs)

end

/-- The encoder takes the value inside of `k` others. -/
def Fits (k : ℕ) (v : PyValue) : Prop := e.scalars v = true ∧ k + v.depth ≤ e.maxDepth

instance (k : ℕ) (v : PyValue) : Decidable (e.Fits k v) := by
  unfold Fits
  infer_instance

variable {e}

theorem scalarsList_iff {xs : List PyValue} : e.scalarsList xs = true ↔ ∀ x ∈ xs, e.scalars x = true := by
  induction xs with
  | nil => simp [scalarsList]
  | cons x xs ih => rw [scalarsList, Bool.and_eq_true, ih, List.forall_mem_cons]

theorem scalarsItems_iff {items : List (String × PyValue)} :
    e.scalarsItems items = true ↔ ∀ p ∈ items, e.text p.1 = true ∧ e.scalars p.2 = true := by
  induction items with
  | nil => simp [scalarsItems]
  | cons p items ih => rw [scalarsItems, Bool.and_eq_true, Bool.and_eq_true, ih, List.forall_mem_cons, and_assoc]

theorem fits_str {k : ℕ} {s : String} : e.Fits k (.str s) ↔ e.text s = true ∧ k ≤ e.maxDepth := Iff.rfl

theorem fits_int {k : ℕ} {n : ℤ} : e.Fits k (.int n) ↔ k ≤ e.maxDepth := and_iff_right rfl

theorem fits_bool {k : ℕ} {b : Bool} : e.Fits k (.bool b) ↔ k ≤ e.maxDepth := and_iff_right rfl

theorem fits_none {k : ℕ} : e.Fits k .none ↔ k ≤ e.maxDepth := and_iff_right rfl

theorem fits_list {k : ℕ} {xs : List PyValue} :
    e.Fits k (.list xs) ↔ k + 1 ≤ e.maxDepth ∧ ∀ x ∈ xs, e.Fits (k + 1) x := by
  unfold Fits
  rw [scalars, PyValue.depth, scalarsList_iff, ← Nat.add_assoc]
  constructor
  · rintro ⟨hscalars, hdepth⟩
    have hparts := PyValue.depthList_le_iff.mp (Nat.le_refl (PyValue.depthList xs))
    refine ⟨by omega, fun x hx => ⟨hscalars x hx, ?_⟩⟩
    have := hparts x hx
    omega
  · rintro ⟨hroom, hparts⟩
    refine ⟨fun x hx => (hparts x hx).1, ?_⟩
    have hdepth : PyValue.depthList xs ≤ e.maxDepth - (k + 1) := PyValue.depthList_le_iff.mpr fun x hx => by
      have := (hparts x hx).2
      omega
    omega

theorem fits_dict {k : ℕ} {items : List (String × PyValue)} :
    e.Fits k (.dict items) ↔ k + 1 ≤ e.maxDepth ∧ ∀ p ∈ items, e.text p.1 = true ∧ e.Fits (k + 1) p.2 := by
  unfold Fits
  rw [scalars, PyValue.depth, scalarsItems_iff, ← Nat.add_assoc]
  constructor
  · rintro ⟨hscalars, hdepth⟩
    have hparts := PyValue.depthItems_le_iff.mp (Nat.le_refl (PyValue.depthItems items))
    refine ⟨by omega, fun p hp => ⟨(hscalars p hp).1, (hscalars p hp).2, ?_⟩⟩
    have := hparts p hp
    omega
  · rintro ⟨hroom, hparts⟩
    refine ⟨fun p hp => ⟨(hparts p hp).1, (hparts p hp).2.1⟩, ?_⟩
    have hdepth : PyValue.depthItems items ≤ e.maxDepth - (k + 1) := PyValue.depthItems_le_iff.mpr fun p hp => by
      have := (hparts p hp).2.2
      omega
    omega

mutual

/-- A value that an encoder takes has no object of another kind in it. -/
theorem serializable_of_scalars : ∀ v : PyValue, e.scalars v = true → v.serializable = true
  | .none, _ => rfl
  | .bool _, _ => rfl
  | .int _, _ => rfl
  | .float _, _ => rfl
  | .str _, _ => rfl
  | .other, h => by cases h
  | .list xs, h => serializableList_of_scalars xs h
  | .dict items, h => serializableItems_of_scalars items h

theorem serializableList_of_scalars : ∀ xs : List PyValue, e.scalarsList xs = true →
    PyValue.serializableList xs = true
  | [], _ => rfl
  | x :: xs, h => by
    rw [scalarsList, Bool.and_eq_true] at h
    rw [PyValue.serializableList, serializable_of_scalars x h.1, serializableList_of_scalars xs h.2]
    rfl

theorem serializableItems_of_scalars : ∀ items : List (String × PyValue), e.scalarsItems items = true →
    PyValue.serializableItems items = true
  | [], _ => rfl
  | (k, x) :: items, h => by
    rw [scalarsItems, Bool.and_eq_true, Bool.and_eq_true] at h
    rw [PyValue.serializableItems, serializable_of_scalars x h.2.1, serializableItems_of_scalars items h.2.2]
    rfl

end

/-! ## ASCII -/

variable (e)

/-- The encoder takes all texts in ASCII. -/
def TakesAscii : Prop := ∀ s, isAscii s = true → e.text s = true

variable {e}

end JsonEncoder

end Galaxz
