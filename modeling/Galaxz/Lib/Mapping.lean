import Galaxz.Lib.Keyed
import Mathlib.Data.List.Sort

/-!
# Dictionaries

A `dict` in insertion order, with no key twice.
-/

namespace Galaxz

/-- A `dict`. -/
structure Mapping (κ α : Type) where
  items : List (κ × α) := []
  keys_nodup : (items.map (·.1)).Nodup := by simp
deriving DecidableEq

namespace Mapping

variable {κ α β : Type} [DecidableEq κ]

def keys (m : Mapping κ α) : List κ := m.items.map (·.1)

def values (m : Mapping κ α) : List α := m.items.map (·.2)

/-- `m.get(k)`. -/
def get (m : Mapping κ α) (k : κ) : Option α := (Keyed.get (·.1) k m.items).map (·.2)

/-- `m[k] = x`. -/
def set (m : Mapping κ α) (k : κ) (x : α) : Mapping κ α :=
  ⟨Keyed.put (·.1) (k, x) m.items, Keyed.nodup_put m.keys_nodup⟩

/-- `m.setdefault(k, x)`. -/
def setdefault (m : Mapping κ α) (k : κ) (x : α) : Mapping κ α :=
  if (m.get k).isSome then m else m.set k x

/-- `{k: f(x) for k, x in m.items()}`. -/
def mapValues (f : α → β) (m : Mapping κ α) : Mapping κ β where
  items := m.items.map fun e => (e.1, f e.2)
  keys_nodup := by
    rw [List.map_map]
    exact m.keys_nodup

/-- `{k: f(x) for k, x in m.items()}` where `f` may raise. -/
def mapValues? (f : α → Option β) (m : Mapping κ α) : Option (Mapping κ β) :=
  if h : ∀ e ∈ m.items, (f e.2).isSome then
    some {
      items := m.items.pmap (fun e he => (e.1, (f e.2).get he)) h
      keys_nodup := by
        rw [List.map_pmap, List.pmap_eq_map]
        exact m.keys_nodup }
  else none

/-- `dict(sorted(m.items()))`. -/
def sorted [LE κ] [DecidableLE κ] (m : Mapping κ α) : Mapping κ α where
  items := m.items.insertionSort fun a b => a.1 ≤ b.1
  keys_nodup := ((List.perm_insertionSort _ m.items).map _).nodup_iff.mpr m.keys_nodup

@[simp] theorem get_set_self (m : Mapping κ α) (k : κ) (x : α) : (m.set k x).get k = some x := by
  have hget := @Keyed.get_put_self (κ × α) κ _ Prod.fst (k, x) m.items
  show (Keyed.get Prod.fst k (Keyed.put Prod.fst (k, x) m.items)).map Prod.snd = some x
  rw [hget, Option.map_some]

theorem get_set_of_ne (m : Mapping κ α) {k l : κ} (h : l ≠ k) (x : α) : (m.set k x).get l = m.get l := by
  have hget := @Keyed.get_put_of_ne (κ × α) κ _ Prod.fst l (k, x) h.symm m.items
  show (Keyed.get Prod.fst l (Keyed.put Prod.fst (k, x) m.items)).map Prod.snd = m.get l
  rw [hget]
  rfl

/-- A key is one of those that have a value. -/
theorem mem_keys_iff (m : Mapping κ α) (k : κ) : k ∈ m.keys ↔ ∃ x, m.get k = some x := by
  unfold keys get
  constructor
  · intro h
    cases hget : Keyed.get (·.1) k m.items with
    | none =>
      obtain ⟨e, he, hk⟩ := List.mem_map.mp h
      exact absurd hk (Keyed.get_eq_none_iff.mp hget e he)
    | some e => exact ⟨e.2, rfl⟩
  · rintro ⟨x, hx⟩
    obtain ⟨e, he, -⟩ := Option.map_eq_some_iff.mp hx
    obtain ⟨hmem, hkey⟩ := Keyed.get_eq_some he
    exact List.mem_map.mpr ⟨e, hmem, hkey⟩

/-- The value of a key is the one it stands with. -/
theorem get_eq_some_iff (m : Mapping κ α) (k : κ) (x : α) : m.get k = some x ↔ (k, x) ∈ m.items := by
  unfold get
  constructor
  · intro h
    obtain ⟨e, he, hx⟩ := Option.map_eq_some_iff.mp h
    obtain ⟨hmem, hkey⟩ := Keyed.get_eq_some he
    rw [← hkey, ← hx]
    exact hmem
  · intro h
    cases hget : Keyed.get (·.1) k m.items with
    | none => exact absurd rfl (Keyed.get_eq_none_iff.mp hget (k, x) h)
    | some e =>
      obtain ⟨hmem, hkey⟩ := Keyed.get_eq_some hget
      rw [List.inj_on_of_nodup_map m.keys_nodup hmem h hkey]
      rfl

/-- Dictionaries with the same items give the same values. -/
theorem get_congr {m n : Mapping κ α} (h : ∀ e, e ∈ m.items ↔ e ∈ n.items) (k : κ) : m.get k = n.get k := by
  refine Option.ext fun x => ?_
  rw [get_eq_some_iff, get_eq_some_iff, h]

/-! ## Changes of all values -/

omit [DecidableEq κ] in
theorem ext_items {m n : Mapping κ α} (h : m.items = n.items) : m = n := by
  cases m
  cases n
  cases h
  rfl

omit [DecidableEq κ] in
theorem mapValues?_eq {f : α → Option β} {g : α → β} {m : Mapping κ α} (h : ∀ e ∈ m.items, f e.2 = some (g e.2)) :
    m.mapValues? f = some (m.mapValues g) := by
  have hsome : ∀ e ∈ m.items, (f e.2).isSome := fun e he => by rw [h e he]; rfl
  unfold mapValues?
  rw [dif_pos hsome]
  refine congrArg some (ext_items ?_)
  show m.items.pmap (fun e he => (e.1, (f e.2).get he)) hsome = m.items.map fun e => (e.1, g e.2)
  rw [← List.pmap_eq_map (p := fun e => (f e.2).isSome) hsome]
  refine List.pmap_congr_left _ fun e he hget _ => ?_
  exact congrArg (Prod.mk e.1) (Option.some.inj (by rw [Option.some_get, h e he]))

omit [DecidableEq κ] in
theorem keys_mapValues (f : α → β) (m : Mapping κ α) : (m.mapValues f).keys = m.keys := by
  unfold keys mapValues
  rw [List.map_map]
  rfl

omit [DecidableEq κ] in
theorem values_mapValues (f : α → β) (m : Mapping κ α) : (m.mapValues f).values = m.values.map f := by
  unfold values mapValues
  rw [List.map_map, List.map_map]
  rfl

theorem get_mapValues (f : α → β) (m : Mapping κ α) (k : κ) : (m.mapValues f).get k = (m.get k).map f := by
  refine Option.ext fun y => ?_
  rw [get_eq_some_iff, Option.map_eq_some_iff]
  unfold mapValues
  rw [List.mem_map]
  constructor
  · rintro ⟨e, he, heq⟩
    obtain ⟨rfl, rfl⟩ := Prod.mk.inj heq
    exact ⟨e.2, (get_eq_some_iff m e.1 e.2).mpr he, rfl⟩
  · rintro ⟨x, hx, rfl⟩
    exact ⟨(k, x), (get_eq_some_iff m k x).mp hx, rfl⟩

section Sorted

variable [LE κ] [DecidableLE κ]

omit [DecidableEq κ] in
theorem perm_sorted (m : Mapping κ α) : m.sorted.items.Perm m.items := List.perm_insertionSort _ _

omit [DecidableEq κ] in
theorem mem_keys_sorted (m : Mapping κ α) (k : κ) : k ∈ m.sorted.keys ↔ k ∈ m.keys :=
  (m.perm_sorted.map _).mem_iff

theorem get_sorted (m : Mapping κ α) (k : κ) : m.sorted.get k = m.get k :=
  get_congr (fun _ => m.perm_sorted.mem_iff) k

omit [DecidableEq κ] in
theorem perm_values_sorted (m : Mapping κ α) : m.sorted.values.Perm m.values := m.perm_sorted.map _

end Sorted

/-! ## Loops that fill a dictionary -/

/-- A loop that gives keys a value where they have none. -/
theorem get_foldl_setdefault (x : α) (ks : List κ) (m : Mapping κ α) (k : κ) :
    (ks.foldl (fun m l => m.setdefault l x) m).get k = (m.get k).or (if k ∈ ks then some x else none) := by
  induction ks generalizing m with
  | nil => simp
  | cons l ks ih =>
    rw [List.foldl_cons, ih]
    unfold setdefault
    by_cases hsome : (m.get l).isSome
    · rw [if_pos hsome]
      by_cases hk : k = l
      · obtain ⟨y, hy⟩ := Option.isSome_iff_exists.mp hsome
        rw [hk, hy, Option.some_or, Option.some_or]
      · simp [hk]
    · rw [if_neg hsome]
      by_cases hk : k = l
      · have hnone : m.get l = none := by simpa using hsome
        rw [hk, get_set_self, hnone]
        simp
      · rw [get_set_of_ne m hk]
        simp [hk]

/-- A loop that collects values under their keys, as with `setdefault(k, []).append(x)`. -/
theorem get_foldl_append {ρ : Type} (key : ρ → κ) (val : ρ → α) (rows : List ρ) (m : Mapping κ (List α)) (k : κ) :
    (rows.foldl (fun m row => m.set (key row) ((m.get (key row)).getD [] ++ [val row])) m).get k =
      if m.get k = none ∧ ∀ row ∈ rows, key row ≠ k then none
      else some ((m.get k).getD [] ++ (rows.filter (key · = k)).map val) := by
  induction rows generalizing m with
  | nil =>
    rw [List.foldl_nil]
    cases m.get k with
    | none => simp
    | some xs => simp
  | cons row rows ih =>
    rw [List.foldl_cons, ih]
    by_cases hk : key row = k
    · rw [hk, get_set_self, if_neg (fun h => absurd h.1 (Option.some_ne_none _)),
        if_neg (fun h => h.2 row List.mem_cons_self hk), List.filter_cons_of_pos (by simpa using hk)]
      simp
    · rw [get_set_of_ne m (Ne.symm hk), List.filter_cons_of_neg (by simpa using hk)]
      simp only [List.forall_mem_cons, ne_eq, hk, not_false_eq_true, true_and]

end Mapping

end Galaxz
