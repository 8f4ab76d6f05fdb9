import Mathlib.Data.List.Induction
import Mathlib.Data.List.Nodup

/-!
# Lists with a key

A `dict` in insertion order, or a table with a primary key: setting a key replaces the entry in place and
adds an entry at the end when there is none. The lemmas say how these operations pass through a map that
keeps the keys, and when they change nothing.
-/

namespace Galaxz.Keyed

variable {α β κ : Type} [DecidableEq κ] (key : α → κ)

/-- `entries[key(x)] = x`. -/
def put (x : α) (xs : List α) : List α :=
  if xs.any (key · = key x) then xs.map fun y => if key y = key x then x else y else xs ++ [x]

/-- `del entries[k]`, if it is there. -/
def remove (k : κ) (xs : List α) : List α := xs.filter (key · ≠ k)

/-- `entries.get(k)`. -/
def get (k : κ) (xs : List α) : Option α := xs.find? (key · = k)

variable {key}

theorem mem_put {x y : α} {xs : List α} (h : y ∈ put key x xs) : y = x ∨ y ∈ xs := by
  unfold put at h
  split_ifs at h
  · obtain ⟨z, hz, rfl⟩ := List.mem_map.mp h
    split_ifs
    · exact Or.inl rfl
    · exact Or.inr hz
  · rcases List.mem_append.mp h with h | h
    · exact Or.inr h
    · exact Or.inl (List.mem_singleton.mp h)

theorem mem_remove {k : κ} {y : α} {xs : List α} : y ∈ remove key k xs ↔ y ∈ xs ∧ key y ≠ k := by
  unfold remove
  rw [List.mem_filter]
  simp

theorem get_eq_some {k : κ} {x : α} {xs : List α} (h : get key k xs = some x) : x ∈ xs ∧ key x = k :=
  ⟨List.mem_of_find?_eq_some h, by simpa using List.find?_some h⟩

theorem get_eq_none_iff {k : κ} {xs : List α} : get key k xs = none ↔ ∀ x ∈ xs, key x ≠ k := by
  unfold get
  rw [List.find?_eq_none]
  simp

/-- A map that keeps the keys can be made before or after setting a key. -/
theorem map_put (key : α → κ) (key' : β → κ) (g : α → β) (hg : ∀ x, key' (g x) = key x) (x : α) (xs : List α) :
    (put key x xs).map g = put key' (g x) (xs.map g) := by
  have hany : (xs.map g).any (key' · = key' (g x)) = xs.any (key · = key x) := by
    rw [List.any_map]
    congr 1
    funext y
    simp only [Function.comp_apply, hg]
  unfold put
  rw [hany]
  split_ifs
  · rw [List.map_map, List.map_map]
    refine List.map_congr_left fun y _ => ?_
    simp only [Function.comp_apply, hg]
    split_ifs <;> rfl
  · rw [List.map_append]
    rfl

/-- It can be made before or after removing a key. -/
theorem map_remove {key' : β → κ} (g : α → β) (hg : ∀ x, key' (g x) = key x) (k : κ) (xs : List α) :
    (remove key k xs).map g = remove key' k (xs.map g) := by
  unfold remove
  rw [List.filter_map]
  congr 1
  refine List.filter_congr fun x _ => ?_
  simp only [Function.comp_apply, hg]

/-- Keys that are told apart alike are set alike. -/
theorem put_comp {κ' : Type} [DecidableEq κ'] {f : κ → κ'} (hf : Function.Injective f) (x : α) (xs : List α) :
    put (fun y => f (key y)) x xs = put key x xs := by
  unfold put
  simp only [hf.eq_iff]

/-- Setting a key keeps the keys different. -/
theorem nodup_put {x : α} {xs : List α} (h : (xs.map key).Nodup) : ((put key x xs).map key).Nodup := by
  unfold put
  split_ifs with hany
  · have hkeys : (xs.map fun y => if key y = key x then x else y).map key = xs.map key := by
      rw [List.map_map]
      refine List.map_congr_left fun y _ => ?_
      simp only [Function.comp_apply]
      split_ifs with hy
      · exact hy.symm
      · rfl
    rw [hkeys]
    exact h
  · rw [List.map_append, List.map_singleton, List.nodup_append]
    refine ⟨h, List.nodup_singleton _, fun k hk l hl hkl => hany ?_⟩
    obtain ⟨y, hy, rfl⟩ := List.mem_map.mp hk
    rw [List.mem_singleton] at hl
    exact List.any_eq_true.mpr ⟨y, hy, by simp [hkl, hl]⟩

theorem nodup_remove {k : κ} {xs : List α} (h : (xs.map key).Nodup) :
    ((remove key k xs).map key).Nodup :=
  h.sublist (List.Sublist.map key List.filter_sublist)

/-- Setting a key to the entry it has changes nothing. -/
theorem put_eq_self {x : α} {xs : List α} (hkeys : (xs.map key).Nodup) (h : get key (key x) xs = some x) :
    put key x xs = xs := by
  obtain ⟨hx, -⟩ := get_eq_some h
  have hany : xs.any (key · = key x) = true := List.any_eq_true.mpr ⟨x, hx, by simp⟩
  unfold put
  rw [if_pos hany]
  conv_rhs => rw [← List.map_id xs]
  refine List.map_congr_left fun y hy => ?_
  split_ifs with hkey
  · exact List.inj_on_of_nodup_map hkeys hx hy hkey.symm
  · rfl

/-- Removing a key that is not there changes nothing. -/
theorem remove_eq_self {k : κ} {xs : List α} (h : get key k xs = none) : remove key k xs = xs := by
  have hne := get_eq_none_iff.mp h
  unfold remove
  rw [List.filter_eq_self]
  intro x hx
  simpa using hne x hx

/-- A new key goes to the end. -/
theorem put_of_get_eq_none {x : α} {xs : List α} (h : get key (key x) xs = none) :
    put key x xs = xs ++ [x] := by
  have hne := get_eq_none_iff.mp h
  unfold put
  rw [if_neg]
  rw [List.any_eq_true]
  rintro ⟨y, hy, hkey⟩
  exact hne y hy (by simpa using hkey)

/-- What a key finds after it was set. -/
theorem get_put_self (x : α) (xs : List α) : get key (key x) (put key x xs) = some x := by
  unfold put
  split_ifs with hany
  · induction xs with
    | nil => cases hany
    | cons y ys ih =>
      rw [List.map_cons]
      unfold get
      by_cases hy : key y = key x
      · rw [if_pos hy, List.find?_cons_of_pos (by simp)]
      · rw [if_neg hy, List.find?_cons_of_neg (by simpa using hy)]
        exact ih (by simpa [hy] using hany)
  · unfold get
    rw [List.find?_append, List.find?_eq_none.mpr]
    · simp
    · intro y hy hkey
      exact hany (List.any_eq_true.mpr ⟨y, hy, hkey⟩)

/-- Setting a key leaves what every other key finds. -/
theorem get_put_of_ne {k : κ} {x : α} (h : key x ≠ k) (xs : List α) :
    get key k (put key x xs) = get key k xs := by
  have hmap : ∀ ys : List α, get key k (ys.map fun y => if key y = key x then x else y) = get key k ys := by
    intro ys
    induction ys with
    | nil => rfl
    | cons y ys ih =>
      rw [List.map_cons]
      unfold get at ih ⊢
      by_cases hy : key y = key x
      · have hyk : key y ≠ k := by
          rw [hy]
          exact h
        rw [if_pos hy, List.find?_cons_of_neg (by simpa using h), List.find?_cons_of_neg (by simpa using hyk),
          ih]
      · rw [if_neg hy, List.find?_cons, List.find?_cons, ih]
  unfold put
  split_ifs
  · exact hmap xs
  · unfold get
    rw [List.find?_append, List.find?_singleton, if_neg (by simpa using h), Option.or_none]

/-- After a row of settings a key finds the last of them, or what it found before. -/
theorem get_foldl_put (k : κ) (xs acc : List α) :
    get key k (xs.foldl (fun ys x => put key x ys) acc) =
      (xs.reverse.find? (key · = k)).or (get key k acc) := by
  induction xs generalizing acc with
  | nil => simp
  | cons x xs ih =>
    rw [List.foldl_cons, ih, List.reverse_cons, List.find?_append, Option.or_assoc, List.find?_singleton]
    by_cases hx : key x = k
    · have hget : get key k (put key x acc) = some x := hx ▸ get_put_self x acc
      rw [hget, if_pos (by simpa using hx), Option.some_or]
    · rw [get_put_of_ne hx, if_neg (by simpa using hx), Option.none_or]

/-- Removing a key leaves what every other key finds. -/
theorem get_remove_of_ne {k l : κ} (h : l ≠ k) (xs : List α) : get key l (remove key k xs) = get key l xs := by
  unfold get remove
  rw [List.find?_filter]
  congr 1
  funext x
  by_cases hx : key x = l
  · have hne : key x ≠ k := by
      rw [hx]
      exact h
    simp [hx, h]
  · simp [hx]

/-! ## The order of the keys -/

/-- A key keeps its place, and a new one goes to the end. -/
theorem keys_put (x : α) (xs : List α) :
    (put key x xs).map key = if key x ∈ xs.map key then xs.map key else xs.map key ++ [key x] := by
  by_cases hmem : key x ∈ xs.map key
  · obtain ⟨y, hy, hkey⟩ := List.mem_map.mp hmem
    have hany : xs.any (key · = key x) = true := List.any_eq_true.mpr ⟨y, hy, by simp [hkey]⟩
    unfold put
    rw [if_pos hmem, if_pos hany, List.map_map]
    refine List.map_congr_left fun z _ => ?_
    simp only [Function.comp_apply]
    split_ifs with hz
    · exact hz.symm
    · rfl
  · have hnone : get key (key x) xs = none :=
      get_eq_none_iff.mpr fun y hy hkey => hmem (List.mem_map.mpr ⟨y, hy, hkey⟩)
    rw [put_of_get_eq_none hnone, if_neg hmem, List.map_append, List.map_singleton]

theorem mem_keys_foldl_put (k : κ) (xs : List α) :
    k ∈ (xs.foldl (fun ys x => put key x ys) []).map key ↔ k ∈ xs.map key := by
  induction xs using List.reverseRecOn with
  | nil => rfl
  | append_singleton xs x ih =>
    rw [List.foldl_append, List.foldl_cons, List.foldl_nil, keys_put, List.map_append, List.map_singleton,
      List.mem_append, List.mem_singleton, ← ih]
    split_ifs with hmem
    · exact ⟨Or.inl, fun h => h.elim id fun hk => hk ▸ hmem⟩
    · rw [List.mem_append, List.mem_singleton]

/-- The first entry with a key is found again in a longer list. -/
theorem findIdx_append_of_mem {k : κ} {xs : List α} (h : k ∈ xs.map key) (ys : List α) :
    (xs ++ ys).findIdx (key · = k) = xs.findIdx (key · = k) ∧ xs.findIdx (key · = k) < xs.length := by
  obtain ⟨x, hx, hkey⟩ := List.mem_map.mp h
  have hlt : xs.findIdx (key · = k) < xs.length := List.findIdx_lt_length.mpr ⟨x, hx, by simpa using hkey⟩
  rw [List.findIdx_append, if_pos hlt]
  exact ⟨rfl, hlt⟩

/-- After a row of settings the keys stand in the order in which they were first set. -/
theorem pairwise_foldl_put (xs : List α) : ((xs.foldl (fun ys x => put key x ys) []).map key).Pairwise
    fun k l => xs.findIdx (key · = k) < xs.findIdx (key · = l) := by
  induction xs using List.reverseRecOn with
  | nil => exact List.Pairwise.nil
  | append_singleton xs x ih =>
    have hmem : ∀ k, k ∈ (xs.foldl (fun ys x => put key x ys) []).map key ↔ k ∈ xs.map key :=
      fun k => mem_keys_foldl_put k xs
    rw [List.foldl_append, List.foldl_cons, List.foldl_nil, keys_put]
    have hold : ((xs.foldl (fun ys x => put key x ys) []).map key).Pairwise
        fun k l => (xs ++ [x]).findIdx (key · = k) < (xs ++ [x]).findIdx (key · = l) := by
      refine ih.imp_of_mem fun hk hl hlt => ?_
      rw [(findIdx_append_of_mem ((hmem _).mp hk) [x]).1, (findIdx_append_of_mem ((hmem _).mp hl) [x]).1]
      exact hlt
    split_ifs with hnew
    · exact hold
    · rw [List.pairwise_append]
      refine ⟨hold, List.pairwise_singleton _ _, fun k hk l hl => ?_⟩
      rw [List.mem_singleton] at hl
      rw [hmem] at hk hnew
      obtain ⟨hsame, hlt⟩ := findIdx_append_of_mem hk [x]
      have hlast : ¬ xs.findIdx (key · = key x) < xs.length := by
        rw [List.findIdx_lt_length]
        rintro ⟨y, hy, hkey⟩
        exact hnew (List.mem_map.mpr ⟨y, hy, by simpa using hkey⟩)
      rw [hl, hsame, List.findIdx_append, if_neg hlast]
      omega

end Galaxz.Keyed
