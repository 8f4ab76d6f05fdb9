import Mathlib.Data.List.Nodup
import Mathlib.Data.List.Sort

/-!
# Tables

A table of a relational database is the list of its rows in insertion order. `UPDATE .. SET f WHERE p`
rewrites the rows that satisfy `p` in place; a `SELECT` with a condition is `List.filter`, and
`fetchone` on it `List.find?`. The lemmas say what an update leaves alone, table by table and key by
key.
-/

namespace Galaxz.Table

variable {α κ : Type}

/-- `UPDATE table SET f WHERE p`. -/
def updateWhere (p : α → Bool) (f : α → α) (rows : List α) : List α :=
  rows.map fun r => if p r then f r else r

@[simp] theorem updateWhere_nil (p : α → Bool) (f : α → α) : updateWhere p f [] = [] := rfl

theorem updateWhere_cons (p : α → Bool) (f : α → α) (r : α) (rows : List α) :
    updateWhere p f (r :: rows) = (if p r then f r else r) :: updateWhere p f rows := rfl

theorem updateWhere_append (p : α → Bool) (f : α → α) (xs ys : List α) :
    updateWhere p f (xs ++ ys) = updateWhere p f xs ++ updateWhere p f ys :=
  List.map_append

theorem updateWhere_singleton (p : α → Bool) (f : α → α) (r : α) :
    updateWhere p f [r] = [if p r then f r else r] := rfl

theorem mem_updateWhere {p : α → Bool} {f : α → α} {rows : List α} {r : α} :
    r ∈ updateWhere p f rows ↔ ∃ x ∈ rows, (if p x then f x else x) = r :=
  List.mem_map

/-- An update that no row meets changes nothing. -/
theorem updateWhere_eq_self {p : α → Bool} {f : α → α} {rows : List α}
    (h : ∀ r ∈ rows, p r = false) : updateWhere p f rows = rows := by
  unfold updateWhere
  conv_rhs => rw [← List.map_id rows]
  apply List.map_congr_left
  intro r hr
  simp [h r hr]

/-- A column that the update does not set keeps its values. -/
theorem map_updateWhere {p : α → Bool} {f : α → α} (g : α → κ) (h : ∀ r, g (f r) = g r)
    (rows : List α) : (updateWhere p f rows).map g = rows.map g := by
  unfold updateWhere
  rw [List.map_map]
  apply List.map_congr_left
  intro r _
  simp only [Function.comp_apply]
  split_ifs with hp
  · exact h r
  · rfl

/-- A selection by columns that the update does not set can be taken before or after it. -/
theorem filter_updateWhere {p q : α → Bool} {f : α → α} (h : ∀ r, q (f r) = q r) (rows : List α) :
    (updateWhere p f rows).filter q = updateWhere p f (rows.filter q) := by
  unfold updateWhere
  rw [List.filter_map]
  congr 1
  apply List.filter_congr
  intro r _
  simp only [Function.comp_apply]
  split_ifs with hp
  · exact h r
  · rfl

/-! ## Ordered selections -/

/-- `ORDER BY le LIMIT 1`: the first row in the order `le`, the earlier one on a tie. -/
def firstBy (le : α → α → Bool) : List α → Option α
  | [] => none
  | r :: rows => match firstBy le rows with
    | none => some r
    | some best => if le r best then some r else some best

theorem mem_of_firstBy {le : α → α → Bool} {rows : List α} {r : α} (h : firstBy le rows = some r) :
    r ∈ rows := by
  induction rows generalizing r with
  | nil => cases h
  | cons x rows ih =>
    unfold firstBy at h
    split at h
    · cases h
      exact List.mem_cons_self
    · next best hbest =>
      split_ifs at h
      · cases h
        exact List.mem_cons_self
      · cases h
        exact List.mem_cons_of_mem _ (ih hbest)

theorem firstBy_eq_none_iff {le : α → α → Bool} {rows : List α} : firstBy le rows = none ↔ rows = [] := by
  cases rows with
  | nil => simp [firstBy]
  | cons x rows =>
    unfold firstBy
    split
    · simp
    · split_ifs <;> simp

/-- The first row in a total order comes before all of them. -/
theorem le_firstBy {le : α → α → Bool} (htotal : ∀ a b, le a b = true ∨ le b a = true)
    (htrans : ∀ a b c, le a b = true → le b c = true → le a c = true) {rows : List α} {r : α}
    (h : firstBy le rows = some r) : ∀ x ∈ rows, le r x = true := by
  have hrefl : ∀ a, le a a = true := fun a => (htotal a a).elim id id
  induction rows generalizing r with
  | nil => cases h
  | cons y rows ih =>
    intro x hx
    unfold firstBy at h
    split at h
    · next hnone =>
      cases h
      rw [firstBy_eq_none_iff.mp hnone, List.mem_singleton] at hx
      rw [hx]
      exact hrefl y
    · next best hbest =>
      split_ifs at h with hle
      · cases h
        rcases List.mem_cons.mp hx with rfl | hx
        · exact hrefl x
        · exact htrans _ _ _ hle (ih hbest x hx)
      · cases h
        rcases List.mem_cons.mp hx with rfl | hx
        · exact (htotal x _).resolve_left hle
        · exact ih hbest x hx

/-- `LIMIT n`; SQLite takes a negative limit as no limit. -/
def limitRows (n : Int) (rows : List α) : List α := if n < 0 then rows else rows.take n.toNat

theorem mem_of_mem_limitRows {n : Int} {rows : List α} {r : α} (h : r ∈ limitRows n rows) : r ∈ rows := by
  unfold limitRows at h
  split_ifs at h
  · exact h
  · exact List.mem_of_mem_take h

theorem firstBy_map {β : Type} (f : β → α) (le : α → α → Bool) (rows : List β) :
    firstBy le (rows.map f) = (firstBy (fun a b => le (f a) (f b)) rows).map f := by
  induction rows with
  | nil => rfl
  | cons r rows ih =>
    rw [List.map_cons, firstBy, firstBy, ih]
    cases firstBy (fun a b => le (f a) (f b)) rows with
    | none => rfl
    | some best =>
      simp only [Option.map_some]
      split_ifs <;> rfl

/-! ## Two tables that agree up to `g`

Two tables with the same rows, seen through `g`, are selected and updated alike by conditions that
cannot tell two rows with the same image apart. -/

section Congr

variable {g : α → κ} {xs ys : List α}

/-- The two tables in step: both empty, or two rows with one image in front of two such tables. -/
theorem cons_of_map_eq {x : α} (h : (x :: xs).map g = ys.map g) :
    ∃ y ys', ys = y :: ys' ∧ g x = g y ∧ xs.map g = ys'.map g := by
  cases ys with
  | nil => cases h
  | cons y ys =>
    simp only [List.map_cons, List.cons.injEq] at h
    exact ⟨y, ys, rfl, h.1, h.2⟩

theorem map_updateWhere_congr {p p' : α → Bool} {f f' : α → α} (h : xs.map g = ys.map g)
    (hp : ∀ x ∈ xs, ∀ y ∈ ys, g x = g y → p x = p' y)
    (hf : ∀ x ∈ xs, ∀ y ∈ ys, g x = g y → g (f x) = g (f' y)) :
    (updateWhere p f xs).map g = (updateWhere p' f' ys).map g := by
  induction xs generalizing ys with
  | nil =>
    cases ys with
    | nil => rfl
    | cons y ys => cases h
  | cons x xs ih =>
    obtain ⟨y, ys, rfl, hxy, hrest⟩ := cons_of_map_eq h
    have hpx := hp x List.mem_cons_self y List.mem_cons_self hxy
    have hfx := hf x List.mem_cons_self y List.mem_cons_self hxy
    have htail := ih hrest
      (fun a ha b hb => hp a (List.mem_cons_of_mem _ ha) b (List.mem_cons_of_mem _ hb))
      (fun a ha b hb => hf a (List.mem_cons_of_mem _ ha) b (List.mem_cons_of_mem _ hb))
    unfold updateWhere at htail ⊢
    simp only [List.map_cons, List.cons.injEq, htail, and_true, hpx]
    split_ifs
    · exact hfx
    · exact hxy

theorem map_filter_congr {p p' : α → Bool} (h : xs.map g = ys.map g)
    (hp : ∀ x ∈ xs, ∀ y ∈ ys, g x = g y → p x = p' y) :
    (xs.filter p).map g = (ys.filter p').map g := by
  induction xs generalizing ys with
  | nil =>
    cases ys with
    | nil => rfl
    | cons y ys => cases h
  | cons x xs ih =>
    obtain ⟨y, ys, rfl, hxy, hrest⟩ := cons_of_map_eq h
    have hpx := hp x List.mem_cons_self y List.mem_cons_self hxy
    have htail := ih hrest
      (fun a ha b hb => hp a (List.mem_cons_of_mem _ ha) b (List.mem_cons_of_mem _ hb))
    rw [List.filter_cons, List.filter_cons, hpx]
    split_ifs
    · rw [List.map_cons, List.map_cons, hxy, htail]
    · exact htail

theorem find?_congr {p p' : α → Bool} (h : xs.map g = ys.map g)
    (hp : ∀ x ∈ xs, ∀ y ∈ ys, g x = g y → p x = p' y) :
    (xs.find? p).map g = (ys.find? p').map g := by
  have hf := congrArg List.head? (map_filter_congr h hp)
  rw [List.head?_map, List.head?_map, List.head?_filter, List.head?_filter] at hf
  exact hf

theorem any_congr {p p' : α → Bool} (h : xs.map g = ys.map g)
    (hp : ∀ x ∈ xs, ∀ y ∈ ys, g x = g y → p x = p' y) : xs.any p = ys.any p' := by
  have hf := congrArg Option.isSome (find?_congr h hp)
  rw [Option.isSome_map, Option.isSome_map, Bool.eq_iff_iff, List.find?_isSome, List.find?_isSome] at hf
  rw [Bool.eq_iff_iff, List.any_eq_true, List.any_eq_true]
  exact hf

theorem firstBy_congr {le le' : α → α → Bool} (h : xs.map g = ys.map g)
    (hle : ∀ x x' y y', g x = g y → g x' = g y' → le x x' = le' y y') :
    (firstBy le xs).map g = (firstBy le' ys).map g := by
  induction xs generalizing ys with
  | nil =>
    cases ys with
    | nil => rfl
    | cons y ys => cases h
  | cons x xs ih =>
    obtain ⟨y, ys, rfl, hxy, hrest⟩ := cons_of_map_eq h
    have htail := ih hrest
    unfold firstBy
    cases hx : firstBy le xs with
    | none =>
      rw [hx, Option.map_none] at htail
      rw [Option.map_eq_none_iff.mp htail.symm]
      simp [hxy]
    | some b =>
      rw [hx, Option.map_some] at htail
      obtain ⟨b', hb', hbb⟩ := Option.map_eq_some_iff.mp htail.symm
      rw [hb']
      simp only [hle x b y b' hxy hbb.symm]
      split_ifs
      · simp [hxy]
      · simp [hbb]

end Congr

/-! ## Keys -/

section Keys

variable (k : α → κ)

/-- A key determines its row. -/
theorem eq_of_key {rows : List α} (hn : (rows.map k).Nodup) {a b : α} (ha : a ∈ rows) (hb : b ∈ rows)
    (h : k a = k b) : a = b :=
  List.inj_on_of_nodup_map hn ha hb h

/-- With distinct keys, the row found by its key is the one in the table. -/
theorem find?_key [DecidableEq κ] {rows : List α} (hn : (rows.map k).Nodup) {r : α} {x : κ} :
    rows.find? (fun a => k a = x) = some r ↔ r ∈ rows ∧ k r = x := by
  constructor
  · intro h
    exact ⟨List.mem_of_find?_eq_some h, by simpa using List.find?_some h⟩
  · rintro ⟨hr, rfl⟩
    rcases hf : rows.find? fun a => k a = k r with _ | a
    · have hnone := List.find?_eq_none.mp hf r hr
      simp at hnone
    · have ha : k a = k r := by simpa using List.find?_some hf
      rw [eq_of_key k hn (List.mem_of_find?_eq_some hf) hr ha]

/-- An update of the row with one key, seen from any key. -/
theorem find?_updateWhere [DecidableEq κ] {f : α → α} (hf : ∀ r, k (f r) = k r) (rows : List α)
    (x y : κ) :
    (updateWhere (fun a => k a = y) f rows).find? (fun a => k a = x) =
      if x = y then (rows.find? fun a => k a = x).map f else rows.find? fun a => k a = x := by
  induction rows with
  | nil => simp
  | cons r rows ih =>
    unfold updateWhere at ih ⊢
    rw [List.map_cons, List.find?_cons, List.find?_cons, ih]
    by_cases hr : k r = y
    · by_cases hx : k r = x
      · simp [hr, hf, ← hx]
      · have hyx : ¬ x = y := fun e => hx (hr.trans e.symm)
        have hxy : ¬ y = x := fun e => hyx e.symm
        simp [hr, hf, hxy, hyx]
    · simp only [hr, decide_false, Bool.false_eq_true, if_false]
      by_cases hx : k r = x
      · have hxy : ¬ x = y := fun e => hr (hx.trans e)
        simp [hx, hxy]
      · simp [hx]

/-- An update that makes no row satisfy `p` does not raise the number of rows that do. -/
theorem countP_updateWhere_le {p q : α → Bool} {f : α → α} {rows : List α}
    (h : ∀ r ∈ rows, q r = true → p (f r) = true → p r = true) :
    (updateWhere q f rows).countP p ≤ rows.countP p := by
  induction rows with
  | nil => simp
  | cons r rows ih =>
    have htail := ih fun x hx => h x (List.mem_cons_of_mem _ hx)
    have hhead := h r List.mem_cons_self
    rw [updateWhere_cons, List.countP_cons, List.countP_cons]
    by_cases hq : q r = true
    · simp only [hq, if_true]
      by_cases hp : p (f r) = true
      · simp only [hp, hhead hq hp, if_true]
        omega
      · simp only [hp, if_false, Bool.false_eq_true]
        omega
    · simp only [hq, Bool.false_eq_true, if_false]
      omega

/-- An update that takes a row out of those that satisfy `p`, and brings none in, lowers their number. -/
theorem countP_updateWhere_lt {p q : α → Bool} {f : α → α} {rows : List α} {row : α}
    (h : ∀ r ∈ rows, q r = true → p (f r) = true → p r = true) (hmem : row ∈ rows)
    (hq : q row = true) (hp : p row = true) (hf : p (f row) = false) :
    (updateWhere q f rows).countP p < rows.countP p := by
  induction rows with
  | nil => cases hmem
  | cons r rows ih =>
    have hrest : ∀ x ∈ rows, q x = true → p (f x) = true → p x = true :=
      fun x hx => h x (List.mem_cons_of_mem _ hx)
    rw [updateWhere_cons, List.countP_cons, List.countP_cons]
    rcases List.mem_cons.mp hmem with rfl | hmem
    · have hle := countP_updateWhere_le hrest
      simp only [hq, hp, hf, if_true, Bool.false_eq_true, if_false]
      omega
    · have hlt := ih hrest hmem
      have hhead := h r List.mem_cons_self
      by_cases hqr : q r = true
      · by_cases hpr : p (f r) = true
        · simp only [hqr, hpr, hhead hqr hpr, if_true]
          omega
        · simp only [hqr, hpr, if_true, if_false, Bool.false_eq_true]
          omega
      · simp only [hqr, Bool.false_eq_true, if_false]
        omega

/-- An update of the row with one key raises the number of rows that satisfy `p` by one at most. -/
theorem countP_updateWhere_le_succ [DecidableEq κ] {p : α → Bool} {f : α → α} {rows : List α}
    (hn : (rows.map k).Nodup) (x : κ) :
    (updateWhere (fun a => k a = x) f rows).countP p ≤ rows.countP p + 1 := by
  induction rows with
  | nil => simp
  | cons r rows ih =>
    rw [List.map_cons, List.nodup_cons] at hn
    have htail := ih hn.2
    by_cases hr : k r = x
    · -- the rest holds no other row with the key
      have hrest : updateWhere (fun a => k a = x) f rows = rows := by
        refine updateWhere_eq_self fun a ha => ?_
        rw [decide_eq_false_iff_not]
        intro hax
        exact hn.1 (List.mem_map.mpr ⟨a, ha, hax.trans hr.symm⟩)
      rw [updateWhere_cons, hrest, List.countP_cons, List.countP_cons]
      split_ifs <;> omega
    · rw [updateWhere_cons, List.countP_cons, List.countP_cons]
      simp only [hr, decide_false, Bool.false_eq_true, if_false]
      omega

/-- Adding a row whose key is new keeps the keys distinct. -/
theorem nodup_append {rows : List α} (hn : (rows.map k).Nodup) {r : α} (hr : ∀ x ∈ rows, k x ≠ k r) :
    ((rows ++ [r]).map k).Nodup := by
  rw [List.map_append, List.nodup_append]
  refine ⟨hn, by simp, ?_⟩
  intro x hx y hy
  obtain ⟨a, ha, rfl⟩ := List.mem_map.mp hx
  simp only [List.map_cons, List.map_nil, List.mem_singleton] at hy
  rw [hy]
  exact hr a ha

/-- The same for a key that a row may not have. -/
theorem nodup_filterMap_append (f : α → Option κ) {rows : List α} {r : α}
    (h : ((f r).toList ++ rows.filterMap f).Nodup) : ((rows ++ [r]).filterMap f).Nodup := by
  have hlast : (rows ++ [r]).filterMap f = rows.filterMap f ++ (f r).toList := by
    rw [List.filterMap_append]
    cases hr : f r <;> simp [hr]
  rw [hlast]
  exact List.perm_append_comm.nodup_iff.mp h

end Keys

/-! ## Sorted rows -/

section Sorted

variable {α : Type} {r : α → α → Prop} [DecidableRel r] [IsTrans α r]

/-- Rows that are picked after a row was inserted in order. -/
theorem filter_orderedInsert (p : α → Bool) (a : α) {rows : List α} (hrows : rows.Pairwise r) :
    (rows.orderedInsert r a).filter p =
      if p a then (rows.filter p).orderedInsert r a else rows.filter p := by
  induction rows with
  | nil =>
    by_cases ha : p a = true
    · simp [ha]
    · simp [ha]
  | cons b rows ih =>
    obtain ⟨hb, hrest⟩ := List.pairwise_cons.mp hrows
    rw [List.orderedInsert_cons]
    by_cases hab : r a b
    · rw [if_pos hab]
      by_cases ha : p a = true
      · rw [List.filter_cons_of_pos ha, if_pos ha]
        -- everything that is picked comes after the row
        have hall : ∀ x ∈ (b :: rows).filter p, r a x := by
          intro x hx
          rcases List.mem_cons.mp (List.mem_filter.mp hx).1 with rfl | hmem
          · exact hab
          · exact IsTrans.trans a b x hab (hb x hmem)
        cases hfilter : (b :: rows).filter p with
        | nil => rfl
        | cons x xs =>
          rw [hfilter] at hall
          rw [List.orderedInsert_cons, if_pos (hall x List.mem_cons_self)]
      · rw [List.filter_cons_of_neg ha, if_neg ha]
    · rw [if_neg hab]
      by_cases hpb : p b = true
      · rw [List.filter_cons_of_pos hpb, List.filter_cons_of_pos hpb, ih hrest,
          List.orderedInsert_cons, if_neg hab]
        split_ifs <;> rfl
      · rw [List.filter_cons_of_neg hpb, List.filter_cons_of_neg hpb, ih hrest]

/-- Picking rows and sorting them commute. -/
theorem filter_insertionSort [Std.Total r] (p : α → Bool) (rows : List α) :
    (rows.insertionSort r).filter p = (rows.filter p).insertionSort r := by
  induction rows with
  | nil => rfl
  | cons a rows ih =>
    rw [List.insertionSort_cons, filter_orderedInsert p a (List.pairwise_insertionSort r rows), ih]
    by_cases ha : p a = true
    · rw [if_pos ha, List.filter_cons_of_pos ha, List.insertionSort_cons]
    · rw [if_neg ha, List.filter_cons_of_neg ha]

end Sorted

/-- The entries after one of them changed. -/
theorem getElem?_modify_some {f : α → α} {xs : List α} {i k : ℕ} {y : α} :
    (xs.modify i f)[k]? = some y ↔
      (k = i ∧ ∃ x, xs[i]? = some x ∧ y = f x) ∨ (k ≠ i ∧ xs[k]? = some y) := by
  by_cases hk : k = i
  · subst hk
    rw [List.getElem?_modify_eq]
    constructor
    · intro h
      obtain ⟨x, hx, rfl⟩ := Option.map_eq_some_iff.mp h
      exact Or.inl ⟨rfl, x, hx, rfl⟩
    · rintro (⟨-, x, hx, rfl⟩ | ⟨hne, -⟩)
      · rw [hx]
        rfl
      · exact absurd rfl hne
  · rw [List.getElem?_modify_ne _ _ (Ne.symm hk)]
    constructor
    · exact fun h => Or.inr ⟨hk, h⟩
    · rintro (⟨heq, -⟩ | ⟨-, h⟩)
      · exact absurd heq hk
      · exact h

/-- The entries after one was added. -/
theorem getElem?_concat_some {xs : List α} {x y : α} {k : ℕ} :
    (xs ++ [x])[k]? = some y ↔ xs[k]? = some y ∨ (k = xs.length ∧ y = x) := by
  rw [List.getElem?_append]
  split_ifs with hk
  · have hne : k ≠ xs.length := by omega
    simp [hne]
  · have hnone : xs[k]? = none := List.getElem?_eq_none_iff.mpr (by omega)
    rw [hnone]
    by_cases heq : k = xs.length
    · subst heq
      simp [eq_comm]
    · have hlen : [x].length ≤ k - xs.length := by
        rw [List.length_singleton]
        omega
      rw [List.getElem?_eq_none_iff.mpr hlen]
      simp [heq]

/-- Changing the entry at one place changes a count by that entry alone. -/
theorem countP_modify {p : α → Bool} {f : α → α} {xs : List α} {i : ℕ} {x : α} (h : xs[i]? = some x) :
    (xs.modify i f).countP p + (if p x then 1 else 0) = xs.countP p + (if p (f x) then 1 else 0) := by
  induction xs generalizing i with
  | nil => cases h
  | cons y ys ih =>
    cases i with
    | zero =>
      have hy : y = x := by simpa using h
      rw [hy, List.modify_zero_cons, List.countP_cons, List.countP_cons]
      omega
    | succ i =>
      have htail := ih (i := i) (by simpa using h)
      rw [List.modify_succ_cons, List.countP_cons, List.countP_cons]
      omega

/-- A change that the predicate does not see. -/
theorem countP_modify_same {p : α → Bool} {f : α → α} (hf : ∀ x, p (f x) = p x) (xs : List α) (i : ℕ) :
    (xs.modify i f).countP p = xs.countP p := by
  cases h : xs[i]? with
  | none => rw [List.modify_eq_self (List.getElem?_eq_none_iff.mp h)]
  | some x =>
    have hcount := countP_modify (p := p) (f := f) h
    rw [hf x] at hcount
    omega

end Galaxz.Table
