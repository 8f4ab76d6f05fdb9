import Mathlib.Data.List.Basic
import Mathlib.Data.List.Perm.Basic

/-!
# Marking until nothing changes

A list of nodes with keys, each depending on some keys. A pass goes over the nodes once and marks those that
are open and depend on a marked key; the passes are repeated until one of them marks nothing. What is marked
in the end is the least set that contains the first marks and is closed under the rule, so it does not depend
on the order of the nodes.
-/

namespace Galaxz.Saturation

variable {α κ : Type} [DecidableEq κ] (key : α → κ) (deps : α → List κ) (isOpen : α → Bool)

/-- The node is open, is not marked yet, and depends on a marked key. -/
def hit (marked : List κ) (x : α) : Bool := isOpen x && key x ∉ marked && (deps x).any fun d => d ∈ marked

/-- One pass over the nodes. -/
def pass : List α → List κ → List κ
  | [], marked => marked
  | x :: xs, marked =>
    if hit key deps isOpen marked x then pass xs (marked ++ [key x]) else pass xs marked

/-- Passes until one of them marks nothing. -/
def loop (xs : List α) : ℕ → List κ → List κ
  | 0, marked => marked
  | fuel + 1, marked =>
    if pass key deps isOpen xs marked = marked then marked else loop xs fuel (pass key deps isOpen xs marked)

/-- The least set of keys that contains the first marks and is closed under the rule. -/
inductive Marked (xs : List α) (first : List κ) : κ → Prop where
  | first {k : κ} (hk : k ∈ first) : Marked xs first k
  | node {x : α} {d : κ} (hx : x ∈ xs) (hopen : isOpen x = true) (hd : d ∈ deps x) (h : Marked xs first d) :
      Marked xs first (key x)

variable {key deps isOpen}

theorem hit_eq_true {marked : List κ} {x : α} :
    hit key deps isOpen marked x = true ↔ isOpen x = true ∧ key x ∉ marked ∧ ∃ d ∈ deps x, d ∈ marked := by
  unfold hit
  simp only [Bool.and_eq_true, decide_eq_true_eq, List.any_eq_true, and_assoc]

variable (key deps isOpen)

/-- A pass only adds marks, at the end. -/
theorem pass_eq_append (xs : List α) (marked : List κ) :
    ∃ new, pass key deps isOpen xs marked = marked ++ new ∧ ∀ k ∈ new, k ∉ marked := by
  induction xs generalizing marked with
  | nil => exact ⟨[], (List.append_nil _).symm, fun k hk => absurd hk List.not_mem_nil⟩
  | cons x xs ih =>
    rw [pass]
    split_ifs with hhit
    · obtain ⟨new, hnew, hfresh⟩ := ih (marked ++ [key x])
      refine ⟨key x :: new, by rw [hnew, List.append_assoc, List.singleton_append], ?_⟩
      intro k hk
      rcases List.mem_cons.mp hk with rfl | hk
      · exact (hit_eq_true.mp hhit).2.1
      · exact fun hmarked => hfresh k hk (List.mem_append_left _ hmarked)
    · exact ih marked

theorem subset_pass (xs : List α) (marked : List κ) : marked ⊆ pass key deps isOpen xs marked := by
  obtain ⟨new, hnew, -⟩ := pass_eq_append key deps isOpen xs marked
  rw [hnew]
  exact List.subset_append_left _ _

/-- The passes only add marks, at the end. -/
theorem loop_eq_append (xs : List α) (fuel : ℕ) (marked : List κ) :
    ∃ new, loop key deps isOpen xs fuel marked = marked ++ new ∧ ∀ k ∈ new, k ∉ marked := by
  induction fuel generalizing marked with
  | zero => exact ⟨[], (List.append_nil _).symm, fun k hk => absurd hk List.not_mem_nil⟩
  | succ fuel ih =>
    rw [loop]
    split_ifs
    · exact ⟨[], (List.append_nil _).symm, fun k hk => absurd hk List.not_mem_nil⟩
    · obtain ⟨mid, hmid, hfresh⟩ := pass_eq_append key deps isOpen xs marked
      obtain ⟨new, hnew, hfresh'⟩ := ih (marked ++ mid)
      refine ⟨mid ++ new, by rw [hmid, hnew, List.append_assoc], ?_⟩
      intro k hk hmarked
      rcases List.mem_append.mp hk with hk | hk
      · exact hfresh k hk hmarked
      · exact hfresh' k hk (List.mem_append_left _ hmarked)

variable {key deps isOpen}

/-- What a pass marks is in the closure. -/
theorem marked_of_mem_pass {xs ys : List α} {first marked : List κ} (hys : ∀ x ∈ ys, x ∈ xs)
    (h : ∀ k ∈ marked, Marked key deps isOpen xs first k) :
    ∀ k ∈ pass key deps isOpen ys marked, Marked key deps isOpen xs first k := by
  induction ys generalizing marked with
  | nil => exact h
  | cons y ys ih =>
    have hrest := fun x hx => hys x (List.mem_cons_of_mem _ hx)
    rw [pass]
    split_ifs with hhit
    · refine ih hrest ?_
      intro k hk
      rcases List.mem_append.mp hk with hk | hk
      · exact h k hk
      · obtain ⟨hopen, -, d, hd, hmarked⟩ := hit_eq_true.mp hhit
        rw [List.mem_singleton.mp hk]
        exact Marked.node (hys y List.mem_cons_self) hopen hd (h d hmarked)
    · exact ih hrest h

theorem marked_of_mem_loop {xs : List α} {first : List κ} (fuel : ℕ) {marked : List κ}
    (h : ∀ k ∈ marked, Marked key deps isOpen xs first k) :
    ∀ k ∈ loop key deps isOpen xs fuel marked, Marked key deps isOpen xs first k := by
  induction fuel generalizing marked with
  | zero => exact h
  | succ fuel ih =>
    rw [loop]
    split_ifs
    · exact h
    · exact ih (marked_of_mem_pass (fun _ hx => hx) h)

/-- After a pass that marks nothing, the marks are closed under the rule. -/
theorem not_hit_of_pass_eq {xs : List α} {marked : List κ} (h : pass key deps isOpen xs marked = marked) :
    ∀ x ∈ xs, ¬ hit key deps isOpen marked x = true := by
  induction xs with
  | nil => exact fun x hx => absurd hx List.not_mem_nil
  | cons y ys ih =>
    rw [pass] at h
    split_ifs at h with hhit
    · have hsub := subset_pass key deps isOpen ys (marked ++ [key y])
      rw [h] at hsub
      have hmem : key y ∈ marked := hsub (List.mem_append_right _ (List.mem_singleton_self _))
      exact absurd hmem (hit_eq_true.mp hhit).2.1
    · intro x hx
      rcases List.mem_cons.mp hx with rfl | hx
      · exact hhit
      · exact ih h x hx

theorem mem_of_marked {xs : List α} {first marked : List κ} (hfirst : first ⊆ marked)
    (hstable : pass key deps isOpen xs marked = marked) {k : κ} (h : Marked key deps isOpen xs first k) :
    k ∈ marked := by
  induction h with
  | first hk => exact hfirst hk
  | node hx hopen hd _ ih =>
    by_contra hnew
    exact not_hit_of_pass_eq hstable _ hx (hit_eq_true.mpr ⟨hopen, hnew, _, hd, ih⟩)

/-! ## The number of passes -/

/-- The nodes that are not marked. -/
def unmarked (key : α → κ) (xs : List α) (marked : List κ) : ℕ := xs.countP fun x => key x ∉ marked

omit [DecidableEq κ] in
/-- A condition that is stronger, and strictly so on one element, counts fewer. -/
theorem countP_lt_countP {p q : α → Bool} {xs : List α} (h : ∀ y ∈ xs, p y = true → q y = true) {x : α}
    (hx : x ∈ xs) (hp : p x = false) (hq : q x = true) : xs.countP p < xs.countP q := by
  obtain ⟨pre, post, rfl⟩ := List.append_of_mem hx
  have hpre : pre.countP p ≤ pre.countP q := List.countP_mono_left fun y hy => h y (List.mem_append_left _ hy)
  have hpost : post.countP p ≤ post.countP q :=
    List.countP_mono_left fun y hy => h y (List.mem_append_right _ (List.mem_cons_of_mem _ hy))
  rw [List.countP_append, List.countP_append, List.countP_cons_of_neg (by simp [hp]), List.countP_cons_of_pos hq]
  omega

/-- A pass that marks something leaves fewer nodes that are not marked. -/
theorem unmarked_pass_lt {xs : List α} {marked : List κ} (h : pass key deps isOpen xs marked ≠ marked) :
    unmarked key xs (pass key deps isOpen xs marked) < unmarked key xs marked := by
  obtain ⟨new, hnew, hfresh⟩ := pass_eq_append key deps isOpen xs marked
  have hnode : ∃ x ∈ xs, key x ∉ marked ∧ key x ∈ pass key deps isOpen xs marked := by
    have hne : new ≠ [] := fun hnil => h (by rw [hnew, hnil, List.append_nil])
    obtain ⟨k, hk⟩ := List.exists_mem_of_ne_nil _ hne
    have hkpass : k ∈ pass key deps isOpen xs marked := by
      rw [hnew]
      exact List.mem_append_right _ hk
    have hmarked : Marked key deps isOpen xs marked k :=
      marked_of_mem_pass (fun _ hx => hx) (fun _ hk => Marked.first hk) k hkpass
    cases hmarked with
    | first hk' => exact absurd hk' (hfresh k hk)
    | node hx _ _ _ => exact ⟨_, hx, hfresh _ hk, hkpass⟩
  obtain ⟨x, hx, hold, hpass⟩ := hnode
  unfold unmarked
  have hmono : ∀ y ∈ xs, decide (key y ∉ pass key deps isOpen xs marked) = true →
      decide (key y ∉ marked) = true := by
    intro y _ hy
    simp only [decide_eq_true_eq] at hy ⊢
    exact fun hmem => hy (subset_pass key deps isOpen xs marked hmem)
  exact countP_lt_countP hmono hx (by simpa using hpass) (by simpa using hold)

/-- With more passes to spare than nodes that are not marked, the loop ends with a pass that marks nothing. -/
theorem pass_loop {xs : List α} {fuel : ℕ} {marked : List κ} (h : unmarked key xs marked < fuel) :
    pass key deps isOpen xs (loop key deps isOpen xs fuel marked) = loop key deps isOpen xs fuel marked := by
  induction fuel generalizing marked with
  | zero => omega
  | succ fuel ih =>
    rw [loop]
    split_ifs with hstable
    · exact hstable
    · have hlt := unmarked_pass_lt hstable
      exact ih (by omega)

/-- What the loop marks is the closure. -/
theorem mem_loop_iff {xs : List α} {fuel : ℕ} {first : List κ} (h : unmarked key xs first < fuel) {k : κ} :
    k ∈ loop key deps isOpen xs fuel first ↔ Marked key deps isOpen xs first k := by
  constructor
  · exact marked_of_mem_loop fuel (fun _ hk => Marked.first hk) k
  · obtain ⟨new, hnew, -⟩ := loop_eq_append key deps isOpen xs fuel first
    refine mem_of_marked ?_ (pass_loop h)
    rw [hnew]
    exact List.subset_append_left _ _

omit [DecidableEq κ] in
/-- The closure depends on which nodes and marks there are only. -/
theorem Marked.mono {xs ys : List α} {first second : List κ} (hxs : xs ⊆ ys) (hfirst : first ⊆ second) {k : κ}
    (h : Marked key deps isOpen xs first k) : Marked key deps isOpen ys second k := by
  induction h with
  | first hk => exact Marked.first (hfirst hk)
  | node hx hopen hd _ ih => exact Marked.node (hxs hx) hopen hd ih

end Galaxz.Saturation
