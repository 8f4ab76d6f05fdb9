import Mathlib.Data.Nat.Init
import Mathlib.Logic.Basic
import Mathlib.Tactic.ByContra
import Mathlib.Tactic.Choose

/-!
# Computations with fuel

A computation that may not end is a function of the fuel it gets. It yields a value when some fuel is
enough for it, and it is steady when more fuel never changes the value. A loop `while True` is such a
computation, and so is the search through an endless stream for the first element that settles it.
-/

namespace Galaxz.Fuel

variable {α β σ : Type}

/-- Some fuel is enough for the computation to return the value. -/
def Yields (f : ℕ → Option α) (a : α) : Prop := ∃ fuel, f fuel = some a

/-- More fuel does not change what is returned. -/
def Steady (f : ℕ → Option α) : Prop := ∀ ⦃m n : ℕ⦄ ⦃a : α⦄, m ≤ n → f m = some a → f n = some a

theorem steady_const (x : Option α) : Steady fun _ => x := fun _ _ _ _ h => h

theorem yields_const_iff {a b : α} : Yields (fun _ => some a) b ↔ a = b :=
  ⟨fun ⟨_, h⟩ => Option.some.inj h, fun h => ⟨0, congrArg some h⟩⟩

theorem Steady.unique {f : ℕ → Option α} (hf : Steady f) {a b : α} (ha : Yields f a) (hb : Yields f b) : a = b := by
  obtain ⟨m, hm⟩ := ha
  obtain ⟨n, hn⟩ := hb
  have ha : f (max m n) = some a := hf (Nat.le_max_left m n) hm
  have hb : f (max m n) = some b := hf (Nat.le_max_right m n) hn
  exact Option.some.inj (ha.symm.trans hb)

theorem Steady.bind {f : ℕ → Option α} {g : α → ℕ → Option β} (hf : Steady f) (hg : ∀ a, Steady (g a)) :
    Steady fun fuel => (f fuel).bind (g · fuel) := by
  intro m n b hle h
  obtain ⟨a, ha, hb⟩ := Option.bind_eq_some_iff.mp h
  exact Option.bind_eq_some_iff.mpr ⟨a, hf hle ha, hg a hle hb⟩

/-- Two computations in sequence. -/
theorem yields_bind_iff {f : ℕ → Option α} {g : α → ℕ → Option β} (hf : Steady f) (hg : ∀ a, Steady (g a)) {b : β} :
    Yields (fun fuel => (f fuel).bind (g · fuel)) b ↔ ∃ a, Yields f a ∧ Yields (g a) b := by
  constructor
  · rintro ⟨n, h⟩
    obtain ⟨a, ha, hb⟩ := Option.bind_eq_some_iff.mp h
    exact ⟨a, ⟨n, ha⟩, ⟨n, hb⟩⟩
  · rintro ⟨a, ⟨m, hm⟩, ⟨n, hn⟩⟩
    exact ⟨max m n, Option.bind_eq_some_iff.mpr
      ⟨a, hf (Nat.le_max_left m n) hm, hg a (Nat.le_max_right m n) hn⟩⟩

theorem Steady.map {f : ℕ → Option α} (hf : Steady f) (g : α → β) : Steady fun fuel => (f fuel).map g := by
  intro m n b hle h
  obtain ⟨a, ha, hb⟩ := Option.map_eq_some_iff.mp h
  exact Option.map_eq_some_iff.mpr ⟨a, hf hle ha, hb⟩

theorem yields_map_iff {f : ℕ → Option α} {g : α → β} {b : β} :
    Yields (fun fuel => (f fuel).map g) b ↔ ∃ a, Yields f a ∧ g a = b := by
  constructor
  · rintro ⟨n, h⟩
    obtain ⟨a, ha, hb⟩ := Option.map_eq_some_iff.mp h
    exact ⟨a, ⟨n, ha⟩, hb⟩
  · rintro ⟨a, ⟨n, hn⟩, hb⟩
    exact ⟨n, Option.map_eq_some_iff.mpr ⟨a, hn, hb⟩⟩

/-! ## Loops -/

/-- `while True`: a turn goes on from a new state, or ends the loop with a value. -/
def loop (turn : ℕ → σ → Option (σ ⊕ β)) : ℕ → σ → Option β
  | 0, _ => none
  | fuel + 1, s => (turn fuel s).bind fun
    | .inl s' => loop turn fuel s'
    | .inr b => some b

/-- The loop makes `n` turns from one state to another, and goes on. -/
inductive Turns (turn : ℕ → σ → Option (σ ⊕ β)) : ℕ → σ → σ → Prop where
  | zero (s : σ) : Turns turn 0 s s
  | succ {n : ℕ} {s s' t : σ} (first : Yields (turn · s) (.inl s')) (rest : Turns turn n s' t) :
    Turns turn (n + 1) s t

section Loops

variable {turn : ℕ → σ → Option (σ ⊕ β)}

theorem steady_loop (hturn : ∀ s, Steady (turn · s)) (s : σ) : Steady (loop turn · s) := by
  intro m n b hle h
  induction m generalizing n s with
  | zero => cases h
  | succ m ih =>
    obtain ⟨n, rfl⟩ : ∃ k, n = k + 1 := ⟨n - 1, by omega⟩
    have hle : m ≤ n := Nat.le_of_succ_le_succ hle
    obtain ⟨next, hnext, h⟩ := Option.bind_eq_some_iff.mp h
    refine Option.bind_eq_some_iff.mpr ⟨next, hturn s hle hnext, ?_⟩
    cases next with
    | inl s' => exact ih s' hle h
    | inr c => exact h

/-- A loop ends in its first turn, or after it. -/
theorem yields_loop_iff (hturn : ∀ s, Steady (turn · s)) {s : σ} {b : β} :
    Yields (loop turn · s) b ↔ Yields (turn · s) (.inr b) ∨
      ∃ s', Yields (turn · s) (.inl s') ∧ Yields (loop turn · s') b := by
  constructor
  · rintro ⟨n, h⟩
    cases n with
    | zero => cases h
    | succ n =>
      obtain ⟨next, hnext, h⟩ := Option.bind_eq_some_iff.mp h
      cases next with
      | inl s' => exact Or.inr ⟨s', ⟨n, hnext⟩, ⟨n, h⟩⟩
      | inr c =>
        cases h
        exact Or.inl ⟨n, hnext⟩
  · rintro (⟨n, h⟩ | ⟨s', ⟨m, hm⟩, ⟨n, hn⟩⟩)
    · exact ⟨n + 1, Option.bind_eq_some_iff.mpr ⟨_, h, rfl⟩⟩
    · exact ⟨max m n + 1, Option.bind_eq_some_iff.mpr ⟨_, hturn s (Nat.le_max_left m n) hm,
        steady_loop hturn s' (Nat.le_max_right m n) hn⟩⟩

/-- What holds of the state and the value in a last turn, and before a turn when it does after it, holds
where the loop starts. -/
theorem Yields.loop_induction {P : σ → β → Prop}
    (last : ∀ s b, Yields (turn · s) (.inr b) → P s b)
    (next : ∀ s s' b, Yields (turn · s) (.inl s') → P s' b → P s b) {s : σ} {b : β}
    (h : Yields (loop turn · s) b) : P s b := by
  obtain ⟨n, h⟩ := h
  induction n generalizing s with
  | zero => cases h
  | succ n ih =>
    obtain ⟨r, hr, h⟩ := Option.bind_eq_some_iff.mp h
    cases r with
    | inl s' => exact next s s' b ⟨n, hr⟩ (ih h)
    | inr c =>
      cases h
      exact last s b ⟨n, hr⟩

end Loops

/-! ## How often a loop goes on -/

section Turns

variable {turn : ℕ → σ → Option (σ ⊕ β)}

theorem Turns.unique (hturn : ∀ s, Steady (turn · s)) {n : ℕ} {s t t' : σ} (h : Turns turn n s t)
    (h' : Turns turn n s t') : t = t' := by
  induction h with
  | zero s =>
    cases h'
    rfl
  | succ first rest ih =>
    cases h' with
    | succ first' rest' =>
      cases (hturn _).unique first first'
      exact ih rest'

/-- The turns, the last one apart. -/
theorem turns_succ_iff {n : ℕ} {s t : σ} :
    Turns turn (n + 1) s t ↔ ∃ u, Turns turn n s u ∧ Yields (turn · u) (.inl t) := by
  constructor
  · intro h
    induction n generalizing s with
    | zero =>
      cases h with
      | succ first rest =>
        cases rest
        exact ⟨s, Turns.zero s, first⟩
    | succ n ih =>
      cases h with
      | succ first rest =>
        obtain ⟨u, hu, hlast⟩ := ih rest
        exact ⟨u, Turns.succ first hu, hlast⟩
  · rintro ⟨u, hu, hlast⟩
    induction hu with
    | zero s => exact Turns.succ hlast (Turns.zero t)
    | succ first _ ih => exact Turns.succ first (ih hlast)

theorem turns_of_sequence {f : ℕ → σ} (h : ∀ n, Yields (turn · (f n)) (.inl (f (n + 1)))) (n : ℕ) :
    Turns turn n (f 0) (f n) := by
  induction n with
  | zero => exact Turns.zero (f 0)
  | succ n ih => exact turns_succ_iff.mpr ⟨f n, ih, h n⟩

/-- The number of turns that go on is bounded exactly when no endless sequence of states goes on. -/
theorem bounded_turns_iff (hturn : ∀ s, Steady (turn · s)) (s : σ) :
    (∃ bound, ∀ n t, Turns turn n s t → n ≤ bound) ↔
      ¬∃ f : ℕ → σ, f 0 = s ∧ ∀ n, Yields (turn · (f n)) (.inl (f (n + 1))) := by
  constructor
  · rintro ⟨bound, hbound⟩ ⟨f, rfl, hf⟩
    have hle := hbound (bound + 1) (f (bound + 1)) (turns_of_sequence hf (bound + 1))
    omega
  · intro hnone
    by_contra hunbounded
    have hshorter : ∀ n k t, n ≤ k → Turns turn k s t → ∃ u, Turns turn n s u := by
      intro n k t hle h
      induction k generalizing t with
      | zero =>
        obtain rfl : n = 0 := by omega
        exact ⟨t, h⟩
      | succ k ih =>
        by_cases hn : n = k + 1
        · exact ⟨t, hn ▸ h⟩
        · obtain ⟨u, hu, -⟩ := turns_succ_iff.mp h
          exact ih u (by omega) hu
    have hevery : ∀ n, ∃ t, Turns turn n s t := by
      intro n
      by_contra hn
      refine hunbounded ⟨n, fun k t h => ?_⟩
      by_contra hk
      exact hn (hshorter n k t (by omega) h)
    choose f hf using hevery
    refine hnone ⟨f, Turns.unique hturn (hf 0) (Turns.zero s), fun n => ?_⟩
    obtain ⟨u, hu, hlast⟩ := turns_succ_iff.mp (hf (n + 1))
    rw [(hf n).unique hturn hu]
    exact hlast

end Turns

/-! ## Searching a stream -/

/-- One turn of the search: the element settles it, or the next one is looked at. -/
def searchTurn (judge : α → Option β) (xs : ℕ → α) (_fuel n : ℕ) : Option (ℕ ⊕ β) :=
  some (match judge (xs n) with
    | none => .inl (n + 1)
    | some b => .inr b)

/-- The first element of the stream that settles the search. -/
def search (judge : α → Option β) (xs : ℕ → α) (fuel : ℕ) : Option β := loop (searchTurn judge xs) fuel 0

theorem steady_search (judge : α → Option β) (xs : ℕ → α) : Steady (search judge xs) :=
  steady_loop (fun n => steady_const (searchTurn judge xs 0 n)) 0

theorem yields_searchTurn_inl_iff {judge : α → Option β} {xs : ℕ → α} {n k : ℕ} :
    Yields (searchTurn judge xs · n) (.inl k) ↔ judge (xs n) = none ∧ k = n + 1 := by
  unfold searchTurn
  rw [yields_const_iff]
  cases judge (xs n) with
  | none => simp [eq_comm]
  | some b => simp

theorem yields_searchTurn_inr_iff {judge : α → Option β} {xs : ℕ → α} {n : ℕ} {b : β} :
    Yields (searchTurn judge xs · n) (.inr b) ↔ judge (xs n) = some b := by
  unfold searchTurn
  rw [yields_const_iff]
  cases judge (xs n) with
  | none => simp
  | some c => simp

/-- A search ends exactly at an element that settles it, when no earlier one does. -/
theorem yields_search_iff {judge : α → Option β} {xs : ℕ → α} {b : β} :
    Yields (search judge xs) b ↔ ∃ n, (∀ m < n, judge (xs m) = none) ∧ judge (xs n) = some b := by
  constructor
  · intro h
    have hfrom : ∃ n, 0 ≤ n ∧ (∀ m, 0 ≤ m → m < n → judge (xs m) = none) ∧ judge (xs n) = some b := by
      refine Yields.loop_induction (P := fun k b => ∃ n, k ≤ n ∧ (∀ m, k ≤ m → m < n → judge (xs m) = none) ∧
        judge (xs n) = some b) ?_ ?_ h
      · intro k c hlast
        exact ⟨k, Nat.le_refl k, fun m hle hlt => by omega, yields_searchTurn_inr_iff.mp hlast⟩
      · rintro k k' c hnext ⟨n, hle, hbefore, hn⟩
        obtain ⟨hnone, rfl⟩ := yields_searchTurn_inl_iff.mp hnext
        refine ⟨n, by omega, fun m hkm hmn => ?_, hn⟩
        by_cases hm : m = k
        · rw [hm]
          exact hnone
        · exact hbefore m (by omega) hmn
    obtain ⟨n, -, hbefore, hn⟩ := hfrom
    exact ⟨n, fun m hm => hbefore m (Nat.zero_le m) hm, hn⟩
  · rintro ⟨n, hbefore, hn⟩
    have hfrom : ∀ k ≤ n, Yields (loop (searchTurn judge xs) · (n - k)) b := by
      intro k hk
      have hturn := fun n => steady_const (searchTurn judge xs 0 n)
      induction k with
      | zero => exact (yields_loop_iff hturn).mpr (Or.inl (yields_searchTurn_inr_iff.mpr hn))
      | succ k ih =>
        refine (yields_loop_iff hturn).mpr (Or.inr ⟨n - k, ?_, ih (by omega)⟩)
        exact yields_searchTurn_inl_iff.mpr ⟨hbefore _ (by omega), by omega⟩
    have hstart := hfrom n (Nat.le_refl n)
    rw [Nat.sub_self] at hstart
    exact hstart

end Galaxz.Fuel
