import Mathlib.Data.List.Basic

/-!
# A queue that is served in rounds

In a round the first `k` entries of a queue are tried; those that succeed leave it, and the others keep
their places. Every entry that succeeds leaves in the end exactly when each has fewer than `k` entries
before it that fail.
-/

namespace Galaxz.Rounds

variable {α : Type} (ok : α → Bool) (k : ℕ)

/-- The queue after a round. -/
def serve (queue : List α) : List α := (queue.take k).filter (fun x => !ok x) ++ queue.drop k

/-- The queue after so many rounds. -/
def serveTimes : ℕ → List α → List α
  | 0, queue => queue
  | n + 1, queue => serveTimes n (serve ok k queue)

/-- How many of the entries fail. -/
def failing (queue : List α) : ℕ := queue.countP fun x => !ok x

/-- Every entry that succeeds has fewer than `k` before it that fail. -/
def Fair (queue : List α) : Prop :=
  ∀ before x after, queue = before ++ x :: after → ok x = true → failing ok before < k

variable {ok k}

theorem failing_filter (queue : List α) : failing ok (queue.filter fun x => !ok x) = failing ok queue := by
  unfold failing
  rw [List.countP_filter]
  refine List.countP_congr fun x _ => ?_
  simp

theorem failing_append (xs ys : List α) : failing ok (xs ++ ys) = failing ok xs + failing ok ys :=
  List.countP_append

/-- An entry that succeeds and is left after a round was beyond the first `k`, with as many failing ones
before it. -/
theorem of_mem_serve {queue before after : List α} {x : α} (h : serve ok k queue = before ++ x :: after)
    (hx : ok x = true) :
    ∃ mid, before = (queue.take k).filter (fun x => !ok x) ++ mid ∧ queue.drop k = mid ++ x :: after := by
  rcases List.append_eq_append_iff.mp h with ⟨mid, hbefore, hrest⟩ | ⟨mid, hfront, hrest⟩
  · exact ⟨mid, hbefore, hrest⟩
  · cases mid with
    | nil =>
      rw [List.append_nil] at hfront
      exact ⟨[], by rw [List.append_nil, hfront], hrest.symm⟩
    | cons y mid =>
      -- the entry would be one of the failing ones that stay
      obtain ⟨rfl, -⟩ := List.cons.inj hrest
      have hmem : x ∈ (queue.take k).filter fun x => !ok x := by
        rw [hfront]
        simp
      rw [List.mem_filter, hx] at hmem
      exact absurd hmem.2 (by simp)

/-- A round keeps a queue fair. -/
theorem Fair.serve {queue : List α} (h : Fair ok k queue) : Fair ok k (serve ok k queue) := by
  intro before x after heq hx
  obtain ⟨mid, rfl, hdrop⟩ := of_mem_serve heq hx
  have hqueue : queue = (queue.take k ++ mid) ++ x :: after := by
    rw [List.append_assoc, ← hdrop, List.take_append_drop]
  have hlt := h _ x after hqueue hx
  rw [failing_append] at hlt ⊢
  rw [failing_filter]
  exact hlt

/-- A round keeps a queue unfair: the entry that waits behind `k` failing ones still does. -/
theorem Fair.of_serve {queue : List α} (h : Fair ok k (Rounds.serve ok k queue)) : Fair ok k queue := by
  intro before x after heq hx
  by_contra hge
  have hlength : k ≤ before.length := by
    have hle := List.countP_le_length (p := fun x => !ok x) (l := before)
    unfold failing at hge
    omega
  have htake : queue.take k = before.take k := by rw [heq, List.take_append_of_le_length hlength]
  have hdrop : queue.drop k = before.drop k ++ x :: after := by
    rw [heq, List.drop_append_of_le_length hlength]
  have hserved : Rounds.serve ok k queue =
      ((before.take k).filter (fun x => !ok x) ++ before.drop k) ++ x :: after := by
    unfold Rounds.serve
    rw [htake, hdrop, List.append_assoc]
  have hlt := h _ x after hserved hx
  rw [failing_append, failing_filter, ← failing_append, List.take_append_drop] at hlt
  exact hge hlt

/-- A round of a fair queue serves somebody, if anybody can be served. -/
theorem Fair.serve_lt {queue : List α} (h : Fair ok k queue) (hex : 0 < queue.countP ok) :
    (Rounds.serve ok k queue).countP ok < queue.countP ok := by
  have hsum : queue.countP ok = (queue.take k).countP ok + (queue.drop k).countP ok := by
    rw [← List.countP_append, List.take_append_drop]
  have hfront : 0 < (queue.take k).countP ok := by
    by_contra hnone
    have hzero : (queue.take k).countP ok = 0 := by omega
    have hfail : ∀ x ∈ queue.take k, (!ok x) = true := by
      intro x hx
      have hnot := List.countP_eq_zero.mp hzero x hx
      simpa using hnot
    -- the first entry that succeeds is behind the first `k`, all of which fail
    have hrest : 0 < (queue.drop k).countP ok := by omega
    obtain ⟨x, hx, hok⟩ := List.countP_pos_iff.mp hrest
    obtain ⟨mid, after, hdrop⟩ := List.append_of_mem hx
    have hqueue : queue = (queue.take k ++ mid) ++ x :: after := by
      rw [List.append_assoc, ← hdrop, List.take_append_drop]
    have hlt := h _ x after hqueue hok
    have htake : failing ok (queue.take k) = (queue.take k).length := List.countP_eq_length.mpr hfail
    have hlong : k < queue.length := by
      have hne := List.length_pos_of_mem hx
      rw [List.length_drop] at hne
      omega
    rw [failing_append, htake, List.length_take, Nat.min_eq_left (Nat.le_of_lt hlong)] at hlt
    omega
  have hstay : ((queue.take k).filter fun x => !ok x).countP ok = 0 := by
    rw [List.countP_eq_zero]
    intro x hx
    simpa using (List.mem_filter.mp hx).2
  unfold Rounds.serve
  rw [List.countP_append, hstay]
  omega

/-- In a fair queue nobody who can be served is left after as many rounds as there are entries. -/
theorem Fair.serveTimes {queue : List α} (h : Fair ok k queue) (n : ℕ) (hn : queue.countP ok ≤ n) :
    (Rounds.serveTimes ok k n queue).countP ok = 0 := by
  induction n generalizing queue with
  | zero => exact Nat.le_zero.mp hn
  | succ n ih =>
    refine ih h.serve ?_
    by_cases hex : 0 < queue.countP ok
    · have hlt := h.serve_lt hex
      omega
    · have hzero : queue.countP ok = 0 := by omega
      have hsub : (Rounds.serve ok k queue).Sublist queue := by
        have hsublist := (List.filter_sublist (p := fun x => !ok x) (l := queue.take k)).append
          (List.Sublist.refl (queue.drop k))
        rwa [List.take_append_drop] at hsublist
      have hle := hsub.countP_le (p := ok)
      omega

/-- In any other queue somebody is left, however many rounds there are. -/
theorem Fair.of_serveTimes {queue : List α} (n : ℕ) (h : (Rounds.serveTimes ok k n queue).countP ok = 0) :
    Fair ok k queue := by
  induction n generalizing queue with
  | zero =>
    intro before x after heq hx
    have hnot := List.countP_eq_zero.mp h x (by rw [Rounds.serveTimes, heq]; simp)
    exact absurd hx hnot
  | succ n ih => exact (ih h).of_serve

end Galaxz.Rounds
