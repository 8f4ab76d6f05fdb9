import Mathlib.Data.List.Forall2

/-!
# Runs of a machine

A machine is a step function on states, a run the fold of the step over a list of actions. The rules
below lift what one step preserves to whole runs.
-/

namespace Galaxz.Machine

variable {σ α : Type} (step : α → σ → σ)

/-- The state after the actions, in order. -/
def run (actions : List α) (s : σ) : σ := actions.foldl (fun s a => step a s) s

@[simp] theorem run_nil (s : σ) : run step [] s = s := rfl

@[simp] theorem run_cons (a : α) (as : List α) (s : σ) :
    run step (a :: as) s = run step as (step a s) := rfl

theorem run_append (as bs : List α) (s : σ) : run step (as ++ bs) s = run step bs (run step as s) :=
  List.foldl_append

theorem run_concat (as : List α) (a : α) (s : σ) : run step (as ++ [a]) s = step a (run step as s) := by
  rw [run_append]
  rfl

variable {step}

/-- What every step preserves, every run preserves. -/
theorem run_invariant {I : σ → Prop} (hstep : ∀ a s, I s → I (step a s)) :
    ∀ (as : List α) (s : σ), I s → I (run step as s) := by
  intro as
  induction as with
  | nil => exact fun s hs => hs
  | cons a as ih => exact fun s hs => ih _ (hstep a s hs)

/-- What every step from a good state relates to its result, every run does, if the relation is
reflexive and transitive. -/
theorem run_rel {I : σ → Prop} {R : σ → σ → Prop} (hstep : ∀ a s, I s → I (step a s))
    (hrefl : ∀ s, R s s) (htrans : ∀ {s t u}, R s t → R t u → R s u)
    (hR : ∀ a s, I s → R s (step a s)) : ∀ (as : List α) (s : σ), I s → R s (run step as s) := by
  intro as
  induction as with
  | nil => exact fun s _ => hrefl s
  | cons a as ih => exact fun s hs => htrans (hR a s hs) (ih _ (hstep a s hs))

/-! ## Machines that answer -/

section Answers

variable {τ β γ : Type}

/-- The answers to the actions, in order. -/
def answers (exec : α → σ → β × σ) : List α → σ → List β
  | [], _ => []
  | a :: as, s => (exec a s).1 :: answers exec as (exec a s).2

/-- Every action of the run meets the condition in the state it is taken in. -/
def Along (step : α → σ → σ) (C : α → σ → Prop) : List α → σ → Prop
  | [], _ => True
  | a :: as, s => C a s ∧ Along step C as (step a s)

instance Along.decidable {C : α → σ → Prop} [∀ a s, Decidable (C a s)] :
    (as : List α) → (s : σ) → Decidable (Along step C as s)
  | [], _ => inferInstanceAs (Decidable True)
  | a :: as, s =>
    have : Decidable (Along step C as (step a s)) := Along.decidable as (step a s)
    inferInstanceAs (Decidable (C a s ∧ Along step C as (step a s)))

theorem Along.mono {C D : α → σ → Prop} (h : ∀ a s, C a s → D a s) {as : List α} {s : σ}
    (hC : Along step C as s) : Along step D as s := by
  induction as generalizing s with
  | nil => trivial
  | cons a as ih => exact ⟨h a s hC.1, ih hC.2⟩

theorem Along.and {C D : α → σ → Prop} {as : List α} {s : σ} (hC : Along step C as s) (hD : Along step D as s) :
    Along step (fun a s => C a s ∧ D a s) as s := by
  induction as generalizing s with
  | nil => trivial
  | cons a as ih => exact ⟨⟨hC.1, hD.1⟩, ih hC.2 hD.2⟩

/-- What holds of every action in every state holds along every run. -/
theorem Along.of_forall {C : α → σ → Prop} {as : List α} (h : ∀ a ∈ as, ∀ s, C a s) (s : σ) :
    Along step C as s := by
  induction as generalizing s with
  | nil => trivial
  | cons a as ih => exact ⟨h a List.mem_cons_self s, ih (fun b hb => h b (List.mem_cons_of_mem _ hb)) _⟩

theorem Along.append {C : α → σ → Prop} {as bs : List α} {s : σ} (has : Along step C as s)
    (hbs : Along step C bs (run step as s)) : Along step C (as ++ bs) s := by
  induction as generalizing s with
  | nil => exact hbs
  | cons a as ih => exact ⟨has.1, ih has.2 hbs⟩

theorem Along.left {C : α → σ → Prop} {as bs : List α} {s : σ} (h : Along step C (as ++ bs) s) :
    Along step C as s := by
  induction as generalizing s with
  | nil => trivial
  | cons a as ih => exact ⟨h.1, ih h.2⟩

theorem Along.of_append {C : α → σ → Prop} {as bs : List α} {s : σ} (h : Along step C (as ++ bs) s) :
    Along step C bs (run step as s) := by
  induction as generalizing s with
  | nil => exact h
  | cons a as ih => exact ih h.2

/-- Along a run that meets the condition, what each step preserves under it holds at every step and at
the end. -/
theorem Along.invariant {I : σ → Prop} {C : α → σ → Prop}
    (hstep : ∀ a s, I s → C a s → I (step a s)) {as : List α} {s : σ} (hs : I s)
    (hC : Along step C as s) : Along step (fun _ s => I s) as s ∧ I (run step as s) := by
  induction as generalizing s with
  | nil => exact ⟨trivial, hs⟩
  | cons a as ih =>
    obtain ⟨halong, hend⟩ := ih (hstep a s hs hC.1) hC.2
    exact ⟨⟨hs, halong⟩, hend⟩

/-- What a step keeps in step, a run does: related states give related answers and related states, as
long as the actions meet the condition. -/
theorem run_simulation {exec : α → σ → β × σ} {exec' : α → τ → γ × τ} {R : σ → τ → Prop}
    {C : α → σ → Prop} {Q : β → γ → Prop}
    (hstep : ∀ a s t, R s t → C a s → Q (exec a s).1 (exec' a t).1 ∧ R (exec a s).2 (exec' a t).2) :
    ∀ (as : List α) (s : σ) (t : τ), R s t → Along (fun a s => (exec a s).2) C as s →
      List.Forall₂ Q (answers exec as s) (answers exec' as t) ∧
        R (run (fun a s => (exec a s).2) as s) (run (fun a t => (exec' a t).2) as t) := by
  intro as
  induction as with
  | nil => exact fun s t hR _ => ⟨List.Forall₂.nil, hR⟩
  | cons a as ih =>
    intro s t hR halong
    obtain ⟨hQ, hR'⟩ := hstep a s t hR halong.1
    obtain ⟨hQs, hRs⟩ := ih _ _ hR' halong.2
    exact ⟨List.Forall₂.cons hQ hQs, hRs⟩

end Answers

end Galaxz.Machine
