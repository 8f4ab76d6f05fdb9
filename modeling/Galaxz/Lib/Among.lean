import Galaxz.Lib.Machine
import Galaxz.Lib.Prog

/-!
# Programs among others

A program on a store that others use at the same time. Their steps come before each call of the program, and after
its last; a schedule lists them. `Returns` is the rule for a program that has to return whatever the others do, as
long as each call is made in a state that allows it.
-/

namespace Galaxz.Prog

variable {Op ε ω : Type} {Ans : Op → Type} {α β σ : Type}

/-! ## Runs -/

section Run

variable (exec : (op : Op) → σ → Except ε (Ans op) × σ) (step : ω → σ → σ)

/-- Execute the program with the steps of others before each of its calls. Those that remain come after it. -/
def runAmong : Prog ε Ans α → List (List ω) → σ → Except ε α × σ
  | .pure a, others, s => (.ok a, Machine.run step others.flatten s)
  | .raise e, others, s => (.error e, Machine.run step others.flatten s)
  | .call op k, others, s => match exec op (Machine.run step (others.headD []) s) with
    | (.error e, s') => (.error e, Machine.run step others.tail.flatten s')
    | (.ok a, s') => runAmong (k a) others.tail s'

/-- The calls that `runAmong` makes, each with the state it is made in. -/
def traceAmong : Prog ε Ans α → List (List ω) → σ → List (Op × σ)
  | .pure _, _, _ => []
  | .raise _, _, _ => []
  | .call op k, others, s =>
    let s₁ := Machine.run step (others.headD []) s
    (op, s₁) :: match exec op s₁ with
      | (.error _, _) => []
      | (.ok a, s') => traceAmong (k a) others.tail s'

variable {exec step}

/-- What the others and the calls preserve holds wherever a call is made. -/
theorem invariant_of_mem_traceAmong {I : σ → Prop} (hstep : ∀ o s, I s → I (step o s))
    (hexec : ∀ op s, I s → I (exec op s).2) {p : Prog ε Ans α} {others : List (List ω)} {s : σ} (hs : I s) :
    ∀ x ∈ traceAmong exec step p others s, I x.2 := by
  induction p generalizing others s with
  | pure a => intro x hx; cases hx
  | raise e => intro x hx; cases hx
  | call op k ih =>
    intro x hx
    have hbefore := Machine.run_invariant hstep (others.headD []) s hs
    have hafter := hexec op _ hbefore
    rw [traceAmong] at hx
    rcases List.mem_cons.mp hx with rfl | hx
    · exact hbefore
    · rcases hr : exec op (Machine.run step (others.headD []) s) with ⟨e | a, s'⟩
      · rw [hr] at hx
        cases hx
      · rw [hr] at hx hafter
        exact ih a hafter x hx

/-- If a run returns, so does each of its calls. -/
theorem ok_of_mem_traceAmong {p : Prog ε Ans α} {others : List (List ω)} {s : σ} {a : α}
    (h : (runAmong exec step p others s).1 = .ok a) :
    ∀ x ∈ traceAmong exec step p others s, ∃ b, (exec x.1 x.2).1 = .ok b := by
  induction p generalizing others s with
  | pure b => intro x hx; cases hx
  | raise e => intro x hx; cases hx
  | call op k ih =>
    intro x hx
    rw [traceAmong] at hx
    rw [runAmong] at h
    rcases hr : exec op (Machine.run step (others.headD []) s) with ⟨e | b, s'⟩
    · rw [hr] at h
      cases h
    · rw [hr] at h hx
      rcases List.mem_cons.mp hx with rfl | hx
      · exact ⟨b, by rw [hr]⟩
      · exact ih b h x hx

end Run

/-! ## The rule -/

section Rule

variable (exec : (op : Op) → σ → Except ε (Ans op) × σ) (step : ω → σ → σ) (C : Op → σ → Prop)

/-- The program returns with `Q`, whatever the others do before each of its calls, as long as the call is made where
`C` allows it. -/
def Returns : Prog ε Ans α → (α → σ → Prop) → σ → Prop
  | .pure a, Q, s => Q a s
  | .raise _, _, _ => False
  | .call op k, Q, s => ∀ others : List ω, C op (Machine.run step others s) →
      ∃ a s', exec op (Machine.run step others s) = (.ok a, s') ∧ Returns (k a) Q s'

variable {exec step C} {Q R : α → σ → Prop}

theorem Returns.mono {p : Prog ε Ans α} {s : σ} (h : Returns exec step C p Q s) (hQ : ∀ a s, Q a s → R a s) :
    Returns exec step C p R s := by
  induction p generalizing s with
  | pure a => exact hQ a s h
  | raise e => exact h
  | call op k ih =>
    intro others hC
    obtain ⟨a, s', ha, hk⟩ := h others hC
    exact ⟨a, s', ha, ih a hk⟩

/-- The rule of sequence. -/
theorem Returns.bind {p : Prog ε Ans α} {f : α → Prog ε Ans β} {T : β → σ → Prop} {s : σ}
    (hp : Returns exec step C p Q s) (hf : ∀ a s, Q a s → Returns exec step C (f a) T s) :
    Returns exec step C (p >>= f) T s := by
  induction p generalizing s with
  | pure a => exact hf a s hp
  | raise e => exact hp.elim
  | call op k ih =>
    intro others hC
    obtain ⟨a, s', ha, hk⟩ := hp others hC
    exact ⟨a, s', ha, ih a hk⟩

/-- The rule of one call and what follows it, for an invariant that the others keep. -/
theorem Returns.call {I : σ → Prop} {op : Op} {f : Ans op → Prog ε Ans β} {T : β → σ → Prop} {s : σ}
    (hstep : ∀ o s, I s → I (step o s)) (hs : I s)
    (hf : ∀ s, I s → C op s → ∃ a s', exec op s = (.ok a, s') ∧ Returns exec step C (f a) T s') :
    Returns exec step C (Prog.call op .pure >>= f) T s :=
  fun others hC => hf _ (Machine.run_invariant hstep others s hs) hC

/-- A program that returns by the rule does so in every run whose calls are allowed. -/
theorem Returns.runAmong {I : σ → Prop} {p : Prog ε Ans α} {s : σ} (h : Returns exec step C p (fun _ => I) s)
    (hstep : ∀ o s, I s → I (step o s)) {others : List (List ω)}
    (hC : ∀ x ∈ traceAmong exec step p others s, C x.1 x.2) :
    (∃ a, (runAmong exec step p others s).1 = .ok a) ∧ I (runAmong exec step p others s).2 := by
  induction p generalizing s others with
  | pure a => exact ⟨⟨a, rfl⟩, Machine.run_invariant hstep others.flatten s h⟩
  | raise e => exact h.elim
  | call op k ih =>
    rw [traceAmong] at hC
    obtain ⟨a, s', ha, hk⟩ := h (others.headD []) (hC _ List.mem_cons_self)
    rw [Prog.runAmong]
    rw [ha] at hC ⊢
    exact ih a hk fun x hx => hC x (List.mem_cons_of_mem _ hx)

end Rule

end Galaxz.Prog
