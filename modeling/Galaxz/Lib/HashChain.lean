import Mathlib.Data.List.Forall2
import Mathlib.Data.List.Induction

/-!
# Hash chains

A chain is a list of events in which each names the event before it by its mark, and the first one names
the root. When a mark determines its event, the mark of the last event determines the whole chain.
-/

namespace Galaxz.HashChain

variable {ε π : Type} (prior mark : ε → π)

/-- Each event names the mark of the one before it, the first one `p`. -/
def Linked : π → List ε → Prop
  | _, [] => True
  | p, e :: es => prior e = p ∧ Linked (mark e) es

/-- The mark of the last event. -/
def tip : π → List ε → π
  | p, [] => p
  | _, e :: es => tip (mark e) es

variable {prior mark}

theorem tip_append (p : π) (es fs : List ε) : tip mark p (es ++ fs) = tip mark (tip mark p es) fs := by
  induction es generalizing p with
  | nil => rfl
  | cons e es ih => exact ih (mark e)

theorem tip_concat (p : π) (es : List ε) (e : ε) : tip mark p (es ++ [e]) = mark e := tip_append p es [e]

theorem linked_append {p : π} {es fs : List ε} :
    Linked prior mark p (es ++ fs) ↔ Linked prior mark p es ∧ Linked prior mark (tip mark p es) fs := by
  induction es generalizing p with
  | nil =>
    show _ ↔ True ∧ _
    rw [true_and]
    rfl
  | cons e es ih =>
    show prior e = p ∧ Linked prior mark (mark e) (es ++ fs) ↔ _
    rw [ih, ← and_assoc]
    rfl

theorem linked_concat {p : π} {es : List ε} {e : ε} :
    Linked prior mark p (es ++ [e]) ↔ Linked prior mark p es ∧ prior e = tip mark p es := by
  rw [linked_append]
  show _ ∧ (_ ∧ True) ↔ _
  rw [and_true]

/-- What holds of the root and of every mark holds of what the events name. -/
theorem Linked.prior_mem {Q : π → Prop} (hmark : ∀ e, Q (mark e)) :
    ∀ {p : π} {es : List ε}, Linked prior mark p es → Q p → ∀ e ∈ es, Q (prior e) := by
  intro p es
  induction es generalizing p with
  | nil => exact fun _ _ e he => absurd he List.not_mem_nil
  | cons x es ih =>
    rintro ⟨hx, hes⟩ hp e he
    rcases List.mem_cons.mp he with rfl | he
    · rw [hx]
      exact hp
    · exact ih hes (hmark x) e he

/-- A chain is determined by the mark of its last event: going back from the end, equal marks belong to
related events, which name equal marks. No event has the mark of the root, so the chains end together. -/
theorem linked_unique {P : ε → Prop} {R : ε → ε → Prop} {root : π} (hroot : ∀ e, mark e ≠ root)
    (hmark : ∀ a b, P a → P b → mark a = mark b → R a b)
    (hprior : ∀ a b, P a → P b → R a b → prior a = prior b) :
    ∀ as bs : List ε, (∀ a ∈ as, P a) → (∀ b ∈ bs, P b) → Linked prior mark root as →
      Linked prior mark root bs → tip mark root as = tip mark root bs → List.Forall₂ R as bs := by
  intro as
  induction as using List.reverseRecOn with
  | nil =>
    intro bs _ _ _ _ htip
    rcases List.eq_nil_or_concat bs with rfl | ⟨bs, b, rfl⟩
    · exact List.Forall₂.nil
    · rw [List.concat_eq_append, tip_concat] at htip
      exact absurd htip.symm (hroot b)
  | append_singleton as a ih =>
    intro bs hP hP' has hbs htip
    rcases List.eq_nil_or_concat bs with rfl | ⟨bs, b, rfl⟩
    · rw [tip_concat] at htip
      exact absurd htip (hroot a)
    · rw [List.concat_eq_append] at hP' hbs htip ⊢
      rw [tip_concat, tip_concat] at htip
      obtain ⟨has, hpa⟩ := linked_concat.mp has
      obtain ⟨hbs, hpb⟩ := linked_concat.mp hbs
      rw [List.forall_mem_append, List.forall_mem_singleton] at hP hP'
      have hab : R a b := hmark a b hP.2 hP'.2 htip
      have htips : tip mark root as = tip mark root bs := by
        rw [← hpa, ← hpb, hprior a b hP.2 hP'.2 hab]
      exact List.rel_append (ih bs hP.1 hP'.1 has hbs htips) (List.Forall₂.cons hab List.Forall₂.nil)

end Galaxz.HashChain
