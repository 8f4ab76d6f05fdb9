import Mathlib.Data.Nat.Notation
import Mathlib.Logic.Basic

/-!
# Programs over a store

Code that talks to a store by a sequence of calls, each of which is atomic. A program is the tree of
the calls it makes: a call and, for every answer, the rest. An exception of a call ends the program.
`run` executes a program with nothing in between; `advance` executes its next call only, so that other
programs can come between any two calls.
-/

namespace Galaxz

/-- A program with calls in `Op`, where `Ans op` is the type of the answers to `op`. -/
inductive Prog {Op : Type} (ε : Type) (Ans : Op → Type) (α : Type) where
  | pure (a : α)
  | raise (e : ε)
  | call (op : Op) (k : Ans op → Prog ε Ans α)

namespace Prog

variable {Op ε : Type} {Ans : Op → Type} {α β σ : Type}

/-- One program, then another with its result. -/
def bind : Prog ε Ans α → (α → Prog ε Ans β) → Prog ε Ans β
  | .pure a, f => f a
  | .raise e, _ => .raise e
  | .call op k, f => .call op fun a => bind (k a) f

instance : Monad (Prog ε Ans) where
  pure := .pure
  bind := bind

@[simp] theorem pure_bind (a : α) (f : α → Prog ε Ans β) : (Prog.pure a >>= f) = f a := rfl

@[simp] theorem raise_bind (e : ε) (f : α → Prog ε Ans β) : (Prog.raise e >>= f) = .raise e := rfl

@[simp] theorem call_bind (op : Op) (k : Ans op → Prog ε Ans α) (f : α → Prog ε Ans β) :
    (Prog.call op k >>= f) = .call op fun a => k a >>= f := rfl

/-- A computation that makes no call. -/
def ofExcept : Except ε α → Prog ε Ans α
  | .error e => .raise e
  | .ok a => .pure a

@[simp] theorem pure_eq (a : α) : (Pure.pure a : Prog ε Ans α) = .pure a := rfl

/-! ## A program on its own -/

section Run

variable (exec : (op : Op) → σ → Except ε (Ans op) × σ)

/-- Execute the program: its result, and the state after it. -/
def run : Prog ε Ans α → σ → Except ε α × σ
  | .pure a, s => (.ok a, s)
  | .raise e, s => (.error e, s)
  | .call op k, s => match exec op s with
    | (.error e, s') => (.error e, s')
    | (.ok a, s') => run (k a) s'

/-- The calls that `run` makes, each with the state it is made in. -/
def trace : Prog ε Ans α → σ → List (Op × σ)
  | .pure _, _ => []
  | .raise _, _ => []
  | .call op k, s => (op, s) :: match exec op s with
    | (.error _, _) => []
    | (.ok a, s') => trace (k a) s'

/-- Every call of the program satisfies `C` in the state it is made in, and what it returns satisfies
`Q`. -/
def Meets (C : Op → σ → Prop) : Prog ε Ans α → (α → σ → Prop) → σ → Prop
  | .pure a, Q, s => Q a s
  | .raise _, _, _ => True
  | .call op k, Q, s => C op s ∧ ∀ a s', exec op s = (.ok a, s') → Meets C (k a) Q s'

variable {exec} {C : Op → σ → Prop} {Q R : α → σ → Prop}

/-- The rule of sequence. -/
theorem Meets.bind {p : Prog ε Ans α} {f : α → Prog ε Ans β} {T : β → σ → Prop} {s : σ}
    (hp : Meets exec C p Q s) (hf : ∀ a s, Q a s → Meets exec C (f a) T s) :
    Meets exec C (p >>= f) T s := by
  induction p generalizing s with
  | pure a => exact hf a s hp
  | raise e => trivial
  | call op k ih => exact ⟨hp.1, fun a s' ha => ih a (hp.2 a s' ha)⟩

/-- The rule of one call and what follows it. -/
theorem Meets.call {op : Op} {f : Ans op → Prog ε Ans β} {T : β → σ → Prop} {s : σ} (hop : C op s)
    (hf : ∀ a s', exec op s = (.ok a, s') → Meets exec C (f a) T s') :
    Meets exec C (Prog.call op .pure >>= f) T s :=
  ⟨hop, hf⟩

/-- What every call of the program preserves holds throughout, and at the end. -/
theorem Meets.keep {I : σ → Prop} (hI : ∀ op s, C op s → I s → I (exec op s).2) {p : Prog ε Ans α} {s : σ}
    (h : Meets exec C p Q s) (hs : I s) :
    Meets exec (fun op s => C op s ∧ I s) p (fun a s => Q a s ∧ I s) s := by
  induction p generalizing s with
  | pure a => exact ⟨h, hs⟩
  | raise e => trivial
  | call op k ih =>
    refine ⟨⟨h.1, hs⟩, fun a s' ha => ih a (h.2 a s' ha) ?_⟩
    have hnext := hI op s h.1 hs
    rw [ha] at hnext
    exact hnext

theorem Meets.weaken {C' : Op → σ → Prop} (hC : ∀ op s, C op s → C' op s) {p : Prog ε Ans α} {s : σ}
    (h : Meets exec C p Q s) : Meets exec C' p Q s := by
  induction p generalizing s with
  | pure a => exact h
  | raise e => trivial
  | call op k ih => exact ⟨hC op s h.1, fun a s' ha => ih a (h.2 a s' ha)⟩

theorem Meets.mono {p : Prog ε Ans α} {s : σ} (h : Meets exec C p Q s) (hQ : ∀ a s, Q a s → R a s) :
    Meets exec C p R s := by
  induction p generalizing s with
  | pure a => exact hQ a s h
  | raise e => trivial
  | call op k ih => exact ⟨h.1, fun a s' ha => ih a (h.2 a s' ha)⟩

/-- The calls of a program that meets `C` satisfy `C`. -/
theorem Meets.trace {p : Prog ε Ans α} {s : σ} (h : Meets exec C p Q s) :
    ∀ x ∈ trace exec p s, C x.1 x.2 := by
  induction p generalizing s with
  | pure a => intro x hx; cases hx
  | raise e => intro x hx; cases hx
  | call op k ih =>
    intro x hx
    rw [Prog.trace] at hx
    rcases List.mem_cons.mp hx with rfl | hx
    · exact h.1
    · rcases hr : exec op s with ⟨e | a, s'⟩
      · rw [hr] at hx
        cases hx
      · rw [hr] at hx
        exact ih a (h.2 a s' hr) x hx

/-- A program whose calls satisfy `C` meets it. -/
theorem Meets.of_trace {p : Prog ε Ans α} {s : σ} (h : ∀ x ∈ Prog.trace exec p s, C x.1 x.2) :
    Meets exec C p (fun _ _ => True) s := by
  induction p generalizing s with
  | pure a => trivial
  | raise e => trivial
  | call op k ih =>
    rw [Prog.trace] at h
    refine ⟨h (op, s) List.mem_cons_self, fun a s' ha => ih a fun x hx => h x (List.mem_cons_of_mem _ ?_)⟩
    rw [ha]
    exact hx

/-- A program in sequence with another meets `C` up to where the other begins. -/
theorem Meets.of_bind {p : Prog ε Ans α} {f : α → Prog ε Ans β} {T : β → σ → Prop} {s : σ}
    (h : Meets exec C (p >>= f) T s) : Meets exec C p (fun a s => Meets exec C (f a) T s) s := by
  induction p generalizing s with
  | pure a => exact h
  | raise e => trivial
  | call op k ih => exact ⟨h.1, fun a s' ha => ih a (h.2 a s' ha)⟩

theorem Meets.and {C' : Op → σ → Prop} {p : Prog ε Ans α} {s : σ} (h : Meets exec C p Q s)
    (h' : Meets exec C' p R s) :
    Meets exec (fun op s => C op s ∧ C' op s) p (fun a s => Q a s ∧ R a s) s := by
  induction p generalizing s with
  | pure a => exact ⟨h, h'⟩
  | raise e => trivial
  | call op k ih => exact ⟨⟨h.1, h'.1⟩, fun a s' ha => ih a (h.2 a s' ha) (h'.2 a s' ha)⟩

/-- What every call of a run preserves, the run preserves, also when it ends in an exception. -/
theorem run_invariant {I : σ → Prop} (p : Prog ε Ans α) (s : σ) (hs : I s)
    (hC : ∀ x ∈ trace exec p s, I x.2 → I (exec x.1 x.2).2) : I (run exec p s).2 := by
  induction p generalizing s with
  | pure a => exact hs
  | raise e => exact hs
  | call op k ih =>
    rw [Prog.trace] at hC
    rw [Prog.run]
    have hop := hC (op, s) List.mem_cons_self hs
    rcases hr : exec op s with ⟨e | a, s'⟩
    · rw [hr] at hop
      exact hop
    · rw [hr] at hop hC
      exact ih a s' hop fun x hx => hC x (List.mem_cons_of_mem _ hx)

/-- A program in sequence with another. -/
theorem run_bind (p : Prog ε Ans α) (f : α → Prog ε Ans β) (s : σ) :
    run exec (p >>= f) s = match run exec p s with
      | (.error e, s') => (.error e, s')
      | (.ok a, s') => run exec (f a) s' := by
  induction p generalizing s with
  | pure a => rfl
  | raise e => rfl
  | call op k ih =>
    rw [call_bind, Prog.run, Prog.run]
    rcases exec op s with ⟨e | a, s'⟩
    · rfl
    · exact ih a s'

variable (exec) in
/-- The program ends in `Q`, with its result or its exception. -/
def Ends (p : Prog ε Ans α) (Q : Except ε α → σ → Prop) (s : σ) : Prop :=
  Q (run exec p s).1 (run exec p s).2

theorem Ends.mono {p : Prog ε Ans α} {Q R : Except ε α → σ → Prop} {s : σ} (h : Ends exec p Q s)
    (hQ : ∀ r s, Q r s → R r s) : Ends exec p R s :=
  hQ _ _ h

/-- The rule of sequence. -/
theorem Ends.bind {p : Prog ε Ans α} {f : α → Prog ε Ans β} {Q : Except ε α → σ → Prop}
    {T : Except ε β → σ → Prop} {s : σ} (hp : Ends exec p Q s)
    (hf : ∀ a s, Q (.ok a) s → Ends exec (f a) T s) (he : ∀ e s, Q (.error e) s → T (.error e) s) :
    Ends exec (p >>= f) T s := by
  unfold Ends at hp ⊢
  rw [run_bind]
  rcases hr : run exec p s with ⟨e | a, s'⟩
  · rw [hr] at hp
    exact he e s' hp
  · rw [hr] at hp
    exact hf a s' hp

/-- The rule of one call and what follows it. -/
theorem Ends.call {op : Op} {f : Ans op → Prog ε Ans β} {T : Except ε β → σ → Prop} {s : σ}
    (hf : ∀ a s', exec op s = (.ok a, s') → Ends exec (f a) T s')
    (he : ∀ e s', exec op s = (.error e, s') → T (.error e) s') :
    Ends exec (Prog.call op .pure >>= f) T s := by
  refine Ends.bind (Q := fun r s' => exec op s = (r, s')) ?_ hf he
  unfold Ends
  rw [Prog.run]
  rcases exec op s with ⟨e | a, s'⟩
  · rfl
  · rfl

end Run

/-! ## Programs that take turns -/

section Turns

variable (exec : (op : Op) → σ → Except ε (Ans op) × σ)

/-- The next call of a program. -/
def next : Prog ε Ans α → Option Op
  | .pure _ => none
  | .raise _ => none
  | .call op _ => some op

/-- Execute the next call: the rest of the program, and the state after the call. -/
def advance : Prog ε Ans α → σ → Prog ε Ans α × σ
  | .pure a, s => (.pure a, s)
  | .raise e, s => (.raise e, s)
  | .call op k, s => match exec op s with
    | (.error e, s') => (.raise e, s')
    | (.ok a, s') => (k a, s')

/-- The result of a program that has no call left to make. -/
def value? : Prog ε Ans α → Option α
  | .pure a => some a
  | .raise _ => none
  | .call _ _ => none

/-- Execute the next `n` calls, if there are as many. -/
def after : ℕ → Prog ε Ans α → σ → Prog ε Ans α × σ
  | 0, p, s => (p, s)
  | n + 1, p, s =>
    let r := advance exec p s
    after n r.1 r.2

/-- Whatever the program is answered, as long as the answers satisfy `V`, each call it still makes
satisfies `C`, and what it returns satisfies `Q`. -/
def Always (V : (op : Op) → Ans op → Prop) (C : Op → Prop) : Prog ε Ans α → (α → Prop) → Prop
  | .pure a, Q => Q a
  | .raise _, _ => True
  | .call op k, Q => C op ∧ ∀ a, V op a → Always V C (k a) Q

variable {exec} {V : (op : Op) → Ans op → Prop} {C : Op → Prop} {Q R : α → Prop}

/-- The rule of sequence. -/
theorem Always.bind {p : Prog ε Ans α} {f : α → Prog ε Ans β} {T : β → Prop}
    (hp : Always V C p Q) (hf : ∀ a, Q a → Always V C (f a) T) : Always V C (p >>= f) T := by
  induction p with
  | pure a => exact hf a hp
  | raise e => trivial
  | call op k ih => exact ⟨hp.1, fun a ha => ih a (hp.2 a ha)⟩

/-- The rule of one call and what follows it. -/
theorem Always.call {op : Op} {f : Ans op → Prog ε Ans β} {T : β → Prop} (hop : C op)
    (hf : ∀ a, V op a → Always V C (f a) T) : Always V C (Prog.call op .pure >>= f) T :=
  ⟨hop, hf⟩

/-- A program that behaves whatever it is answered does so in every run. -/
theorem Always.meets (hV : ∀ op s a s', exec op s = (.ok a, s') → V op a) {p : Prog ε Ans α} (h : Always V C p Q)
    (s : σ) : Meets exec (fun op _ => C op) p (fun a _ => Q a) s := by
  induction p generalizing s with
  | pure a => exact h
  | raise e => trivial
  | call op k ih => exact ⟨h.1, fun a s' ha => ih a (h.2 a (hV op s a s' ha)) s'⟩

/-- A program that behaves under more answers and makes fewer calls behaves. -/
theorem Always.weaken {V' : (op : Op) → Ans op → Prop} {C' : Op → Prop} {p : Prog ε Ans α}
    (h : Always V C p Q) (hV : ∀ op a, V' op a → V op a) (hC : ∀ op, C op → C' op) :
    Always V' C' p Q := by
  induction p with
  | pure a => exact h
  | raise e => trivial
  | call op k ih => exact ⟨hC op h.1, fun a ha => ih a (h.2 a (hV op a ha))⟩

theorem Always.next {p : Prog ε Ans α} (h : Always V C p Q) {op : Op} (hop : p.next = some op) :
    C op := by
  cases p with
  | pure a => cases hop
  | raise e => cases hop
  | call op' k =>
    cases hop
    exact h.1

/-- A turn keeps what holds of all calls to come, if the store answers as expected. -/
theorem Always.advance {p : Prog ε Ans α} (h : Always V C p Q) {s : σ}
    (hV : ∀ op a, (exec op s).1 = .ok a → V op a) : Always V C (p.advance exec s).1 Q := by
  cases p with
  | pure a => exact h
  | raise e => trivial
  | call op k =>
    rw [Prog.advance]
    have hop := hV op
    rcases hr : exec op s with ⟨e | a, s'⟩
    · trivial
    · rw [hr] at hop
      exact h.2 a (hop a rfl)

/-- The state after a turn is the one before it, or the one that the call makes of it. -/
theorem advance_state (exec : (op : Op) → σ → Except ε (Ans op) × σ) (p : Prog ε Ans α) (s : σ) :
    (p.advance exec s).2 = s ∨ ∃ op, p.next = some op ∧ (p.advance exec s).2 = (exec op s).2 := by
  cases p with
  | pure a => exact Or.inl rfl
  | raise e => exact Or.inl rfl
  | call op k =>
    refine Or.inr ⟨op, rfl, ?_⟩
    rw [Prog.advance]
    rcases exec op s with ⟨e | a, s'⟩
    · rfl
    · rfl

/-- What is left of a program finishes the run that was begun. -/
theorem run_advance (p : Prog ε Ans α) (s : σ) :
    run exec (p.advance exec s).1 (p.advance exec s).2 = run exec p s := by
  cases p with
  | pure a => rfl
  | raise e => rfl
  | call op k =>
    rw [Prog.advance, Prog.run]
    rcases exec op s with ⟨e | a, s'⟩
    · rfl
    · rfl

theorem run_after (n : ℕ) (p : Prog ε Ans α) (s : σ) :
    run exec (after exec n p s).1 (after exec n p s).2 = run exec p s := by
  induction n generalizing p s with
  | zero => rfl
  | succ n ih =>
    rw [after, ih]
    exact run_advance p s

/-- A program that has no calls left has returned. -/
theorem run_of_value? {n : ℕ} {p : Prog ε Ans α} {s : σ} {a : α} (h : (after exec n p s).1.value? = some a) :
    run exec p s = (.ok a, (after exec n p s).2) := by
  rw [← run_after n p s]
  cases hrest : (after exec n p s).1 with
  | pure b =>
    rw [hrest] at h
    cases h
    rfl
  | raise e =>
    rw [hrest] at h
    cases h
  | call op k =>
    rw [hrest] at h
    cases h

/-- What every call preserves, any number of calls does. -/
theorem after_invariant {I : σ → Prop} (hexec : ∀ op s, I s → I (exec op s).2) (n : ℕ) (p : Prog ε Ans α) (s : σ)
    (hs : I s) : I (after exec n p s).2 := by
  induction n generalizing p s with
  | zero => exact hs
  | succ n ih =>
    refine ih _ _ ?_
    rcases advance_state exec p s with heq | ⟨op, -, heq⟩
    · rw [heq]
      exact hs
    · rw [heq]
      exact hexec op s hs

end Turns

/-! ## Programs that catch exceptions -/

section Attempt

/-- `try: p except Exception: ..`: the program with its exceptions as results. Whatever a call raises is
an answer. -/
def attempt : Prog ε Ans α → Prog ε (fun op => Except ε (Ans op)) (Except ε α)
  | .pure a => .pure (.ok a)
  | .raise e => .pure (.error e)
  | .call op k => .call op fun r => match r with
    | .error e => .pure (.error e)
    | .ok a => attempt (k a)

/-- A call whose exception is an answer. -/
def caught (exec : (op : Op) → σ → Except ε (Ans op) × σ) (op : Op) (s : σ) :
    Except ε (Except ε (Ans op)) × σ :=
  (.ok (exec op s).1, (exec op s).2)

/-- The attempt of a program does what the program does. -/
theorem run_attempt (exec : (op : Op) → σ → Except ε (Ans op) × σ) (p : Prog ε Ans α) (s : σ) :
    run (caught exec) p.attempt s = (.ok (run exec p s).1, (run exec p s).2) := by
  induction p generalizing s with
  | pure a => rfl
  | raise e => rfl
  | call op k ih =>
    rw [attempt, Prog.run, Prog.run]
    simp only [caught]
    rcases exec op s with ⟨e | a, s'⟩
    · rfl
    · exact ih a s'

end Attempt

/-! ## Programs among others -/

section Among

variable {can : (op : Op) → σ → Ans op → σ → Prop} {R : σ → σ → Prop} {C : Op → σ → Prop}
  {Q : α → σ → Prop}

variable (can R C) in
/-- Whatever others do between the calls of the program, as far as `R` allows it, each call satisfies `C`
in the state it is made in, and what the program returns satisfies `Q` from then on. `can` says what a
call may be answered and what it may do. -/
def Among : Prog ε Ans α → (α → σ → Prop) → σ → Prop
  | .pure a, Q, s => ∀ s', R s s' → Q a s'
  | .raise _, _, _ => True
  | .call op k, Q, s => ∀ s', R s s' → C op s' ∧ ∀ a s'', can op s' a s'' → Among (k a) Q s''

/-- What others do does not matter. -/
theorem Among.later (htrans : ∀ {s t u}, R s t → R t u → R s u) {p : Prog ε Ans α} {s s' : σ}
    (h : Among can R C p Q s) (hR : R s s') : Among can R C p Q s' := by
  cases p with
  | pure a => exact fun t ht => h t (htrans hR ht)
  | raise e => trivial
  | call op k => exact fun t ht => h t (htrans hR ht)

theorem Among.mono {T : α → σ → Prop} {p : Prog ε Ans α} {s : σ} (h : Among can R C p Q s)
    (hQ : ∀ a s, Q a s → T a s) : Among can R C p T s := by
  induction p generalizing s with
  | pure a => exact fun s' hs' => hQ a s' (h s' hs')
  | raise e => trivial
  | call op k ih => exact fun s' hs' => ⟨(h s' hs').1, fun a s'' ha => ih a ((h s' hs').2 a s'' ha)⟩

/-- A program that behaves whatever its calls do behaves when they do less. -/
theorem Among.of_can {can' : (op : Op) → σ → Ans op → σ → Prop} {p : Prog ε Ans α} {s : σ}
    (h : Among can R C p Q s) (hcan : ∀ op s a s', can' op s a s' → can op s a s') :
    Among can' R C p Q s := by
  induction p generalizing s with
  | pure a => exact h
  | raise e => trivial
  | call op k ih =>
    exact fun s' hs' => ⟨(h s' hs').1, fun a s'' ha => ih a ((h s' hs').2 a s'' (hcan op s' a s'' ha))⟩

/-- The rule of sequence. -/
theorem Among.bind (hrefl : ∀ s, R s s) {p : Prog ε Ans α} {f : α → Prog ε Ans β}
    {T : β → σ → Prop} {s : σ} (hp : Among can R C p Q s)
    (hf : ∀ a s, Q a s → Among can R C (f a) T s) : Among can R C (p >>= f) T s := by
  induction p generalizing s with
  | pure a => exact hf a s (hp s (hrefl s))
  | raise e => trivial
  | call op k ih => exact fun s' hs' => ⟨(hp s' hs').1, fun a s'' ha => ih a ((hp s' hs').2 a s'' ha)⟩

/-- The rule of one call and what follows it. -/
theorem Among.call {op : Op} {f : Ans op → Prog ε Ans β} {T : β → σ → Prop} {s : σ}
    (hop : ∀ s', R s s' → C op s')
    (hf : ∀ s' a s'', R s s' → can op s' a s'' → Among can R C (f a) T s'') :
    Among can R C (Prog.call op .pure >>= f) T s :=
  fun s' hs' => ⟨hop s' hs', fun a s'' ha => hf s' a s'' hs' ha⟩

/-- The rule of a computation that makes no call. -/
theorem Among.ofExcept {x : Except ε α} {f : α → Prog ε Ans β} {T : β → σ → Prop} {s : σ}
    (hf : ∀ a, x = .ok a → Among can R C (f a) T s) : Among can R C (ofExcept x >>= f) T s := by
  rcases x with e | a
  · trivial
  · exact hf a rfl

/-- The program ends in a state after the one it starts in. -/
theorem Among.since (htrans : ∀ {s t u}, R s t → R t u → R s u)
    (hcan : ∀ op s a s', can op s a s' → R s s') {p : Prog ε Ans α} {s : σ}
    (h : Among can R C p Q s) : Among can R C p (fun a s' => Q a s' ∧ R s s') s := by
  induction p generalizing s with
  | pure a => exact fun s' hs' => ⟨h s' hs', hs'⟩
  | raise e => trivial
  | call op k ih =>
    refine fun s' hs' => ⟨(h s' hs').1, fun a s'' ha => ?_⟩
    refine (ih a ((h s' hs').2 a s'' ha)).mono fun b t ht => ⟨ht.1, ?_⟩
    exact htrans hs' (htrans (hcan op s' a s'' ha) ht.2)

/-- The attempt of a program that behaves as long as no call raises. -/
theorem Among.attempt {can : (op : Op) → σ → Except ε (Ans op) → σ → Prop} {p : Prog ε Ans α} {s : σ}
    (h : Among (fun op s a s' => can op s (.ok a) s') R C p Q s) :
    Among can R C p.attempt (fun r s => ∀ a, r = .ok a → Q a s) s := by
  induction p generalizing s with
  | pure a =>
    intro s' hs' a' ha'
    cases ha'
    exact h s' hs'
  | raise e =>
    intro s' hs' a' ha'
    cases ha'
  | call op k ih =>
    rw [Prog.attempt, Among]
    refine fun s' hs' => ⟨(h s' hs').1, fun r s'' hr => ?_⟩
    rcases r with e | a
    · intro t ht a' ha'
      cases ha'
    · exact ih a ((h s' hs').2 a s'' hr)

end Among

end Prog

/-! ## Programs and the record of their calls

What a program does when anything may answer its calls: the record of the calls and their answers. A
property of the record is proved call by call, with the record so far at hand.
-/

namespace Prog

variable {Op ε : Type} {Ans : Op → Type} {α β : Type}

/-- The calls of a program so far, each with its answer. -/
abbrev Log (Ans : Op → Type) := List (Σ op, Ans op)

/-- Run the program where each call is answered by `env`, which may look at the record so far: the result
and the record. -/
def play (env : Log Ans → (op : Op) → Ans op) : Prog ε Ans α → Log Ans → Except ε α × Log Ans
  | .pure a, log => (.ok a, log)
  | .raise e, log => (.error e, log)
  | .call op k, log => play env (k (env log op)) (log ++ [⟨op, env log op⟩])

/-- Whatever the program is answered, as long as the answers satisfy `V`, each call satisfies `C` after
the record so far, what the program returns satisfies `Q`, and what it raises satisfies `E`. -/
def Logged (V : (op : Op) → Ans op → Prop) (C : Log Ans → Op → Prop) (E : ε → Log Ans → Prop) :
    Prog ε Ans α → (α → Log Ans → Prop) → Log Ans → Prop
  | .pure a, Q, log => Q a log
  | .raise e, _, log => E e log
  | .call op k, Q, log => C log op ∧ ∀ a, V op a → Logged V C E (k a) Q (log ++ [⟨op, a⟩])

variable {V : (op : Op) → Ans op → Prop} {C : Log Ans → Op → Prop} {E : ε → Log Ans → Prop}
  {Q R : α → Log Ans → Prop}

theorem Logged.mono {p : Prog ε Ans α} {log : Log Ans} (h : Logged V C E p Q log)
    (hQ : ∀ a log, Q a log → R a log) : Logged V C E p R log := by
  induction p generalizing log with
  | pure a => exact hQ a log h
  | raise e => exact h
  | call op k ih => exact ⟨h.1, fun a ha => ih a (h.2 a ha)⟩

/-- The rule of sequence. -/
theorem Logged.bind {p : Prog ε Ans α} {f : α → Prog ε Ans β} {T : β → Log Ans → Prop}
    {log : Log Ans} (hp : Logged V C E p Q log) (hf : ∀ a log, Q a log → Logged V C E (f a) T log) :
    Logged V C E (p >>= f) T log := by
  induction p generalizing log with
  | pure a => exact hf a log hp
  | raise e => exact hp
  | call op k ih => exact ⟨hp.1, fun a ha => ih a (hp.2 a ha)⟩

/-- The rule of one call and what follows it. -/
theorem Logged.call {op : Op} {f : Ans op → Prog ε Ans β} {T : β → Log Ans → Prop} {log : Log Ans}
    (hop : C log op) (hf : ∀ a, V op a → Logged V C E (f a) T (log ++ [⟨op, a⟩])) :
    Logged V C E (Prog.call op .pure >>= f) T log :=
  ⟨hop, hf⟩

/-- What is proved call by call holds of every run. -/
theorem Logged.play {p : Prog ε Ans α} {log : Log Ans} (h : Logged V C E p Q log)
    (env : Log Ans → (op : Op) → Ans op) (hV : ∀ log op, V op (env log op)) :
    (∀ a, (p.play env log).1 = .ok a → Q a (p.play env log).2) ∧
      (∀ e, (p.play env log).1 = .error e → E e (p.play env log).2) ∧
      ∃ events, (p.play env log).2 = log ++ events ∧
        ∀ before e after, events = before ++ e :: after → C (log ++ before) e.1 := by
  induction p generalizing log with
  | pure a =>
    refine ⟨fun b hb => ?_, fun e he => ?_, [], (List.append_nil log).symm, ?_⟩
    · cases hb
      exact h
    · cases he
    · intro before e after hevents
      simp at hevents
  | raise e =>
    refine ⟨fun b hb => ?_, fun e he => ?_, [], (List.append_nil log).symm, ?_⟩
    · cases hb
    · cases he
      exact h
    · intro before e after hevents
      simp at hevents
  | call op k ih =>
    obtain ⟨hop, hnext⟩ := h
    obtain ⟨hok, herror, events, hlog, hcalls⟩ := ih (env log op) (hnext _ (hV log op))
    refine ⟨hok, herror, ⟨op, env log op⟩ :: events, ?_, fun before e after hevents => ?_⟩
    · rw [Prog.play, hlog, List.append_assoc, List.singleton_append]
    · cases before with
      | nil =>
        rw [List.nil_append, List.cons.injEq] at hevents
        rw [List.append_nil, ← hevents.1]
        exact hop
      | cons b before =>
        rw [List.cons_append, List.cons.injEq] at hevents
        have hC := hcalls before e after hevents.2
        rw [List.append_assoc, List.singleton_append, hevents.1] at hC
        exact hC

end Prog

end Galaxz
