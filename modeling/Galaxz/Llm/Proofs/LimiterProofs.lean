import Galaxz.Lib.Table
import Galaxz.Llm.Limiter

/-!
# Proofs: provider slots are conserved

`Move` says once what a step can do. The ledger of a key balances after every move: what the semaphore
has, what calls hold, and what futures have not released. The links between calls and futures say that a
permit is given back for one call only, and only once.
-/

namespace Galaxz.ProviderLimiter

variable {s s' : ProviderLimiter}

/-! ## Moves -/

/-- The moves of the limiter. -/
inductive Move (s : ProviderLimiter) : ProviderLimiter → Prop where
  | rejected (key : String) : Move s (s.addCall key (.raised .valueError))
  | queued {key : String} {slot : Slot} (hslot : s.slots key = some slot) :
      Move s (s.addCall key .waiting)
  | opened {key : String} (n : ℕ) (hslot : s.slots key = none) :
      Move s ((s.setSlot key ⟨n, n⟩).addCall key .waiting)
  | acquired {i : ℕ} {c : SubmitCall} {slot : Slot} (hc : s.calls[i]? = some c)
      (hphase : c.phase = .waiting) (hslot : s.slots c.key = some slot) (hfree : slot.free ≠ 0) :
      Move s ((s.setSlot c.key { slot with free := slot.free - 1 }).setPhase i .holding)
  | timedOut {i : ℕ} {c : SubmitCall} (hc : s.calls[i]? = some c) (hphase : c.phase = .waiting) :
      Move s (s.setPhase i (.raised .queueTimeout))
  | accepted {i : ℕ} {c : SubmitCall} (hc : s.calls[i]? = some c) (hphase : c.phase = .holding) :
      Move s ((s.addFuture c.key i).setPhase i (.submitted s.futures.length))
  | refused {i : ℕ} {c : SubmitCall} (hc : s.calls[i]? = some c) (hphase : c.phase = .holding) :
      Move s ((s.setPhase i (.raised .refused)).release i c.key)
  | ranAtOnce {i j : ℕ} {c : SubmitCall} {f : LlmFuture} (hc : s.calls[i]? = some c)
      (hphase : c.phase = .submitted j) (hf : s.futures[j]? = some f) (hdone : f.state.done = true) :
      Move s ((s.setPhase i (.returned j)).runCallback j f)
  | stored {i j : ℕ} {c : SubmitCall} {f : LlmFuture} (hc : s.calls[i]? = some c)
      (hphase : c.phase = .submitted j) (hf : s.futures[j]? = some f) (hdone : f.state.done = false) :
      Move s ((s.setPhase i (.returned j)).setFuture j { f with callback := true })
  | advanced {j : ℕ} {f : LlmFuture} (state : FutureState) (hf : s.futures[j]? = some f)
      (hdone : f.state.done = false) : Move s (s.setFuture j { f with state })
  | ran {j : ℕ} {f : LlmFuture} (hf : s.futures[j]? = some f) (hdone : f.state.done = true)
      (hstored : f.callback = true) (hnew : f.released = false) : Move s (s.runCallback j f)

theorem cancelFuture_move (j : ℕ) (s : ProviderLimiter) :
    s.cancelFuture j = s ∨ Move s (s.cancelFuture j) := by
  unfold cancelFuture
  split
  · exact Or.inl rfl
  · next f hf =>
    split_ifs with hstate
    · exact Or.inr (.advanced .cancelled hf (by rw [hstate]; rfl))
    · exact Or.inl rfl

/-- A step changes nothing, or is a move. -/
theorem step_move (a : LimiterAction) (s : ProviderLimiter) : step a s = s ∨ Move s (step a s) := by
  cases a with
  | submit key n =>
    right
    cases hslot : s.slots key with
    | some slot =>
      simp only [step, ProviderLimiter.slot, hslot]
      exact .queued hslot
    | none =>
      by_cases hn : n < 1
      · simp only [step, ProviderLimiter.slot, hslot, if_pos hn]
        exact .rejected key
      · simp only [step, ProviderLimiter.slot, hslot, if_neg hn]
        exact .opened n.toNat hslot
  | acquire i =>
    simp only [step]
    split
    · next key _ hc =>
      unfold take
      split
      · exact Or.inl rfl
      · next slot hslot =>
        split_ifs with hfree
        · exact Or.inl rfl
        · exact Or.inr (.acquired hc rfl hslot hfree)
    · exact Or.inl rfl
  | queueTimeout i =>
    simp only [step]
    split
    · next hc => exact Or.inr (.timedOut hc rfl)
    · exact Or.inl rfl
  | accept i =>
    simp only [step]
    split
    · next hc => exact Or.inr (.accepted hc rfl)
    · exact Or.inl rfl
  | refuse i =>
    simp only [step]
    split
    · next hc => exact Or.inr (.refused hc rfl)
    · exact Or.inl rfl
  | addDoneCallback i =>
    simp only [step]
    split
    · next hc =>
      split
      · exact Or.inl rfl
      · next f hf =>
        split_ifs with hdone
        · exact Or.inr (.ranAtOnce hc rfl hf hdone)
        · exact Or.inr (.stored hc rfl hf (by simpa using hdone))
    · exact Or.inl rfl
  | start j =>
    simp only [step]
    split
    · exact Or.inl rfl
    · next f hf =>
      split_ifs with hstate
      · exact Or.inr (.advanced .running hf (by rw [hstate]; rfl))
      · exact Or.inl rfl
  | finish j =>
    simp only [step]
    split
    · exact Or.inl rfl
    · next f hf =>
      split_ifs with hstate
      · exact Or.inr (.advanced .finished hf (by rw [hstate]; rfl))
      · exact Or.inl rfl
  | cancel j => exact cancelFuture_move j s
  | callerTimeout j => exact cancelFuture_move j s
  | invokeCallbacks j =>
    simp only [step]
    split
    · exact Or.inl rfl
    · next f hf =>
      split_ifs with hrun
      · exact Or.inr (.ran hf hrun.1 hrun.2.1 (by simpa using hrun.2.2))
      · exact Or.inl rfl

/-! ## The ledger of a key -/

/-- The futures for the key whose release has not run. -/
def unreleased (s : ProviderLimiter) (key : String) : ℕ :=
  s.futures.countP fun f => f.key = key ∧ f.released = false

/-- The permits of the key are all accounted for. -/
structure Ledger (s : ProviderLimiter) (key : String) : Prop where
  balanced : ∀ slot, s.slots key = some slot →
    slot.free + s.holding key + s.unreleased key = slot.maxConcurrent
  unused : s.slots key = none → s.holding key = 0 ∧ s.unreleased key = 0

section Counts

variable {i j : ℕ} {c : SubmitCall} {f : LlmFuture}

theorem holding_setPhase (hc : s.calls[i]? = some c) (phase : SubmitPhase) (key : String) :
    (s.setPhase i phase).holding key + (if c.key = key ∧ c.phase = .holding then 1 else 0) =
      s.holding key + (if c.key = key ∧ phase = .holding then 1 else 0) := by
  have hcount := Table.countP_modify (p := fun c : SubmitCall => c.key = key ∧ c.phase = .holding)
    (f := fun c => { c with phase }) hc
  simp only [decide_eq_true_eq] at hcount
  exact hcount

theorem unreleased_setFuture (hf : s.futures[j]? = some f) (g : LlmFuture) (key : String) :
    (s.setFuture j g).unreleased key + (if f.key = key ∧ f.released = false then 1 else 0) =
      s.unreleased key + (if g.key = key ∧ g.released = false then 1 else 0) := by
  have hcount := Table.countP_modify (p := fun f : LlmFuture => f.key = key ∧ f.released = false)
    (f := fun _ => g) hf
  simp only [decide_eq_true_eq] at hcount
  exact hcount

/-- A change of a future that keeps its key and its release keeps the count. -/
theorem unreleased_setFuture_same (hf : s.futures[j]? = some f) {g : LlmFuture} (hkey : g.key = f.key)
    (hreleased : g.released = f.released) (key : String) :
    (s.setFuture j g).unreleased key = s.unreleased key := by
  have hcount := unreleased_setFuture hf g key
  rw [hkey, hreleased] at hcount
  omega

@[simp] theorem setPhase_slots (phase : SubmitPhase) : (s.setPhase i phase).slots = s.slots := rfl
@[simp] theorem setPhase_futures (phase : SubmitPhase) : (s.setPhase i phase).futures = s.futures := rfl
@[simp] theorem setPhase_unreleased (phase : SubmitPhase) (key : String) :
    (s.setPhase i phase).unreleased key = s.unreleased key := rfl
@[simp] theorem setFuture_slots : (s.setFuture j f).slots = s.slots := rfl
@[simp] theorem setFuture_calls : (s.setFuture j f).calls = s.calls := rfl
@[simp] theorem setFuture_holding (key : String) : (s.setFuture j f).holding key = s.holding key := rfl
@[simp] theorem setSlot_self (key : String) (slot : Slot) :
    (s.setSlot key slot).slots key = some slot := Function.update_self ..
@[simp] theorem setSlot_holding (key k : String) (slot : Slot) :
    (s.setSlot key slot).holding k = s.holding k := rfl
@[simp] theorem setSlot_unreleased (key k : String) (slot : Slot) :
    (s.setSlot key slot).unreleased k = s.unreleased k := rfl
@[simp] theorem countRelease_slots : (s.countRelease i).slots = s.slots := rfl
@[simp] theorem countRelease_unreleased (key : String) :
    (s.countRelease i).unreleased key = s.unreleased key := rfl

theorem setSlot_of_ne {key k : String} (hk : k ≠ key) (slot : Slot) :
    (s.setSlot key slot).slots k = s.slots k := Function.update_of_ne hk ..

@[simp] theorem countRelease_holding (key : String) :
    (s.countRelease i).holding key = s.holding key := by
  unfold holding countRelease
  exact Table.countP_modify_same (f := fun c : SubmitCall => { c with releases := c.releases + 1 })
    (fun _ => rfl) _ _

/-- A release that the semaphore takes. -/
theorem release_eq {key : String} {slot : Slot} (hslot : s.slots key = some slot)
    (hlt : slot.free < slot.maxConcurrent) :
    s.release i key = (s.setSlot key { slot with free := slot.free + 1 }).countRelease i := by
  unfold release
  rw [hslot]
  exact if_pos hlt

/-- A key whose slot and counts stay keeps its ledger. -/
theorem Ledger.of_same {key : String} (h : s.Ledger key) (hslots : s'.slots key = s.slots key)
    (hholding : s'.holding key = s.holding key) (hunreleased : s'.unreleased key = s.unreleased key) :
    s'.Ledger key := by
  refine ⟨fun slot hslot => ?_, fun hnone => ?_⟩
  · rw [hholding, hunreleased]
    exact h.balanced slot (hslots.symm.trans hslot)
  · rw [hholding, hunreleased]
    exact h.unused (hslots.symm.trans hnone)

theorem Ledger.of_slot {key : String} {slot : Slot} (hslot : s.slots key = some slot)
    (h : slot.free + s.holding key + s.unreleased key = slot.maxConcurrent) : s.Ledger key := by
  refine ⟨fun slot' hslot' => ?_, fun hnone => ?_⟩
  · rw [hslot] at hslot'
    cases hslot'
    exact h
  · rw [hslot] at hnone
    cases hnone

/-- The permit that is on its way back balances the ledger again, and fits into the semaphore. -/
theorem release_ledger (i : ℕ) {key : String} {slot : Slot} (hslot : s.slots key = some slot)
    (hmissing : slot.free + s.holding key + s.unreleased key + 1 = slot.maxConcurrent)
    (hothers : ∀ k, k ≠ key → s.Ledger k) (k : String) : (s.release i key).Ledger k := by
  rw [release_eq hslot (by omega)]
  by_cases hk : k = key
  · subst hk
    refine Ledger.of_slot (setSlot_self k _) ?_
    simp only [countRelease_holding, countRelease_unreleased, setSlot_holding, setSlot_unreleased]
    omega
  · refine (hothers k hk).of_same (setSlot_of_ne hk _) ?_ rfl
    rw [countRelease_holding, setSlot_holding]

end Counts

/-! ## Calls and their futures -/

/-- What call `i` knows: its slot exists while it is under way, its future is its own, and its permit
was released once when it is over. -/
def Linked (s : ProviderLimiter) (i : ℕ) (c : SubmitCall) : Prop :=
  match c.phase with
  | .waiting | .holding => c.releases = 0 ∧ (s.slots c.key).isSome = true
  | .raised error => c.releases = if error = .refused then 1 else 0
  | .submitted j => ∃ f, s.futures[j]? = some f ∧ f.call = i ∧ f.key = c.key ∧ f.callback = false ∧
      f.released = false ∧ c.releases = 0
  | .returned j => ∃ f, s.futures[j]? = some f ∧ f.call = i ∧ f.key = c.key ∧
      c.releases = if f.released then 1 else 0

/-- What future `j` knows: its call, and that only a future that is done is released. -/
structure Backed (s : ProviderLimiter) (j : ℕ) (f : LlmFuture) : Prop where
  done : f.released = true → f.state.done = true
  slot : (s.slots f.key).isSome = true
  call : ∃ c, s.calls[f.call]? = some c ∧ c.key = f.key ∧
    (c.phase = .submitted j ∨ c.phase = .returned j)

section Entries

variable {i j k : ℕ} {c c' : SubmitCall} {f f' : LlmFuture}

theorem setPhase_calls {phase : SubmitPhase} :
    (s.setPhase i phase).calls[k]? = some c' ↔
      (k = i ∧ ∃ c, s.calls[i]? = some c ∧ c' = { c with phase }) ∨ (k ≠ i ∧ s.calls[k]? = some c') :=
  Table.getElem?_modify_some

theorem countRelease_calls :
    (s.countRelease i).calls[k]? = some c' ↔
      (k = i ∧ ∃ c, s.calls[i]? = some c ∧ c' = { c with releases := c.releases + 1 }) ∨
        (k ≠ i ∧ s.calls[k]? = some c') :=
  Table.getElem?_modify_some

theorem setFuture_futures {g : LlmFuture} :
    (s.setFuture j g).futures[k]? = some f' ↔
      (k = j ∧ ∃ f, s.futures[j]? = some f ∧ f' = g) ∨ (k ≠ j ∧ s.futures[k]? = some f') :=
  Table.getElem?_modify_some

end Entries

/-- What holds between any two steps. -/
structure Inv (s : ProviderLimiter) : Prop where
  ledger : ∀ key, s.Ledger key
  linked : ∀ i c, s.calls[i]? = some c → s.Linked i c
  backed : ∀ j f, s.futures[j]? = some f → s.Backed j f
  bounded : s.overReleased = false

/-- A call that a step leaves alone stays linked, if its future and its slot stay. -/
theorem Linked.frame {i : ℕ} {c : SubmitCall} (h : s.Linked i c)
    (hslots : (s.slots c.key).isSome = true → (s'.slots c.key).isSome = true)
    (hfutures : ∀ (j : ℕ) (f : LlmFuture), s.futures[j]? = some f → f.call = i →
      s'.futures[j]? = some f) :
    s'.Linked i c := by
  unfold Linked at h ⊢
  cases hphase : c.phase with
  | waiting => simp only [hphase] at h ⊢; exact ⟨h.1, hslots h.2⟩
  | holding => simp only [hphase] at h ⊢; exact ⟨h.1, hslots h.2⟩
  | raised error => simp only [hphase] at h ⊢; exact h
  | submitted j =>
    simp only [hphase] at h ⊢
    obtain ⟨f, hf, hcall, hrest⟩ := h
    exact ⟨f, hfutures j f hf hcall, hcall, hrest⟩
  | returned j =>
    simp only [hphase] at h ⊢
    obtain ⟨f, hf, hcall, hrest⟩ := h
    exact ⟨f, hfutures j f hf hcall, hcall, hrest⟩

/-- A future that a step leaves alone stays backed, if its call keeps its key and its future. -/
theorem Backed.frame {j : ℕ} {f : LlmFuture} (h : s.Backed j f)
    (hslots : (s.slots f.key).isSome = true → (s'.slots f.key).isSome = true)
    (hcalls : ∀ (i : ℕ) (c : SubmitCall), s.calls[i]? = some c →
      (c.phase = .submitted j ∨ c.phase = .returned j) →
      ∃ c' : SubmitCall, s'.calls[i]? = some c' ∧ c'.key = c.key ∧
        (c'.phase = .submitted j ∨ c'.phase = .returned j)) : s'.Backed j f := by
  obtain ⟨c, hc, hkey, hphase⟩ := h.call
  obtain ⟨c', hc', hkey', hphase'⟩ := hcalls _ c hc hphase
  exact ⟨h.done, hslots h.slot, c', hc', hkey'.trans hkey, hphase'⟩

/-! ## Every move keeps the invariant -/

theorem isSome_setSlot {key k : String} (slot : Slot) (h : (s.slots k).isSome = true) :
    ((s.setSlot key slot).slots k).isSome = true := by
  by_cases hk : k = key
  · rw [hk, setSlot_self]
    rfl
  · rw [setSlot_of_ne hk]
    exact h

section Keeps

variable {i j : ℕ} {c : SubmitCall}

/-- A phase that keeps the future of the call keeps the call of every future. -/
theorem setPhase_keeps {p : SubmitPhase} (hc : s.calls[i]? = some c)
    (hphase : ∀ j, c.phase = .submitted j ∨ c.phase = .returned j →
      p = .submitted j ∨ p = .returned j) (k : ℕ) (d : SubmitCall) (hd : s.calls[k]? = some d)
    (hfuture : d.phase = .submitted j ∨ d.phase = .returned j) :
    ∃ d', (s.setPhase i p).calls[k]? = some d' ∧ d'.key = d.key ∧
      (d'.phase = .submitted j ∨ d'.phase = .returned j) := by
  by_cases hk : k = i
  · subst hk
    rw [hc] at hd
    cases hd
    exact ⟨{ c with phase := p }, setPhase_calls.mpr (Or.inl ⟨rfl, c, hc, rfl⟩), rfl, hphase j hfuture⟩
  · exact ⟨d, setPhase_calls.mpr (Or.inr ⟨hk, hd⟩), rfl, hfuture⟩

theorem countRelease_keeps (k : ℕ) (d : SubmitCall) (hd : s.calls[k]? = some d)
    (hfuture : d.phase = .submitted j ∨ d.phase = .returned j) :
    ∃ d', (s.countRelease i).calls[k]? = some d' ∧ d'.key = d.key ∧
      (d'.phase = .submitted j ∨ d'.phase = .returned j) := by
  by_cases hk : k = i
  · subst hk
    exact ⟨_, countRelease_calls.mpr (Or.inl ⟨rfl, d, hd, rfl⟩), rfl, hfuture⟩
  · exact ⟨d, countRelease_calls.mpr (Or.inr ⟨hk, hd⟩), rfl, hfuture⟩

end Keeps

/-- A new call holds nothing. -/
theorem addCall_inv {key : String} {phase : SubmitPhase} (h : s.Inv) (hphase : phase ≠ .holding)
    (hlinked : (s.addCall key phase).Linked s.calls.length { key, phase }) :
    (s.addCall key phase).Inv := by
  refine ⟨fun k => ?_, fun i c hc => ?_, fun j f hf => ?_, h.bounded⟩
  · refine (h.ledger k).of_same rfl ?_ rfl
    unfold holding addCall
    simp [List.countP_append, hphase]
  · rcases Table.getElem?_concat_some.mp hc with hc | ⟨rfl, rfl⟩
    · exact (h.linked i c hc).frame id fun _ _ hf _ => hf
    · exact hlinked
  · refine (h.backed j f hf).frame id fun i c hc hp => ?_
    exact ⟨c, Table.getElem?_concat_some.mpr (Or.inl hc), rfl, hp⟩

/-- A new slot has all its permits. -/
theorem setSlot_inv {key : String} (h : s.Inv) (hslot : s.slots key = none) (n : ℕ) :
    (s.setSlot key ⟨n, n⟩).Inv := by
  refine ⟨fun k => ?_, fun i c hc => ?_, fun j f hf => ?_, h.bounded⟩
  · by_cases hk : k = key
    · subst hk
      obtain ⟨hholding, hunreleased⟩ := (h.ledger k).unused hslot
      refine Ledger.of_slot (setSlot_self k _) ?_
      rw [setSlot_holding, setSlot_unreleased, hholding, hunreleased]
      rfl
    · exact (h.ledger k).of_same (setSlot_of_ne hk _) rfl rfl
  · exact (h.linked i c hc).frame (isSome_setSlot _) fun _ _ hf _ => hf
  · exact (h.backed j f hf).frame (isSome_setSlot _) fun i c hc hp => ⟨c, hc, rfl, hp⟩

section Moves

variable {i j : ℕ} {c : SubmitCall} {f : LlmFuture}

/-- What a call in one of the first two phases knows. -/
theorem Inv.early (h : s.Inv) (hc : s.calls[i]? = some c)
    (hphase : c.phase = .waiting ∨ c.phase = .holding) :
    c.releases = 0 ∧ (s.slots c.key).isSome = true := by
  have hlinked := h.linked i c hc
  unfold Linked at hlinked
  rcases hphase with hphase | hphase
  · simpa only [hphase] using hlinked
  · simpa only [hphase] using hlinked

theorem acquired_inv (h : s.Inv) {slot : Slot} (hc : s.calls[i]? = some c)
    (hphase : c.phase = .waiting) (hslot : s.slots c.key = some slot) (hfree : slot.free ≠ 0) :
    ((s.setSlot c.key { slot with free := slot.free - 1 }).setPhase i .holding).Inv := by
  refine ⟨fun k => ?_, fun k d hd => ?_, fun j f hf => ?_, h.bounded⟩
  · have hcount := holding_setPhase (s := s.setSlot c.key { slot with free := slot.free - 1 }) hc
      .holding k
    rw [hphase, setSlot_holding] at hcount
    by_cases hk : k = c.key
    · subst hk
      have hbalance := (h.ledger c.key).balanced slot hslot
      refine Ledger.of_slot (setSlot_self c.key _) ?_
      simp only [setPhase_unreleased, setSlot_unreleased]
      simp at hcount
      omega
    · refine (h.ledger k).of_same (setSlot_of_ne hk _) ?_ rfl
      have hne : ¬ c.key = k := fun e => hk e.symm
      simpa [hne] using hcount
  · rcases setPhase_calls.mp hd with ⟨rfl, c', hc', rfl⟩ | ⟨-, hd⟩
    · have hcc : c' = c := Option.some_injective _ (hc'.symm.trans hc)
      subst hcc
      obtain ⟨hzero, hsome⟩ := h.early hc (Or.inl hphase)
      exact ⟨hzero, isSome_setSlot _ hsome⟩
    · exact (h.linked k d hd).frame (isSome_setSlot _) fun _ _ hf _ => hf
  · refine (h.backed j f hf).frame (isSome_setSlot _) ?_
    exact setPhase_keeps hc (by simp [hphase])

theorem timedOut_inv (h : s.Inv) (hc : s.calls[i]? = some c) (hphase : c.phase = .waiting) :
    (s.setPhase i (.raised .queueTimeout)).Inv := by
  refine ⟨fun k => ?_, fun k d hd => ?_, fun j f hf => ?_, h.bounded⟩
  · refine (h.ledger k).of_same rfl ?_ rfl
    have hcount := holding_setPhase hc (.raised .queueTimeout) k
    simpa [hphase] using hcount
  · rcases setPhase_calls.mp hd with ⟨rfl, c', hc', rfl⟩ | ⟨-, hd⟩
    · have hcc : c' = c := Option.some_injective _ (hc'.symm.trans hc)
      subst hcc
      exact (h.early hc (Or.inl hphase)).1
    · exact (h.linked k d hd).frame id fun _ _ hf _ => hf
  · exact (h.backed j f hf).frame id (setPhase_keeps hc (by simp [hphase]))

theorem accepted_inv (h : s.Inv) (hc : s.calls[i]? = some c) (hphase : c.phase = .holding) :
    ((s.addFuture c.key i).setPhase i (.submitted s.futures.length)).Inv := by
  obtain ⟨hzero, hsome⟩ := h.early hc (Or.inr hphase)
  have hnew : (s.addFuture c.key i).futures[s.futures.length]? =
      some { key := c.key, call := i } := Table.getElem?_concat_some.mpr (Or.inr ⟨rfl, rfl⟩)
  refine ⟨fun k => ?_, fun k d hd => ?_, fun j f hf => ?_, h.bounded⟩
  · have hcount := holding_setPhase (s := s.addFuture c.key i) hc (.submitted s.futures.length) k
    have hfutures : (s.addFuture c.key i).unreleased k =
        s.unreleased k + if c.key = k then 1 else 0 := by
      unfold unreleased addFuture
      simp [List.countP_append, List.countP_cons]
    have hsum : ((s.addFuture c.key i).setPhase i (.submitted s.futures.length)).holding k +
        (s.addFuture c.key i).unreleased k = s.holding k + s.unreleased k := by
      have hsame : (s.addFuture c.key i).holding k = s.holding k := rfl
      simp only [hphase, and_true, reduceCtorEq, and_false, if_false] at hcount
      omega
    refine ⟨fun slot hslot => ?_, fun hnone => ?_⟩
    · have hbalance := (h.ledger k).balanced slot hslot
      rw [setPhase_unreleased]
      omega
    · have hunused := (h.ledger k).unused hnone
      rw [setPhase_unreleased]
      omega
  · rcases setPhase_calls.mp hd with ⟨rfl, c', hc', rfl⟩ | ⟨-, hd⟩
    · have hcc : c' = c := Option.some_injective _ (hc'.symm.trans hc)
      subst hcc
      exact ⟨_, hnew, rfl, rfl, rfl, rfl, hzero⟩
    · refine (h.linked k d hd).frame id fun j f hf _ => ?_
      exact Table.getElem?_concat_some.mpr (Or.inl hf)
  · rcases Table.getElem?_concat_some.mp hf with hf | ⟨rfl, rfl⟩
    · exact (h.backed j f hf).frame id (setPhase_keeps (s := s.addFuture c.key i) hc (by simp [hphase]))
    · refine ⟨fun hrel => absurd hrel Bool.false_ne_true, hsome,
        { c with phase := .submitted s.futures.length }, ?_, rfl, Or.inl rfl⟩
      exact setPhase_calls.mpr (Or.inl ⟨rfl, c, hc, rfl⟩)

theorem refused_inv (h : s.Inv) (hc : s.calls[i]? = some c) (hphase : c.phase = .holding) :
    ((s.setPhase i (.raised .refused)).release i c.key).Inv := by
  obtain ⟨hzero, hsome⟩ := h.early hc (Or.inr hphase)
  obtain ⟨slot, hslot⟩ := Option.isSome_iff_exists.mp hsome
  have hslot' : (s.setPhase i (.raised .refused)).slots c.key = some slot := hslot
  have hcount := holding_setPhase hc (.raised .refused)
  have hself : (s.setPhase i (.raised .refused)).holding c.key + 1 = s.holding c.key := by
    simpa [hphase] using hcount c.key
  have hbalance := (h.ledger c.key).balanced slot hslot
  have hmissing : slot.free + (s.setPhase i (.raised .refused)).holding c.key +
      (s.setPhase i (.raised .refused)).unreleased c.key + 1 = slot.maxConcurrent := by
    rw [setPhase_unreleased]
    omega
  have hlt : slot.free < slot.maxConcurrent := by omega
  have hothers : ∀ k, k ≠ c.key → (s.setPhase i (.raised .refused)).Ledger k := by
    intro k hk
    refine (h.ledger k).of_same rfl ?_ rfl
    have hne : ¬ c.key = k := fun e => hk e.symm
    simpa [hne] using hcount k
  have hledger := release_ledger i hslot' hmissing hothers
  rw [release_eq hslot' hlt] at hledger ⊢
  refine ⟨hledger, fun k d hd => ?_, fun j f hf => ?_, h.bounded⟩
  · rcases countRelease_calls.mp hd with ⟨rfl, c', hc', rfl⟩ | ⟨hk, hd⟩
    · rcases setPhase_calls.mp hc' with ⟨-, c'', hc'', rfl⟩ | ⟨hne, -⟩
      · have hcc : c'' = c := Option.some_injective _ (hc''.symm.trans hc)
        subst hcc
        show c''.releases + 1 = 1
        rw [hzero]
      · exact absurd rfl hne
    · rcases setPhase_calls.mp hd with ⟨heq, -⟩ | ⟨-, hd⟩
      · exact absurd heq hk
      · exact (h.linked k d hd).frame (isSome_setSlot _) fun _ _ hf _ => hf
  · refine (h.backed j f hf).frame (isSome_setSlot _) fun k d hd hfuture => ?_
    obtain ⟨d', hd', hkey', hfuture'⟩ := setPhase_keeps (p := .raised .refused) hc
      (by simp [hphase]) k d hd hfuture
    obtain ⟨e, he, hkey, hfuture⟩ := countRelease_keeps (i := i) k d' hd' hfuture'
    exact ⟨e, he, hkey.trans hkey', hfuture⟩

/-- A call that leaves `submit` keeps its future. -/
theorem returned_inv (h : s.Inv) (hc : s.calls[i]? = some c) (hphase : c.phase = .submitted j) :
    (s.setPhase i (.returned j)).Inv := by
  have hlinked := h.linked i c hc
  unfold Linked at hlinked
  simp only [hphase] at hlinked
  obtain ⟨f, hf, hcall, hkey, -, hrel, hzero⟩ := hlinked
  refine ⟨fun k => ?_, fun k d hd => ?_, fun j' f' hf' => ?_, h.bounded⟩
  · refine (h.ledger k).of_same rfl ?_ rfl
    have hcount := holding_setPhase hc (.returned j) k
    simpa [hphase] using hcount
  · rcases setPhase_calls.mp hd with ⟨rfl, c', hc', rfl⟩ | ⟨-, hd⟩
    · have hcc : c' = c := Option.some_injective _ (hc'.symm.trans hc)
      subst hcc
      exact ⟨f, hf, hcall, hkey, by rw [hzero, hrel]; rfl⟩
    · exact (h.linked k d hd).frame id fun _ _ hf _ => hf
  · refine (h.backed j' f' hf').frame id (setPhase_keeps hc ?_)
    simp [hphase]

/-- A change of a future that neither moves nor releases it. -/
theorem setFuture_inv (h : s.Inv) (hf : s.futures[j]? = some f) {g : LlmFuture} (hkey : g.key = f.key)
    (hcall : g.call = f.call) (hrel : g.released = f.released)
    (hdone : g.released = true → g.state.done = true)
    (hstored : g.callback = f.callback ∨
      ∃ c, s.calls[f.call]? = some c ∧ c.phase = .returned j) : (s.setFuture j g).Inv := by
  have hother : ∀ k f', s.futures[k]? = some f' → k ≠ j → (s.setFuture j g).futures[k]? = some f' :=
    fun k f' hf' hk => setFuture_futures.mpr (Or.inr ⟨hk, hf'⟩)
  have hself : (s.setFuture j g).futures[j]? = some g :=
    setFuture_futures.mpr (Or.inl ⟨rfl, f, hf, rfl⟩)
  refine ⟨fun k => ?_, fun k d hd => ?_, fun k f' hf' => ?_, h.bounded⟩
  · exact (h.ledger k).of_same rfl rfl (unreleased_setFuture_same hf hkey hrel k)
  · have hlinked := h.linked k d hd
    unfold Linked at hlinked ⊢
    cases hphase : d.phase with
    | waiting => simpa only [hphase, setFuture_slots] using hlinked
    | holding => simpa only [hphase, setFuture_slots] using hlinked
    | raised error => simpa only [hphase] using hlinked
    | submitted j' =>
      simp only [hphase] at hlinked ⊢
      obtain ⟨f', hf', hcall', hkey', hcb', hrel', hzero⟩ := hlinked
      by_cases hj : j' = j
      · subst hj
        have hff : f' = f := Option.some_injective _ (hf'.symm.trans hf)
        subst hff
        refine ⟨g, hself, hcall.trans hcall', hkey.trans hkey', ?_, hrel.trans hrel', hzero⟩
        rcases hstored with heq | ⟨c, hc, hret⟩
        · exact heq.trans hcb'
        · rw [hcall'] at hc
          have hcd : c = d := Option.some_injective _ (hc.symm.trans hd)
          rw [hcd, hphase] at hret
          cases hret
      · exact ⟨f', hother j' f' hf' hj, hcall', hkey', hcb', hrel', hzero⟩
    | returned j' =>
      simp only [hphase] at hlinked ⊢
      obtain ⟨f', hf', hcall', hkey', hcount⟩ := hlinked
      by_cases hj : j' = j
      · subst hj
        have hff : f' = f := Option.some_injective _ (hf'.symm.trans hf)
        subst hff
        exact ⟨g, hself, hcall.trans hcall', hkey.trans hkey', by rw [hrel]; exact hcount⟩
      · exact ⟨f', hother j' f' hf' hj, hcall', hkey', hcount⟩
  · rcases setFuture_futures.mp hf' with ⟨rfl, -, -, rfl⟩ | ⟨-, hf'⟩
    · have hb := h.backed k f hf
      refine ⟨hdone, by rw [hkey]; exact hb.slot, ?_⟩
      rw [hcall, hkey]
      exact hb.call
    · exact h.backed k f' hf' |>.frame id fun i c hc hp => ⟨c, hc, rfl, hp⟩

/-- The release of a future that is done. -/
theorem runCallback_inv (h : s.Inv) (hf : s.futures[j]? = some f) (hdone : f.state.done = true)
    (hnew : f.released = false) (hc : s.calls[f.call]? = some c) (hphase : c.phase = .returned j) :
    (s.runCallback j f).Inv := by
  have hb := h.backed j f hf
  obtain ⟨slot, hslot⟩ := Option.isSome_iff_exists.mp hb.slot
  have hslot' : (s.setFuture j { f with released := true }).slots f.key = some slot := hslot
  have hcount := unreleased_setFuture hf { f with released := true }
  have hself : (s.setFuture j { f with released := true }).unreleased f.key + 1 =
      s.unreleased f.key := by
    simpa [hnew] using hcount f.key
  have hbalance := (h.ledger f.key).balanced slot hslot
  have hmissing : slot.free + (s.setFuture j { f with released := true }).holding f.key +
      (s.setFuture j { f with released := true }).unreleased f.key + 1 = slot.maxConcurrent := by
    rw [setFuture_holding]
    omega
  have hlt : slot.free < slot.maxConcurrent := by omega
  have hothers : ∀ k, k ≠ f.key → (s.setFuture j { f with released := true }).Ledger k := by
    intro k hk
    refine (h.ledger k).of_same rfl rfl ?_
    have hne : ¬ f.key = k := fun e => hk e.symm
    simpa [hne] using hcount k
  have hledger := release_ledger f.call hslot' hmissing hothers
  unfold runCallback
  rw [release_eq hslot' hlt] at hledger ⊢
  refine ⟨hledger, fun k d hd => ?_, fun k f' hf' => ?_, h.bounded⟩
  · rcases countRelease_calls.mp hd with ⟨rfl, c', hc', rfl⟩ | ⟨hk, hd⟩
    · have hcc : c' = c := Option.some_injective _ (hc'.symm.trans hc)
      subst hcc
      have hlinked := h.linked f.call c' hc
      unfold Linked at hlinked ⊢
      simp only [hphase] at hlinked ⊢
      obtain ⟨f', hf', hcall, hkey, hzero⟩ := hlinked
      have hff : f' = f := Option.some_injective _ (hf'.symm.trans hf)
      subst hff
      refine ⟨{ f' with released := true }, setFuture_futures.mpr (Or.inl ⟨rfl, f', hf, rfl⟩), rfl,
        hkey, ?_⟩
      rw [hzero, hnew]
      rfl
    · refine (h.linked k d hd).frame (isSome_setSlot _) fun j' f' hf' hcall => ?_
      refine setFuture_futures.mpr (Or.inr ⟨fun hj => ?_, hf'⟩)
      subst hj
      have hff : f' = f := Option.some_injective _ (hf'.symm.trans hf)
      exact hk (by rw [← hcall, hff])
  · rcases setFuture_futures.mp hf' with ⟨rfl, -, -, rfl⟩ | ⟨-, hf'⟩
    · refine ⟨fun _ => hdone, isSome_setSlot _ hb.slot, ?_⟩
      obtain ⟨d, hd, hkey, hfuture⟩ := hb.call
      obtain ⟨d', hd', hkey', hfuture'⟩ := countRelease_keeps (i := f.call) f.call d hd hfuture
      exact ⟨d', hd', hkey'.trans hkey, hfuture'⟩
    · exact (h.backed k f' hf').frame (isSome_setSlot _) fun i d hd hfuture =>
        countRelease_keeps (i := f.call) i d hd hfuture

/-- Every move keeps the invariant. -/
theorem Move.inv (hmove : Move s s') (h : s.Inv) : s'.Inv := by
  cases hmove with
  | rejected key => exact addCall_inv h (by simp) rfl
  | queued hslot =>
    refine addCall_inv h (by simp) ⟨rfl, ?_⟩
    show (s.slots _).isSome = true
    rw [hslot]
    rfl
  | opened n hslot =>
    refine addCall_inv (setSlot_inv h hslot n) (by simp) ⟨rfl, ?_⟩
    show ((s.setSlot _ _).slots _).isSome = true
    rw [setSlot_self]
    rfl
  | acquired hc hphase hslot hfree => exact acquired_inv h hc hphase hslot hfree
  | timedOut hc hphase => exact timedOut_inv h hc hphase
  | accepted hc hphase => exact accepted_inv h hc hphase
  | refused hc hphase => exact refused_inv h hc hphase
  | @ranAtOnce i j c f hc hphase hf hdone =>
    have hlinked := h.linked _ _ hc
    unfold Linked at hlinked
    simp only [hphase] at hlinked
    obtain ⟨f', hf', hcall, -, -, hrel, -⟩ := hlinked
    rw [hf] at hf'
    cases hf'
    have hret : (s.setPhase i (.returned j)).calls[f.call]? = some { c with phase := .returned j } :=
      setPhase_calls.mpr (Or.inl ⟨hcall, c, hc, rfl⟩)
    exact runCallback_inv (returned_inv h hc hphase) hf hdone hrel hret rfl
  | @stored i j c f hc hphase hf hdone =>
    have hlinked := h.linked _ _ hc
    unfold Linked at hlinked
    simp only [hphase] at hlinked
    obtain ⟨f', hf', hcall, -, -, hrel, -⟩ := hlinked
    rw [hf] at hf'
    cases hf'
    have hret : (s.setPhase i (.returned j)).calls[f.call]? = some { c with phase := .returned j } :=
      setPhase_calls.mpr (Or.inl ⟨hcall, c, hc, rfl⟩)
    refine setFuture_inv (returned_inv h hc hphase) hf rfl rfl rfl ?_ (Or.inr ⟨_, hret, rfl⟩)
    intro hreleased
    exact absurd (hrel.symm.trans hreleased) Bool.false_ne_true
  | advanced state hf hdone =>
    refine setFuture_inv h hf rfl rfl rfl ?_ (Or.inl rfl)
    intro hreleased
    have hwas := (h.backed _ _ hf).done hreleased
    rw [hdone] at hwas
    cases hwas
  | ran hf hdone hstored hnew =>
    obtain ⟨c, hc, -, hphase⟩ := (h.backed _ _ hf).call
    rcases hphase with hphase | hphase
    · have hlinked := h.linked _ _ hc
      unfold Linked at hlinked
      simp only [hphase] at hlinked
      obtain ⟨f', hf', -, -, hcb, -⟩ := hlinked
      rw [hf] at hf'
      cases hf'
      rw [hstored] at hcb
      cases hcb
    · exact runCallback_inv h hf hdone hnew hc hphase

end Moves

/-! ## Runs -/

theorem step_inv (a : LimiterAction) (s : ProviderLimiter) (h : s.Inv) : (step a s).Inv := by
  rcases step_move a s with heq | hmove
  · rw [heq]
    exact h
  · exact hmove.inv h

theorem run_inv (actions : List LimiterAction) : (run actions).Inv := by
  refine Machine.run_invariant step_inv actions _ ⟨fun key => ⟨?_, ?_⟩, ?_, ?_, rfl⟩
  · intro slot hslot
    cases hslot
  · exact fun _ => ⟨rfl, rfl⟩
  · intro i c hc
    cases hc
  · intro j f hf
    cases hf

/-- The slot of the key stays, with its bound. -/
def KeepsCap (s s' : ProviderLimiter) (key : String) : Prop :=
  ∀ slot, s.slots key = some slot →
    ∃ slot', s'.slots key = some slot' ∧ slot'.maxConcurrent = slot.maxConcurrent

theorem KeepsCap.of_slots {key : String} (h : s'.slots = s.slots) : KeepsCap s s' key := by
  intro slot hslot
  exact ⟨slot, by rw [h]; exact hslot, rfl⟩

theorem setSlot_keepsCap {k : String} {slot : Slot} (hslot : s.slots k = some slot) (free : ℕ)
    (key : String) : KeepsCap s (s.setSlot k { slot with free }) key := by
  intro old hold
  by_cases hk : key = k
  · subst hk
    rw [hslot] at hold
    cases hold
    exact ⟨{ slot with free }, setSlot_self key _, rfl⟩
  · exact ⟨old, by rw [setSlot_of_ne hk]; exact hold, rfl⟩

theorem release_keepsCap (i : ℕ) (k key : String) : KeepsCap s (s.release i k) key := by
  unfold release
  split
  · exact .of_slots rfl
  · next slot hslot =>
    split_ifs
    · exact setSlot_keepsCap hslot (slot.free + 1) key
    · exact .of_slots rfl

/-- A slot that exists keeps its bound. -/
theorem Move.keepsCap (hmove : Move s s') (key : String) : KeepsCap s s' key := by
  cases hmove with
  | @opened k n hslot =>
    intro slot hkey
    have hne : key ≠ k := by
      rintro rfl
      rw [hslot] at hkey
      cases hkey
    exact ⟨slot, (setSlot_of_ne hne _).trans hkey, rfl⟩
  | @acquired i c slot hc hphase hslot hfree => exact setSlot_keepsCap hslot (slot.free - 1) key
  | @refused i c hc hphase => exact release_keepsCap (s := s.setPhase i (.raised .refused)) i c.key key
  | @ranAtOnce i j c f hc hphase hf hdone =>
    exact release_keepsCap (s := (s.setPhase i (.returned j)).setFuture j { f with released := true })
      f.call f.key key
  | @ran j f hf hdone hstored hnew =>
    exact release_keepsCap (s := s.setFuture j { f with released := true }) f.call f.key key
  | rejected _ => exact .of_slots rfl
  | queued _ => exact .of_slots rfl
  | timedOut _ _ => exact .of_slots rfl
  | accepted _ _ => exact .of_slots rfl
  | stored _ _ _ _ => exact .of_slots rfl
  | advanced _ _ _ => exact .of_slots rfl

theorem run_keepsCap (more : List LimiterAction) (s : ProviderLimiter) (key : String) :
    KeepsCap s (Machine.run step more s) key := by
  induction more generalizing s with
  | nil => exact .of_slots rfl
  | cons a more ih =>
    intro slot hslot
    have hstep : KeepsCap s (step a s) key := by
      rcases step_move a s with heq | hmove
      · exact .of_slots (by rw [heq])
      · exact hmove.keepsCap key
    obtain ⟨slot1, hslot1, hcap1⟩ := hstep slot hslot
    obtain ⟨slot2, hslot2, hcap2⟩ := ih (step a s) slot1 hslot1
    exact ⟨slot2, hslot2, hcap2.trans hcap1⟩

/-- Futures that have not released their permits are in flight, or done and about to. -/
theorem countP_unreleased (key : String) (fs : List LlmFuture)
    (h : ∀ f ∈ fs, f.released = true → f.state.done = true) :
    fs.countP (fun f => f.key = key ∧ f.released = false) =
      fs.countP (fun f => f.key = key ∧ f.state.done = false) +
        fs.countP (fun f => f.key = key ∧ f.state.done = true ∧ f.released = false) := by
  induction fs with
  | nil => rfl
  | cons f fs ih =>
    have htail := ih fun g hg => h g (List.mem_cons_of_mem _ hg)
    have hhead := h f List.mem_cons_self
    rw [List.countP_cons, List.countP_cons, List.countP_cons, htail]
    by_cases hkey : f.key = key
    · cases hrel : f.released <;> cases hdone : f.state.done <;> simp_all <;> omega
    · simp only [hkey, false_and, decide_false, Bool.false_eq_true, if_false]
      omega

theorem Inv.unreleased_eq (h : s.Inv) (key : String) :
    s.unreleased key = s.inFlight key + s.settling key := by
  refine countP_unreleased key s.futures fun f hf => ?_
  obtain ⟨j, hj⟩ := List.mem_iff_getElem?.mp hf
  exact (h.backed j f hj).done

/-- A call whose permit has gone back released it once; any other call has not. -/
theorem Inv.releases_eq (h : s.Inv) {i : ℕ} {c : SubmitCall} (hc : s.calls[i]? = some c) :
    (s.Returned c → c.releases = 1) ∧ (¬ s.Returned c → c.releases = 0) := by
  have hlinked := h.linked i c hc
  unfold Linked at hlinked
  unfold Returned
  cases hphase : c.phase with
  | waiting =>
    simp only [hphase] at hlinked ⊢
    exact ⟨False.elim, fun _ => hlinked.1⟩
  | holding =>
    simp only [hphase] at hlinked ⊢
    exact ⟨False.elim, fun _ => hlinked.1⟩
  | raised error =>
    simp only [hphase] at hlinked ⊢
    exact ⟨fun heq => by rw [hlinked, if_pos heq], fun hne => by rw [hlinked, if_neg hne]⟩
  | submitted j =>
    simp only [hphase] at hlinked ⊢
    obtain ⟨f, hf, -, -, -, hrel, hzero⟩ := hlinked
    refine ⟨fun ⟨f', hf', hrel'⟩ => ?_, fun _ => hzero⟩
    rw [hf] at hf'
    cases hf'
    rw [hrel] at hrel'
    cases hrel'
  | returned j =>
    simp only [hphase] at hlinked ⊢
    obtain ⟨f, hf, -, -, hcount⟩ := hlinked
    refine ⟨fun ⟨f', hf', hrel'⟩ => ?_, fun hnot => ?_⟩
    · rw [hf] at hf'
      cases hf'
      rw [hcount, if_pos hrel']
    · rw [hcount, if_neg fun hrel => hnot ⟨f, hf, hrel⟩]

/-- Provider slots are conserved. In every state of every interleaving, the permits of a key that are
free, held by a `submit` call on their way to the executor, with a future that is not done, or with one
that is done and about to release, are as many as the bound of its slot. The bound is that of the first
`submit` for the key; no more than that many calls are in flight; the semaphore is never over-released;
and a permit that has gone back was released once. -/
theorem run_conserves (actions : List LimiterAction) (key : String) :
    (∀ slot, (run actions).slots key = some slot →
      slot.free + (run actions).holding key + (run actions).inFlight key +
        (run actions).settling key = slot.maxConcurrent ∧
      (run actions).inFlight key ≤ slot.maxConcurrent) ∧
    (∀ n : ℤ, (run actions).slots key = none → 1 ≤ n →
      ∃ slot, (run (actions ++ [.submit key n])).slots key = some slot ∧ slot.maxConcurrent = n) ∧
    (∀ more slot, (run actions).slots key = some slot →
      ∃ slot', (run (actions ++ more)).slots key = some slot' ∧
        slot'.maxConcurrent = slot.maxConcurrent) ∧
    (run actions).overReleased = false ∧
    ∀ (i : ℕ) (c : SubmitCall), (run actions).calls[i]? = some c →
      ((run actions).Returned c → c.releases = 1) ∧ (¬ (run actions).Returned c → c.releases = 0) := by
  have h := run_inv actions
  refine ⟨fun slot hslot => ?_, fun n hnone hn => ?_, fun more slot hslot => ?_, h.bounded,
    fun i c hc => h.releases_eq hc⟩
  · have hbalance := (h.ledger key).balanced slot hslot
    rw [h.unreleased_eq key] at hbalance
    constructor <;> omega
  · refine ⟨⟨n.toNat, n.toNat⟩, ?_, Int.toNat_of_nonneg (by omega)⟩
    unfold run at hnone ⊢
    rw [Machine.run_concat]
    simp only [step, ProviderLimiter.slot, hnone, if_neg (show ¬ n < 1 by omega)]
    exact setSlot_self key _
  · unfold run at hslot ⊢
    rw [Machine.run_append]
    exact run_keepsCap more _ key slot hslot

/-- A `submit` call between its `acquire` and the executor. -/
def handOver : List LimiterAction := [.submit "openai/m@" 1, .acquire 0]

/-- During a hand-over the free permits and the futures in flight do not add up to the bound. -/
theorem handOver_between : ∃ slot, (run handOver).slots "openai/m@" = some slot ∧
    slot.free + (run handOver).inFlight "openai/m@" ≠ slot.maxConcurrent :=
  ⟨⟨1, 0⟩, by decide, by decide⟩

end Galaxz.ProviderLimiter
