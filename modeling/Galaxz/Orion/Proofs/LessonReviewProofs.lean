import Galaxz.Orion.LessonReview

/-!
# Reviews of one lesson

One approval at a time is between its claim and its end, since only a pending candidate can be claimed. While it
is there, nobody else writes the row, and the memory it stores is the only one.
-/

namespace Galaxz

open ReviewState

/-! ## What a step does -/

/-- An approval is between its claim and its end. -/
def ReviewPhase.Holds : ReviewPhase → Prop
  | .claimed _ => True
  | .stored _ => True
  | .failed => True
  | _ => False

/-- The request has not written anything yet. -/
def ReviewPhase.Early : ReviewPhase → Prop
  | .arrived => True
  | .read _ => True
  | _ => False

theorem ReviewPhase.Early.not_holds {phase : ReviewPhase} (h : phase.Early) : ¬ phase.Holds := by
  cases phase with
  | arrived => exact id
  | read candidate => exact id
  | claimed candidate => exact fun _ => h
  | stored memoryId => exact fun _ => h
  | failed => exact fun _ => h
  | answered answer => exact id

/-- The steps of a request. -/
inductive Moves (i : ℕ) (s : ReviewState) : ReviewState → Prop where
  | stay : Moves i s s
  /-- Without a write: a refusal, or the candidate is read. -/
  | quiet {phase : ReviewPhase} (hbefore : (s.phases i).Early) (hafter : ¬ phase.Holds) :
      Moves i s (s.enter i phase)
  | approve {candidate row : LessonRow} {now : String} (req : LessonReview) (hread : s.phases i = .read candidate)
      (hclaim : s.row.claim .approved now req.reviewedBy req.reviewerNote req.edited = some row) :
      Moves i s ({ s with row }.enter i (.claimed candidate))
  | reject {candidate row : LessonRow} {now : String} (req : LessonReview) (hread : s.phases i = .read candidate)
      (hclaim : s.row.claim .rejected now req.reviewedBy req.reviewerNote none = some row) :
      Moves i s ({ s with row }.enter i (.answered .reviewed))
  | fail {candidate : LessonRow} (hclaimed : s.phases i = .claimed candidate) : Moves i s (s.enter i .failed)
  | store {candidate : LessonRow} (m : LessonMemory) (hclaimed : s.phases i = .claimed candidate) :
      Moves i s ({ s with memories := s.memories ++ [m] }.enter i (.stored m.memoryId))
  | attach {memoryId : String} (hstored : s.phases i = .stored memoryId) :
      Moves i s ({ s with row := s.row.attachMemory memoryId }.enter i (.answered .reviewed))
  | revert (hfailed : s.phases i = .failed) :
      Moves i s ({ s with row := s.row.revert }.enter i (.answered .notStored))

theorem step_moves (requests : ℕ → ReviewRequest) (a : LessonReviewStep) (s : ReviewState) :
    Moves a.request s (step requests a s) := by
  have hquiet : ∀ {phase : ReviewPhase}, (s.phases a.request).Early → ¬ phase.Holds →
      Moves a.request s (s.enter a.request phase) := fun h h' => .quiet h h'
  unfold step
  cases hreq : requests a.request with
  | approve req =>
    dsimp only
    unfold approveStep
    cases hphase : s.phases a.request with
    | arrived =>
      have hbefore : (s.phases a.request).Early := by rw [hphase]; trivial
      dsimp only
      split_ifs
      · exact hquiet hbefore id
      · exact hquiet hbefore id
    | read candidate =>
      have hbefore : (s.phases a.request).Early := by rw [hphase]; trivial
      dsimp only
      cases hclaim : s.row.claim .approved a.now req.reviewedBy req.reviewerNote req.edited with
      | none => exact hquiet hbefore id
      | some row => exact .approve req hphase hclaim
    | claimed candidate =>
      dsimp only
      cases a.remembered with
      | none => exact .fail hphase
      | some memoryId => exact .store (lessonMemory memoryId req candidate) hphase
    | stored memoryId => exact .attach hphase
    | failed => exact .revert hphase
    | answered answer => exact .stay
  | reject req =>
    dsimp only
    unfold rejectStep
    cases hphase : s.phases a.request with
    | arrived =>
      have hbefore : (s.phases a.request).Early := by rw [hphase]; trivial
      exact hquiet hbefore id
    | read candidate =>
      have hbefore : (s.phases a.request).Early := by rw [hphase]; trivial
      dsimp only
      cases hclaim : s.row.claim .rejected a.now req.reviewedBy req.reviewerNote none with
      | none => exact hquiet hbefore id
      | some row => exact .reject req hphase hclaim
    | claimed candidate => exact .stay
    | stored memoryId => exact .stay
    | failed => exact .stay
    | answered answer => exact .stay

theorem claim_some {row row' : LessonRow} {status : LessonStatus} {now reviewedBy : String}
    {reviewerNote content : Option String} (h : row.claim status now reviewedBy reviewerNote content = some row') :
    row.status = .pending ∧ row'.status = status ∧ row'.memoryId = row.memoryId := by
  unfold LessonRow.claim at h
  split_ifs at h with hpending
  obtain rfl := Option.some.inj h
  exact ⟨hpending, rfl, rfl⟩

/-! ## The invariant -/

/-- The memories of a candidate that nobody is approving. -/
def Settled (s : ReviewState) : Prop :=
  match s.row.status with
  | .pending => s.memories = [] ∧ s.row.Unreviewed
  | .approved => ∃ m, s.memories = [m] ∧ s.row.memoryId = some m.memoryId
  | .rejected => s.memories = []

/-- The memories while an approval is in the phase. -/
def HeldMemory : ReviewPhase → List LessonMemory → Prop
  | .claimed _, memories => memories = []
  | .failed, memories => memories = []
  | .stored memoryId, memories => ∃ m, memories = [m] ∧ m.memoryId = memoryId
  | _, _ => False

/-- Nobody is approving the candidate, or one request is. -/
inductive ReviewInvariant (s : ReviewState) : Prop where
  | free (hnone : ∀ i, ¬ (s.phases i).Holds) (hsettled : Settled s)
  | held (i : ℕ) (hother : ∀ j, j ≠ i → ¬ (s.phases j).Holds) (hstatus : s.row.status = .approved)
      (hmemory : HeldMemory (s.phases i) s.memories)

theorem HeldMemory.holds {phase : ReviewPhase} {memories : List LessonMemory} (h : HeldMemory phase memories) :
    phase.Holds := by
  cases phase with
  | claimed candidate => trivial
  | stored memoryId => trivial
  | failed => trivial
  | arrived => exact h
  | read candidate => exact h
  | answered answer => exact h

@[simp] theorem enter_row (i : ℕ) (phase : ReviewPhase) (s : ReviewState) : (s.enter i phase).row = s.row := rfl

@[simp] theorem enter_memories (i : ℕ) (phase : ReviewPhase) (s : ReviewState) :
    (s.enter i phase).memories = s.memories := rfl

@[simp] theorem enter_self (i : ℕ) (phase : ReviewPhase) (s : ReviewState) : (s.enter i phase).phases i = phase :=
  Function.update_self ..

theorem enter_other {i j : ℕ} (h : j ≠ i) (phase : ReviewPhase) (s : ReviewState) :
    (s.enter i phase).phases j = s.phases j := Function.update_of_ne h ..

/-- Nobody is approving after a phase of the only request that was. -/
theorem enter_none {i : ℕ} {phase : ReviewPhase} {s : ReviewState} (hphase : ¬ phase.Holds)
    (hother : ∀ j, j ≠ i → ¬ (s.phases j).Holds) (j : ℕ) : ¬ ((s.enter i phase).phases j).Holds := by
  by_cases hj : j = i
  · rw [hj, enter_self]
    exact hphase
  · rw [enter_other hj]
    exact hother j hj

theorem enter_others {i : ℕ} {phase : ReviewPhase} {s : ReviewState} (hother : ∀ j, j ≠ i → ¬ (s.phases j).Holds)
    (j : ℕ) (hj : j ≠ i) : ¬ ((s.enter i phase).phases j).Holds := by
  rw [enter_other hj]
  exact hother j hj

/-- A pending candidate is not being approved. -/
theorem ReviewInvariant.of_pending {s : ReviewState} (h : ReviewInvariant s) (hpending : s.row.status = .pending) :
    (∀ i, ¬ (s.phases i).Holds) ∧ s.memories = [] ∧ s.row.Unreviewed := by
  cases h with
  | free hnone hsettled =>
    unfold Settled at hsettled
    rw [hpending] at hsettled
    exact ⟨hnone, hsettled⟩
  | held i hother hstatus hmemory =>
    rw [hpending] at hstatus
    cases hstatus

/-- The request that is approving is the only one. -/
theorem ReviewInvariant.of_holds {s : ReviewState} (h : ReviewInvariant s) {i : ℕ} (hi : (s.phases i).Holds) :
    (∀ j, j ≠ i → ¬ (s.phases j).Holds) ∧ s.row.status = .approved ∧ HeldMemory (s.phases i) s.memories := by
  cases h with
  | free hnone hsettled => exact absurd hi (hnone i)
  | held k hother hstatus hmemory =>
    have hk : i = k := by
      by_contra hne
      exact hother i hne hi
    rw [hk]
    exact ⟨hother, hstatus, hmemory⟩

theorem ReviewInvariant.moves {s s' : ReviewState} {i : ℕ} (h : ReviewInvariant s) (hmoves : Moves i s s') :
    ReviewInvariant s' := by
  cases hmoves with
  | stay => exact h
  | @quiet phase hbefore hafter =>
    cases h with
    | free hnone hsettled => exact .free (enter_none hafter fun j _ => hnone j) hsettled
    | held k hother hstatus hmemory =>
      have hk : k ≠ i := by
        rintro rfl
        exact hbefore.not_holds hmemory.holds
      refine .held k (fun j hj => ?_) hstatus ?_
      · by_cases hji : j = i
        · rw [hji, enter_self]
          exact hafter
        · rw [enter_other hji]
          exact hother j hj
      · rw [enter_other hk]
        exact hmemory
  | @approve candidate row now req hread hclaim =>
    obtain ⟨hpending, hstatus, -⟩ := claim_some hclaim
    obtain ⟨hnone, hempty, -⟩ := h.of_pending hpending
    refine .held i (enter_others fun j _ => hnone j) hstatus ?_
    rw [enter_self]
    exact hempty
  | @reject candidate row now req hread hclaim =>
    obtain ⟨hpending, hstatus, -⟩ := claim_some hclaim
    obtain ⟨hnone, hempty, -⟩ := h.of_pending hpending
    refine .free (enter_none id fun j _ => hnone j) ?_
    unfold Settled
    rw [enter_row, hstatus]
    exact hempty
  | @fail candidate hclaimed =>
    obtain ⟨hother, hstatus, hmemory⟩ := h.of_holds (i := i) (by rw [hclaimed]; trivial)
    rw [hclaimed] at hmemory
    refine .held i (enter_others hother) hstatus ?_
    rw [enter_self]
    exact hmemory
  | @store candidate m hclaimed =>
    obtain ⟨hother, hstatus, hmemory⟩ := h.of_holds (i := i) (by rw [hclaimed]; trivial)
    rw [hclaimed] at hmemory
    refine .held i (enter_others hother) hstatus ?_
    rw [enter_self, enter_memories]
    refine ⟨m, ?_, rfl⟩
    show s.memories ++ [m] = [m]
    rw [show s.memories = [] from hmemory]
    rfl
  | @attach memoryId hstored =>
    obtain ⟨hother, hstatus, hmemory⟩ := h.of_holds (i := i) (by rw [hstored]; trivial)
    rw [hstored] at hmemory
    obtain ⟨m, hm, hid⟩ := hmemory
    refine .free (enter_none id hother) ?_
    unfold Settled
    rw [enter_row]
    have happroved : (s.row.attachMemory memoryId).status = .approved := hstatus
    rw [happroved]
    refine ⟨m, hm, ?_⟩
    rw [hid]
    rfl
  | revert hfailed =>
    obtain ⟨hother, hstatus, hmemory⟩ := h.of_holds (i := i) (by rw [hfailed]; trivial)
    rw [hfailed] at hmemory
    exact .free (enter_none id hother) ⟨hmemory, rfl, rfl, rfl, rfl, rfl⟩

theorem initial_invariant {row : LessonRow} (h : row.Unreviewed) : ReviewInvariant (initial row) := by
  refine .free (fun _ => id) ?_
  have hpending : (initial row).row.status = .pending := h.1
  unfold Settled
  rw [hpending]
  exact ⟨rfl, h⟩

theorem run_invariant {requests : ℕ → ReviewRequest} {s : ReviewState} (actions : List LessonReviewStep)
    (h : ReviewInvariant s) : ReviewInvariant (Machine.run (step requests) actions s) :=
  Machine.run_invariant (fun a s hs => hs.moves (step_moves requests a s)) actions s h

/-! ## A failed approval -/

/-- The candidate is claimed, and Nebula has not stored the lesson. -/
def ReviewPhase.Open : ReviewPhase → Prop
  | .claimed _ => True
  | .failed => True
  | _ => False

/-- The lesson is stored, or the request is answered. -/
def ReviewPhase.Late : ReviewPhase → Prop
  | .stored _ => True
  | .answered _ => True
  | _ => False

theorem ReviewPhase.Open.holds {phase : ReviewPhase} (h : phase.Open) : phase.Holds := by
  cases phase with
  | claimed candidate => trivial
  | failed => trivial
  | arrived => exact h
  | read candidate => exact h
  | stored memoryId => trivial
  | answered answer => exact h

theorem Moves.other {i k : ℕ} {s s' : ReviewState} (hmoves : Moves k s s') (hne : i ≠ k) :
    s'.phases i = s.phases i := by
  cases hmoves with
  | stay => rfl
  | quiet _ _ | approve _ _ _ | reject _ _ _ | fail _ | store _ _ | attach _ | revert _ => exact enter_other hne ..

/-- A stored lesson stays stored, an answer given. -/
theorem Moves.late {i k : ℕ} {s s' : ReviewState} (hmoves : Moves k s s') (h : (s.phases i).Late) :
    (s'.phases i).Late := by
  by_cases hk : i = k
  · subst hk
    cases hmoves with
    | stay => exact h
    | quiet hbefore hafter =>
      cases hphase : s.phases i with
      | arrived | read _ | claimed _ | failed =>
        rw [hphase] at h
        cases h
      | stored _ | answered _ =>
        rw [hphase] at hbefore
        cases hbefore
    | approve _ hphase _ | reject _ hphase _ | fail hphase | store _ hphase | revert hphase =>
      rw [hphase] at h
      cases h
    | attach _ =>
      rw [enter_self]
      trivial
  · rw [hmoves.other hk]
    exact h

/-- While an approval is open, only its own end writes the row. -/
theorem Moves.keeps {i k : ℕ} {s s' : ReviewState} (hinv : ReviewInvariant s) (hmoves : Moves k s s')
    (h : (s.phases i).Open) : (s'.phases i).Open ∧ s'.row = s.row ∨ (s'.phases i).Late := by
  obtain ⟨hother, hstatus, -⟩ := hinv.of_holds h.holds
  have happroved : ∀ {row : LessonRow} {status : LessonStatus} {now reviewedBy : String}
      {reviewerNote content : Option String},
      s.row.claim status now reviewedBy reviewerNote content ≠ some row := by
    intro row status now reviewedBy reviewerNote content hclaim
    have hpending := (claim_some hclaim).1
    rw [hstatus] at hpending
    cases hpending
  by_cases hk : i = k
  · subst hk
    cases hmoves with
    | stay => exact Or.inl ⟨h, rfl⟩
    | quiet hbefore hafter => exact absurd h.holds hbefore.not_holds
    | approve _ _ hclaim | reject _ _ hclaim => exact absurd hclaim happroved
    | fail _ =>
      rw [enter_self]
      exact Or.inl ⟨trivial, rfl⟩
    | store _ _ | attach _ | revert _ =>
      rw [enter_self]
      exact Or.inr trivial
  · have hfree := hother k (Ne.symm hk)
    have hphase := hmoves.other hk
    rw [hphase]
    cases hmoves with
    | stay | quiet _ _ => exact Or.inl ⟨h, rfl⟩
    | approve _ _ hclaim | reject _ _ hclaim => exact absurd hclaim happroved
    | fail hheld | store _ hheld | attach hheld | revert hheld =>
      rw [hheld] at hfree
      exact absurd trivial hfree

/-- A row that was claimed is still the same when storing the lesson has failed. -/
theorem run_keeps {requests : ℕ → ReviewRequest} {i : ℕ} (actions : List LessonReviewStep) {s : ReviewState}
    (hinv : ReviewInvariant s) (h : (s.phases i).Open)
    (hfailed : (Machine.run (step requests) actions s).phases i = .failed) :
    (Machine.run (step requests) actions s).row = s.row := by
  have hlate : ∀ (actions : List LessonReviewStep) (s : ReviewState), (s.phases i).Late →
      ((Machine.run (step requests) actions s).phases i).Late :=
    Machine.run_invariant fun a s hs => (step_moves requests a s).late hs
  induction actions generalizing s with
  | nil => rfl
  | cons a actions ih =>
    rw [Machine.run_cons] at hfailed ⊢
    have hmoves := step_moves requests a s
    rcases hmoves.keeps hinv h with ⟨hopen, hrow⟩ | hdone
    · rw [ih (hinv.moves hmoves) hopen hfailed, hrow]
    · have := hlate actions _ hdone
      rw [hfailed] at this
      cases this

/-- What undoing a claim makes of the row. -/
theorem revert_claim_iff {row row' : LessonRow} {now reviewedBy : String} {reviewerNote content : Option String}
    (hrow : row.Unreviewed)
    (hclaim : row.claim .approved now reviewedBy reviewerNote content = some row') :
    row'.revert = row ↔ ((content.filter (· ≠ "")).map normalize).getD row.content = row.content := by
  unfold LessonRow.claim at hclaim
  split_ifs at hclaim
  obtain rfl := Option.some.inj hclaim
  obtain ⟨candidateId, skillId, agentId, text, evidence, status, createdAt, reviewedAt, by', note, memoryId⟩ := row
  obtain ⟨hstatus, hat, hby, hnote, hmemory⟩ := hrow
  dsimp only at hstatus hat hby hnote hmemory
  subst hstatus hat hby hnote hmemory
  simp [LessonRow.revert]

/-- Undoing a claim writes the row of that moment. -/
theorem step_failed {requests : ℕ → ReviewRequest} {undo : LessonReviewStep} {req : LessonReview} {s : ReviewState}
    (hreq : requests undo.request = .approve req) (hfailed : s.phases undo.request = .failed) :
    (step requests undo s).row = s.row.revert := by
  unfold step
  rw [hreq]
  dsimp only
  unfold approveStep
  rw [hfailed]
  rfl

/-- An approval that goes on has no edited content or one that is in order. -/
def Checked (requests : ℕ → ReviewRequest) (s : ReviewState) : Prop :=
  ∀ i req candidate, requests i = .approve req → s.phases i = .read candidate →
    LessonStore.refused req.content = false

theorem Checked.step {requests : ℕ → ReviewRequest} (a : LessonReviewStep) {s : ReviewState} (h : Checked requests s) :
    Checked requests (step requests a s) := by
  intro i req candidate hreq hread
  by_cases hi : i = a.request
  · subst hi
    unfold ReviewState.step at hread
    rw [hreq] at hread
    dsimp only at hread
    unfold approveStep at hread
    cases hphase : s.phases a.request with
    | arrived =>
      rw [hphase] at hread
      dsimp only at hread
      split_ifs at hread with hrefused
      · rw [enter_self] at hread
        cases hread
      · simpa using hrefused
    | read c => exact h a.request req c hreq hphase
    | claimed c =>
      rw [hphase] at hread
      dsimp only at hread
      split at hread
      · rw [enter_self] at hread
        cases hread
      · rw [enter_self] at hread
        cases hread
    | stored _ | failed =>
      rw [hphase] at hread
      dsimp only at hread
      rw [enter_self] at hread
      cases hread
    | answered _ =>
      rw [hphase] at hread
      dsimp only at hread
      rw [hphase] at hread
      cases hread
  · rw [(step_moves requests a s).other hi] at hread
    exact h i req candidate hreq hread

/-! ## Reviews -/

theorem ReviewInvariant.memories_le_one {s : ReviewState} (h : ReviewInvariant s) : s.memories.length ≤ 1 := by
  cases h with
  | free hnone hsettled =>
    unfold Settled at hsettled
    cases hstatus : s.row.status with
    | pending =>
      rw [hstatus] at hsettled
      rw [hsettled.1]
      exact Nat.zero_le 1
    | approved =>
      rw [hstatus] at hsettled
      obtain ⟨m, hm, -⟩ := hsettled
      rw [hm]
      rfl
    | rejected =>
      rw [hstatus] at hsettled
      rw [show s.memories = [] from hsettled]
      exact Nat.zero_le 1
  | held i hother hstatus hmemory =>
    cases hphase : s.phases i with
    | claimed _ | failed =>
      rw [hphase] at hmemory
      rw [show s.memories = [] from hmemory]
      exact Nat.zero_le 1
    | stored memoryId =>
      rw [hphase] at hmemory
      obtain ⟨m, hm, -⟩ := hmemory
      rw [hm]
      rfl
    | arrived | read _ | answered _ =>
      rw [hphase] at hmemory
      cases hmemory

/-- An approved candidate that no request is approving any more names the memory. -/
theorem ReviewInvariant.of_approved {s : ReviewState} (h : ReviewInvariant s) (hstatus : s.row.status = .approved)
    (hnone : ∀ i, ¬ (s.phases i).Holds) : ∃ m, s.memories = [m] ∧ s.row.memoryId = some m.memoryId := by
  cases h with
  | free _ hsettled =>
    unfold Settled at hsettled
    rw [hstatus] at hsettled
    exact hsettled
  | held i hother _ hmemory => exact absurd hmemory.holds (hnone i)

/-- The claim of an approval leaves the content as it is exactly when its request does not edit it. -/
theorem claimedContent_iff {req : LessonReview} (haccepted : LessonStore.refused req.content = false) (text : String) :
    ((req.edited.filter (· ≠ "")).map normalize).getD text = text ↔
      ∀ content, req.content = some content → normalize content = text := by
  unfold LessonReview.edited
  cases hcontent : req.content with
  | none => simp
  | some content =>
    have hnormal : normalize (normalize content) = normalize content := joinWords_joinWords content
    have hnonempty : normalize content ≠ "" := by
      rintro hempty
      rw [hcontent] at haccepted
      simp [LessonStore.refused, hempty] at haccepted
    have hfilter : (some (normalize content)).filter (fun c => c ≠ "") = some (normalize content) := by
      rw [Option.filter_some, if_pos (by simpa using hnonempty)]
    rw [Option.map_some, hfilter, Option.map_some, Option.getD_some, hnormal]
    constructor
    · rintro heq _ ⟨⟩
      exact heq
    · exact fun h => h content rfl

/-- A failed approval leaves the candidate as it was claimed exactly when its request does not edit the content. -/
theorem failed_approval_iff {requests : ℕ → ReviewRequest} {s : ReviewState} (hinv : ReviewInvariant s)
    (hchecked : Checked requests s) {claim undo : LessonReviewStep} {req : LessonReview} {candidate : LessonRow}
    {more : List LessonReviewStep} (hreq : requests claim.request = .approve req)
    (hread : s.phases claim.request = .read candidate) (hpending : s.row.status = .pending)
    (hfailed : (Machine.run (step requests) more (step requests claim s)).phases claim.request = .failed)
    (hundo : undo.request = claim.request) :
    (step requests undo (Machine.run (step requests) more (step requests claim s))).row = s.row ↔
      ∀ content, req.content = some content → normalize content = s.row.content := by
  obtain ⟨-, -, hunreviewed⟩ := hinv.of_pending hpending
  obtain ⟨row', hclaim⟩ : ∃ row', s.row.claim .approved claim.now req.reviewedBy req.reviewerNote req.edited =
      some row' := ⟨_, if_pos hpending⟩
  have hstep : step requests claim s = { s with row := row' }.enter claim.request (.claimed candidate) := by
    unfold step
    rw [hreq]
    dsimp only
    unfold approveStep
    rw [hread]
    dsimp only
    rw [hclaim]
  have hopen : ((step requests claim s).phases claim.request).Open := by
    rw [hstep, enter_self]
    trivial
  have hkept := run_keeps more (hinv.moves (step_moves requests claim s)) hopen hfailed
  have hrow : (step requests claim s).row = row' := by
    rw [hstep]
    rfl
  rw [step_failed (hundo ▸ hreq) (hundo ▸ hfailed), hkept, hrow, revert_claim_iff hunreviewed hclaim]
  exact claimedContent_iff (hchecked claim.request req candidate hreq hread) _

/-- Reviews of one lesson, in any order of their steps. At most one memory is stored, an approved candidate that
no request is approving any more names it, and a failed approval leaves the candidate as it was claimed exactly
when its request does not edit the content. -/
theorem reviews_of_lesson (requests : ℕ → ReviewRequest) {row : LessonRow} (hrow : row.Unreviewed)
    (actions : List LessonReviewStep) :
    (Machine.run (step requests) actions (initial row)).memories.length ≤ 1 ∧
      ((Machine.run (step requests) actions (initial row)).row.status = .approved →
        (∀ i, ¬ ((Machine.run (step requests) actions (initial row)).phases i).Holds) →
        ∃ m, (Machine.run (step requests) actions (initial row)).memories = [m] ∧
          (Machine.run (step requests) actions (initial row)).row.memoryId = some m.memoryId) ∧
      ∀ (s : ReviewState) (claim undo : LessonReviewStep) (req : LessonReview) (candidate : LessonRow)
        (more : List LessonReviewStep), s = Machine.run (step requests) actions (initial row) →
        requests claim.request = .approve req → s.phases claim.request = .read candidate →
        s.row.status = .pending →
        (Machine.run (step requests) more (step requests claim s)).phases claim.request = .failed →
        undo.request = claim.request →
        ((step requests undo (Machine.run (step requests) more (step requests claim s))).row = s.row ↔
          ∀ content, req.content = some content → normalize content = s.row.content) := by
  have hchecked : Checked requests (Machine.run (step requests) actions (initial row)) :=
    Machine.run_invariant (fun a s hs => hs.step a) actions _ fun i req candidate _ hread => by cases hread
  have hinv : ReviewInvariant (Machine.run (step requests) actions (initial row)) :=
    run_invariant actions (initial_invariant hrow)
  refine ⟨hinv.memories_le_one, hinv.of_approved, ?_⟩
  rintro s claim undo req candidate more rfl hreq hread hpending hfailed hundo
  exact failed_approval_iff hinv hchecked hreq hread hpending hfailed hundo

/-- A request that takes no step stays where it is. -/
theorem run_phases_other {requests : ℕ → ReviewRequest} {i : ℕ} (actions : List LessonReviewStep)
    (h : ∀ a ∈ actions, a.request ≠ i) (s : ReviewState) :
    (Machine.run (step requests) actions s).phases i = s.phases i := by
  induction actions generalizing s with
  | nil => rfl
  | cons a actions ih =>
    rw [Machine.run_cons, ih fun b hb => h b (List.mem_cons_of_mem _ hb)]
    exact (step_moves requests a s).other (h a List.mem_cons_self).symm

/-- The candidate of the runs. -/
def useUtc : LessonRow := ⟨"c1", "s", "rigel", "Use UTC.", [], .pending, "t0", none, none, none, none⟩

/-- Three approvals without an edit: the first fails, the second comes while the candidate is claimed, the third is
stored. -/
def contested : List LessonReviewStep :=
  [⟨0, "t1", none⟩, ⟨1, "t2", none⟩, ⟨0, "t3", none⟩, ⟨1, "t4", none⟩, ⟨0, "t5", none⟩, ⟨0, "t6", none⟩,
    ⟨2, "t7", none⟩, ⟨2, "t8", none⟩, ⟨2, "t9", some "m1"⟩, ⟨2, "t10", none⟩]

/-- After the failed approval the candidate is as before, the second is refused, and the third leaves one memory,
which the candidate names. -/
theorem reviews_of_lesson_contested :
    (Machine.run (step fun _ => .approve ⟨"alice", none, none⟩) (contested.take 6) (initial useUtc)).row = useUtc ∧
      (Machine.run (step fun _ => .approve ⟨"alice", none, none⟩) contested (initial useUtc)).phases 1 =
        .answered .alreadyReviewed ∧
      ∃ m, (Machine.run (step fun _ => .approve ⟨"alice", none, none⟩) contested (initial useUtc)).memories = [m] ∧
        (Machine.run (step fun _ => .approve ⟨"alice", none, none⟩) contested (initial useUtc)).row.memoryId =
          some m.memoryId := by
  have hreviews := reviews_of_lesson (fun _ => .approve ⟨"alice", none, none⟩)
    (show useUtc.Unreviewed by decide)
  refine ⟨?_, by decide +kernel, ?_⟩
  · -- the claim of the first, and its end after the second was refused
    exact ((hreviews (contested.take 2)).2.2 _ ⟨0, "t3", none⟩ ⟨0, "t6", none⟩ ⟨"alice", none, none⟩ useUtc
      [⟨1, "t4", none⟩, ⟨0, "t5", none⟩] rfl rfl (by decide +kernel) (by decide +kernel) (by decide +kernel) rfl).mpr
      (by rintro content ⟨⟩)
  · refine (hreviews contested).2.1 (by decide +kernel) fun i => ?_
    rcases i with _ | _ | _ | i
    · rw [show (Machine.run (step fun _ => .approve ⟨"alice", none, none⟩) contested (initial useUtc)).phases 0 =
        .answered .notStored by decide +kernel]
      exact id
    · rw [show (Machine.run (step fun _ => .approve ⟨"alice", none, none⟩) contested (initial useUtc)).phases 1 =
        .answered .alreadyReviewed by decide +kernel]
      exact id
    · rw [show (Machine.run (step fun _ => .approve ⟨"alice", none, none⟩) contested (initial useUtc)).phases 2 =
        .answered .reviewed by decide +kernel]
      exact id
    · have hsteps : ∀ a ∈ contested, a.request ≠ i + 1 + 1 + 1 := by
        have hlow : ∀ a ∈ contested, a.request ≤ 2 := by decide
        intro a ha
        have := hlow a ha
        omega
      rw [run_phases_other contested hsteps]
      exact id

/-- An approval with an edit, which Nebula does not store: the candidate is pending again, with the edited text. -/
theorem failed_edit_kept :
    LessonRow.Unreviewed ⟨"c1", "s", "rigel", "Use UTC.", [], .pending, "t0", none, none, none, none⟩ ∧
      (Machine.run (step fun _ => .approve ⟨"alice", none, some "Use local time."⟩)
        [⟨0, "t1", none⟩, ⟨0, "t2", none⟩, ⟨0, "t3", none⟩, ⟨0, "t4", none⟩]
        (initial ⟨"c1", "s", "rigel", "Use UTC.", [], .pending, "t0", none, none, none, none⟩)).row =
        ⟨"c1", "s", "rigel", "Use local time.", [], .pending, "t0", none, none, none, none⟩ ∧
      (Machine.run (step fun _ => .approve ⟨"alice", none, some "Use local time."⟩)
        [⟨0, "t1", none⟩, ⟨0, "t2", none⟩, ⟨0, "t3", none⟩, ⟨0, "t4", none⟩]
        (initial ⟨"c1", "s", "rigel", "Use UTC.", [], .pending, "t0", none, none, none, none⟩)).phases 0 =
        .answered .notStored :=
  ⟨by decide, by decide +kernel, by decide +kernel⟩

end Galaxz
