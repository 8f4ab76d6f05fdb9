import Galaxz.Github.Webhooks
import Galaxz.Lib.Table
import Mathlib.Data.List.Induction

/-!
# Convergence of the pull requests

The ledger lets one call in per delivery, so nothing is applied twice. In a run without a stop between the
two commits, without two repositories on one number and without a late delivery over a merged row, every
delivery is applied and every row is what its own repository's deliveries make of it.
-/

namespace Galaxz.WebhookStore

variable {intOfStr : String → Except PyError ℤ} {github : String → Webhook} {s : WebhookState}

/-! ## Rows -/

theorem pullOf_eq_some_iff {deliveryId : String} {row : PullRow} :
    pullOf intOfStr github deliveryId = some row ↔
      rowOf intOfStr (github deliveryId) = .ok (some row) := by
  unfold pullOf
  split
  · next row' hrow => rw [hrow, Except.ok.injEq]
  · next e hrow =>
    rw [hrow]
    constructor
    · intro h
      cases h
    · intro h
      cases h

/-- A row says merged in both columns. -/
theorem state_of_merged {deliveryId : String} {row : PullRow}
    (h : pullOf intOfStr github deliveryId = some row) (hmerged : row.merged = true) :
    row.state = .merged := by
  rw [pullOf_eq_some_iff] at h
  set w := github deliveryId
  obtain ⟨pullRequest, -, h⟩ := (except_bind_ok_iff _ _ _).mp h
  by_cases hnumber : (w.payload.get "number").orElse (pullRequest.get "number") = .none
  · simp only [if_pos hnumber] at h
    cases h
  · simp only [if_neg hnumber] at h
    obtain ⟨n, -, h⟩ := (except_bind_ok_iff _ _ _).mp h
    split at h
    · cases h
      exact if_pos hmerged
    · cases h

/-- A delivery that says merged where the row does takes nothing back. -/
theorem after_eq_self {old : Option PullRow} {row : PullRow}
    (hstate : row.merged = true → row.state = .merged)
    (h : ∀ r, old = some r → r.merged = true → row.merged = true) : row.after old = row := by
  unfold PullRow.after
  cases old with
  | none => rfl
  | some r =>
    by_cases hr : r.merged = true
    · have hrow := h r rfl hr
      have hstate := hstate hrow
      cases row
      cases hrow
      cases hstate
      exact if_pos hr
    · exact if_neg hr

theorem rowFor_self {deliveryId : String} {row : PullRow}
    (h : pullOf intOfStr github deliveryId = some row) :
    rowFor intOfStr github (github deliveryId).repository row.number deliveryId = some row := by
  unfold rowFor
  rw [h]
  simp [Option.filter]

theorem rowFor_of_ne {deliveryId : String} {row : PullRow} {repository : PyValue} {number : ℤ}
    (h : pullOf intOfStr github deliveryId = some row) (hne : row.number ≠ number) :
    rowFor intOfStr github repository number deliveryId = none := by
  unfold rowFor
  rw [h]
  simp [Option.filter, hne]

theorem of_rowFor {deliveryId : String} {row : PullRow} {repository : PyValue} {number : ℤ}
    (h : rowFor intOfStr github repository number deliveryId = some row) :
    pullOf intOfStr github deliveryId = some row ∧ (github deliveryId).repository = repository ∧
      row.number = number := by
  unfold rowFor at h
  obtain ⟨hrow, hfor⟩ := Option.filter_eq_some_iff.mp h
  exact ⟨hrow, by simpa using hfor⟩

/-- A delivery about another pull request does not count. -/
theorem stateAfter_concat_none {repository : PyValue} {number : ℤ} {deliveryId : String}
    (h : rowFor intOfStr github repository number deliveryId = none) (deliveries : List String) :
    stateAfter intOfStr github repository number (deliveries ++ [deliveryId]) =
      stateAfter intOfStr github repository number deliveries := by
  unfold stateAfter
  rw [List.filterMap_append]
  simp [h]

theorem stateAfter_concat_some {repository : PyValue} {number : ℤ} {deliveryId : String} {row : PullRow}
    (h : rowFor intOfStr github repository number deliveryId = some row) (deliveries : List String) :
    stateAfter intOfStr github repository number (deliveries ++ [deliveryId]) =
      some (row.after (stateAfter intOfStr github repository number deliveries)) := by
  unfold stateAfter
  rw [List.filterMap_append, List.foldl_append]
  simp [h]

/-- A pull request has a state only through a delivery about it. -/
theorem exists_of_stateAfter {repository : PyValue} {number : ℤ} {deliveries : List String} {row : PullRow}
    (h : stateAfter intOfStr github repository number deliveries = some row) :
    ∃ deliveryId ∈ deliveries, ∃ r, rowFor intOfStr github repository number deliveryId = some r := by
  by_contra hnone
  push Not at hnone
  have hnil : deliveries.filterMap (rowFor intOfStr github repository number) = [] := by
    rw [List.filterMap_eq_nil_iff]
    intro deliveryId hmem
    exact Option.eq_none_iff_forall_ne_some.mpr fun r => hnone deliveryId hmem r
  unfold stateAfter at h
  rw [hnil] at h
  cases h

/-- Where a merged delivery is among the deliveries, the pull request is merged. -/
theorem stateAfter_merged {repository : PyValue} {number : ℤ} {deliveries : List String} {deliveryId : String}
    {row : PullRow} (hmem : deliveryId ∈ deliveries)
    (hrow : rowFor intOfStr github repository number deliveryId = some row) (hmerged : row.merged = true) :
    ∃ r, stateAfter intOfStr github repository number deliveries = some r ∧ r.state = .merged ∧
      r.merged = true := by
  have hself : ∀ old, (row.after old).state = .merged ∧ (row.after old).merged = true := by
    intro old
    unfold PullRow.after
    split_ifs
    · exact ⟨rfl, rfl⟩
    · exact ⟨state_of_merged (of_rowFor hrow).1 hmerged, hmerged⟩
  induction deliveries using List.reverseRecOn with
  | nil => cases hmem
  | append_singleton deliveries last ih =>
    rcases List.mem_append.mp hmem with hmem | hlast
    · obtain ⟨r, hr, hstate, hrm⟩ := ih hmem
      cases hfor : rowFor intOfStr github repository number last with
      | none =>
        rw [stateAfter_concat_none hfor]
        exact ⟨r, hr, hstate, hrm⟩
      | some new =>
        rw [stateAfter_concat_some hfor, hr]
        have hany : (some r).any (·.merged) = true := hrm
        refine ⟨_, rfl, ?_, ?_⟩
        · unfold PullRow.after
          rw [if_pos hany]
        · unfold PullRow.after
          rw [if_pos hany]
    · cases List.mem_singleton.mp hlast
      rw [stateAfter_concat_some hrow]
      exact ⟨_, rfl, hself _⟩

/-- In a converged store a pull request that a recorded delivery calls merged is merged. -/
theorem Converged.merged (h : Converged intOfStr github s) (deliveryId : String) {row : PullRow}
    (hmem : deliveryId ∈ s.writes) (hrow : pullOf intOfStr github deliveryId = some row)
    (hmerged : row.merged = true) :
    ∃ r, Keyed.get (·.number) row.number s.pulls = some r ∧ r.state = .merged ∧ r.merged = true := by
  rw [h.recorded deliveryId hmem row hrow]
  exact stateAfter_merged hmem (rowFor_self hrow) hmerged

/-! ## One step -/

/-- Every claim that is not recorded belongs to one call on its way; what was answered was claimed. -/
structure Inv (intOfStr : String → Except PyError ℤ) (github : String → Webhook) (s : WebhookState) :
    Prop where
  once : s.writes.Nodup
  claimed : ∀ deliveryId ∈ s.writes, deliveryId ∈ s.claims
  pending : ∀ (i : ℕ) (c : WebhookCall), s.calls[i]? = some c → c.phase = .claimed →
    c.deliveryId ∈ s.claims ∧ c.deliveryId ∉ s.writes
  single : ∀ (i j : ℕ) (c d : WebhookCall), s.calls[i]? = some c → s.calls[j]? = some d → c.phase = .claimed →
    d.phase = .claimed → c.deliveryId = d.deliveryId → i = j
  ended : ∀ c ∈ s.calls, c.phase = .duplicate ∨ c.phase = .applied → c.deliveryId ∈ s.claims
  applied : ∀ deliveryId ∈ s.claims, (pullOf intOfStr github deliveryId).isSome →
    deliveryId ∈ s.writes ∨ ∃ d ∈ s.calls, d.deliveryId = deliveryId ∧ d.phase = .claimed
  recorded : ∀ deliveryId ∈ s.writes, ∀ row ∈ pullOf intOfStr github deliveryId,
    Keyed.get (·.number) row.number s.pulls =
      stateAfter intOfStr github (github deliveryId).repository row.number s.writes

theorem Inv.converged (h : Inv intOfStr github s) : Converged intOfStr github s where
  once := h.once
  answered c hc hphase hpull := h.applied c.deliveryId (h.ended c hc hphase) hpull
  recorded := h.recorded

theorem Inv.empty : Inv intOfStr github {} where
  once := List.nodup_nil
  claimed _ h := absurd h List.not_mem_nil
  pending i c h := by simp at h
  single i j c d h := by simp at h
  ended _ h := absurd h List.not_mem_nil
  applied _ h := absurd h List.not_mem_nil
  recorded _ h := absurd h List.not_mem_nil

/-- The calls after one of them changed its phase. -/
theorem calls_setPhase {i k : ℕ} {phase : WebhookPhase} {c : WebhookCall} :
    (setPhase i phase s).calls[k]? = some c ↔
      (k = i ∧ ∃ d, s.calls[i]? = some d ∧ c = { d with phase }) ∨ (k ≠ i ∧ s.calls[k]? = some c) :=
  Table.getElem?_modify_some

/-- The row that a clear delivery writes is the state that its repository's deliveries give. -/
theorem Inv.recorded_write (h : Inv intOfStr github s) {deliveryId : String} {row : PullRow}
    (hrow : pullOf intOfStr github deliveryId = some row)
    (hrepository : ∀ other ∈ s.writes, ∀ r, pullOf intOfStr github other = some r →
      r.number = row.number → (github other).repository = (github deliveryId).repository)
    (hmerged : ∀ old, Keyed.get (·.number) row.number s.pulls = some old → old.merged = true →
      row.merged = true) :
    ∀ other ∈ s.writes ++ [deliveryId], ∀ r, pullOf intOfStr github other = some r →
      Keyed.get (·.number) r.number (Keyed.put (·.number) row s.pulls) =
        stateAfter intOfStr github (github other).repository r.number (s.writes ++ [deliveryId]) := by
  have hself := rowFor_self hrow
  have hstate : row.after (stateAfter intOfStr github (github deliveryId).repository row.number s.writes) =
      row := by
    refine after_eq_self (state_of_merged hrow) fun old hold => ?_
    obtain ⟨first, hfirst, r, hr⟩ := exists_of_stateAfter hold
    obtain ⟨hrow', hrepo, hnumber⟩ := of_rowFor hr
    have hget := h.recorded first hfirst r hrow'
    rw [hrepo, hnumber, hold] at hget
    exact hmerged old hget
  intro other hother r hr
  by_cases hnumber : r.number = row.number
  · have hsame : (github other).repository = (github deliveryId).repository := by
      rcases List.mem_append.mp hother with hother | hlast
      · exact hrepository other hother r hr hnumber
      · rw [List.mem_singleton.mp hlast]
    rw [hnumber, hsame, Keyed.get_put_self, stateAfter_concat_some hself, hstate]
  · have hold : other ∈ s.writes := by
      rcases List.mem_append.mp hother with hother | hlast
      · exact hother
      · rw [List.mem_singleton.mp hlast, hrow] at hr
        cases hr
        exact absurd rfl hnumber
    rw [Keyed.get_put_of_ne (Ne.symm hnumber), stateAfter_concat_none (rowFor_of_ne hrow (Ne.symm hnumber))]
    exact h.recorded other hold r hr

/-- A delivery that comes in is one more call. -/
theorem Inv.deliver (h : Inv intOfStr github s) (deliveryId : String) :
    Inv intOfStr github { s with calls := s.calls ++ [{ deliveryId }] } := by
  have hold : ∀ {k : ℕ} {c : WebhookCall},
      (s.calls ++ [({ deliveryId := deliveryId } : WebhookCall)])[k]? = some c → c.phase ≠ .ready →
      s.calls[k]? = some c := by
    intro k c hk hphase
    rcases Table.getElem?_concat_some.mp hk with hk | ⟨-, rfl⟩
    · exact hk
    · exact absurd rfl hphase
  refine ⟨h.once, h.claimed, ?_, ?_, ?_, ?_, h.recorded⟩
  · intro i c hc hphase
    exact h.pending i c (hold hc (by rw [hphase]; decide)) hphase
  · intro i j c d hc hd hcp hdp
    exact h.single i j c d (hold hc (by rw [hcp]; decide)) (hold hd (by rw [hdp]; decide)) hcp hdp
  · intro c hc hphase
    obtain ⟨k, hk⟩ := List.mem_iff_getElem?.mp hc
    refine h.ended c (List.mem_of_getElem? (hold hk ?_)) hphase
    rcases hphase with hphase | hphase
    · rw [hphase]
      decide
    · rw [hphase]
      decide
  · intro id hid hpull
    rcases h.applied id hid hpull with hw | ⟨d, hd, hdid, hdp⟩
    · exact Or.inl hw
    · exact Or.inr ⟨d, List.mem_append_left _ hd, hdid, hdp⟩

/-- A call that ends without a write keeps the invariant, unless it has claimed a pull request. -/
theorem Inv.leave (h : Inv intOfStr github s) {i : ℕ} {c : WebhookCall} (hc : s.calls[i]? = some c)
    {phase : WebhookPhase} (hphase : phase ≠ .claimed)
    (hended : phase = .duplicate ∨ phase = .applied → c.deliveryId ∈ s.claims)
    (hold : c.phase = .claimed → pullOf intOfStr github c.deliveryId = none) :
    Inv intOfStr github (setPhase i phase s) := by
  have hother : ∀ {k : ℕ} {d : WebhookCall}, (setPhase i phase s).calls[k]? = some d → d.phase = .claimed →
      s.calls[k]? = some d := by
    intro k d hk hd
    rcases calls_setPhase.mp hk with ⟨-, e, -, rfl⟩ | ⟨-, hk⟩
    · exact absurd hd hphase
    · exact hk
  refine ⟨h.once, h.claimed, ?_, ?_, ?_, ?_, h.recorded⟩
  · intro k d hk hd
    exact h.pending k d (hother hk hd) hd
  · intro j k d e hj hk hd he
    exact h.single j k d e (hother hj hd) (hother hk he) hd he
  · intro d hd hdp
    obtain ⟨k, hk⟩ := List.mem_iff_getElem?.mp hd
    rcases calls_setPhase.mp hk with ⟨-, e, he, rfl⟩ | ⟨-, hk⟩
    · rw [hc] at he
      cases he
      exact hended hdp
    · exact h.ended d (List.mem_of_getElem? hk) hdp
  · intro id hid hpull
    rcases h.applied id hid hpull with hw | ⟨d, hd, rfl, hdp⟩
    · exact Or.inl hw
    · obtain ⟨k, hk⟩ := List.mem_iff_getElem?.mp hd
      by_cases hki : k = i
      · rw [hki, hc] at hk
        cases hk
        rw [hold hdp] at hpull
        cases hpull
      · exact Or.inr ⟨d, List.mem_of_getElem? (calls_setPhase.mpr (Or.inr ⟨hki, hk⟩)), rfl, hdp⟩

/-- `claim` lets one call in per delivery. -/
theorem Inv.claim (h : Inv intOfStr github s) {i : ℕ} {c : WebhookCall} (hc : s.calls[i]? = some c)
    (hready : c.phase = .ready) : Inv intOfStr github (WebhookStore.claim i c.deliveryId s) := by
  unfold WebhookStore.claim
  split_ifs with hclaimed
  · refine h.leave hc (by decide) (fun _ => hclaimed) fun hphase => ?_
    rw [hready] at hphase
    cases hphase
  · have hnew : ∀ {k : ℕ} {d : WebhookCall}, (setPhase i .claimed s).calls[k]? = some d →
        (k = i ∧ d.deliveryId = c.deliveryId ∧ d.phase = .claimed) ∨ (k ≠ i ∧ s.calls[k]? = some d) := by
      intro k d hk
      rcases calls_setPhase.mp hk with ⟨hki, e, he, rfl⟩ | hk
      · rw [hc] at he
        cases he
        exact Or.inl ⟨hki, rfl, rfl⟩
      · exact Or.inr hk
    -- no call on its way has the delivery, since it would have claimed it
    have hfree : ∀ {k : ℕ} {d : WebhookCall}, s.calls[k]? = some d → d.phase = .claimed →
        d.deliveryId ≠ c.deliveryId := by
      intro k d hk hd heq
      exact hclaimed (heq ▸ (h.pending k d hk hd).1)
    refine ⟨h.once, ?_, ?_, ?_, ?_, ?_, h.recorded⟩
    · exact fun id hid => List.mem_append_left _ (h.claimed id hid)
    · intro k d hk hd
      rcases hnew hk with ⟨-, hid, -⟩ | ⟨-, hk⟩
      · rw [hid]
        exact ⟨List.mem_append_right _ List.mem_cons_self, fun hw => hclaimed (h.claimed _ hw)⟩
      · obtain ⟨hclaim, hwrite⟩ := h.pending k d hk hd
        exact ⟨List.mem_append_left _ hclaim, hwrite⟩
    · intro j k d e hj hk hd he heq
      rcases hnew hj with ⟨hji, hdid, -⟩ | ⟨-, hj⟩
      · rcases hnew hk with ⟨hki, -, -⟩ | ⟨-, hk⟩
        · exact hji.trans hki.symm
        · exact absurd (heq.symm.trans hdid) (hfree hk he)
      · rcases hnew hk with ⟨-, heid, -⟩ | ⟨-, hk⟩
        · exact absurd (heq.trans heid) (hfree hj hd)
        · exact h.single j k d e hj hk hd he heq
    · intro d hd hdp
      obtain ⟨k, hk⟩ := List.mem_iff_getElem?.mp hd
      rcases hnew hk with ⟨-, -, hphase⟩ | ⟨-, hk⟩
      · rw [hphase] at hdp
        rcases hdp with hdp | hdp <;> cases hdp
      · exact List.mem_append_left _ (h.ended d (List.mem_of_getElem? hk) hdp)
    · intro id hid hpull
      rcases List.mem_append.mp hid with hid | hid
      · rcases h.applied id hid hpull with hw | ⟨d, hd, rfl, hdp⟩
        · exact Or.inl hw
        · obtain ⟨k, hk⟩ := List.mem_iff_getElem?.mp hd
          have hki : k ≠ i := by
            rintro rfl
            rw [hc] at hk
            cases hk
            rw [hready] at hdp
            cases hdp
          exact Or.inr ⟨d, List.mem_of_getElem? (calls_setPhase.mpr (Or.inr ⟨hki, hk⟩)), rfl, hdp⟩
      · cases List.mem_singleton.mp hid
        exact Or.inr ⟨{ c with phase := .claimed },
          List.mem_of_getElem? (calls_setPhase.mpr (Or.inl ⟨rfl, c, hc, rfl⟩)), rfl, rfl⟩

/-- A clear write keeps the invariant. -/
theorem Inv.write (h : Inv intOfStr github s) {i : ℕ} {c : WebhookCall} (hc : s.calls[i]? = some c)
    (hphase : c.phase = .claimed) {row : PullRow}
    (hrow : pullOf intOfStr github c.deliveryId = some row)
    (hclear : WebhookAction.Clear intOfStr github (.advance i) s) :
    Inv intOfStr github { setPhase i .applied s with
      pulls := Keyed.put (·.number) row s.pulls, writes := s.writes ++ [c.deliveryId] } := by
  obtain ⟨hclaim, hfresh⟩ := h.pending i c hc hphase
  obtain ⟨hrepository, hmerged⟩ := hclear c hc hphase row hrow
  have hother : ∀ {k : ℕ} {d : WebhookCall}, (setPhase i .applied s).calls[k]? = some d →
      d.phase = .claimed → k ≠ i ∧ s.calls[k]? = some d := by
    intro k d hk hd
    rcases calls_setPhase.mp hk with ⟨-, e, -, rfl⟩ | hk
    · cases hd
    · exact hk
  refine ⟨?_, ?_, ?_, ?_, ?_, ?_, h.recorded_write hrow hrepository hmerged⟩
  · rw [List.nodup_append]
    refine ⟨h.once, List.nodup_singleton _, fun a ha b hb hab => hfresh ?_⟩
    rw [← List.mem_singleton.mp hb, ← hab]
    exact ha
  · intro id hid
    rcases List.mem_append.mp hid with hid | hid
    · exact h.claimed id hid
    · rw [List.mem_singleton.mp hid]
      exact hclaim
  · intro k d hk hd
    obtain ⟨hki, hk⟩ := hother hk hd
    obtain ⟨hdclaim, hdfresh⟩ := h.pending k d hk hd
    refine ⟨hdclaim, fun hw => ?_⟩
    rcases List.mem_append.mp hw with hw | hw
    · exact hdfresh hw
    · exact hki (h.single k i d c hk hc hd hphase (List.mem_singleton.mp hw))
  · intro j k d e hj hk hd he
    exact h.single j k d e (hother hj hd).2 (hother hk he).2 hd he
  · intro d hd hdp
    obtain ⟨k, hk⟩ := List.mem_iff_getElem?.mp hd
    rcases calls_setPhase.mp hk with ⟨-, e, he, rfl⟩ | ⟨-, hk⟩
    · rw [hc] at he
      cases he
      exact hclaim
    · exact h.ended d (List.mem_of_getElem? hk) hdp
  · intro id hid hpull
    rcases h.applied id hid hpull with hw | ⟨d, hd, rfl, hdp⟩
    · exact Or.inl (List.mem_append_left _ hw)
    · obtain ⟨k, hk⟩ := List.mem_iff_getElem?.mp hd
      by_cases hki : k = i
      · rw [hki, hc] at hk
        cases hk
        exact Or.inl (List.mem_append_right _ List.mem_cons_self)
      · exact Or.inr ⟨d, List.mem_of_getElem? (calls_setPhase.mpr (Or.inr ⟨hki, hk⟩)), rfl, hdp⟩

theorem Inv.advance (h : Inv intOfStr github s) (i : ℕ)
    (hclear : WebhookAction.Clear intOfStr github (.advance i) s) :
    Inv intOfStr github (WebhookStore.advance intOfStr github i s) := by
  unfold WebhookStore.advance
  split
  · exact h
  · next c hc =>
    split
    · next hready => exact h.claim hc hready
    · next hphase =>
      unfold record
      split
      · next hrow =>
        refine h.leave hc (by decide) (by simp) fun _ => ?_
        unfold pullOf
        rw [hrow]
      · next hrow =>
        refine h.leave hc (by decide) (by simp) fun _ => ?_
        unfold pullOf
        rw [hrow]
      · next row hrow => exact h.write hc hphase (pullOf_eq_some_iff.mpr hrow) hclear
    · exact h

theorem Inv.stop (h : Inv intOfStr github s) (i : ℕ)
    (hclear : WebhookAction.Clear intOfStr github (.stop i) s) :
    Inv intOfStr github (WebhookStore.stop i s) := by
  unfold WebhookStore.stop
  split
  · exact h
  · next c hc =>
    split
    · next hready =>
      refine h.leave hc (by decide) (by simp) fun hphase => ?_
      rw [hready] at hphase
      cases hphase
    · exact h.leave hc (by decide) (by simp) fun hphase => hclear c hc hphase
    · exact h

theorem Inv.step (h : Inv intOfStr github s) (action : WebhookAction)
    (hclear : action.Clear intOfStr github s) :
    Inv intOfStr github (WebhookStore.step intOfStr github action s) := by
  cases action with
  | deliver deliveryId => exact h.deliver deliveryId
  | advance i => exact h.advance i hclear
  | stop i => exact h.stop i hclear

/-! ## Runs -/

/-- In every clear run the store has converged in every state. -/
theorem run_converged (intOfStr : String → Except PyError ℤ) (github : String → Webhook)
    (actions : List WebhookAction)
    (h : Machine.Along (step intOfStr github) (WebhookAction.Clear intOfStr github) actions {}) :
    Machine.Along (step intOfStr github) (fun _ s => Converged intOfStr github s) actions {} ∧
      Converged intOfStr github (Machine.run (step intOfStr github) actions {}) := by
  have hstep : ∀ action s, Inv intOfStr github s → WebhookAction.Clear intOfStr github action s →
      Inv intOfStr github (step intOfStr github action s) :=
    fun action s hs hclear => hs.step action hclear
  obtain ⟨halong, hend⟩ := Machine.Along.invariant hstep Inv.empty h
  exact ⟨halong.mono fun _ s hs => hs.converged, hend.converged⟩

/-- A delivery about pull request 7. -/
def demoWebhook (repository action : String) (merged : Bool) : Webhook where
  event := "pull_request"
  payload := [("action", .str action), ("number", .int 7),
    ("pull_request", .dict [("number", .int 7), ("merged", .bool merged)]),
    ("repository", .dict [("full_name", .str repository)])]

/-- The pull request is opened and merged; another repository opens one with the same number. -/
def demoGithub (deliveryId : String) : Webhook :=
  if deliveryId = "open" then demoWebhook "acme/site" "opened" false
  else if deliveryId = "merge" then demoWebhook "acme/site" "closed" true
  else demoWebhook "acme/api" "opened" false

/-- `int` of a text, which no delivery above has as its number. -/
def noInt (_ : String) : Except PyError ℤ := .error (.valueError "invalid literal for int()")

/-- The calls are made one after the other, without a stop. -/
def inOrder (deliveries : List String) : List WebhookAction :=
  deliveries.zipIdx.flatMap fun d => [.deliver d.1, .advance d.2, .advance d.2]

theorem demoDeliveries_converged :
    (Machine.run (step noInt demoGithub) (inOrder ["open", "merge", "open"]) {}).pulls =
        [{ number := 7, state := .merged, merged := true, branchDeleted := false }] ∧
      Converged noInt demoGithub
        (Machine.run (step noInt demoGithub) (inOrder ["open", "merge", "open"]) {}) :=
  ⟨by decide +kernel, (run_converged noInt demoGithub _ (by decide +kernel)).2⟩

/-- The opening is delivered late. -/
def lateOpen : WebhookState := Machine.run (step noInt demoGithub) (inOrder ["merge", "open"]) {}

/-- Another repository has a pull request with the number. -/
def otherRepository : WebhookState := Machine.run (step noInt demoGithub) (inOrder ["merge", "api"]) {}

/-- The process stops after the claim, and GitHub delivers again. -/
def stoppedClaim : WebhookState :=
  Machine.run (step noInt demoGithub)
    [.deliver "merge", .advance 0, .stop 0, .deliver "merge", .advance 1] {}

theorem webhooks_not_converged :
    ¬ Converged noInt demoGithub lateOpen ∧ ¬ Converged noInt demoGithub otherRepository ∧
      ¬ Converged noInt demoGithub stoppedClaim := by
  have hrow : pullOf noInt demoGithub "merge" =
      some { number := 7, state := .merged, merged := true, branchDeleted := false } := by decide +kernel
  refine ⟨fun h => ?_, fun h => ?_, fun h => ?_⟩
  · obtain ⟨r, hr, -, hmerged⟩ := h.merged "merge" (by decide +kernel) hrow rfl
    have hget : Keyed.get (·.number) 7 lateOpen.pulls =
        some { number := 7, state := .opened, merged := false, branchDeleted := false } := by decide +kernel
    rw [hget] at hr
    cases hr
    cases hmerged
  · obtain ⟨r, hr, -, hmerged⟩ := h.merged "merge" (by decide +kernel) hrow rfl
    have hget : Keyed.get (·.number) 7 otherRepository.pulls =
        some { number := 7, state := .opened, merged := false, branchDeleted := false } := by decide +kernel
    rw [hget] at hr
    cases hr
    cases hmerged
  · have hcall : ({ deliveryId := "merge", phase := .duplicate } : WebhookCall) ∈ stoppedClaim.calls := by
      decide +kernel
    have hcalls : stoppedClaim.writes = [] ∧ ∀ d ∈ stoppedClaim.calls, d.phase ≠ .claimed := by
      decide +kernel
    rcases h.answered _ hcall (Or.inl rfl) (by rw [hrow]; rfl) with hw | ⟨d, hd, -, hphase⟩
    · rw [hcalls.1] at hw
      cases hw
    · exact hcalls.2 d hd hphase

end Galaxz.WebhookStore
