import Galaxz.Lib.JsonReader
import Galaxz.Lib.Table
import Galaxz.Orion.Lessons

/-!
# Lessons do not repeat

A lesson is added only when no live candidate of its skill has its content, and the lessons of one reply
are different; so the contents of the live candidates stay different until a reviewer edits one into
another. A reply with lessons that can all be added uses up the events of its batch, and no used event is in a
later batch.
-/

namespace Galaxz

namespace LessonStore

variable {texts : LessonTexts} {s : LessonState}

/-! ## Replies -/

theorem normalizeCodes_normalizeCodes (content : CodeString) :
    normalizeCodes (normalizeCodes content) = normalizeCodes content :=
  joinWordsWith_idem (by decide) content

/-- The two ways to normalise a text. -/
theorem normalizeCodes_ofChars (content : String) :
    normalizeCodes (.ofChars content.toList) = .ofChars (normalize content).toList := by
  have hwords : joinWordsWith (fun n => isPySpace (Char.ofNat n)) 32 (content.toList.map Char.toNat) =
      (joinWordsWith isPySpace ' ' content.toList).map Char.toNat := by
    refine joinWordsWith_map (f := Char.toNat) (fun c => ?_) ' ' content.toList
    rw [Char.ofNat_toNat]
  unfold normalize joinWords
  rw [String.toList_ofList]
  exact hwords

/-- The lessons of a reply are normalised, and different up to case. -/
theorem collectLessons_spec (texts : LessonTexts) (items : List JsonValue) : ∀ seen : List CodeString,
    (∀ l ∈ collectLessons texts seen items, normalizeCodes l = l ∧ texts.lower l ∉ seen) ∧
      ((collectLessons texts seen items).map texts.lower).Nodup := by
  induction items with
  | nil => exact fun seen => ⟨fun l hl => absurd hl List.not_mem_nil, List.nodup_nil⟩
  | cons x xs ih =>
    intro seen
    cases x with
    | str item =>
      unfold collectLessons
      by_cases hskip : normalizeCodes item = [] ∨ maxLessonChars < (normalizeCodes item).length ∨
          texts.lower (normalizeCodes item) ∈ seen
      · simp only [if_pos hskip]
        exact ih seen
      · simp only [if_neg hskip]
        obtain ⟨hmem, hnodup⟩ := ih (texts.lower (normalizeCodes item) :: seen)
        constructor
        · intro l hl
          rcases List.mem_cons.mp hl with rfl | hl
          · exact ⟨normalizeCodes_normalizeCodes item, fun h => hskip (Or.inr (Or.inr h))⟩
          · obtain ⟨hnormal, hnew⟩ := hmem l hl
            exact ⟨hnormal, fun h => hnew (List.mem_cons_of_mem _ h)⟩
        · rw [List.map_cons, List.nodup_cons]
          refine ⟨fun h => ?_, hnodup⟩
          obtain ⟨l, hl, hlower⟩ := List.mem_map.mp h
          exact (hmem l hl).2 (hlower ▸ List.mem_cons_self)
    | _ => exact ih seen

theorem parseLessons_spec {raw : CodeString} {lessons : List CodeString} (h : parseLessons texts raw = .ok lessons) :
    (∀ l ∈ lessons, normalizeCodes l = l) ∧ (lessons.map texts.lower).Nodup := by
  unfold parseLessons at h
  split at h
  · cases h
  · split at h
    · next items _ =>
      cases h
      obtain ⟨hmem, hnodup⟩ := collectLessons_spec texts items []
      constructor
      · exact fun l hl => (hmem l (List.mem_of_mem_take hl)).1
      · rw [List.map_take]
        exact hnodup.sublist (List.take_sublist _ _)
    all_goals cases h

/-! ## Contents -/

theorem contentKey_normalize (content : CodeString) :
    contentKey texts (normalizeCodes content) = contentKey texts content := by
  unfold contentKey
  rw [normalizeCodes_normalizeCodes]

theorem hasContent_eq_false_iff {skillId : String} {content : CodeString} :
    hasContent texts skillId content s = false ↔ ∀ c ∈ s.candidates, c.skillId = skillId → live c = true →
      contentKey texts c.content ≠ contentKey texts content := by
  unfold hasContent
  rw [List.any_eq_false]
  constructor
  · intro h c hc hskill hlive heq
    exact h c hc (by simp [hskill, hlive, heq])
  · intro h c hc hany
    simp only [Bool.and_eq_true, decide_eq_true_eq] at hany
    exact h c hc hany.1.1 hany.1.2 hany.2

/-- A lesson that is added becomes the last candidate, and uses the events. -/
theorem add_ok {t : LessonState} {skillId agentId : String} {content : CodeString} {evidence : List String}
    (h : LessonStore.add skillId agentId content evidence s = .ok t) :
    t.candidates = s.candidates ++ [{ skillId, agentId, content := normalizeCodes content, evidence }] ∧
      t.sources = insertSources evidence s.sources ∧ t.batches = s.batches := by
  unfold LessonStore.add at h
  split_ifs at h
  cases h
  exact ⟨rfl, rfl, rfl⟩

/-- A new content keeps the contents different. -/
theorem Distinct.add (h : Distinct texts s) {t : LessonState} {skillId agentId : String} {content : CodeString}
    {evidence : List String} (hadd : LessonStore.add skillId agentId content evidence s = .ok t)
    (hnew : hasContent texts skillId content s = false) : Distinct texts t := by
  have hne := hasContent_eq_false_iff.mp hnew
  intro i j c d hc hd hij hlc hld hskill
  rw [(add_ok hadd).1] at hc hd
  rcases Table.getElem?_concat_some.mp hc with hc | ⟨hi, rfl⟩
  · rcases Table.getElem?_concat_some.mp hd with hd | ⟨-, rfl⟩
    · exact h i j c d hc hd hij hlc hld hskill
    · rw [contentKey_normalize]
      exact hne c (List.mem_of_getElem? hc) hskill hlc
  · rcases Table.getElem?_concat_some.mp hd with hd | ⟨hj, -⟩
    · rw [contentKey_normalize]
      exact (hne d (List.mem_of_getElem? hd) hskill.symm hld).symm
    · exact absurd (hi.trans hj.symm) hij

/-- What is added is found by its own content only. -/
theorem hasContent_add {t : LessonState} {skillId agentId : String} {content other : CodeString}
    {evidence : List String} (hadd : LessonStore.add skillId agentId content evidence s = .ok t)
    (h : hasContent texts skillId other s = false)
    (hne : contentKey texts content ≠ contentKey texts other) : hasContent texts skillId other t = false := by
  rw [hasContent_eq_false_iff] at h ⊢
  intro c hc hskill hlive
  rw [(add_ok hadd).1] at hc
  rcases List.mem_append.mp hc with hc | hc
  · exact h c hc hskill hlive
  · cases List.mem_singleton.mp hc
    rw [contentKey_normalize]
    exact hne

/-- The fresh lessons of a reply keep the contents different. -/
theorem Distinct.addLessons {key : String × String} {evidence : List String} (fresh : List CodeString) :
    ∀ {s : LessonState}, Distinct texts s → (∀ l ∈ fresh, hasContent texts key.1 l s = false) →
      (fresh.map (contentKey texts)).Nodup → Distinct texts (Galaxz.addLessons key evidence fresh s).2 := by
  induction fresh with
  | nil => exact fun h _ _ => h
  | cons lesson fresh ih =>
    intro s h hnew hnodup
    rw [List.map_cons, List.nodup_cons] at hnodup
    unfold Galaxz.addLessons
    cases hadd : LessonStore.add key.1 key.2 lesson evidence s with
    | error e => exact h
    | ok t =>
      refine ih (h.add hadd (hnew lesson List.mem_cons_self)) (fun l hl => ?_) hnodup.2
      refine hasContent_add hadd (hnew l (List.mem_cons_of_mem _ hl)) fun heq => hnodup.1 ?_
      rw [heq]
      exact List.mem_map_of_mem hl

theorem Distinct.of_candidates {t : LessonState} (h : Distinct texts s) (heq : t.candidates = s.candidates) :
    Distinct texts t := by
  intro i j c d hc hd
  rw [heq] at hc hd
  exact h i j c d hc hd

/-- A parsed reply keeps the contents different. -/
theorem Distinct.recordLessons (h : Distinct texts s) {key : String × String} {evidence : List String}
    {lessons : List CodeString} (hnormal : ∀ l ∈ lessons, normalizeCodes l = l)
    (hnodup : (lessons.map texts.lower).Nodup) :
    Distinct texts (Galaxz.recordLessons texts key evidence lessons s).2 := by
  have hkeys : (lessons.map (contentKey texts)).Nodup := by
    have heq : lessons.map (contentKey texts) = lessons.map texts.lower := by
      refine List.map_congr_left fun l hl => ?_
      unfold contentKey
      rw [hnormal l hl]
    rw [heq]
    exact hnodup
  unfold Galaxz.recordLessons
  simp only
  split_ifs
  · exact h.of_candidates rfl
  · refine Distinct.addLessons _ (h.of_candidates rfl) (fun l hl => ?_) ?_
    · simpa using (List.mem_filter.mp hl).2
    · exact hkeys.sublist (List.Sublist.map _ List.filter_sublist)

theorem Distinct.proposeGroup (h : Distinct texts s) (args : ProposeArgs)
    (group : (String × String) × List LessonEvent) :
    Distinct texts (Galaxz.proposeGroup texts args group s).2 := by
  unfold Galaxz.proposeGroup
  split_ifs
  · exact h
  · simp only
    split
    · exact h
    · next lessons hlessons =>
      obtain ⟨raw, -, hparse⟩ := (except_bind_ok_iff _ _ _).mp hlessons
      obtain ⟨hnormal, hnodup⟩ := parseLessons_spec hparse
      exact h.recordLessons hnormal hnodup

theorem Distinct.proposeGroups (args : ProposeArgs) (groups : List ((String × String) × List LessonEvent)) :
    ∀ {s : LessonState}, Distinct texts s → Distinct texts (Galaxz.proposeGroups texts args groups s).2 := by
  induction groups with
  | nil => exact fun h => h
  | cons group groups ih =>
    intro s h
    have hgroup := h.proposeGroup args group
    unfold Galaxz.proposeGroups
    generalize Galaxz.proposeGroup texts args group s = answer at hgroup ⊢
    obtain ⟨e | _, t⟩ := answer
    · exact hgroup
    · exact ih hgroup

theorem Distinct.proposeLessons (h : Distinct texts s) (args : ProposeArgs) :
    Distinct texts (Galaxz.proposeLessons texts args s).2 := h.proposeGroups args _

/-! ## Reviews -/

/-- A review keeps the contents different if it wakes no candidate and the content it leaves is not that of
another. -/
theorem Distinct.modify (h : Distinct texts s) {i : ℕ} {f : LessonCandidate → LessonCandidate}
    (hf : ∀ c, s.candidates[i]? = some c → live (f c) = true → live c = true ∧ (f c).skillId = c.skillId ∧
      (contentKey texts (f c).content = contentKey texts c.content ∨
        ∀ j d, s.candidates[j]? = some d → i ≠ j → live d = true → c.skillId = d.skillId →
          contentKey texts (f c).content ≠ contentKey texts d.content)) :
    Distinct texts { s with candidates := s.candidates.modify i f } := by
  -- what the changed candidate is to every other
  have hother : ∀ {c : LessonCandidate}, s.candidates[i]? = some c → live (f c) = true →
      ∀ (j : ℕ) (d : LessonCandidate), s.candidates[j]? = some d → i ≠ j → live d = true →
        (f c).skillId = d.skillId → contentKey texts (f c).content ≠ contentKey texts d.content := by
    intro c hc hlive j d hd hij hld hskill
    obtain ⟨hlc, hsame, hcontent | hcontent⟩ := hf c hc hlive
    · rw [hcontent]
      exact h i j c d hc hd hij hlc hld (hsame ▸ hskill)
    · exact hcontent j d hd hij hld (hsame ▸ hskill)
  intro j k c d hc hd hjk hlc hld hskill
  rcases Table.getElem?_modify_some.mp hc with ⟨rfl, c', hc', rfl⟩ | ⟨hj, hcj⟩
  · rcases Table.getElem?_modify_some.mp hd with ⟨hk, -⟩ | ⟨-, hd⟩
    · exact absurd hk.symm hjk
    · exact hother hc' hlc k d hd hjk hld hskill
  · rcases Table.getElem?_modify_some.mp hd with ⟨rfl, d', hd', rfl⟩ | ⟨-, hd⟩
    · exact (hother hd' hld j c hcj (Ne.symm hj) hlc hskill.symm).symm
    · exact h j k c d hcj hd hjk hlc hld hskill

theorem Distinct.reject (h : Distinct texts s) (i : ℕ) : Distinct texts (claim i .rejected none s) := by
  refine h.modify fun c _ hlive => ?_
  split_ifs at hlive ⊢
  · cases hlive
  · exact ⟨hlive, rfl, Or.inl rfl⟩

/-- An approval keeps the contents different, unless its edit is the content of another candidate. -/
theorem Distinct.approve (h : Distinct texts s) (i : ℕ) (content : Option String) (stored : Bool)
    (hapart : (LessonAction.approve i content stored).Apart texts s) :
    Distinct texts (LessonStore.approve i content stored s) := by
  unfold LessonStore.approve
  by_cases hskip : (refused content || !isPending i s) = true
  · rw [if_pos hskip]
    exact h
  · rw [if_neg hskip]
    rw [Bool.or_eq_true, not_or, Bool.not_eq_true, Bool.not_eq_true'] at hskip
    obtain ⟨hrefused, hpending⟩ := hskip
    have hpending : isPending i s = true := by simpa using hpending
    have hclaim : Distinct texts (claim i .approved (content.map fun c => .ofChars (normalize c).toList) s) := by
      refine h.modify fun c hc hlive => ?_
      have hstatus : c.status = .pending := by
        unfold isPending at hpending
        rw [hc] at hpending
        simpa using hpending
      rw [if_pos hstatus]
      refine ⟨by simp [live, hstatus], rfl, ?_⟩
      cases content with
      | none => exact Or.inl rfl
      | some edited =>
        right
        intro j d hd hij hld hskill
        rw [Option.map_some, Option.map_some, Option.getD_some, ← normalizeCodes_ofChars, contentKey_normalize,
          contentKey_normalize]
        exact hapart hrefused j c d hc hd hij hstatus hld hskill
    cases stored with
    | true => exact hclaim
    | false =>
      refine hclaim.modify fun c hc _ => ⟨?_, rfl, Or.inl rfl⟩
      rcases Table.getElem?_modify_some.mp hc with ⟨-, b, hb, rfl⟩ | ⟨hne, -⟩
      · have hstatus : b.status = .pending := by
          unfold isPending at hpending
          rw [hb] at hpending
          simpa using hpending
        rw [if_pos hstatus]
        rfl
      · exact absurd rfl hne

/-! ## Batches -/

theorem mem_insertSources {e : String} (eventIds : List String) : ∀ {sources : List String},
    e ∈ insertSources eventIds sources ↔ e ∈ eventIds ∨ e ∈ sources := by
  induction eventIds with
  | nil => simp [insertSources]
  | cons x xs ih =>
    intro sources
    show e ∈ insertSources xs (if x ∈ sources then sources else sources ++ [x]) ↔ _
    rw [ih]
    by_cases hx : x ∈ sources
    · rw [if_pos hx, List.mem_cons]
      constructor
      · rintro (h | h)
        · exact Or.inl (Or.inr h)
        · exact Or.inr h
      · rintro ((rfl | h) | h)
        · exact Or.inr hx
        · exact Or.inl h
        · exact Or.inr h
    · rw [if_neg hx, List.mem_cons, List.mem_append, List.mem_singleton]
      tauto

/-- The reply had lessons, all of them texts. -/
def AllTexts (lessons : List CodeString) : Prop := lessons ≠ [] ∧ ∀ l ∈ lessons, l.IsText

/-- The events of batches of which the replies had lessons, all of them texts, are used, and in no later batch. -/
structure Inv (s : LessonState) : Prop where
  used : ∀ b ∈ s.batches, AllTexts b.2 → ∀ e ∈ b.1, e ∈ s.sources
  apart : OneBatch s

theorem Inv.empty : Inv {} where
  used _ h := absurd h List.not_mem_nil
  apart := List.Pairwise.nil

/-- What adding lessons does to the used events. -/
theorem addLessons_spec (key : String × String) (evidence : List String) (fresh : List CodeString) :
    ∀ s : LessonState, (Galaxz.addLessons key evidence fresh s).2.batches = s.batches ∧
      (∀ e ∈ s.sources, e ∈ (Galaxz.addLessons key evidence fresh s).2.sources) ∧
      (∀ e ∈ (Galaxz.addLessons key evidence fresh s).2.sources, e ∈ evidence ∨ e ∈ s.sources) ∧
      (fresh ≠ [] → (∀ l ∈ fresh, (normalizeCodes l).IsText) →
        ∀ e ∈ evidence, e ∈ (Galaxz.addLessons key evidence fresh s).2.sources) := by
  induction fresh with
  | nil => exact fun s => ⟨rfl, fun e he => he, fun e he => Or.inr he, fun hne => absurd rfl hne⟩
  | cons lesson fresh ih =>
    intro s
    unfold Galaxz.addLessons
    cases hadd : LessonStore.add key.1 key.2 lesson evidence s with
    | error e =>
      refine ⟨rfl, fun e he => he, fun e he => Or.inr he, fun _ htexts => ?_⟩
      unfold LessonStore.add at hadd
      rw [if_pos (htexts lesson List.mem_cons_self)] at hadd
      cases hadd
    | ok t =>
      obtain ⟨-, hsources, hbatches⟩ := add_ok hadd
      obtain ⟨hsame, hkept, hnew, -⟩ := ih t
      have hmem : ∀ e, e ∈ t.sources ↔ e ∈ evidence ∨ e ∈ s.sources := by
        intro e
        rw [hsources]
        exact mem_insertSources evidence
      refine ⟨hsame.trans hbatches, fun e he => hkept e ((hmem e).mpr (Or.inr he)), fun e he => ?_,
        fun _ _ e he => hkept e ((hmem e).mpr (Or.inl he))⟩
      rcases hnew e he with he | he
      · exact Or.inl he
      · exact (hmem e).mp he

/-- A parsed reply uses up no events but those of its batch, and these if it had lessons, all of them texts. -/
theorem recordLessons_spec (texts : LessonTexts) (key : String × String) (evidence : List String)
    {lessons : List CodeString} (hnormal : ∀ l ∈ lessons, normalizeCodes l = l) (s : LessonState) :
    (recordLessons texts key evidence lessons s).2.batches = s.batches ++ [(evidence, lessons)] ∧
      (∀ e ∈ s.sources, e ∈ (recordLessons texts key evidence lessons s).2.sources) ∧
      (∀ e ∈ (recordLessons texts key evidence lessons s).2.sources, e ∈ evidence ∨ e ∈ s.sources) ∧
      (AllTexts lessons → ∀ e ∈ evidence, e ∈ (recordLessons texts key evidence lessons s).2.sources) := by
  unfold recordLessons
  simp only
  split_ifs with hdup
  · have hmem : ∀ e, e ∈ insertSources evidence s.sources ↔ e ∈ evidence ∨ e ∈ s.sources :=
      fun e => mem_insertSources evidence
    exact ⟨rfl, fun e he => (hmem e).mpr (Or.inr he), fun e he => (hmem e).mp he,
      fun _ e he => (hmem e).mpr (Or.inl he)⟩
  · obtain ⟨hbatches, hkept, hnew, hused⟩ := addLessons_spec key evidence
      (lessons.filter fun l => !hasContent texts key.1 l { s with batches := s.batches ++ [(evidence, lessons)] })
      { s with batches := s.batches ++ [(evidence, lessons)] }
    refine ⟨hbatches, hkept, hnew, fun ⟨hne, htexts⟩ => hused (fun hnil => hdup ⟨hne, hnil⟩) fun l hl => ?_⟩
    have hmem := (List.mem_filter.mp hl).1
    rw [hnormal l hmem]
    exact htexts l hmem

theorem Inv.recordLessons (h : Inv s) (texts : LessonTexts) {key : String × String} {evidence : List String}
    {lessons : List CodeString} (hnormal : ∀ l ∈ lessons, normalizeCodes l = l)
    (hfree : ∀ e ∈ evidence, e ∉ s.sources) : Inv (Galaxz.recordLessons texts key evidence lessons s).2 := by
  obtain ⟨hbatches, hkept, -, hused⟩ := recordLessons_spec texts key evidence hnormal s
  constructor
  · intro b hb htexts e he
    rw [hbatches] at hb
    rcases List.mem_append.mp hb with hb | hb
    · exact hkept e (h.used b hb htexts e he)
    · cases List.mem_singleton.mp hb
      exact hused htexts e he
  · unfold OneBatch
    rw [hbatches, List.pairwise_append]
    refine ⟨h.apart, List.pairwise_singleton _ _, ?_⟩
    intro a ha b hb hne htexts e he heb
    cases List.mem_singleton.mp hb
    exact hfree e heb (h.used a ha ⟨hne, htexts⟩ e he)

/-- One group keeps the invariant and uses up none but its own events. -/
theorem Inv.proposeGroup (h : Inv s) (texts : LessonTexts) (args : ProposeArgs)
    {group : (String × String) × List LessonEvent} (hfree : ∀ e ∈ group.2, e.eventId ∉ s.sources) :
    Inv (Galaxz.proposeGroup texts args group s).2 ∧
      ∀ e ∈ (Galaxz.proposeGroup texts args group s).2.sources,
        e ∈ s.sources ∨ ∃ x ∈ group.2, x.eventId = e := by
  unfold Galaxz.proposeGroup
  split_ifs
  · exact ⟨h, fun e he => Or.inl he⟩
  · simp only
    split
    · exact ⟨h, fun e he => Or.inl he⟩
    · next lessons hlessons =>
      obtain ⟨raw, -, hparse⟩ := (except_bind_ok_iff _ _ _).mp hlessons
      obtain ⟨hnormal, -⟩ := parseLessons_spec hparse
      have hbatch : ∀ e ∈ (sliceTo args.maxExamples group.2).map (·.eventId), ∃ x ∈ group.2, x.eventId = e := by
        intro e he
        obtain ⟨x, hx, rfl⟩ := List.mem_map.mp he
        exact ⟨x, List.mem_of_mem_take hx, rfl⟩
      constructor
      · refine h.recordLessons texts hnormal fun e he => ?_
        obtain ⟨x, hx, rfl⟩ := hbatch e he
        exact hfree x hx
      · intro e he
        obtain ⟨-, -, hnew, -⟩ := recordLessons_spec texts group.1
          ((sliceTo args.maxExamples group.2).map (·.eventId)) hnormal s
        rcases hnew e he with he | he
        · exact Or.inr (hbatch e he)
        · exact Or.inl he

/-- The groups of a run keep the invariant, if no event is in two of them or used. -/
theorem Inv.proposeGroups (texts : LessonTexts) (args : ProposeArgs)
    (groups : List ((String × String) × List LessonEvent)) : ∀ {s : LessonState}, Inv s →
    (∀ g ∈ groups, ∀ e ∈ g.2, e.eventId ∉ s.sources) →
    groups.Pairwise (fun g g' => ∀ e ∈ g.2, ∀ e' ∈ g'.2, e.eventId ≠ e'.eventId) →
    Inv (Galaxz.proposeGroups texts args groups s).2 := by
  induction groups with
  | nil => exact fun h _ _ => h
  | cons g groups ih =>
    intro s h hfree hapart
    rw [List.pairwise_cons] at hapart
    have hgroup := h.proposeGroup texts args (hfree g List.mem_cons_self)
    unfold Galaxz.proposeGroups
    generalize Galaxz.proposeGroup texts args g s = answer at hgroup ⊢
    obtain ⟨hinv, hsources⟩ := hgroup
    obtain ⟨e | _, t⟩ := answer
    · exact hinv
    · refine ih hinv (fun g' hg' e he hused => ?_) hapart.2
      rcases hsources _ hused with hused | ⟨x, hx, heq⟩
      · exact hfree g' (List.mem_cons_of_mem _ hg') e he hused
      · exact hapart.1 g' hg' x hx e he heq

/-- The groups of a run are made of events that are not used, each in one group. -/
theorem correctionGroups_spec (events : EventTable) (used : List String) :
    (∀ g ∈ correctionGroups events used, ∀ e ∈ g.2, e.eventId ∉ used) ∧
      (correctionGroups events used).Pairwise
        (fun g g' => ∀ e ∈ g.2, ∀ e' ∈ g'.2, e.eventId ≠ e'.eventId) := by
  have hrows : ∀ {key : String × String} {e : LessonEvent},
      e ∈ ((correctedEvents events).filter (·.eventId ∉ used)).filter (·.group = key) →
      e ∈ events.rows ∧ e.eventId ∉ used ∧ e.group = key := by
    intro key e he
    obtain ⟨he, hgroup⟩ := List.mem_filter.mp he
    obtain ⟨he, hfree⟩ := List.mem_filter.mp he
    have hmem := (List.mem_insertionSort _).mp he
    exact ⟨(List.mem_filter.mp hmem).1, by simpa using hfree, by simpa using hgroup⟩
  unfold correctionGroups
  simp only
  constructor
  · intro g hg e he
    obtain ⟨key, -, rfl⟩ := List.mem_map.mp hg
    exact (hrows he).2.1
  · rw [List.pairwise_map]
    have hkeys := List.Perm.nodup_iff (List.perm_insertionSort
      (fun a b : String × String => a.1 < b.1 ∨ (a.1 = b.1 ∧ a.2 ≤ b.2))
      (((correctedEvents events).filter (·.eventId ∉ used)).map (·.group)).dedup)
    refine List.Pairwise.imp ?_ (hkeys.mpr (List.nodup_dedup _))
    intro key key' hne e he e' he' heq
    obtain ⟨hmem, -, hgroup⟩ := hrows he
    obtain ⟨hmem', -, hgroup'⟩ := hrows he'
    have hsame : e = e' := List.inj_on_of_nodup_map events.ids_nodup hmem hmem' heq
    exact hne (hgroup.symm.trans (hsame ▸ hgroup'))

theorem Inv.proposeLessons (h : Inv s) (texts : LessonTexts) (args : ProposeArgs) :
    Inv (Galaxz.proposeLessons texts args s).2 := by
  obtain ⟨hfree, hapart⟩ := correctionGroups_spec args.events s.sources
  exact Inv.proposeGroups texts args _ h hfree hapart

/-- A review touches neither the batches nor the used events. -/
theorem approve_frame (i : ℕ) (content : Option String) (stored : Bool) (s : LessonState) :
    (approve i content stored s).batches = s.batches ∧ (approve i content stored s).sources = s.sources := by
  unfold approve
  by_cases hskip : (refused content || !isPending i s) = true
  · rw [if_pos hskip]
    exact ⟨rfl, rfl⟩
  · rw [if_neg hskip]
    cases stored <;> exact ⟨rfl, rfl⟩

theorem Inv.of_frame {t : LessonState} (h : Inv s) (hbatches : t.batches = s.batches)
    (hsources : t.sources = s.sources) : Inv t := by
  constructor
  · rw [hbatches, hsources]
    exact h.used
  · unfold OneBatch
    rw [hbatches]
    exact h.apart

theorem Inv.step (h : Inv s) (texts : LessonTexts) (action : LessonAction) :
    Inv (LessonStore.step texts action s) := by
  cases action with
  | propose args => exact h.proposeLessons texts args
  | approve i content stored =>
    obtain ⟨hbatches, hsources⟩ := approve_frame i content stored s
    exact h.of_frame hbatches hsources
  | reject i => exact h.of_frame rfl rfl

theorem Distinct.step (h : Distinct texts s) (action : LessonAction) (hapart : action.Apart texts s) :
    Distinct texts (LessonStore.step texts action s) := by
  cases action with
  | propose args => exact h.proposeLessons args
  | approve i content stored => exact h.approve i content stored hapart
  | reject i => exact h.reject i

/-! ## Runs -/

/-- In every run no event of a batch whose reply had lessons, all of them texts, is in a later batch; and no two
live candidates of a skill have the same content, unless a reviewer edited one into another. -/
theorem run_lessons (texts : LessonTexts) (actions : List LessonAction) :
    OneBatch (Machine.run (step texts) actions {}) ∧
      (Machine.Along (step texts) (LessonAction.Apart texts) actions {} →
        Machine.Along (step texts) (fun _ s => Distinct texts s) actions {} ∧
          Distinct texts (Machine.run (step texts) actions {})) := by
  have hinv : ∀ action s, Inv s → Inv (step texts action s) := fun action s hs => hs.step texts action
  have hempty : Distinct texts {} := by
    intro i j c d hc
    simp at hc
  have hdistinct : ∀ action s, Distinct texts s → LessonAction.Apart texts action s →
      Distinct texts (step texts action s) := fun action s hs hapart => hs.step action hapart
  exact ⟨(Machine.run_invariant hinv actions {} Inv.empty).apart,
    fun halong => Machine.Along.invariant hdistinct hempty halong⟩

/-- `json.loads`, and the small letters of ASCII. -/
def demoTexts : LessonTexts where
  loads part := JsonReader.loads part.chars
  lower content := content.map fun n => if 'A'.toNat ≤ n ∧ n ≤ 'Z'.toNat then n + 32 else n

/-- Three corrected events of one skill. -/
def demoEvents : EventTable where
  rows := ["e0", "e1", "e2"].map fun eventId =>
    { eventId, skillId := "code", agentId := "rigel", quarantined := false,
      humanCorrection := some "use UTC", createdAt := "2026-10-01 12:00:00" }
  ids_nodup := by decide

/-- A run of `propose_lessons` in which the model always replies the same. -/
def demoPropose (reply : String) : LessonAction :=
  .propose { events := demoEvents, llm := fun _ _ => .ok (.ofChars reply.toList) }

/-- A candidate of that skill. -/
def demoCandidate (content : String) (status : LessonStatus) : LessonCandidate where
  skillId := "code"
  agentId := "rigel"
  content := .ofChars content.toList
  evidence := ["e0", "e1", "e2"]
  status := status

/-- Two lessons are proposed, the second is edited and approved, and the events are not asked about again. -/
def editedRun : List LessonAction :=
  [demoPropose "[\"Use UTC.\", \"Name the unit.\"]", .approve 1 (some "Name  the time unit.") true,
    demoPropose "[]"]

theorem editedRun_lessons :
    (Machine.run (step demoTexts) editedRun {}).candidates =
        [demoCandidate "Use UTC." .pending, demoCandidate "Name the time unit." .approved] ∧
      OneBatch (Machine.run (step demoTexts) editedRun {}) ∧
      Distinct demoTexts (Machine.run (step demoTexts) editedRun {}) := by
  have hcandidates : (step demoTexts (demoPropose "[\"Use UTC.\", \"Name the unit.\"]") {}).candidates =
      [demoCandidate "Use UTC." .pending, demoCandidate "Name the unit." .pending] := by
    decide +kernel
  obtain ⟨hbatch, hdistinct⟩ := run_lessons demoTexts editedRun
  refine ⟨by decide +kernel, hbatch, (hdistinct ⟨trivial, ?_, trivial, trivial⟩).2⟩
  intro _ j c d _ hd hij _ _ _
  rw [hcandidates] at hd
  have hj : j = 0 := by
    have hlt : j < 2 := (List.getElem?_eq_some_iff.mp hd).1
    omega
  subst hj
  cases hd
  decide +kernel

/-- A batch without lessons is asked about again, and so is one with a lesson that cannot be stored; and an edit
makes two candidates of one content. -/
theorem lessons_repeat :
    ¬ (Machine.run (step demoTexts) [demoPropose "[]", demoPropose "[]"] {}).batches.Pairwise
        (fun a b => ∀ e ∈ a.1, e ∉ b.1) ∧
      ¬ (Machine.run (step demoTexts)
        [demoPropose "[\"\\ud800 unit\"]", demoPropose "[\"\\ud800 unit\"]"] {}).batches.Pairwise
        (fun a b => a.2 ≠ [] → ∀ e ∈ a.1, e ∉ b.1) ∧
      ¬ Distinct demoTexts (Machine.run (step demoTexts)
        [demoPropose "[\"Use UTC.\", \"Name the unit.\"]", .approve 1 (some "use utc.") true] {}) := by
  refine ⟨by decide +kernel, by decide +kernel, fun h => ?_⟩
  have hcandidates : (Machine.run (step demoTexts)
      [demoPropose "[\"Use UTC.\", \"Name the unit.\"]", .approve 1 (some "use utc.") true] {}).candidates =
      [demoCandidate "Use UTC." .pending, demoCandidate "use utc." .approved] := by
    decide +kernel
  have hne := h 0 1
  rw [hcandidates] at hne
  exact hne _ _ rfl rfl (by decide) rfl rfl rfl (by decide +kernel)

end LessonStore

end Galaxz
